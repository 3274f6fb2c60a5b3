import ChainHerald.Proofs.Intake
import ChainHerald.Proofs.Ledger

/-!
# What the node is asked

`Desk.Asks` says of everything that concerns no listener which requests it makes. `Retry.Repeats`
is a step of a request: it only ever asks the same again. `Intake.Fills` says once what a move of
a lane's writer can be.
-/

namespace ChainHerald

open Source (Feed)

def Entry.query? : Entry → Option Query
  | .asked _ q => some q
  | _ => none

/-- What an entry says was handed out or recorded or did not decode. -/
def Entry.broadcast? : Entry → Option Broadcast
  | .handed _ x | .recorded _ x | .notice (.undecodable _ x _) => some x
  | _ => none

namespace Desk

/-- What the node was asked, the latest first. -/
def asked (d : Desk) : List Query := d.journal.filterMap Entry.query?

/-- The journal gains these requests, the latest first, and nothing about a broadcast, and no
marker is lost. -/
structure Asks (d : Desk) (qs : List Query) (d' : Desk) : Prop where
  journal : ∃ new, d'.journal = new ++ d.journal ∧ new.filterMap Entry.query? = qs ∧
    ∀ e ∈ new, e.broadcast? = none
  markers : ∀ k ∈ d.ledger.markers.keys, k ∈ d'.ledger.markers.keys

variable {d d' d'' : Desk} {qs qs' : List Query}

theorem Asks.of_journal (j : d'.journal = d.journal)
    (m : ∀ k ∈ d.ledger.markers.keys, k ∈ d'.ledger.markers.keys) : d.Asks [] d' :=
  ⟨⟨[], j, rfl, fun _ => nofun⟩, m⟩

theorem Asks.refl (d : Desk) : d.Asks [] d := .of_journal rfl fun _ => id

theorem Asks.of_eq (h : d' = d) : d.Asks [] d' := h ▸ .refl d

theorem Asks.trans (h : d.Asks qs d') (h' : d'.Asks qs' d'') : d.Asks (qs' ++ qs) d'' := by
  obtain ⟨new, j, rfl, other⟩ := h.journal
  obtain ⟨new', j', rfl, other'⟩ := h'.journal
  refine ⟨⟨new' ++ new, by rw [j', j, List.append_assoc], List.filterMap_append, ?_⟩, ?_⟩
  · intro e he
    rcases List.mem_append.1 he with he | he
    · exact other' e he
    · exact other e he
  · intro k hk
    exact h'.markers k (h.markers k hk)

theorem Asks.asked (h : d.Asks qs d') : d'.asked = qs ++ d.asked := by
  obtain ⟨new, j, rfl, -⟩ := h.journal
  rw [Desk.asked, j, List.filterMap_append]
  rfl

theorem asks_notice (d : Desk) {n : Notice} (h : (Entry.notice n).broadcast? = none) :
    d.Asks [] (d.notice n) :=
  ⟨⟨[.notice n], rfl, rfl, by simpa using h⟩, fun _ => id⟩

theorem asks_query (d : Desk) (time : Nat) (q : Query) : d.Asks [q] (d.write (.asked time q)) :=
  ⟨⟨[.asked time q], rfl, rfl, by simp [Entry.broadcast?]⟩, fun _ => id⟩

theorem asks_find (d : Desk) (lo hi : Nat) : d.Asks [] (d.find lo hi).2 := by
  refine .of_journal rfl ?_
  unfold find Ledger.find
  split <;> exact fun _ => id

theorem asks_was (d : Desk) (k : Key) : d.Asks [] (d.was k).2 := by
  refine .of_journal rfl ?_
  unfold was Ledger.was
  split <;> exact fun _ => id

theorem asks_mark (d : Desk) (k : Key) (block : Nat) : d.Asks [] (d.mark k block).2 := by
  refine .of_journal rfl fun m hm => ?_
  unfold mark Ledger.mark
  split
  · exact Ledger.mem_put.2 (.inr hm)
  · exact hm

theorem asked_prepare (d : Desk) (h : Head) (o : Offer) : (d.prepare h o).2.asked = d.asked := by
  unfold prepare
  split
  · rfl
  next e _ =>
    have marked (k : Key) (block : Nat) (n : Notice) :
        ((d.notice n).mark k block).2.asked = d.asked := rfl
    dsimp only
    split
    next m => exact congrArg (·.2.asked) m ▸ marked ..
    next m => exact congrArg (·.2.asked) m ▸ marked ..

theorem asked_receive (d : Desk) (l : Listener) (x : Broadcast) :
    (d.receive l x).asked = d.asked := by
  unfold receive
  split
  · split
    next m => exact congrArg (·.2.asked) m ▸ rfl
    next m => exact congrArg (·.2.asked) m ▸ rfl
  · rfl

end Desk

/-- A pass asks the node nothing. -/
theorem Pass.Moves.asked {p p' : Pass} {d d' : Desk} (m : p.Moves d p' d') :
    d'.asked = d.asked := by
  have prepared {o : Offer} {x : Option Broadcast} {d₁ : Desk} (h : d.prepare p.head o = (x, d₁)) :
      d₁.asked = d.asked := by
    have same := d.asked_prepare p.head o
    rwa [h] at same
  cases m with
  | leave => rfl
  | skip _ _ _ undecoded => exact prepared undecoded
  | hand _ _ _ call => exact (Desk.asked_receive ..).trans (prepared call)
  | keep _ _ _ call => exact prepared call
  | resume => exact Desk.asked_receive ..

theorem Channel.send_closed {α : Type} {c : Channel α} {a : α} :
    (c.send a).1 = .closed ↔ c.readable = false := by
  unfold send
  cases c.readable with
  | false => simp
  | true =>
    simp only [Bool.not_true, Bool.false_eq_true, if_false, Bool.true_eq_false, iff_false]
    split <;> nofun

variable {σ : Type} [Source σ] {i i' : Intake σ}

namespace Retry

variable {α : Type} {r : Retry σ α}

theorem asks_start (request : Request (Feed σ) α) (i : Intake σ) :
    i.desk.Asks [request.query] (start request i).2.desk :=
  i.desk.asks_query _ _

/-- A step of a request changes the node and the desk at most, and asks nothing else. -/
structure Repeats (r : Retry σ α) (i : Intake σ) (t : Turn (Retry σ α) α) (i' : Intake σ) :
    Prop where
  same : ∃ source desk, i' = { i with source, desk }
  asks : ∃ qs, i.desk.Asks qs i'.desk ∧ ∀ q ∈ qs, q = r.request.query
  request : ∀ r', t = .going r' → r'.request = r.request

theorem step_repeats {t : Turn (Retry σ α) α} (s : r.step i = some (t, i')) :
    r.Repeats i t i' := by
  cases step_moves s with
  | asks =>
    refine ⟨⟨_, _, rfl⟩, ⟨_, i.desk.asks_query _ _, ?_⟩, ?_⟩
    · intro q hq
      exact List.mem_singleton.1 hq
    · rintro r' ⟨⟩
      rfl
  | asking =>
    refine ⟨⟨_, _, rfl⟩, ⟨[], .refl _, nofun⟩, ?_⟩
    rintro r' ⟨⟩
    rfl
  | answered => exact ⟨⟨_, _, rfl⟩, ⟨[], .refl _, nofun⟩, nofun⟩
  | refused =>
    refine ⟨⟨_, _, rfl⟩, ⟨[], i.desk.asks_notice rfl, nofun⟩, ?_⟩
    rintro r' ⟨⟩
    rfl

end Retry

/-- What a backfill asks with. -/
def Writer.filter? : Writer σ → Option Filter
  | .live .. => none
  | .fetching f .. | .sending f .. => some f

namespace Intake

def feedError : FeedEvent → Option ProviderError
  | .item _ => none
  | .failed e => some e
  | .ended => some .subscriptionClosed

/-- Nobody reads the lane any more. -/
def Unread (i : Intake σ) (lane : Nat) : Prop :=
  ∀ c, i.lanes.channels.get? lane = some c → c.readable = false

/-- What a move of a lane's writer can be. The first five are of a live feed, the others of a
backfill. -/
inductive Fills (i : Intake σ) (lane : Nat) : Intake σ → Prop where
  | quit {feed held cancelled cycle}
      (writer : i.writers.get? lane = some (.live feed held cancelled cycle))
      (halted : i.desk.cancelled = true ∨ cancelled = true) :
      Fills i lane ((i.release feed).finish lane)
  | put {feed l cycle lanes}
      (writer : i.writers.get? lane = some (.live feed (some l) false cycle))
      (sent : i.lanes.send lane l = some (.accepted, lanes)) :
      Fills i lane ({ i with lanes }.put lane (.live feed none false cycle))
  | refused {feed l cycle}
      (writer : i.writers.get? lane = some (.live feed (some l) false cycle))
      (gone : i.Unread lane) :
      Fills i lane ((i.release feed).finish lane)
  | read {feed held cycle feed' source}
      (writer : i.writers.get? lane = some (.live feed none false cycle))
      (read : Source.read feed i.desk.clock i.source = some (held.map .item, feed', source)) :
      Fills i lane ({ i with source }.put lane (.live feed' held false cycle))
  | fail {feed cycle event e feed' source}
      (writer : i.writers.get? lane = some (.live feed none false cycle))
      (read : Source.read feed i.desk.clock i.source = some (some event, feed', source))
      (error : feedError event = some e) :
      Fills i lane ((({ i with source }.report cycle e).release feed').finish lane)
  | ask {f rest request request' i'}
      (writer : i.writers.get? lane = some (.fetching f rest request))
      (step : request.step i = some (.going request', i')) :
      Fills i lane (i'.put lane (.fetching f rest request'))
  | fetch {f rest request batch i'}
      (writer : i.writers.get? lane = some (.fetching f rest request))
      (step : request.step i = some (.done batch, i')) :
      Fills i lane (i'.put lane (.sending f rest (batch.mergeSort inBatchOrder)))
  | send {f rest l batch lanes}
      (writer : i.writers.get? lane = some (.sending f rest (l :: batch)))
      (sent : i.lanes.send lane l = some (.accepted, lanes)) :
      Fills i lane ({ i with lanes }.put lane (.sending f rest batch))
  | range {f rest lo hi rest'}
      (writer : i.writers.get? lane = some (.sending f rest []))
      (next : rest.next = some ((lo, hi), rest')) :
      Fills i lane ((Retry.start (.logs f lo hi) i).2.put lane
        (.fetching f rest' (Retry.start (.logs f lo hi) i).1))
  | exhaust {f rest} (writer : i.writers.get? lane = some (.sending f rest []))
      (last : rest.next = none) : Fills i lane (i.finish lane)
  | cut {w} (writer : i.writers.get? lane = some w)
      (backfill : ∀ feed held cancelled cycle, w ≠ .live feed held cancelled cycle)
      (halted : i.desk.cancelled = true ∨ i.Unread lane) : Fills i lane (i.finish lane)

variable {lane : Nat}

theorem unread_of_send {l : Log} {sent : Option (Sent × Lanes Log)}
    (s : i.lanes.send lane l = sent) (closed : ∀ r, sent = some r → r.1 = .closed) :
    i.Unread lane := by
  intro c held
  have refused := closed _ (by rw [← s, Lanes.send, held, Option.map_some])
  exact Channel.send_closed.1 refused

theorem step_fills (s : i.step lane = some i') : i.Fills lane i' := by
  unfold step at s
  split at s
  · cases s
  next feed held cancelled cycle writer =>
    unfold stepLive at s
    split at s
    next halted =>
      cases s
      exact .quit writer (by simpa using halted)
    next free =>
      obtain rfl : cancelled = false := by
        simp only [Bool.or_eq_true, not_or, Bool.not_eq_true] at free
        exact free.2
      split at s
      next l =>
        split at s
        next lanes sent =>
          cases s
          exact .put writer sent
        · cases s
        next sent =>
          cases s
          exact .refused writer (unread_of_send sent (by rintro r ⟨⟩; rfl))
        next sent =>
          cases s
          exact .refused writer (unread_of_send sent nofun)
      · split at s
        · cases s
        next event feed' source read =>
          cases s
          have hold (held : Option Log) (same : event = held.map .item) :=
            Fills.read writer (same ▸ read)
          cases event with
          | none => exact hold none rfl
          | some event =>
            cases event with
            | item l => exact hold (some l) rfl
            | failed e => exact .fail writer read rfl
            | ended => exact .fail writer read rfl
  next f rest request writer =>
    unfold stepFetching at s
    split at s
    next halted =>
      cases s
      exact .cut writer (fun _ _ _ _ => nofun) (.inl halted)
    · split at s
      · cases s
      next step =>
        cases s
        exact .ask writer step
      next step =>
        cases s
        exact .fetch writer step
  next f rest batch writer =>
    unfold stepSending at s
    split at s
    next halted =>
      cases s
      exact .cut writer (fun _ _ _ _ => nofun) (.inl halted)
    · split at s
      · split at s
        next sent =>
          cases s
          exact .send writer sent
        · cases s
        next sent =>
          cases s
          exact .cut writer (fun _ _ _ _ => nofun)
            (.inr (unread_of_send sent (by rintro r ⟨⟩; rfl)))
        next sent =>
          cases s
          exact .cut writer (fun _ _ _ _ => nofun) (.inr (unread_of_send sent nofun))
      · split at s
        next last =>
          cases s
          exact .exhaust writer last
        next next =>
          cases s
          exact .range writer next

theorem Fills.asks (f : i.Fills lane i') : ∃ qs, i.desk.Asks qs i'.desk := by
  cases f with
  | quit | put | refused | read | send | exhaust | cut => exact ⟨[], .refl _⟩
  | fail => exact ⟨[], .of_eq (report_desk ..)⟩
  | ask _ step | fetch _ step =>
    obtain ⟨qs, asks, -⟩ := (Retry.step_repeats step).asks
    exact ⟨qs, asks⟩
  | range => exact ⟨_, Retry.asks_start _ i⟩

/-! ## Writers and lanes -/

variable {n : Nat} {v w : Writer σ}

theorem get?_put (held : (i.put lane v).writers.get? n = some w) :
    n = lane ∧ w = v ∨ n ≠ lane ∧ i.writers.get? n = some w := by
  by_cases here : n = lane
  · subst here
    rw [put, Table.get?_insert_self] at held
    exact .inl ⟨rfl, (Option.some.inj held).symm⟩
  · rw [put, Table.get?_insert_of_ne here] at held
    exact .inr ⟨here, held⟩

theorem get?_finish (held : (i.finish lane).writers.get? n = some w) :
    n ≠ lane ∧ i.writers.get? n = some w := by
  by_cases here : n = lane
  · subst here
    simp [finish] at held
  · rw [finish, Table.get?_erase_of_ne here] at held
    exact ⟨here, held⟩

theorem get?_openLane (held : (i.openLane v).2.writers.get? n = some w) :
    n = i.lanes.fresh ∧ w = v ∨ n ≠ i.lanes.fresh ∧ i.writers.get? n = some w := by
  by_cases here : n = i.lanes.fresh
  · subst here
    rw [openLane, Table.get?_insert_self] at held
    exact .inl ⟨rfl, (Option.some.inj held).symm⟩
  · rw [openLane, Table.get?_insert_of_ne here] at held
    exact .inr ⟨here, held⟩

theorem report_writers (i : Intake σ) (cycle : Nat) (e : ProviderError) :
    (i.report cycle e).writers = i.writers := by
  unfold report
  split <;> rfl

theorem report_lanes (i : Intake σ) (cycle : Nat) (e : ProviderError) :
    (i.report cycle e).lanes = i.lanes := by
  unfold report
  split <;> rfl

/-- A writer has to do with the channel of its own lane only. -/
theorem Fills.lanes (f : i.Fills lane i') : ∃ channels, i'.lanes = { i.lanes with channels } ∧
    ∀ n, n ≠ lane → channels.get? n = i.lanes.channels.get? n := by
  have same (s : Lanes Log) : ∃ channels, s = { s with channels } ∧
      ∀ n, n ≠ lane → channels.get? n = s.channels.get? n := ⟨s.channels, rfl, fun _ _ => rfl⟩
  have insert (s : Lanes Log) (c : Channel Log) : ∃ channels,
      { s with channels := s.channels.insert lane c } = { s with channels } ∧
        ∀ n, n ≠ lane → channels.get? n = s.channels.get? n :=
    ⟨_, rfl, fun _ => Table.get?_insert_of_ne⟩
  have update (s : Lanes Log) (g : Channel Log → Channel Log) : ∃ channels,
      s.update lane g = { s with channels } ∧
        ∀ n, n ≠ lane → channels.get? n = s.channels.get? n := by
    unfold Lanes.update
    split
    · exact same s
    · exact insert s _
  have sent {s' : Lanes Log} {l : Log} (h : i.lanes.send lane l = some (.accepted, s')) :
      ∃ channels, s' = { i.lanes with channels } ∧
        ∀ n, n ≠ lane → channels.get? n = i.lanes.channels.get? n := by
    obtain ⟨c, -, eq⟩ := Option.map_eq_some_iff.1 h
    rw [← (Prod.mk.inj eq).2]
    exact insert i.lanes _
  cases f with
  | quit | refused | exhaust | cut => exact update i.lanes _
  | @fail feed cycle event e feed' source =>
    have reported : ({ i with source }.report cycle e).lanes = i.lanes := report_lanes ..
    obtain ⟨channels, finished, others⟩ := update i.lanes Channel.hangUp
    have hungUp := congrArg (Lanes.update · lane Channel.hangUp) reported
    exact ⟨channels, hungUp.trans finished, others⟩
  | put _ h | send _ h => exact sent h
  | read => exact same i.lanes
  | ask _ step | fetch _ step =>
    obtain ⟨⟨source, desk, rfl⟩, -, -⟩ := Retry.step_repeats step
    exact same i.lanes
  | range => exact same i.lanes

theorem Fills.writes (f : i.Fills lane i') : ∃ w, i.writers.get? lane = some w := by
  cases f with
  | quit writer | put writer | refused writer | read writer | fail writer | ask writer
  | fetch writer | send writer | range writer | exhaust writer | cut writer => exact ⟨_, writer⟩

theorem Fills.fresh (f : i.Fills lane i') : i'.lanes.fresh = i.lanes.fresh := by
  obtain ⟨channels, same, -⟩ := f.lanes
  rw [same]

end Intake

end ChainHerald
