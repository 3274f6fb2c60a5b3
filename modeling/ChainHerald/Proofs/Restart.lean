import ChainHerald.Proofs.Dependents
import ChainHerald.Proofs.Ranges
import ChainHerald.Proofs.Writers

/-!
# Restarts

The first cycle of a broadcaster with a saved head backfills from where a log can have been too
fresh for one of the registrations when the head was saved. The lane of that backfill goes through
its ranges one after the other (`Intake.Sweeps`), whatever else happens, so every block that was not
settled lies in exactly one range that it asks for (`Broadcaster.restart_covered`).
-/

namespace ChainHerald

/-- The blocks that logs are asked for. -/
def Query.range? : Query → Option (Nat × Nat)
  | .logs _ lo hi => some (lo, hi)
  | .subscribe _ | .latest => none

/-- What the node was asked since the desk was as in `begun`, in order. -/
def Desk.askedSince (d begun : Desk) : List Query :=
  (gained begun.journal.length d.journal).filterMap Entry.query?

theorem Desk.Asks.since {d d' : Desk} {qs : List Query} (a : d.Asks qs d') :
    d'.askedSince d = qs.reverse := by
  obtain ⟨new, journal, rfl, -⟩ := a.journal
  simp [askedSince, gained, journal]

variable {σ : Type} [Source σ]

namespace Intake

variable {i i' : Intake σ} {lane n : Nat} {total done : List (Nat × Nat)}

/-- The ranges that the lane's writer has yet to ask for. -/
def ahead (i : Intake σ) (lane : Nat) : List (Nat × Nat) :=
  (((i.writers.get? lane).bind Writer.rest?).map Ranges.all).getD []

/-- The lane belongs to a backfill that has asked for some of its ranges and has the others ahead of
it. What it asks for again is what has failed. -/
structure Sweeps (i : Intake σ) (lane : Nat) (total done : List (Nat × Nat)) : Prop where
  old : lane < i.lanes.fresh
  split : ∀ range, range ∈ total ↔ range ∈ done ∨ range ∈ i.ahead lane
  writer : ∀ w, i.writers.get? lane = some w → ∃ rest, w.rest? = some rest ∧ rest.Sound
  request : ∀ f rest request, i.writers.get? lane = some (.fetching f rest request) →
    ∃ f lo hi, request.request = .logs f lo hi ∧ (lo, hi) ∈ done

theorem ahead_of_get? {w : Writer σ} {rest : Ranges} (held : i.writers.get? lane = some w)
    (ranges : w.rest? = some rest) : i.ahead lane = rest.all := by
  simp [ahead, held, ranges]

theorem ahead_of_gone (gone : i.writers.get? lane = none) : i.ahead lane = [] := by
  simp [ahead, gone]

/-- The writer of the lane becomes this one, and asks for some ranges meanwhile. -/
theorem Sweeps.turns {w : Writer σ} {rest : Ranges} {new : List (Nat × Nat)}
    (s : i.Sweeps lane total done) (fresh : i'.lanes.fresh = i.lanes.fresh)
    (held : i'.writers.get? lane = some w) (ranges : w.rest? = some rest) (sound : rest.Sound)
    (split : ∀ range, (range ∈ done ∨ range ∈ new) ∨ range ∈ rest.all ↔
      range ∈ done ∨ range ∈ i.ahead lane)
    (request : ∀ f rest request, w = .fetching f rest request →
      ∃ f lo hi, request.request = .logs f lo hi ∧ ((lo, hi) ∈ done ∨ (lo, hi) ∈ new)) :
    i'.Sweeps lane total (done ++ new) where
  old := fresh ▸ s.old
  split range := by rw [s.split, ahead_of_get? held ranges, List.mem_append, split]
  writer u held' := by
    obtain rfl := Option.some.inj (held.symm.trans held')
    exact ⟨rest, ranges, sound⟩
  request f rest r held' := by
    obtain ⟨f, lo, hi, logs, mem⟩ :=
      request f rest r (Option.some.inj (held.symm.trans held'))
    exact ⟨f, lo, hi, logs, List.mem_append.2 mem⟩

theorem Sweeps.sound {w : Writer σ} {rest : Ranges} (s : i.Sweeps lane total done)
    (writer : i.writers.get? lane = some w) (ranges : w.rest? = some rest) : rest.Sound := by
  obtain ⟨rest', ranges', sound⟩ := s.writer w writer
  exact Option.some.inj (ranges'.symm.trans ranges) ▸ sound

/-- A request that is repeated is for a range that was asked for before. -/
theorem Sweeps.again {f : Filter} {rest : Ranges} {request : Retry σ (List Log)} {qs : List Query}
    (s : i.Sweeps lane total done)
    (writer : i.writers.get? lane = some (.fetching f rest request))
    (same : ∀ q ∈ qs, q = request.request.query) (range : Nat × Nat) :
    (range ∈ done ∨ range ∈ qs.reverse.filterMap Query.range?) ∨ range ∈ rest.all ↔
      range ∈ done ∨ range ∈ i.ahead lane := by
  obtain ⟨g, lo, hi, logs, mem⟩ := s.request f rest request writer
  have known : range ∈ qs.reverse.filterMap Query.range? → range ∈ done := by
    intro new
    obtain ⟨q, asked, here⟩ := List.mem_filterMap.1 new
    rw [same q (List.mem_reverse.1 asked), logs] at here
    exact Option.some.inj here ▸ mem
  rw [ahead_of_get? writer rfl]
  tauto

/-- The lane's writer asks for the next of its ranges, or for the last one again. -/
theorem Sweeps.fills_here {os : List Nat} (s : i.Sweeps lane total done)
    (fills : i.Fills lane i') (h : i.Laned os) (free : i.desk.cancelled = false) :
    ∃ qs, i.desk.Asks qs i'.desk ∧
      i'.Sweeps lane total (done ++ qs.reverse.filterMap Query.range?) := by
  have live {feed held cancelled cycle} :
      i.writers.get? lane ≠ some (.live feed held cancelled cycle) := by
    intro writer
    obtain ⟨rest, ranges, -⟩ := s.writer _ writer
    cases ranges
  have fresh := fills.fresh
  cases fills with
  | quit writer | put writer | refused writer | read writer | fail writer =>
    exact absurd writer live
  | ask writer step =>
    obtain ⟨⟨source, desk, rfl⟩, ⟨qs, asks, same⟩, repeated⟩ := Retry.step_repeats step
    refine ⟨qs, asks, s.turns fresh Table.get?_insert_self rfl (s.sound writer rfl)
      (s.again writer same) ?_⟩
    rintro f rest request ⟨⟩
    obtain ⟨g, lo, hi, logs, mem⟩ := s.request _ _ _ writer
    exact ⟨g, lo, hi, (repeated _ rfl).trans logs, .inl mem⟩
  | fetch writer step =>
    obtain ⟨⟨source, desk, rfl⟩, ⟨qs, asks, same⟩, -⟩ := Retry.step_repeats step
    exact ⟨qs, asks, s.turns fresh Table.get?_insert_self rfl (s.sound writer rfl)
      (s.again writer same) nofun⟩
  | send writer =>
    refine ⟨[], .refl _, s.turns fresh Table.get?_insert_self rfl (s.sound writer rfl) ?_ nofun⟩
    simp [ahead_of_get? writer rfl]
  | @range f rest lo hi rest' writer next =>
    have before := s.sound writer rfl
    refine ⟨_, Retry.asks_start (.logs f lo hi) i, s.turns fresh Table.get?_insert_self rfl
      (before.takes next).sound (fun range => ?_) ?_⟩
    · rw [ahead_of_get? writer rfl, Ranges.all_of_next before next, List.mem_cons]
      simp [Request.query, Query.range?, or_assoc]
    · rintro f' rest request ⟨⟩
      exact ⟨f, lo, hi, rfl, .inr (by simp [Request.query, Query.range?])⟩
  | exhaust writer last =>
    have gone : (i.finish lane).writers.get? lane = none := Table.get?_erase_self
    have nothing : i.ahead lane = [] :=
      (ahead_of_get? writer rfl).trans (Ranges.all_of_done last)
    refine ⟨[], .refl _, fresh ▸ s.old, fun range => ?_, fun w held => ?_, fun _ _ _ held => ?_⟩
    · rw [s.split, nothing, ahead_of_gone gone]
      simp
    · cases gone.symm.trans held
    · cases gone.symm.trans held
  | cut writer _ halted => exact absurd (halted.resolve_left (by simp [free])) (h.not_unread writer)

/-- A move that leaves the lane's writer alone changes nothing for it. -/
theorem Sweeps.same (s : i.Sweeps lane total done) (fresh : i.lanes.fresh ≤ i'.lanes.fresh)
    (writer : i'.writers.get? lane = i.writers.get? lane) : i'.Sweeps lane total done where
  old := Nat.lt_of_lt_of_le s.old fresh
  split range := by rw [s.split, ahead, ahead, writer]
  writer w held := s.writer w (writer ▸ held)
  request f rest request held := s.request f rest request (writer ▸ held)

end Intake

namespace Broadcaster

variable {b b' : Broadcaster σ} {hs heard : List Input} {m : Move σ} {lane : Nat}
  {total done : List (Nat × Nat)}

/-- Nobody but its own writer has to do with the lane of a backfill. -/
theorem Steers.sweeps (s : b.Steers b' heard) (sweeps : b.intake.Sweeps lane total done) :
    b'.intake.Sweeps lane total done := by
  have spared {i : Intake σ} (retains : b.intake.Retains i lane) :
      i.writers.get? lane = b.intake.writers.get? lane := by
    cases retains with
    | same writer => exact writer
    | cancels before =>
      obtain ⟨rest, ranges, -⟩ := sweeps.writer _ before
      cases ranges
  have old := Nat.ne_of_lt sweeps.old
  refine sweeps.same s.fresh_le ?_
  cases s with
  | holds _ _ _ intake | reads _ _ _ _ intake => rw [intake]
  | begins _ _ _ _ _ retains => exact spared (retains lane)
  | opens _ _ _ _ _ intake =>
    rw [intake]
    exact Table.get?_insert_of_ne old
  | connects _ _ _ _ _ _ _ retains => exact spared (retains lane old)

/-- The ranges that the writer of the lane asks for with the move. -/
def asks (lane : Nat) (b : Broadcaster σ) : Move σ → List (Nat × Nat)
  | .task (.lane n) =>
    if n = lane then
      ((b.move (.task (.lane n))).desk.askedSince b.desk).filterMap Query.range?
    else []
  | _ => []

def allAsked (b : Broadcaster σ) (lane : Nat) (ms : List (Move σ)) : List (Nat × Nat) :=
  b.trace (asks lane) ms

theorem asks_of_waits (waits : ∀ n, m = .task (.lane n) → b.intake.step n = none) :
    b.asks lane m = [] := by
  unfold asks
  split
  next n =>
    have nothing : b.desk.askedSince b.desk = [] := (Desk.Asks.refl b.desk).since
    rw [move_of_waits (waits n rfl), nothing]
    exact ite_self _
  · rfl

theorem Reached.move_sweeps (r : b.Reached hs) (free : b.desk.cancelled = false)
    (sweeps : b.intake.Sweeps lane total done) (m : Move σ) :
    (b.move m).intake.Sweeps lane total (done ++ b.asks lane m) := by
  rcases r.turns free m with ⟨n, i, rfl, fills, moved⟩ | ⟨waits, steers⟩
  · by_cases here : n = lane
    · subst here
      obtain ⟨qs, asks, sweeps'⟩ := sweeps.fills_here fills (r.laned free) free
      have since : (b.move (.task (.lane n))).desk.askedSince b.desk = qs.reverse := by
        rw [moved]
        exact asks.since
      rw [Broadcaster.asks, if_pos rfl, since, moved]
      exact sweeps'
    · rw [asks, if_neg here, List.append_nil, moved]
      exact sweeps.same (Nat.le_of_eq fills.fresh.symm) (fills.elsewhere (Ne.symm here))
  · rw [asks_of_waits waits, List.append_nil]
    exact steers.sweeps sweeps

theorem Reached.sweeps (r : b.Reached hs) (sweeps : b.intake.Sweeps lane total done)
    (ms : List (Move σ)) (free : (b.run ms).desk.cancelled = false) :
    (b.run ms).intake.Sweeps lane total (done ++ b.allAsked lane ms) := by
  induction ms generalizing b hs done with
  | nil =>
    rw [show b.allAsked lane [] = [] from rfl, List.append_nil]
    exact sweeps
  | cons m ms ih =>
    have now := r.move_sweeps (r.free_of_run free) sweeps m
    rw [show b.allAsked lane (m :: ms) = b.asks lane m ++ (b.move m).allAsked lane ms from rfl,
      ← List.append_assoc]
    exact ih (r.move m) now free

/-! ## The first cycle -/

/-- Whoever is registered has named a signature. -/
theorem Reached.filtered (r : b.Reached hs) : ∀ c ∈ Input.changes hs, c.Filtered := by
  induction r with
  | start => exact List.forall_mem_nil _
  | @move b hs r m ih =>
    intro c mem
    rw [changes_append] at mem
    rcases List.mem_append.1 mem with old | new
    · exact ih c old
    · by_cases service : m = .task .service
      · subst service
        refine r.tuned.pending c ?_
        rw [b.service_acts.drains]
        exact List.mem_append_left _ new
      · rw [takes_outside service] at new
        cases new

theorem Reached.registry_noted (r : b.Reached hs) (m : Move σ) :
    (b.noted m).registry = .after (Input.changes (hs ++ b.takes m)) :=
  (r.follows_noted m).registry

theorem Reached.named_noted (r : b.Reached hs) (m : Move σ)
    (some : (b.noted m).registry.live.values ≠ []) : (b.noted m).registry.addresses ≠ [] := by
  obtain ⟨g, live⟩ := List.exists_mem_of_ne_nil _ some
  have tidy : (Registry.after (Input.changes (hs ++ b.takes m))).Tidy := by
    rw [← (r.move m).follows.herald.registry]
    exact (r.move m).tuned.tidy
  rw [r.registry_noted] at live ⊢
  obtain ⟨earlier, later, split, -⟩ := Registry.live_enrolled live
  have filters := (r.move m).filtered (.add g) (by simp [split])
  exact List.ne_nil_of_mem (tidy.listens live filters).1

theorem firstCycle_savedHead (b : Broadcaster σ) : b.firstCycle.savedHead = none := by
  obtain ⟨d, -, eq⟩ := b.firstCycle_eq
  rw [eq]
  exact (beginCycle_frame _).2

/-- The saved head is there until the first cycle begins. -/
theorem Reached.waiting (r : b.Reached hs) {h : Head} (saved : b.savedHead = some h)
    (free : b.desk.cancelled = false) : b.Waiting := by
  induction r with
  | start => exact ⟨.inl rfl, rfl, fun _ => rfl⟩
  | @move b hs r m ih =>
    have before := r.free free
    have kept : b.savedHead = some h := by
      rcases (r.goes m).begins before with ⟨-, same⟩ | ⟨_, -, -, same, -⟩ | ⟨-, -, first⟩
      · exact same.symm.trans saved
      · exact same.symm.trans saved
      · rw [first, firstCycle_savedHead] at saved
        cases saved
    have waiting := ih kept before
    by_cases service : m = .task .service
    · subst service
      rcases waiting.service with still | ⟨-, first⟩
      · exact still
      · rw [first, firstCycle_savedHead] at saved
        cases saved
    · exact waiting.others r service

/-- No backfill has begun so far. -/
structure Unfetched (b : Broadcaster σ) : Prop where
  writers : ∀ n w, b.intake.writers.get? n = some w → w.rest? = none
  asked : ∀ q ∈ b.desk.asked, q.range? = none

theorem Unfetched.asks {qs : List Query} (u : b.Unfetched)
    (writers : ∀ n w, b'.intake.writers.get? n = some w → w.rest? = none)
    (asks : b.desk.Asks qs b'.desk) (plain : ∀ q ∈ qs, q.range? = none) : b'.Unfetched := by
  refine ⟨writers, fun q mem => ?_⟩
  rw [asks.asked] at mem
  rcases List.mem_append.1 mem with new | old
  · exact plain q new
  · exact u.asked q old

/-- A cycle that connects has no backfill of its own yet. -/
theorem Acts.unfetched {start : Option Nat} (u : b.Unfetched) (t : b.Tuned)
    (on : b.Connects start) (free : b.desk.cancelled = false) (a : b.Acts b' heard)
    (on' : b'.Connects start) : b'.Unfetched := by
  have cycle := t.cycle
  unfold Cycle at cycle
  cases a with
  | wait => exact u
  | stop cancelled | abandon _ cancelled => simp [free] at cancelled
  | resubscribe phase step =>
    obtain ⟨⟨source, desk, rfl⟩, ⟨qs, asks, same⟩, -⟩ := Retry.step_repeats step
    simp only [phase] at cycle
    exact u.asks u.writers asks fun q mem => by rw [same q mem, cycle.2]; rfl
  | @subscribed request feed i phase step =>
    obtain ⟨⟨source, desk, rfl⟩, ⟨qs, asks, same⟩, -⟩ := Retry.step_repeats step
    simp only [phase] at cycle
    refine u.asks (fun n w held => ?_) (asks.trans (Retry.asks_start .latest _)) fun q mem => ?_
    · rcases Intake.get?_openLane held with ⟨-, rfl⟩ | ⟨-, older⟩
      · rfl
      · exact u.writers n w older
    · rcases List.mem_cons.1 mem with rfl | mem
      · rfl
      · rw [same q mem, cycle.2]
        rfl
  | resize phase step =>
    obtain ⟨⟨source, desk, rfl⟩, ⟨qs, asks, same⟩, -⟩ := Retry.step_repeats step
    simp only [phase] at cycle
    exact u.asks u.writers asks fun q mem => by rw [same q mem, cycle.2.1]; rfl
  | connect => rcases on'.phase with ⟨_, finished⟩ | ⟨_, _, finished⟩ <;> cases finished
  | apply phase | first phase | look phase | fail phase | replay phase | noHead phase | head phase
  | log phase | stale phase | tick phase | close phase | serve phase =>
    rcases on.phase with ⟨_, on⟩ | ⟨_, _, on⟩ <;> simp [on] at phase

theorem rest?_eq_none_iff {w : Writer σ} : w.rest? = none ↔ w.filter? = none := by
  cases w <;> simp [Writer.rest?, Writer.filter?]

theorem Goes.unfetched {start : Option Nat} (u : b.Unfetched) (t : b.Tuned)
    (on : b.Connects start) (free : b.desk.cancelled = false) (g : b.Goes b' heard)
    (on' : b'.Connects start) : b'.Unfetched := by
  cases g with
  | act acts => exact acts.unfetched u t on free on'
  | fill fills =>
    obtain ⟨qs, asks, backfill⟩ := fills.queries t.intake
    refine u.asks (fun n w held => ?_) asks fun q mem => ?_
    · obtain ⟨v, before, turns⟩ := fills.writer held
      have live := u.writers n v before
      rw [rest?_eq_none_iff] at live ⊢
      exact turns.filter.trans live
    · obtain ⟨w, f, -, -, writer, of_w, -⟩ := backfill q mem
      have live := rest?_eq_none_iff.1 (u.writers _ w writer)
      cases live.symm.trans of_w
  | beside beside =>
    obtain ⟨source, desk, same⟩ := beside.intake
    exact u.asks (by rw [same]; exact u.writers) beside.asks (List.forall_mem_nil _)

theorem beginCycle_unfetched (u : b.Unfetched) : b.beginCycle.Unfetched := by
  rcases b.beginCycle_cases with ⟨-, eq⟩ | ⟨-, eq⟩ <;> rw [eq]
  · refine ⟨fun n w held => ?_, ?_⟩
    · obtain ⟨v, before, turns⟩ := get?_connect held
      have live := u.writers n v before
      rw [rest?_eq_none_iff] at live ⊢
      exact turns.filter.trans live
    · rw [connect_desk]
      exact u.asked
  · exact u.asks u.writers (Retry.asks_start (.subscribe b.herald.filter) b.intake.nextCycle)
      (by simp [Request.query, Query.range?])

theorem Waiting.firstCycle_unfetched (w : b.Waiting) : b.firstCycle.Unfetched := by
  obtain ⟨d, asks, eq⟩ := b.firstCycle_eq
  have unfetched : b.Unfetched := by
    refine ⟨fun n u held => ?_, by simp [w.unasked]⟩
    cases (w.unwritten n).symm.trans held
  rw [eq]
  exact beginCycle_unfetched (unfetched.asks unfetched.writers asks (List.forall_mem_nil _))

theorem Reached.opens_backfill (r : b.Reached hs) {start : Nat} (u : b.Unfetched)
    (on : b.Connects (some start)) (ms : List (Move σ))
    (free : (b.run ms).desk.cancelled = false) : (b.run ms).Connects (some start) ∨
      ∃ earlier m later lane latest, ms = earlier ++ m :: later ∧ (b.run earlier).Unfetched ∧
        (b.run earlier).OpensFrom ((b.run earlier).move m) start lane latest := by
  have ends := r.until_end (P := fun c => c.Unfetched ∧ c.Connects (some start)) ⟨u, on⟩ ms free
    fun r before now m => ((r.goes m).connects now.2 before).imp_left fun still =>
      ⟨(r.goes m).unfetched now.1 r.tuned now.2 before still, still⟩
  refine ends.imp And.right ?_
  rintro ⟨earlier, m, later, rfl, ⟨unfetched, -⟩, lane, latest, opens⟩
  exact ⟨earlier, m, later, lane, latest, rfl, unfetched, opens⟩

/-! ## Runs -/

/-- The writer of the lane has asked for the range in the run, or has it ahead. -/
def Sought (b : Broadcaster σ) (lane : Nat) (ms : List (Move σ)) (range : Nat × Nat) : Prop :=
  range ∈ b.allAsked lane ms ∨ range ∈ (b.run ms).intake.ahead lane

/-- What a backfill seeks are the ranges from where it opens, whatever else happens. -/
theorem OpensFrom.sought {start latest : Nat} (o : b.OpensFrom b' start lane latest)
    (r : b'.Reached hs) (number : latest ≤ maxNumber) (ms : List (Move σ))
    (free : (b'.run ms).desk.cancelled = false) :
    ∃ batch, ∀ range, b'.Sought lane ms range ↔
      range ∈ (Ranges.between (min start latest) latest batch).all := by
  obtain ⟨batch, writer⟩ := o.writer
  obtain ⟨c, there, -⟩ := (r.laned (r.free_of_run free)).channel lane _ writer
  have opened : b'.intake.Sweeps lane
      (Ranges.between (min start latest) latest batch).all [] := by
    refine ⟨(r.laned (r.free_of_run free)).fresh lane c there, fun range => ?_, fun w held => ?_,
      fun f rest request held => ?_⟩
    · rw [Intake.ahead_of_get? writer rfl]
      simp
    · obtain rfl := Option.some.inj (writer.symm.trans held)
      exact ⟨_, rfl, Ranges.sound_between number⟩
    · cases writer.symm.trans held
  exact ⟨batch, fun range => ((r.sweeps opened ms free).split range).symm⟩

/-- The block's logs were not yet settled for the registration when the head was saved. -/
def Unsettled (saved : Head) (g : Registration) (k : Nat) : Prop :=
  saved.number < k ∨ saved.number - k < g.options.confirmations

/-- The move opens the first backfill of all, in this lane, and what is sought from then on. -/
structure Restores (b : Broadcaster σ) (m : Move σ) (later : List (Move σ)) (saved : Head)
    (start latest lane : Nat) (gs : List Registration) : Prop where
  first : b.Unfetched
  opens : b.OpensFrom (b.move m) start lane latest
  within : latest ≤ maxNumber → ∀ range, (b.move m).Sought lane later range →
    min start latest ≤ range.1 ∧ range.1 ≤ range.2 ∧ range.2 ≤ latest
  once : latest ≤ maxNumber → ∀ g ∈ gs, ∀ k ≤ latest, Unsettled saved g k →
    ∃! range, (b.move m).Sought lane later range ∧ Ranges.Within k range
  /-- A writer that has left the lane has asked for everything. -/
  through : ((b.move m).run later).intake.writers.get? lane = none →
    ∀ range, (b.move m).Sought lane later range → range ∈ (b.move m).allAsked lane later

/-- A restart starts low enough for whoever wants no more confirmations than it counts on. -/
theorem start_le_of_unsettled {saved : Head} {g : Registration} {k confirmations depth : Nat}
    (deep : g.options.confirmations ≤ confirmations) (unsettled : Unsettled saved g k) :
    backfillStart saved.number confirmations depth ≤ k := by
  unfold backfillStart
  rcases unsettled with above | fresh <;> omega

/-- With a saved head, and somebody registered by the time the first cycle begins, that cycle keeps
to where the restart starts until its backfill opens, which is the first of all. Then every block
that was not settled for one of the registrations lies in exactly one of the ranges that the
backfill asks for, and no range reaches above the latest block or below the start. -/
theorem restart_covered (r : b.Reached hs) {saved : Head} (head : b.savedHead = some saved)
    (taken : (b.move m).savedHead = none) (skip : b.settings.skipBackfill = false)
    (some : (b.noted m).registry.live.values ≠ []) (ms : List (Move σ))
    (free : ((b.move m).run ms).desk.cancelled = false) :
    let start := backfillStart saved.number (b.noted m).registry.depth b.settings.depth
    b.desk.asked = [] ∧ (((b.move m).run ms).Connects (.some start) ∨
      ∃ earlier m' later latest lane, ms = earlier ++ m' :: later ∧
        ((b.move m).run earlier).Restores m' later saved start latest lane
          (b.noted m).registry.live.values) := by
  intro start
  have before := r.free ((r.move m).free_of_run free)
  have waiting := r.waiting head before
  refine ⟨waiting.unasked, ?_⟩
  have begins : b.Begins m start := .inr ⟨saved, head, taken, skip, rfl⟩
  have aims := r.begins begins (r.named_noted m some) before
  have first : b.move m = b.firstCycle := by
    rcases (r.goes m).begins before with ⟨-, same⟩ | ⟨_, -, -, same, -⟩ | ⟨-, -, first⟩
    · cases (same.trans head).symm.trans taken
    · cases (same.trans head).symm.trans taken
    · exact first
  have unfetched : (b.move m).Unfetched := first ▸ waiting.firstCycle_unfetched
  refine ((r.move m).opens_backfill unfetched ⟨aims.deep, aims.phase⟩ ms free).imp_right ?_
  rintro ⟨earlier, m', later, lane, latest, rfl, unfetched, opens⟩
  have reached := (r.move m).run earlier |>.move m'
  have free : ((((b.move m).run earlier).move m').run later).desk.cancelled = false := by
    rwa [run_append] at free
  refine ⟨earlier, m', later, latest, lane, rfl, unfetched, opens, fun number => ?_,
    fun number g live k below unsettled => ?_, fun gone range sought => ?_⟩
  · obtain ⟨batch, sought⟩ := opens.sought reached number later free
    exact fun range mem => (Ranges.sound_between number).within range ((sought range).1 mem)
  · obtain ⟨batch, sought⟩ := opens.sought reached number later free
    have deep : g.options.confirmations ≤ (b.noted m).registry.depth := by
      rw [r.registry_noted m] at live ⊢
      exact Registry.confirmations_le_depth live
    have low : start ≤ k := start_le_of_unsettled deep unsettled
    simp only [sought]
    exact (Ranges.sound_between number).exists_unique
      (Ranges.left_between (Nat.le_trans (Nat.min_le_left _ _) low) below)
  · refine sought.resolve_right fun ahead => ?_
    rw [Intake.ahead_of_gone gone] at ahead
    cases ahead

end Broadcaster

namespace Example

/-- A saved head, and a listener that registers before the service looks around. -/
def resuming : Broadcaster ScriptedChain :=
  Broadcaster.run
    (.new { Settings.standard with savedHead := some ⟨150, 15, 14⟩, batch := 50 } (.new 200) .empty)
    [.register keeper options, .start]

/-- From the first cycle on until its backfill is through. -/
def sweeping : List (Move ScriptedChain) :=
  List.replicate 2 (.task .service) ++ List.replicate 6 (.task (.lane 1))

/-- Block 149 was one short of the two confirmations that the listener wants. -/
theorem resumed_in_full :
    resuming.savedHead = some ⟨150, 15, 14⟩ ∧
    (∃ earlier m later latest lane, sweeping = earlier ++ m :: later ∧
      ((resuming.move (.task .service)).run earlier).Restores m later ⟨150, 15, 14⟩ 138 latest lane
        (resuming.noted (.task .service)).registry.live.values) ∧
    ((resuming.move (.task .service)).run sweeping).desk.asked =
      [.logs ⟨[1], [7]⟩ 188 200, .logs ⟨[1], [7]⟩ 138 187, .latest, .subscribe ⟨[1], [7]⟩] := by
  have reached : resuming.Reached _ := .run (.start ..) _
  have head : resuming.savedHead = some ⟨150, 15, 14⟩ := rfl
  have taken : (resuming.move (.task .service)).savedHead = none := by decide +kernel
  have restored := Broadcaster.restart_covered reached head taken rfl (by decide +kernel) sweeping
    (by decide +kernel)
  refine ⟨head, ?_, by decide +kernel⟩
  have finished : ((resuming.move (.task .service)).run sweeping).deepStart = none := by
    decide +kernel
  refine restored.2.resolve_left fun on => ?_
  cases finished.symm.trans on.deep

end Example

end ChainHerald
