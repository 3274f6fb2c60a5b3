import ChainHerald.Proofs.Advance
import ChainHerald.Proofs.Requests

/-!
# What a move does to the service

`Broadcaster.Acts` says once what a move of the service can be, `Broadcaster.Beside` what anybody
else can do to what it works with, and `Reached.goes` that there is nothing else but the writers of
its lanes.
-/

namespace ChainHerald

namespace Herald

variable {e : Herald} {d : Desk}

theorem asks_dispatch (e : Herald) (d : Desk) (h : Head) : d.Asks [] (e.dispatch d h).2.2 := by
  unfold dispatch
  split
  · unfold drain
    split
    · exact .refl d
    · dsimp only
      split
      · exact .refl d
      next lo _ =>
        have found := d.asks_find lo h.number
        split
        next read =>
          rw [read] at found
          exact found.trans (Desk.asks_notice _ rfl)
        next read =>
          rw [read] at found
          exact found
  · unfold retain
    split
    · exact .refl d
    next lo _ =>
      have found := d.asks_find lo h.number
      split
      next read =>
        rw [read] at found
        exact found.trans (Desk.asks_notice _ rfl)
      next read =>
        rw [read] at found
        exact found

theorem asks_onLog (e : Herald) (d : Desk) (l : Log) : d.Asks [] (e.onLog d l).2.2 := by
  unfold onLog
  split
  · exact d.asks_notice rfl
  next p _ =>
    have warned : d.Asks [] (e.warn d p.block) := by
      unfold warn
      split
      · exact .refl d
      · exact d.asks_notice rfl
    dsimp only
    split
    · exact warned
    · split
      · exact warned
      · split
        · exact warned
        · split
          · exact warned.trans (asks_dispatch _ _ _)
          · exact warned

end Herald

namespace Broadcaster

variable {σ : Type} [Source σ]

open Source (Feed)

/-- Where the first cycle starts to look for logs. -/
def firstStart (b : Broadcaster σ) : Option Nat :=
  match b.savedHead with
  | none => b.deepStart
  | some saved =>
    if b.settings.skipBackfill then b.deepStart
    else some (backfillStart saved.number b.applyChanges.herald.registry.depth b.settings.depth)

/-- What a move of the service can be. -/
inductive Acts (b : Broadcaster σ) : Broadcaster σ → List Input → Prop where
  | wait : Acts b b []
  | stop (cancelled : b.desk.cancelled = true) : Acts b b.stop []
  | abandon {request next} (phase : b.phase = .sizing request next)
      (cancelled : b.desk.cancelled = true) :
      Acts b { b with intake := b.intake.cancelLane next }.stop []
  | look {ready ready'} (phase : b.phase = .gathering ready) :
      Acts b { b with phase := .gathering ready' } []
  | first {ready} (phase : b.phase = .gathering ready) (free : b.desk.cancelled = false) :
      Acts b b.firstCycle (b.changes.queue.map .change)
  | apply (phase : (∃ ready, b.phase = .gathering ready) ∨ ∃ tick, b.phase = .serving tick)
      (changes : Mailbox Change) (same : changes.queue = b.changes.queue) :
      Acts b { b with changes }.applyChanges (b.changes.queue.map .change)
  | resubscribe {request request' i} (phase : b.phase = .subscribing request)
      (step : request.step b.intake = some (.going request', i)) :
      Acts b { b with intake := i, phase := .subscribing request' } []
  | subscribed {request feed i} (phase : b.phase = .subscribing request)
      (step : request.step b.intake = some (.done feed, i)) :
      Acts b { b with
        intake := (Retry.start .latest (i.openLive feed).2).2
        phase := .sizing (Retry.start .latest (i.openLive feed).2).1 i.lanes.fresh } []
  | resize {request request' next i} (phase : b.phase = .sizing request next)
      (step : request.step b.intake = some (.going request', i)) :
      Acts b { b with intake := i, phase := .sizing request' next } []
  | connect {request next latest i} (phase : b.phase = .sizing request next)
      (step : request.step b.intake = some (.done latest, i)) :
      Acts b (connect
        { b with intake := (i.openBackfill b.filter b.deepStart latest).2, deepStart := none }
        [i.lanes.fresh, next] (some next)) []
  | fail {tick e} (phase : b.phase = .serving tick) (free : b.desk.cancelled = false)
      (fault : b.intake.fault = some e) :
      Acts b (b.notice (.streamFailed e)).beginCycle []
  | replay {tick block} (phase : b.phase = .serving tick) (free : b.desk.cancelled = false)
      (asked : b.replay = some block) :
      Acts b { b with deepStart := some block, replay := none }.beginCycle []
  | noHead {tick} (phase : b.phase = .serving tick) (heads : Mailbox Head) :
      Acts b { b with heads } []
  | head {tick h} (phase : b.phase = .serving tick) (heads : Mailbox Head) :
      Acts b ({ b with heads }.follow tick (b.herald.onHead b.desk h)) [.head h]
  | log {tick l lanes} (phase : b.phase = .serving tick)
      (next : b.intake.lanes.next = (.item l, lanes)) :
      Acts b ({ b with intake := { b.intake with lanes } }.follow tick (b.herald.onLog b.desk l))
        [.log l]
  | stale {tick tick'} (phase : b.phase = .serving tick) (stale : b.herald.stale = true) :
      Acts b { b with phase := .serving tick' }.beginCycle []
  | tick {tick tick'} (phase : b.phase = .serving tick) :
      Acts b { b with phase := .serving tick' } []
  | close {pass tick} (phase : b.phase = .handing pass tick) :
      Acts b { b with herald := b.herald.close pass, phase := .serving tick } []
  | serve {pass pass' tick d} (phase : b.phase = .handing pass tick)
      (moves : pass.Moves b.desk pass' d) :
      Acts b { b.withDesk d with phase := .handing pass' tick } []

/-- Somebody other than the service and the writers of its lanes moves. -/
structure Beside (b b' : Broadcaster σ) : Prop where
  settings : b'.settings = b.settings
  herald : b'.herald = b.herald
  filter : b'.filter = b.filter
  current : b'.current = b.current
  deepStart : b'.deepStart = b.deepStart
  savedHead : b'.savedHead = b.savedHead
  tracked : b'.tracked = b.tracked
  intake : ∃ source desk, b'.intake = { b.intake with source, desk }
  asks : b.desk.Asks [] b'.desk
  phase : b'.phase = b.phase ∨
    b.phase = .unstarted ∧ (b'.phase = .stopped ∨ ∃ ready, b'.phase = .gathering ready)
  replay : ∀ block, b.replay = some block → b'.replay = some block
  /-- Nobody registers without a filter. -/
  changes : ∀ g, .add g ∈ b'.changes.queue →
    .add g ∈ b.changes.queue ∨ g.options.filters.isEmpty = false

/-- What a move can be. -/
inductive Goes (b : Broadcaster σ) : Broadcaster σ → List Input → Prop where
  | act {b' heard} (acts : b.Acts b' heard) : Goes b b' heard
  | fill {lane i} (fills : b.intake.Fills lane i) : Goes b { b with intake := i } []
  | beside {b'} (beside : b.Beside b') : Goes b b' []

variable {b b' : Broadcaster σ} {m : Move σ} {heard : List Input}

/-! ## Cycles -/

/-- A connection gives up the subscription before it and hands the pool its own lanes. -/
theorem connect_frame (b : Broadcaster σ) (lanes : List Nat) (live : Option Nat) :
    ∃ writers lanes',
      (b.connect lanes live).intake = { b.intake with writers, lanes := lanes' } := by
  unfold connect
  cases b.current with
  | none => exact ⟨_, _, rfl⟩
  | some lane =>
    obtain ⟨writers, same⟩ := b.intake.cancelLane_frame lane
    exact ⟨writers, _, by simp only [same]; rfl⟩

theorem beginCycle_cases (b : Broadcaster σ) :
    b.herald.filter.addresses = [] ∧
      b.beginCycle = connect
        { b with
          connected := false
          intake := b.intake.nextCycle
          filter := b.herald.filter
          deepStart := none } [] none ∨
    b.herald.filter.addresses ≠ [] ∧
      b.beginCycle =
        { b with
          connected := false
          intake := (Retry.start (.subscribe b.herald.filter) b.intake.nextCycle).2
          filter := b.herald.filter
          phase := .subscribing (Retry.start (.subscribe b.herald.filter) b.intake.nextCycle).1 } := by
  unfold beginCycle
  cases none : b.herald.filter.addresses with
  | nil => exact .inl ⟨rfl, by simp [none]⟩
  | cons a as => exact .inr ⟨List.cons_ne_nil a as, by simp [none]⟩

/-- The first cycle is one like any other, once the changes that are there are applied. -/
theorem firstCycle_eq (b : Broadcaster σ) : ∃ d, b.desk.Asks [] d ∧
    b.firstCycle =
      { b.applyChanges.withDesk d with savedHead := none, deepStart := b.firstStart }.beginCycle := by
  have settings : b.applyChanges.settings = b.settings := rfl
  have savedHead : b.applyChanges.savedHead = b.savedHead := rfl
  unfold firstCycle firstStart
  cases saved : b.savedHead with
  | none =>
    refine ⟨b.desk, .refl _, ?_⟩
    simp only [savedHead, saved]
    rw [← saved]
    rfl
  | some h =>
    cases skip : b.settings.skipBackfill with
    | true =>
      refine ⟨_, b.desk.asks_notice (n := .savedHeadIgnored h.number b.settings.depth) rfl, ?_⟩
      simp only [savedHead, saved, settings, skip, if_true]
      rfl
    | false =>
      refine ⟨b.desk, .refl _, ?_⟩
      simp only [savedHead, saved, settings, skip, Bool.false_eq_true, if_false]
      rfl

/-! ## Moves of the service -/

theorem stepGathering_acts {ready : Wait} (phase : b.phase = .gathering ready) :
    b.Acts ((b.stepGathering ready).getD b) (b.takes (.task .service)) := by
  simp only [takes, phase]
  unfold stepGathering Mailbox.awake
  cases free : b.desk.cancelled with
  | true => exact .stop free
  | false =>
  cases b.gate.look? ready with
  | some verdict =>
    cases verdict with
    | done => exact .first phase free
    | begun | looked => exact .look phase
  | none =>
  cases b.changes.wakeUp with
  | true => exact .apply (.inl ⟨ready, phase⟩) _ rfl
  | false => exact .wait

theorem stepSubscribing_acts {request : Retry σ (Feed σ)} (phase : b.phase = .subscribing request)
    (s : b.stepSubscribing request = some b') : b.Acts b' [] := by
  unfold stepSubscribing at s
  split at s
  next cancelled =>
    cases s
    exact .stop cancelled
  · split at s
    · cases s
    next step =>
      cases s
      exact .resubscribe phase step
    next step =>
      cases s
      exact .subscribed phase step

theorem stepSizing_acts {request : Retry σ Nat} {next : Nat} (phase : b.phase = .sizing request next)
    (s : b.stepSizing request next = some b') : b.Acts b' [] := by
  unfold stepSizing at s
  split at s
  next cancelled =>
    cases s
    exact .abandon phase cancelled
  · split at s
    · cases s
    next step =>
      cases s
      exact .resize phase step
    next step =>
      cases s
      exact .connect phase step

theorem stepServing_acts {tick : Nat} (phase : b.phase = .serving tick) :
    b.Acts ((b.stepServing tick).getD b) (b.takes (.task .service)) := by
  simp only [takes, phase, stimulus]
  generalize s : b.stepServing tick = next
  unfold stepServing at s
  split at s
  next cancelled =>
    subst s
    simpa [cancelled] using Acts.stop cancelled
  next free =>
  have heard {hs hs' : List Input} (h : hs' = hs) (acts : b.Acts (next.getD b) hs) :
      b.Acts (next.getD b) hs' := h ▸ acts
  have free := Bool.eq_false_iff.2 free
  split at s
  next e _ fault =>
    subst s
    exact heard (by simp [free, fault]) (.fail phase free fault)
  next block fault replay =>
    subst s
    exact heard (by simp [free, fault, replay]) (.replay phase free replay)
  next fault replay =>
  split at s
  next heads awake =>
    obtain ⟨turned, rfl⟩ := Prod.mk.inj awake
    split at s
    next heads latest =>
      obtain ⟨newest, rfl⟩ := Prod.mk.inj latest
      have newest : b.heads.queue.getLast? = none := newest
      subst s
      exact heard (by simp [free, fault, replay, turned, newest]) (.noHead phase _)
    next h heads latest =>
      obtain ⟨newest, rfl⟩ := Prod.mk.inj latest
      have newest : b.heads.queue.getLast? = some h := newest
      subst s
      exact heard (by simp [free, fault, replay, turned, newest]) (.head phase _)
  next heads awake =>
  have turned := (Prod.mk.inj awake).1
  split at s
  next changes awake =>
    obtain ⟨changed, rfl⟩ := Prod.mk.inj awake
    subst s
    exact heard (by simp [free, fault, replay, turned, changed]) (.apply (.inr ⟨tick, phase⟩) _ rfl)
  next changes awake =>
  have changed := (Prod.mk.inj awake).1
  split at s
  next l lanes reading =>
    subst s
    exact heard (by simp [free, fault, replay, turned, changed, reading]) (.log phase reading)
  next other =>
  -- with nothing to read, a move is the timer's or none
  have timer : b.Acts (next.getD b) [] := by
    split at s
    · dsimp only at s
      split at s
      next stale =>
        subst s
        exact .stale phase stale
      next =>
        subst s
        exact .tick phase
    · subst s
      exact .wait
  refine heard ?_ timer
  simp only [free, fault, replay, turned, changed]
  cases reading : b.intake.lanes.next.1 with
  | item l => exact (other l b.intake.lanes.next.2 (Prod.ext reading rfl)).elim
  | waiting | ended => by_cases due : tick ≤ b.desk.clock.now <;> simp [due]

theorem stepHanding_acts {p : Pass} {tick : Nat} (phase : b.phase = .handing p tick)
    (s : b.stepHanding p tick = some b') : b.Acts b' [] := by
  unfold stepHanding at s
  split at s
  · cases s
    exact .close phase
  · obtain ⟨⟨p', d⟩, step, rfl⟩ := Option.map_eq_some_iff.1 s
    exact .serve phase (Pass.step_moves step)

theorem service_acts (b : Broadcaster σ) :
    b.Acts (b.move (.task .service)) (b.takes (.task .service)) := by
  have acts {next : Option (Broadcaster σ)} (h : ∀ b', next = some b' → b.Acts b' []) :
      b.Acts (next.getD b) [] := by
    cases next with
    | none => exact .wait
    | some b' => exact h b' rfl
  simp only [move, step, stepService]
  cases phase : b.phase with
  | unstarted | stopped => simpa [takes, phase] using Acts.wait
  | gathering ready => exact stepGathering_acts phase
  | subscribing request => simpa [takes, phase] using acts fun _ => stepSubscribing_acts phase
  | sizing request next => simpa [takes, phase] using acts fun _ => stepSizing_acts phase
  | serving tick => exact stepServing_acts phase
  | handing p tick => simpa [takes, phase] using acts fun _ => stepHanding_acts phase

theorem asks_beginCycle (b : Broadcaster σ) : ∃ qs, b.desk.Asks qs b.beginCycle.desk := by
  rcases b.beginCycle_cases with ⟨-, eq⟩ | ⟨-, eq⟩ <;> rw [eq]
  · exact ⟨[], .of_eq (connect_desk _ _ _)⟩
  · exact ⟨_, Retry.asks_start _ b.intake.nextCycle⟩

theorem follow_desk (b : Broadcaster σ) (tick : Nat) (r : Option Pass × Herald × Desk) :
    (b.follow tick r).desk = r.2.2 := by
  obtain ⟨_ | p, e, d⟩ := r <;> rfl

/-- The service asks the node, or it goes on with a pass. -/
theorem Acts.desk (a : b.Acts b' heard) : (∃ qs, b.desk.Asks qs b'.desk) ∨
    ∃ p p', b.pass = some p ∧ p.Moves b.desk p' b'.desk := by
  have began {c : Broadcaster σ} (h : ∃ qs, b.desk.Asks qs c.desk) :
      ∃ qs, b.desk.Asks qs c.beginCycle.desk := by
    obtain ⟨qs, asks⟩ := h
    obtain ⟨qs', asks'⟩ := c.asks_beginCycle
    exact ⟨_, asks.trans asks'⟩
  have followed {c : Broadcaster σ} {tick : Nat} {r : Option Pass × Herald × Desk}
      (h : b.desk.Asks [] r.2.2) : ∃ qs, b.desk.Asks qs (c.follow tick r).desk :=
    ⟨[], by rwa [follow_desk]⟩
  cases a with
  | wait | look | apply | noHead | tick | close => exact .inl ⟨[], .refl b.desk⟩
  | stop => exact .inl ⟨[], .of_eq b.stop_desk⟩
  | @abandon _ next =>
    exact .inl ⟨[], .of_eq ((stop_desk _).trans (b.intake.cancelLane_desk next))⟩
  | first =>
    obtain ⟨d, asks, eq⟩ := b.firstCycle_eq
    exact .inl (eq ▸ began ⟨[], asks⟩)
  | resubscribe _ step | resize _ step =>
    obtain ⟨qs, asks, -⟩ := (Retry.step_repeats step).asks
    exact .inl ⟨qs, asks⟩
  | @subscribed _ feed i _ step =>
    obtain ⟨qs, asks, -⟩ := (Retry.step_repeats step).asks
    exact .inl ⟨_, asks.trans (Retry.asks_start .latest (i.openLive feed).2)⟩
  | connect _ step =>
    obtain ⟨qs, asks, -⟩ := (Retry.step_repeats step).asks
    exact .inl ⟨qs, asks.trans (.of_eq (connect_desk _ _ _))⟩
  | fail => exact .inl (began ⟨[], b.desk.asks_notice rfl⟩)
  | replay | stale => exact .inl (began ⟨[], .refl _⟩)
  | head => exact .inl (followed (Herald.asks_dispatch ..))
  | log => exact .inl (followed (Herald.asks_onLog ..))
  | @serve p p' tick d phase moves => exact .inr ⟨p, p', by simp [pass, phase], moves⟩

/-- What a move of the service makes of its dealings with the node. -/
inductive Engages (b : Broadcaster σ) : Broadcaster σ → Prop where
  | rests {c : Broadcaster σ} (current : c.current = b.current)
      (intake : ∃ lanes desk, c.intake = { b.intake with lanes, desk })
      (phase : c.phase = b.phase ∨
        (∀ request, c.phase ≠ .subscribing request) ∧ ∀ request n, c.phase ≠ .sizing request n) :
      Engages b c
  | begins {c : Broadcaster σ} (current : c.current = b.current)
      (intake : ∃ desk, c.intake = { b.intake with desk }) : Engages b c.beginCycle
  | resubscribe {request request' i} (phase : b.phase = .subscribing request)
      (step : request.step b.intake = some (.going request', i)) :
      Engages b { b with intake := i, phase := .subscribing request' }
  | subscribed {request feed i} (phase : b.phase = .subscribing request)
      (step : request.step b.intake = some (.done feed, i)) :
      Engages b { b with
        intake := (Retry.start .latest (i.openLive feed).2).2
        phase := .sizing (Retry.start .latest (i.openLive feed).2).1 i.lanes.fresh }
  | resize {request request' next i} (phase : b.phase = .sizing request next)
      (step : request.step b.intake = some (.going request', i)) :
      Engages b { b with intake := i, phase := .sizing request' next }
  | connect {request next latest i} (phase : b.phase = .sizing request next)
      (step : request.step b.intake = some (.done latest, i)) :
      Engages b (connect
        { b with intake := (i.openBackfill b.filter b.deepStart latest).2, deepStart := none }
        [i.lanes.fresh, next] (some next))

theorem Acts.engages (free : b.desk.cancelled = false) (a : b.Acts b' heard) : b.Engages b' := by
  cases a with
  | wait | apply | noHead => exact .rests rfl ⟨_, _, rfl⟩ (.inl rfl)
  | look | tick | close | serve => exact .rests rfl ⟨_, _, rfl⟩ (.inr ⟨nofun, nofun⟩)
  | stop cancelled | abandon _ cancelled => simp [free] at cancelled
  | first =>
    obtain ⟨d, -, eq⟩ := b.firstCycle_eq
    rw [eq]
    exact .begins rfl ⟨d, rfl⟩
  | fail | replay | stale => exact .begins rfl ⟨_, rfl⟩
  | resubscribe phase step => exact .resubscribe phase step
  | subscribed phase step => exact .subscribed phase step
  | resize phase step => exact .resize phase step
  | connect phase step => exact .connect phase step
  | @head tick h =>
    obtain ⟨_ | p, e, d⟩ := b.herald.onHead b.desk h <;>
      exact .rests rfl ⟨_, _, rfl⟩ (.inr ⟨nofun, nofun⟩)
  | @log tick l lanes =>
    obtain ⟨_ | p, e, d⟩ := b.herald.onLog b.desk l <;>
      exact .rests rfl ⟨_, _, rfl⟩ (.inr ⟨nofun, nofun⟩)

/-! ## Moves of everybody else -/

theorem Beside.refl (b : Broadcaster σ) : b.Beside b where
  settings := rfl
  herald := rfl
  filter := rfl
  current := rfl
  deepStart := rfl
  savedHead := rfl
  tracked := rfl
  intake := ⟨_, _, rfl⟩
  asks := .refl _
  phase := .inl rfl
  replay _ := id
  changes _ := .inl

theorem Beside.withDesk (h : b.Beside b') {d : Desk} (asks : b'.desk.Asks [] d) :
    b.Beside (b'.withDesk d) := by
  obtain ⟨source, desk, same⟩ := h.intake
  exact { h with
    intake := ⟨source, d, by simp [Broadcaster.withDesk, same]⟩
    asks := h.asks.trans asks }

theorem Beside.notice (h : b.Beside b') {n : Notice} (plain : (Entry.notice n).broadcast? = none) :
    b.Beside (b'.notice n) :=
  h.withDesk (Desk.asks_notice _ plain)

theorem Beside.drop (h : b.Beside b') : b.Beside b'.drop := by
  have fewer : b.Beside { b' with handles := b'.handles - 1 } := { h with }
  unfold Broadcaster.drop
  dsimp only
  split
  · exact fewer.withDesk (.of_journal rfl fun _ => id)
  · exact fewer

theorem Beside.deliver (h : b.Beside b') {c : Change}
    (filtered : ∀ g, c = .add g → g.options.filters.isEmpty = false) :
    b.Beside (b'.deliver c) := by
  have delivered : b.Beside { b' with changes := (b'.changes.deliver c).2 } :=
    { h with
      changes := by
        intro g hg
        have queued : Change.add g ∈ b'.changes.queue ++ [c] := by
          unfold Mailbox.deliver Mailbox.notify at hg
          dsimp only at hg
          split at hg <;> exact List.mem_of_mem_drop hg
        rcases List.mem_append.1 queued with old | new
        · exact h.changes g old
        · exact .inr (filtered g (List.mem_singleton.1 new).symm) }
  unfold Broadcaster.deliver
  dsimp only
  split
  · exact delivered.notice rfl
  · exact delivered

theorem start_beside (dormant : b.Dormant) (s : b.start = .ok b') : b.Beside b' := by
  unfold start at s
  split at s
  next life =>
    cases s
    exact { Beside.refl b with phase := .inr ⟨dormant life, .inr ⟨_, rfl⟩⟩ }
  · cases s
    exact .refl b
  · cases s

theorem shut_phase (b : Broadcaster σ) : b.shut.phase = b.phase ∨
    b.phase = .unstarted ∧ (b.shut.phase = .stopped ∨ ∃ ready, b.shut.phase = .gathering ready) := by
  cases phase : b.phase with
  | unstarted => exact .inr ⟨rfl, .inl (by simp [shut, cancel, withDesk, phase])⟩
  | _ => exact .inl (by simp [shut, cancel, withDesk, phase])

theorem stepClose_beside {n : Nat} (s : b.stepClose n = some b') : b.Beside b' := by
  unfold stepClose at s
  split at s
  · cases s
    have shut : b.Beside
        { b with closes := b.closes.set n .waiting, life := .closed, phase := b.shut.phase } :=
      { Beside.refl b with phase := shut_phase b }
    exact shut.withDesk (.of_journal rfl fun _ => id)
  · split at s
    · cases s
      exact Beside.drop { Beside.refl b with }
    · cases s
  · cases s

theorem stepWait_beside {n : Nat} (s : b.stepWait n = some b') : b.Beside b' := by
  obtain ⟨gate, -, rfl⟩ := Option.map_eq_some_iff.1 s
  dsimp only
  split
  · exact Beside.drop { Beside.refl b with }
  · exact { Beside.refl b with }

theorem call_beside (dormant : b.Dormant) (other : ∀ t, m ≠ .task t) : b.Beside (b.move m) := by
  cases m with
  | task t => exact absurd rfl (other t)
  | start =>
    simp only [move]
    cases s : b.start with
    | error e => exact .refl b
    | ok b' => exact start_beside dormant s
  | register l o =>
    simp only [move, register]
    split
    · exact .notice (.refl b) rfl
    next filters =>
      split
      · exact .refl b
      · have numbered : b.Beside { b with nextId := b.nextId + 1 } := { Beside.refl b with }
        apply numbered.deliver
        rintro g ⟨⟩
        exact Bool.eq_false_iff.2 filters
  | unsubscribe id => exact .deliver (.refl b) (by rintro g ⟨⟩)
  | replay block =>
    simp only [move, requestReplay]
    split
    · exact .refl b
    · exact .notice (.refl b) rfl
    next free _ => exact { Beside.refl b with replay := fun _ h => by rw [free] at h; cases h }
  | drop => exact .drop (.refl b)
  | head | dependents | ready | awaitDependents | close | share => exact { Beside.refl b with }
  | node f => exact { Beside.refl b with intake := ⟨_, _, rfl⟩ }
  | wasConsumed x => exact .withDesk (.refl b) (b.desk.asks_was x.key)
  | markConsumed x => exact .withDesk (.refl b) (b.desk.asks_mark x.key x.block)
  | markers lo hi => exact .withDesk (.refl b) (b.desk.asks_find lo hi)
  | failReads | failMarks | failLookups | clock =>
    exact .withDesk (.refl b) (.of_journal rfl fun _ => id)

/-- Only the service and the writers of its lanes do more than that. -/
theorem others_beside (dormant : b.Dormant) (service : m ≠ .task .service)
    (lane : ∀ n, m ≠ .task (.lane n)) : b.Beside (b.move m) := by
  by_cases task : ∃ t, m = .task t
  · obtain ⟨t, rfl⟩ := task
    cases t with
    | service => exact absurd rfl service
    | lane n => exact absurd rfl (lane n)
    | close n =>
      simp only [move, step]
      cases s : b.stepClose n with
      | none => exact .refl b
      | some b' => exact stepClose_beside s
    | wait n =>
      simp only [move, step]
      cases s : b.stepWait n with
      | none => exact .refl b
      | some b' => exact stepWait_beside s
  · exact call_beside dormant fun t eq => task ⟨t, eq⟩

theorem drop_eq (b : Broadcaster σ) : ∃ d, d.journal = b.desk.journal ∧
    b.drop = { b with handles := b.handles - 1, intake := { b.intake with desk := d } } := by
  unfold drop
  dsimp only
  split
  · exact ⟨{ b.desk with cancelled := true }, rfl, rfl⟩
  · exact ⟨b.desk, rfl, rfl⟩

theorem deliver_eq (b : Broadcaster σ) (c : Change) : ∃ d, b.deliver c =
    { b with changes := (b.changes.deliver c).2, intake := { b.intake with desk := d } } := by
  unfold deliver
  dsimp only
  split
  · exact ⟨_, rfl⟩
  · exact ⟨b.desk, rfl⟩

/-- Only the service, the writers and the node itself change the node side. -/
theorem move_source (service : m ≠ .task .service) (lane : ∀ n, m ≠ .task (.lane n))
    (node : ∀ f, m ≠ .node f) : (b.move m).intake.source = b.intake.source := by
  have drop (c : Broadcaster σ) : c.drop.intake.source = c.intake.source := by
    obtain ⟨d, -, eq⟩ := c.drop_eq
    rw [eq]
  have deliver (c : Broadcaster σ) (change : Change) :
      (c.deliver change).intake.source = c.intake.source := by
    obtain ⟨d, eq⟩ := c.deliver_eq change
    rw [eq]
  cases m with
  | task t =>
    cases t with
    | service => exact absurd rfl service
    | lane n => exact absurd rfl (lane n)
    | close n =>
      simp only [move, step, stepClose]
      split
      · rfl
      · split
        · exact drop _
        · rfl
      · rfl
    | wait n =>
      simp only [move, step, stepWait]
      cases b.gate.step n with
      | none => rfl
      | some gate =>
        simp only [Option.map_some, Option.getD_some]
        split
        · exact drop _
        · rfl
  | start =>
    simp only [move, start]
    split <;> rfl
  | register l o =>
    simp only [move, register]
    split
    · rfl
    · split
      · rfl
      · exact deliver _ _
  | unsubscribe id => exact deliver _ _
  | replay block =>
    simp only [move, requestReplay]
    split <;> rfl
  | drop => exact drop b
  | node f => exact absurd rfl (node f)
  | _ => rfl

theorem lane_fills (b : Broadcaster σ) (n : Nat) : b.move (.task (.lane n)) = b ∨
    ∃ i, b.intake.Fills n i ∧ b.move (.task (.lane n)) = { b with intake := i } := by
  simp only [move, step, stepLane]
  cases filled : b.intake.step n with
  | none => exact .inl rfl
  | some i => exact .inr ⟨i, Intake.step_fills filled, rfl⟩

theorem Reached.goes {hs : List Input} (r : b.Reached hs) (m : Move σ) :
    b.Goes (b.move m) (b.takes m) := by
  by_cases service : m = .task .service
  · subst service
    exact .act b.service_acts
  rw [takes_outside service]
  by_cases lane : ∃ n, m = .task (.lane n)
  · obtain ⟨n, rfl⟩ := lane
    rcases b.lane_fills n with same | ⟨i, fills, eq⟩
    · rw [same]
      exact .beside (.refl b)
    · rw [eq]
      exact .fill fills
  · exact .beside (others_beside r.dormant service fun n eq => lane ⟨n, eq⟩)

/-- Nobody takes a cancellation back. -/
theorem Reached.free {hs : List Input} (r : b.Reached hs)
    (free : (b.move m).desk.cancelled = false) :
    b.desk.cancelled = false := by
  have advance := r.advances m
  have kept (h : b.desk.cancelled = true → (b.move m).desk.cancelled = true) :
      b.desk.cancelled = false := by
    rw [Bool.eq_false_iff] at free ⊢
    exact fun cancelled => free (h cancelled)
  generalize b.takes m = heard at advance
  cases advance with
  | aside apart | changes _ _ _ apart => exact kept apart.quiet.cancelled
  | hear _ _ free => exact free
  | serve _ moves => exact kept moves.cancelled
  | close _ _ _ _ desk => exact desk ▸ free

theorem Reached.free_of_run {hs : List Input} (r : b.Reached hs) {ms : List (Move σ)}
    (free : (b.run ms).desk.cancelled = false) : b.desk.cancelled = false := by
  induction ms generalizing b hs with
  | nil => exact free
  | cons m ms ih => exact r.free (ih (r.move m) free)

/-- What every move keeps, as long as nobody cancels, any run keeps. -/
theorem Reached.preserves {hs : List Input} {P : Broadcaster σ → Prop} (r : b.Reached hs)
    (now : P b) (ms : List (Move σ)) (free : (b.run ms).desk.cancelled = false)
    (step : ∀ {c : Broadcaster σ} {heard : List Input}, c.Reached heard →
      c.desk.cancelled = false → P c → ∀ m, P (c.move m)) : P (b.run ms) := by
  induction ms generalizing b hs with
  | nil => exact now
  | cons m ms ih => exact ih (r.move m) (step r (r.free_of_run free) now m) free

/-- What every move keeps or brings to an end is kept by the run, or one of its moves was the
end. -/
theorem Reached.until_end {hs : List Input} {P : Broadcaster σ → Prop}
    {E : Broadcaster σ → Move σ → Prop} (r : b.Reached hs) (now : P b) (ms : List (Move σ))
    (free : (b.run ms).desk.cancelled = false)
    (step : ∀ {c : Broadcaster σ} {heard : List Input}, c.Reached heard →
      c.desk.cancelled = false → P c → ∀ m, P (c.move m) ∨ E c m) :
    P (b.run ms) ∨ ∃ earlier m later, ms = earlier ++ m :: later ∧
      P (b.run earlier) ∧ E (b.run earlier) m := by
  induction ms generalizing b hs with
  | nil => exact .inl now
  | cons m ms ih =>
    rcases step r (r.free_of_run free) now m with still | ends
    · refine (ih (r.move m) still free).imp_right ?_
      rintro ⟨earlier, m', later, rfl, kept, ends⟩
      exact ⟨m :: earlier, m', later, rfl, kept, ends⟩
    · exact .inr ⟨[], m, ms, rfl, now, ends⟩

end Broadcaster

end ChainHerald
