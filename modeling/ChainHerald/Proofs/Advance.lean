import ChainHerald.Proofs.Intake
import ChainHerald.Proofs.Run

/-!
# What a move can be

`Broadcaster.move_advances` says once what a move can be for registrations, pool, pass and calls:
the service hears of something, it goes on with a pass or ends it, or somebody else moves, which
concerns none of these.
-/

namespace ChainHerald

namespace Broadcaster

variable {σ : Type} [Source σ]

/-- At most the filter's staleness and quiet entries tell the two apart. -/
structure Apart (b b' : Broadcaster σ) : Prop where
  herald : ∃ stale, b'.herald = { b.herald with stale }
  quiet : b.desk.Quiet b'.desk

/-- What a move can be for the registrations, the pool, the pass and the calls of listeners. -/
inductive Advance (b b' : Broadcaster σ) : List Input → Prop where
  | aside (apart : b.Apart b') (pass : b'.pass = b.pass) : Advance b b' []
  | changes (cs : List Change) (idle : b.pass = none) (idle' : b'.pass = none)
      (apart : { b with herald := cs.foldl Herald.apply b.herald }.Apart b') :
      Advance b b' (cs.map .change)
  | hear (i : Input) (idle : b.pass = none) (free : b.desk.cancelled = false)
      (result : b.herald.hear b.desk i = (b'.pass, b'.herald, b'.desk)) : Advance b b' [i]
  | serve {p p' : Pass} (before : b.pass = some p) (moves : p.Moves b.desk p' b'.desk)
      (after : b'.pass = some p') (herald : b'.herald = b.herald) : Advance b b' []
  | close {p : Pass} (before : b.pass = some p) (done : p.todo = []) (after : b'.pass = none)
      (herald : b'.herald = b.herald.close p) (desk : b'.desk = b.desk) : Advance b b' []

variable {b b' b'' : Broadcaster σ}

theorem Apart.of_quiet (herald : b'.herald = b.herald) (quiet : b.desk.Quiet b'.desk) :
    b.Apart b' :=
  ⟨⟨b.herald.stale, herald⟩, quiet⟩

theorem Apart.refl (b : Broadcaster σ) : b.Apart b := .of_quiet rfl (.refl _)

theorem Apart.trans (h : b.Apart b') (h' : b'.Apart b'') : b.Apart b'' := by
  obtain ⟨stale, e⟩ := h.herald
  obtain ⟨stale', e'⟩ := h'.herald
  exact ⟨⟨stale', by rw [e', e]⟩, h.quiet.trans h'.quiet⟩

theorem Advance.same (b : Broadcaster σ) : Advance b b [] := .aside (.refl b) rfl

/-! ## Cycles -/

theorem apart_withDesk {d : Desk} (quiet : b.desk.Quiet d) : b.Apart (b.withDesk d) :=
  .of_quiet rfl quiet

theorem Apart.notice (h : b.Apart b') (n : Notice) : b.Apart (b'.notice n) :=
  h.trans (apart_withDesk (b'.desk.quiet_notice n))

theorem stop_desk (b : Broadcaster σ) : b.stop.desk = b.desk := by
  unfold stop desk
  cases b.current with
  | none => rfl
  | some lane => exact b.intake.cancelLane_desk lane

theorem Apart.stop (h : b.Apart b') : b.Apart b'.stop :=
  h.trans (.of_quiet rfl (.of_eq (stop_desk b')))

theorem connect_desk (b : Broadcaster σ) (lanes : List Nat) (live : Option Nat) :
    (b.connect lanes live).desk = b.desk := by
  unfold connect desk
  cases b.current with
  | none => rfl
  | some lane => exact b.intake.cancelLane_desk lane

theorem Apart.connect (h : b.Apart b') (lanes : List Nat) (live : Option Nat) :
    b.Apart (b'.connect lanes live) :=
  h.trans ⟨⟨false, rfl⟩, .of_eq (connect_desk b' lanes live)⟩

/-- A new cycle is no pass. -/
theorem Apart.beginCycle (h : b.Apart b') :
    b.Apart b'.beginCycle ∧ b'.beginCycle.pass = none := by
  unfold Broadcaster.beginCycle
  dsimp only
  split
  · refine ⟨.connect ?_ [] none, rfl⟩
    exact h.trans (.of_quiet rfl (.refl _))
  · exact ⟨h.trans (.of_quiet rfl (Retry.quiet_start _ b'.intake.nextCycle)), rfl⟩

/-- Whatever the saved head, the first cycle begins with the changes that are there. -/
theorem apart_firstCycle (b : Broadcaster σ) :
    b.applyChanges.Apart b.firstCycle ∧ b.firstCycle.pass = none := by
  unfold firstCycle
  dsimp only
  split
  · exact (Apart.refl _).beginCycle
  · split
    · refine Apart.beginCycle (.notice ?_ _)
      exact .of_quiet rfl (.refl _)
    · exact Apart.beginCycle (.of_quiet rfl (.refl _))

/-! ## Moves of the service -/

theorem stepGathering_advances {ready : Wait} (phase : b.phase = .gathering ready) :
    Advance b ((b.stepGathering ready).getD b) (b.takes (.task .service)) := by
  have idle : b.pass = none := by simp [pass, phase]
  have applied {b' : Broadcaster σ} (idle' : b'.pass = none) (h : b.applyChanges.Apart b') :
      Advance b b' (b.changes.queue.map .change) :=
    .changes _ idle idle' ⟨h.herald, h.quiet⟩
  simp only [stepGathering, takes, phase]
  split
  · exact .aside (.stop (.refl b)) idle.symm
  · cases b.gate.look? ready with
    | some verdict =>
      cases verdict with
      | done => exact applied (apart_firstCycle b).2 (apart_firstCycle b).1
      | begun | looked => exact .aside (.of_quiet rfl (.refl _)) idle.symm
    | none =>
      simp only [Mailbox.awake]
      cases b.changes.wakeUp with
      | true => exact applied (by simp [pass, applyChanges]) (.of_quiet rfl (.refl _))
      | false => exact .same b

theorem stepSubscribing_apart {request : Retry σ (Source.Feed σ)}
    (s : b.stepSubscribing request = some b') : b.Apart b' ∧ b'.pass = none := by
  unfold stepSubscribing at s
  split at s
  · cases s
    exact ⟨.stop (.refl b), rfl⟩
  · split at s
    · cases s
    next asked =>
      have quiet := Retry.quiet_step asked
      cases s
      exact ⟨.of_quiet rfl quiet, rfl⟩
    next feed i asked =>
      have quiet := Retry.quiet_step asked
      cases s
      exact ⟨.of_quiet rfl (quiet.trans (Retry.quiet_start _ (i.openLive feed).2)), rfl⟩

theorem stepSizing_apart {request : Retry σ Nat} {next : Nat}
    (s : b.stepSizing request next = some b') : b.Apart b' ∧ b'.pass = none := by
  unfold stepSizing at s
  split at s
  · cases s
    refine ⟨.stop (.of_quiet rfl ?_), rfl⟩
    exact .of_eq (b.intake.cancelLane_desk next)
  · split at s
    · cases s
    next asked =>
      have quiet := Retry.quiet_step asked
      cases s
      exact ⟨.of_quiet rfl quiet, rfl⟩
    next asked =>
      have quiet := Retry.quiet_step asked
      cases s
      refine ⟨.connect ?_ _ _, rfl⟩
      exact .of_quiet rfl quiet

theorem follow_eq (b : Broadcaster σ) (tick : Nat) (r : Option Pass × Herald × Desk) :
    r = ((b.follow tick r).pass, (b.follow tick r).herald, (b.follow tick r).desk) := by
  obtain ⟨_ | p, e, d⟩ := r <;> rfl

theorem stepServing_advances {tick : Nat} (phase : b.phase = .serving tick) :
    Advance b ((b.stepServing tick).getD b) (b.takes (.task .service)) := by
  have idle : b.pass = none := by simp [pass, phase]
  have cycle {b' : Broadcaster σ} (h : b.Apart b') : Advance b b'.beginCycle [] :=
    .aside h.beginCycle.1 (h.beginCycle.2.trans idle.symm)
  simp only [stepServing, takes, stimulus, phase, Mailbox.awake]
  cases free : b.desk.cancelled with
  | true => exact .aside (.stop (.refl b)) idle.symm
  | false =>
  cases b.intake.fault with
  | some e => exact cycle (.notice (.refl b) _)
  | none =>
  cases b.replay with
  | some block => exact cycle (.of_quiet rfl (.refl _))
  | none =>
  cases b.heads.wakeUp with
  | true =>
    simp only [Mailbox.latest]
    cases b.heads.queue.getLast? with
    | none => exact .aside (.of_quiet rfl (.refl _)) idle.symm
    | some h =>
      refine .hear (.head h) idle free ?_
      exact follow_eq _ tick (b.herald.onHead b.desk h)
  | false =>
  cases b.changes.wakeUp with
  | true => exact .changes _ idle rfl (.of_quiet rfl (.refl _))
  | false =>
  cases b.intake.lanes.next with
  | mk reading lanes =>
  cases reading with
  | item l =>
    refine .hear (.log l) idle free ?_
    exact follow_eq _ tick (b.herald.onLog b.desk l)
  | waiting | ended =>
    by_cases due : tick ≤ b.desk.clock.now
    · simp only [due, if_true]
      cases b.herald.stale with
      | true => exact cycle (.of_quiet rfl (.refl _))
      | false => exact .aside (.of_quiet rfl (.refl _)) idle.symm
    · simp only [due, if_false]
      exact .same b

theorem stepHanding_advances {p : Pass} {tick : Nat} (phase : b.phase = .handing p tick)
    (s : b.stepHanding p tick = some b') : Advance b b' [] := by
  have before : b.pass = some p := by simp [pass, phase]
  unfold stepHanding at s
  split at s
  next done =>
    cases s
    exact .close before (List.isEmpty_iff.1 done) rfl rfl rfl
  · obtain ⟨⟨p', d⟩, step, rfl⟩ := Option.map_eq_some_iff.1 s
    exact .serve before (Pass.step_moves step) rfl rfl

theorem service_advances (b : Broadcaster σ) :
    Advance b (b.move (.task .service)) (b.takes (.task .service)) := by
  have away {b' : Option (Broadcaster σ)} (idle : b.pass = none)
      (h : ∀ a, b' = some a → b.Apart a ∧ a.pass = none) : Advance b (b'.getD b) [] := by
    cases b' with
    | none => exact .same b
    | some a => exact .aside (h a rfl).1 ((h a rfl).2.trans idle.symm)
  simp only [move, step, stepService]
  cases phase : b.phase with
  | unstarted | stopped =>
    simpa [takes, phase] using Advance.same b
  | gathering ready => exact stepGathering_advances phase
  | subscribing request =>
    have none : b.pass = none := by simp [pass, phase]
    simpa [takes, phase] using away none fun a s => stepSubscribing_apart s
  | sizing request next =>
    have none : b.pass = none := by simp [pass, phase]
    simpa [takes, phase] using away none fun a s => stepSizing_apart s
  | serving tick => exact stepServing_advances phase
  | handing p tick =>
    simp only [takes, phase]
    cases s : b.stepHanding p tick with
    | none => exact .same b
    | some a => exact stepHanding_advances phase s

/-! ## Moves of everybody else -/

@[grind =]
theorem beginCycle_life (b : Broadcaster σ) : b.beginCycle.life = b.life := by
  unfold beginCycle
  dsimp only
  split <;> rfl

@[grind =]
theorem firstCycle_life (b : Broadcaster σ) : b.firstCycle.life = b.life := by
  unfold firstCycle
  dsimp only
  split
  · exact beginCycle_life _
  · split <;> exact beginCycle_life _

@[grind =]
theorem follow_life (b : Broadcaster σ) (tick : Nat) (r : Option Pass × Herald × Desk) :
    (b.follow tick r).life = b.life := by
  obtain ⟨_ | p, e, d⟩ := r <;> rfl

theorem stepService_life (s : b.stepService = some b') : b'.life = b.life := by
  unfold stepService at s
  split at s
  · cases s
  · cases s
  · unfold stepGathering at s
    grind [stop, applyChanges]
  · unfold stepSubscribing at s
    grind [stop]
  · unfold stepSizing at s
    grind [stop, connect]
  · unfold stepServing at s
    grind [stop, applyChanges, notice, withDesk]
  · unfold stepHanding at s
    split at s
    · cases s
      rfl
    · obtain ⟨⟨p, d⟩, -, rfl⟩ := Option.map_eq_some_iff.1 s
      rfl

/-- A service that was not started does not run. -/
def Dormant (b : Broadcaster σ) : Prop := b.life = .unstarted → b.phase = .unstarted

/-- Somebody other than the service moves. -/
structure Outside (b b' : Broadcaster σ) : Prop where
  apart : b.Apart b'
  life : b'.life = .unstarted → b.life = .unstarted ∧ b'.phase = b.phase
  pass : b.Dormant → b'.pass = b.pass

theorem pass_congr (phase : b'.phase = b.phase) : b'.pass = b.pass := by
  unfold pass
  rw [phase]

theorem Outside.of_apart (apart : b.Apart b') (life : b'.life = b.life)
    (phase : b'.phase = b.phase) : b.Outside b' :=
  ⟨apart, fun h => ⟨life ▸ h, phase⟩, fun _ => pass_congr phase⟩

theorem Outside.refl (b : Broadcaster σ) : b.Outside b := .of_apart (.refl b) rfl rfl

theorem outside_withDesk {d : Desk} (quiet : b.desk.Quiet d) : b.Outside (b.withDesk d) :=
  .of_apart (apart_withDesk quiet) rfl rfl

theorem Outside.drop (apart : b.Apart b') (life : b'.life = b.life) (phase : b'.phase = b.phase) :
    b.Outside b'.drop := by
  refine .of_apart ⟨?_, ?_⟩ ?_ ?_
  all_goals
    unfold Broadcaster.drop
    dsimp only
    split
  · exact apart.herald
  · exact apart.herald
  · exact apart.quiet.trans (.of_journal rfl fun _ => rfl)
  · exact apart.quiet
  all_goals assumption

theorem outside_notice (b : Broadcaster σ) (n : Notice) : b.Outside (b.notice n) :=
  outside_withDesk (b.desk.quiet_notice n)

theorem Apart.deliver_outside (apart : b.Apart b') (life : b'.life = b.life)
    (phase : b'.phase = b.phase) (c : Change) : b.Outside (b'.deliver c) := by
  unfold Broadcaster.deliver
  dsimp only
  split
  · refine .of_apart (.notice ?_ _) life phase
    exact ⟨apart.herald, apart.quiet⟩
  · exact .of_apart ⟨apart.herald, apart.quiet⟩ life phase

theorem start_outside (s : b.start = .ok b') : b.Outside b' := by
  unfold start at s
  split at s
  next life =>
    cases s
    refine ⟨.of_quiet rfl (.refl _), nofun, fun dormant => ?_⟩
    simp [Broadcaster.pass, dormant life]
  · cases s
    exact .refl b
  · cases s

theorem stepClose_outside {n : Nat} (s : b.stepClose n = some b') : b.Outside b' := by
  unfold stepClose at s
  split at s
  · cases s
    refine ⟨.of_quiet rfl (.of_journal rfl fun _ => rfl), nofun, fun _ => ?_⟩
    cases phase : b.phase <;> simp [Broadcaster.pass, shut, cancel, withDesk, phase]
  · split at s
    · cases s
      refine .drop ?_ rfl rfl
      exact .of_quiet rfl (.refl _)
    · cases s
  · cases s

theorem stepWait_outside {n : Nat} (s : b.stepWait n = some b') : b.Outside b' := by
  obtain ⟨gate, -, rfl⟩ := Option.map_eq_some_iff.1 s
  dsimp only
  split
  · refine .drop ?_ rfl rfl
    exact .of_quiet rfl (.refl _)
  · exact .of_apart (.of_quiet rfl (.refl _)) rfl rfl

theorem stepLane_outside {n : Nat} (s : b.stepLane n = some b') : b.Outside b' := by
  obtain ⟨i, filled, rfl⟩ := Option.map_eq_some_iff.1 s
  exact .of_apart (.of_quiet rfl (Intake.quiet_step filled)) rfl rfl

theorem task_outside {t : Task} (h : t ≠ .service) (s : step t b = some b') : b.Outside b' := by
  cases t with
  | service => exact absurd rfl h
  | lane n => exact stepLane_outside s
  | close n => exact stepClose_outside s
  | wait n => exact stepWait_outside s

theorem move_outside {m : Move σ} (h : m ≠ .task .service) : b.Outside (b.move m) := by
  cases m with
  | task t =>
    simp only [move]
    cases s : step t b with
    | none => exact .refl b
    | some b' => exact task_outside (fun e => h (e ▸ rfl)) s
  | start =>
    simp only [move]
    cases s : b.start with
    | error e => exact .refl b
    | ok b' => exact start_outside s
  | register l o =>
    simp only [move, register]
    split
    · exact outside_notice b _
    · split
      · exact .refl b
      · have apart : b.Apart { b with nextId := b.nextId + 1 } := .of_quiet rfl (.refl _)
        exact apart.deliver_outside rfl rfl _
  | replay block =>
    simp only [move, requestReplay]
    split
    · exact .refl b
    · exact outside_notice b _
    · refine .of_apart ?_ rfl rfl
      exact .of_quiet rfl (.refl _)
  | unsubscribe id => exact Apart.deliver_outside (.refl b) rfl rfl _
  | drop => exact .drop (.refl b) rfl rfl
  | head | dependents | ready | awaitDependents | close | share | node =>
    exact .of_apart (.of_quiet rfl (.refl _)) rfl rfl
  | wasConsumed m => exact outside_withDesk (b.desk.quiet_was m.key)
  | markConsumed m => exact outside_withDesk (b.desk.quiet_mark m.key m.block)
  | markers lo hi => exact outside_withDesk (b.desk.quiet_find lo hi)
  | failReads | failMarks | failLookups | clock => exact outside_withDesk (.of_journal rfl id)

/-! ## All moves -/

theorem takes_outside {m : Move σ} (h : m ≠ .task .service) : b.takes m = [] := by
  unfold takes
  split
  · exact absurd rfl h
  · rfl

theorem Dormant.move (dormant : b.Dormant) (m : Move σ) : (b.move m).Dormant := by
  intro life
  by_cases h : m = .task .service
  · subst h
    simp only [Broadcaster.move, step] at life ⊢
    cases s : b.stepService with
    | none =>
      rw [s] at life
      exact dormant life
    | some b' =>
      rw [s] at life
      have asleep := dormant ((stepService_life s).symm.trans life)
      simp [stepService, asleep] at s
  · have outside := (move_outside h).life life
    exact outside.2.trans (dormant outside.1)

theorem move_advances (dormant : b.Dormant) (m : Move σ) : Advance b (b.move m) (b.takes m) := by
  by_cases h : m = .task .service
  · exact h ▸ service_advances b
  · rw [takes_outside h]
    exact .aside (move_outside h).apart ((move_outside h).pass dormant)

variable {hs : List Input}

theorem Reached.dormant (r : b.Reached hs) : b.Dormant := by
  induction r with
  | start => exact fun _ => rfl
  | move _ m ih => exact ih.move m

theorem Reached.advances (r : b.Reached hs) (m : Move σ) : Advance b (b.move m) (b.takes m) :=
  move_advances r.dormant m

end Broadcaster

end ChainHerald
