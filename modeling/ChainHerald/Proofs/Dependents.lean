import ChainHerald.Proofs.Lifecycle
import ChainHerald.Proofs.Tuning

/-!
# Dependents

A report that nobody is missing for is forgotten, so the count is zero just when no stretch of calls
up to now has announced more dependents than have reported (`Reached.none_pending_iff`). The count
is a machine word: an announcement that it has no room for panics and is not among the calls that
are `counted`, unless the build lets it wrap around. Until the service has seen the count at zero it
is `Waiting`, and then its first cycle begins with every change that was delivered by then
(`dependents_gate`).
-/

namespace ChainHerald

namespace Gate

variable {g g' : Gate} {count n : Nat}

theorem add_pending (room : g.hasRoom count = true) (overflow : Overflow) :
    (g.add count overflow).pending.toNat = g.pending.toNat + count := by
  have fits : g.pending.toNat + count < UInt64.size := of_decide_eq_true room
  have same : (UInt64.ofNat count).toNat = count := UInt64.toNat_ofNat_of_lt' (by omega)
  simp only [add, room, Bool.true_or, if_true, set, UInt64.toNat_add, same]
  exact Nat.mod_eq_of_lt fits

theorem add_of_full (full : g.hasRoom count = false) : g.add count .panics = g := by
  simp [add, full]

/-- Without room it depends on the build whether the gate stays shut. -/
example : ((Gate.new.add 0xffffffffffffffff .panics).add 1 .panics).isOpen = false ∧
    ((Gate.new.add 0xffffffffffffffff .wraps).add 1 .wraps).isOpen = true := by decide

theorem ready_pending (g : Gate) : g.ready.pending.toNat = g.pending.toNat - 1 := by
  have below : g.pending.toNat - 1 < UInt64.size :=
    Nat.lt_of_le_of_lt (Nat.sub_le ..) g.pending.toNat_lt
  exact UInt64.toNat_ofNat_of_lt' below

theorem look?_done {w : Wait} (h : g.look? w = some .done) : g.pending = 0 := by
  have seen : g.verdict = .done := by
    unfold look? at h
    split at h
    · exact Option.some.inj h
    · split at h
      · cases h
      · exact Option.some.inj h
    · cases h
  unfold verdict at seen
  split at seen
  next none => exact eq_of_beq none
  · cases seen

theorem step_pending (s : g.step n = some g') : g'.pending = g.pending := by
  obtain ⟨w, -, rfl⟩ := Option.map_eq_some_iff.1 s
  rfl

end Gate

namespace Mailbox

variable {α : Type} {q : Mailbox α}

theorem deliver_unbounded (unbounded : q.capacity = none) (a : α) :
    (q.deliver a).2.capacity = none ∧ (q.deliver a).2.queue = q.queue ++ [a] := by
  unfold deliver limit notify
  dsimp only
  split <;> simp [unbounded]

theorem foldl_deliver (unbounded : q.capacity = none) (as : List α) :
    (as.foldl (fun q a => (q.deliver a).2) q).capacity = none ∧
      (as.foldl (fun q a => (q.deliver a).2) q).queue = q.queue ++ as := by
  induction as generalizing q with
  | nil => simp [unbounded]
  | cons a as ih =>
    obtain ⟨still, queue⟩ := deliver_unbounded unbounded a
    simp [ih still, queue]

end Mailbox

variable {σ : Type} [Source σ]

/-- How many dependents are announced. -/
def Move.announces : Move σ → Nat
  | .dependents count => count
  | _ => 0

/-- How many dependents report ready. -/
def Move.reports : Move σ → Nat
  | .ready => 1
  | _ => 0

def announced (ms : List (Move σ)) : Nat := ms.foldl (fun n m => n + m.announces) 0

def reported (ms : List (Move σ)) : Nat := ms.foldl (fun n m => n + m.reports) 0

omit [Source σ] in
/-- The stretches of calls up to and including one more. -/
theorem announced_le_concat {ms : List (Move σ)} {m : Move σ} {k : Nat} :
    (∀ late, late <:+ ms ++ [m] → announced late ≤ reported late + k) ↔
      ∀ late, late <:+ ms → announced late + m.announces ≤ reported late + m.reports + k := by
  have total (late : List (Move σ)) : announced (late ++ [m]) = announced late + m.announces ∧
      reported (late ++ [m]) = reported late + m.reports := by
    simp [announced, reported]
  constructor
  · intro all late last
    rw [← (total late).1, ← (total late).2]
    exact all _ (List.suffix_concat_iff.2 (.inr ⟨late, rfl, last⟩))
  · intro all late last
    rcases List.suffix_concat_iff.1 last with rfl | ⟨early, rfl, within⟩
    · exact Nat.zero_le _
    · rw [(total early).1, (total early).2]
      exact all early within

namespace Broadcaster

variable {b b' : Broadcaster σ} {hs heard : List Input} {m : Move σ}

/-- Whether the count can hold what the move announces. -/
def hasRoom (b : Broadcaster σ) : Move σ → Bool
  | .dependents count => b.gate.hasRoom count
  | _ => true

def counts (b : Broadcaster σ) (m : Move σ) : List (Move σ) := if b.hasRoom m then [m] else []

/-- The history without the announcements that there was no room for. -/
def counted (b : Broadcaster σ) (ms : List (Move σ)) : List (Move σ) := b.trace counts ms

/-- The registration changes that the move delivers. -/
def delivers (b : Broadcaster σ) : Move σ → List Change
  | .register l o =>
    match (b.register l o).1 with
    | .ok id => [.add ⟨id, l, o⟩]
    | .error _ => []
  | .unsubscribe id => [.remove id]
  | _ => []

def delivered (b : Broadcaster σ) (ms : List (Move σ)) : List Change := b.trace delivers ms

/-! ## Calls -/

theorem register_cases (b : Broadcaster σ) (l : Listener) (o : Options) :
    (∃ d, o.filters.isEmpty = false ∧ b.register l o = (.ok b.nextId,
      { b with
        nextId := b.nextId + 1
        changes := (b.changes.deliver (.add ⟨b.nextId, l, o⟩)).2
        intake := { b.intake with desk := d } })) ∨
    ∃ e d, b.register l o = (.error e, b.withDesk d) := by
  unfold register
  split
  · exact .inr ⟨_, _, rfl⟩
  next filters =>
    split
    · exact .inr ⟨_, b.desk, rfl⟩
    · obtain ⟨d, eq⟩ := deliver_eq { b with nextId := b.nextId + 1 } (.add ⟨b.nextId, l, o⟩)
      exact .inl ⟨d, Bool.eq_false_iff.2 filters, by rw [eq]⟩

/-- What a move of somebody other than the service does to the mailbox of registration changes and
to the count of dependents. -/
structure Handled (b : Broadcaster σ) (m : Move σ) (b' : Broadcaster σ) : Prop where
  changes : b'.changes = (b.delivers m).foldl (fun q c => (q.deliver c).2) b.changes
  pending : b.hasRoom m = true →
    b'.gate.pending.toNat = b.gate.pending.toNat + m.announces - m.reports
  nextId : b.nextId ≤ b'.nextId
  ids : ∀ g, .add g ∈ b.delivers m → b.nextId ≤ g.id ∧ g.id < b'.nextId

theorem Handled.silent (nothing : b.delivers m = []) (changes : b'.changes = b.changes)
    (pending : b'.gate.pending.toNat = b.gate.pending.toNat + m.announces - m.reports)
    (nextId : b'.nextId = b.nextId) : b.Handled m b' where
  changes := by rw [nothing, changes]; rfl
  pending _ := pending
  nextId := Nat.le_of_eq nextId.symm
  ids g mem := by rw [nothing] at mem; cases mem

theorem others_handled (service : m ≠ .task .service) : b.Handled m (b.move m) := by
  have drop {c : Broadcaster σ} (h : b.Handled m c) : b.Handled m c.drop := by
    obtain ⟨d, -, eq⟩ := c.drop_eq
    rw [eq]
    exact ⟨h.changes, h.pending, h.nextId, h.ids⟩
  cases m with
  | task t =>
    cases t with
    | service => exact absurd rfl service
    | lane n =>
      rcases b.lane_fills n with eq | ⟨i, -, eq⟩ <;> rw [eq] <;>
        exact .silent rfl rfl rfl rfl
    | close n =>
      simp only [move, step, stepClose]
      split
      · exact .silent rfl rfl rfl rfl
      · split
        · exact drop (.silent rfl rfl rfl rfl)
        · exact .silent rfl rfl rfl rfl
      · exact .silent rfl rfl rfl rfl
    | wait n =>
      simp only [move, step, stepWait]
      cases looked : b.gate.step n with
      | none => exact .silent rfl rfl rfl rfl
      | some gate =>
        have stepped : b.Handled (.task (.wait n)) { b with gate } :=
          .silent rfl rfl (congrArg UInt64.toNat (Gate.step_pending looked)) rfl
        simp only [Option.map_some, Option.getD_some]
        split
        · exact drop stepped
        · exact stepped
  | start =>
    simp only [move, Broadcaster.start]
    split <;> exact .silent rfl rfl rfl rfl
  | register l o =>
    rcases b.register_cases l o with ⟨d, -, eq⟩ | ⟨e, d, eq⟩
    · simp only [move, eq]
      refine ⟨by simp [delivers, eq], fun _ => rfl, Nat.le_succ _, fun g mem => ?_⟩
      have added : g = ⟨b.nextId, l, o⟩ := by simpa [delivers, eq] using mem
      rw [added]
      exact ⟨Nat.le_refl _, Nat.lt_succ_self _⟩
    · simp only [move, eq]
      exact ⟨by simp [delivers, eq]; rfl, fun _ => rfl, Nat.le_refl _, by simp [delivers, eq]⟩
  | unsubscribe id =>
    obtain ⟨d, eq⟩ := b.deliver_eq (.remove id)
    simp only [move, unsubscribe, eq]
    exact ⟨rfl, fun _ => rfl, Nat.le_refl _, by simp [delivers]⟩
  | replay block =>
    simp only [move, requestReplay]
    split <;> exact .silent rfl rfl rfl rfl
  | dependents count =>
    exact ⟨rfl, fun room => Gate.add_pending room _, Nat.le_refl _, by simp [delivers]⟩
  | ready => exact .silent rfl rfl b.gate.ready_pending rfl
  | drop => exact drop (.silent rfl rfl rfl rfl)
  | _ => exact .silent rfl rfl rfl rfl

@[grind =]
theorem beginCycle_changes (b : Broadcaster σ) : b.beginCycle.changes = b.changes := by
  rcases b.beginCycle_cases with ⟨-, eq⟩ | ⟨-, eq⟩
  · rw [eq]
    rfl
  · rw [eq]

@[grind =]
theorem firstCycle_changes (b : Broadcaster σ) :
    b.firstCycle.changes = { b.changes with queue := [] } := by
  obtain ⟨d, -, eq⟩ := b.firstCycle_eq
  rw [eq, beginCycle_changes]
  rfl

@[grind =]
theorem follow_changes (b : Broadcaster σ) (tick : Nat) (r : Option Pass × Herald × Desk) :
    (b.follow tick r).changes = b.changes := by
  obtain ⟨_ | p, e, d⟩ := r <;> rfl

theorem stepService_capacity (s : b.stepService = some b') :
    b'.changes.capacity = b.changes.capacity := by
  unfold stepService at s
  split at s
  · cases s
  · cases s
  · unfold stepGathering at s
    grind [stop, applyChanges, Mailbox.awake]
  · unfold stepSubscribing at s
    grind [stop]
  · unfold stepSizing at s
    grind [stop, connect]
  · unfold stepServing at s
    grind [stop, applyChanges, notice, withDesk, Mailbox.awake]
  · unfold stepHanding at s
    split at s
    · cases s
      rfl
    · obtain ⟨⟨p, d⟩, -, rfl⟩ := Option.map_eq_some_iff.1 s
      rfl

theorem changes_map (cs : List Change) : Input.changes (cs.map .change) = cs := by
  induction cs with
  | nil => rfl
  | cons c cs ih => simp [Input.changes]

theorem changes_append (hs hs' : List Input) :
    Input.changes (hs ++ hs') = Input.changes hs ++ Input.changes hs' :=
  List.filterMap_append

/-- The service hears of all the changes that are there, or they stay. -/
theorem Acts.drains (a : b.Acts b' heard) :
    b.changes.queue = Input.changes heard ++ b'.changes.queue := by
  cases a with
  | first => rw [firstCycle_changes, changes_map, List.append_nil]
  | apply => exact (changes_map _).symm.trans (List.append_nil _).symm
  | fail | replay | stale =>
    rw [beginCycle_changes]
    rfl
  | head | log =>
    rw [follow_changes]
    rfl
  | _ => rfl

/-- Whatever is delivered to a mailbox without bounds is heard of in order. -/
theorem move_delivers (unbounded : b.changes.capacity = none) (m : Move σ) :
    (b.move m).changes.capacity = none ∧
      b.changes.queue ++ b.delivers m = Input.changes (b.takes m) ++ (b.move m).changes.queue := by
  by_cases service : m = .task .service
  · subst service
    refine ⟨?_, (List.append_nil _).trans b.service_acts.drains⟩
    simp only [move, step]
    cases s : b.stepService with
    | none => exact unbounded
    | some b' => exact (stepService_capacity s).trans unbounded
  · rw [takes_outside service, (others_handled service).changes]
    obtain ⟨still, queue⟩ := Mailbox.foldl_deliver unbounded (b.delivers m)
    exact ⟨still, queue.symm⟩

theorem run_delivers (unbounded : b.changes.capacity = none) (ms : List (Move σ)) :
    b.changes.queue ++ b.delivered ms =
      Input.changes (b.history ms) ++ (b.run ms).changes.queue := by
  induction ms generalizing b with
  | nil => exact List.append_nil _
  | cons m ms ih =>
    obtain ⟨still, first⟩ := move_delivers unbounded m
    have rest := ih still
    calc b.changes.queue ++ (b.delivers m ++ (b.move m).delivered ms)
      _ = Input.changes (b.takes m) ++ ((b.move m).changes.queue ++ (b.move m).delivered ms) := by
        rw [← List.append_assoc, first, List.append_assoc]
      _ = Input.changes (b.takes m ++ (b.move m).history ms)
          ++ (b.run (m :: ms)).changes.queue := by
        rw [rest, changes_append, List.append_assoc]
        rfl

/-! ## The count -/

theorem move_pending (room : b.hasRoom m = true) :
    (b.move m).gate.pending.toNat = b.gate.pending.toNat + m.announces - m.reports := by
  by_cases service : m = .task .service
  · subst service
    rw [b.service_acts.undisturbed.gate]
    rfl
  · exact (others_handled service).pending room

/-- A call that panics does nothing. -/
theorem move_of_full (panics : b.settings.overflow = .panics) (full : b.hasRoom m = false) :
    b.move m = b := by
  cases m with
  | dependents count =>
    have same : b.gate.add count b.settings.overflow = b.gate := panics ▸ Gate.add_of_full full
    simp [Broadcaster.move, addDependents, same]
  | _ => cases full

theorem counted_concat (b : Broadcaster σ) (ms : List (Move σ)) (m : Move σ) :
    b.counted (ms ++ [m]) = b.counted ms ++ (b.run ms).counts m := by
  rw [counted, trace_append]
  exact congrArg _ (List.append_nil _)

theorem length_counted_le (b : Broadcaster σ) (ms : List (Move σ)) :
    (b.counted ms).length ≤ ms.length := by
  induction ms using List.reverseRecOn with
  | nil => exact Nat.le_refl 0
  | append_singleton ms m ih =>
    rw [counted_concat, List.length_append, List.length_append, counts]
    split <;> simp <;> omega

/-- The last call was counted, or it has panicked, if every call is counted that did not. -/
theorem counted_cases {ms : List (Move σ)}
    (sums : b.settings.overflow = .panics ∨ b.counted (ms ++ [m]) = ms ++ [m]) :
    (b.settings.overflow = .panics ∨ b.counted ms = ms) ∧
      ((b.run ms).hasRoom m = true ∧ b.counted (ms ++ [m]) = b.counted ms ++ [m] ∨
        b.settings.overflow = .panics ∧ (b.run ms).hasRoom m = false ∧
          b.counted (ms ++ [m]) = b.counted ms) := by
  rw [counted_concat, counts] at sums ⊢
  by_cases room : (b.run ms).hasRoom m = true
  · rw [if_pos room] at sums ⊢
    exact ⟨sums.imp_right List.append_cancel_right, .inl ⟨room, rfl⟩⟩
  · rw [if_neg room, List.append_nil] at sums ⊢
    have panics := sums.resolve_right fun all => by
      have short := b.length_counted_le ms
      rw [all, List.length_append, List.length_singleton] at short
      omega
    exact ⟨.inl panics, .inr ⟨panics, Bool.eq_false_iff.2 room, rfl⟩⟩

theorem Reached.pending_le_iff (r : b.Reached hs) (fresh : b.gate.pending = 0) {ms : List (Move σ)}
    (sums : b.settings.overflow = .panics ∨ b.counted ms = ms) (k : Nat) :
    (b.run ms).gate.pending.toNat ≤ k ↔
      ∀ late, late <:+ b.counted ms → announced late ≤ reported late + k := by
  induction ms using List.reverseRecOn generalizing k with
  | nil => simp [Broadcaster.run, fresh, counted, trace, announced]
  | append_singleton ms m ih =>
    obtain ⟨before, ⟨room, eq⟩ | ⟨panics, full, eq⟩⟩ := counted_cases sums
    · rw [run_concat, move_pending room, eq, announced_le_concat]
      constructor
      · intro below late last
        have along := (ih before (k + m.reports - m.announces)).1 (by omega) late last
        omega
      · intro all
        have alone : m.announces ≤ m.reports + k := by
          simpa [announced, reported] using all [] (List.nil_suffix)
        have below := (ih before (k + m.reports - m.announces)).2 fun late last => by
          have along := all late last
          omega
        omega
    · rw [run_concat, move_of_full ((r.run_settings ms).symm ▸ panics) full, eq]
      exact ih before k

theorem Reached.none_pending_iff (r : b.Reached hs) (fresh : b.gate.pending = 0)
    {ms : List (Move σ)} (sums : b.settings.overflow = .panics ∨ b.counted ms = ms) :
    (b.run ms).gate.pending = 0 ↔
      ∀ late, late <:+ b.counted ms → announced late ≤ reported late := by
  rw [← UInt64.toNat_inj, UInt64.toNat_zero, ← Nat.le_zero]
  exact r.pending_le_iff fresh sums 0

/-! ## The first cycle -/

/-- The first cycle has not begun. -/
structure Waiting (b : Broadcaster σ) : Prop where
  phase : b.phase = .unstarted ∨ b.phase = .stopped ∨ ∃ ready, b.phase = .gathering ready
  unasked : b.desk.asked = []
  unwritten : ∀ n, b.intake.writers.get? n = none

theorem unwritten_cancelLane {i : Intake σ} (unwritten : ∀ n, i.writers.get? n = none)
    (lane : Nat) : i.cancelLane lane = i := by
  simp [Intake.cancelLane, unwritten]

theorem Waiting.stop (w : b.Waiting) : b.stop.Waiting := by
  refine ⟨.inr (.inl rfl), ?_, ?_⟩
  · rw [stop_desk]
    exact w.unasked
  · unfold Broadcaster.stop
    cases b.current with
    | none => exact w.unwritten
    | some lane =>
      simp only [unwritten_cancelLane w.unwritten]
      exact w.unwritten

/-- The service waits on, or it sees nobody missing. -/
theorem Waiting.service (w : b.Waiting) : (b.move (.task .service)).Waiting ∨
    b.gate.pending = 0 ∧ b.move (.task .service) = b.firstCycle := by
  rcases w.phase with phase | phase | ⟨ready, phase⟩
  · have still : b.move (.task .service) = b := by simp [Broadcaster.move, step, stepService, phase]
    exact .inl (still.symm ▸ w)
  · have still : b.move (.task .service) = b := by simp [Broadcaster.move, step, stepService, phase]
    exact .inl (still.symm ▸ w)
  · simp only [Broadcaster.move, step, stepService, stepGathering, phase]
    cases b.desk.cancelled with
    | true => exact .inl w.stop
    | false =>
    cases looked : b.gate.look? ready with
    | some verdict =>
      cases verdict with
      | done => exact .inr ⟨Gate.look?_done looked, rfl⟩
      | begun | looked => exact .inl ⟨.inr (.inr ⟨_, rfl⟩), w.unasked, w.unwritten⟩
    | none =>
      cases b.changes.awake with
      | mk awake changes =>
        cases awake with
        | true => exact .inl ⟨.inr (.inr ⟨ready, rfl⟩), w.unasked, w.unwritten⟩
        | false => exact .inl w

theorem Waiting.others (w : b.Waiting) (r : b.Reached hs) (service : m ≠ .task .service) :
    (b.move m).Waiting := by
  by_cases lane : ∃ n, m = .task (.lane n)
  · obtain ⟨n, rfl⟩ := lane
    have still : b.move (.task (.lane n)) = b := by
      simp [Broadcaster.move, step, stepLane, Intake.step, w.unwritten]
    exact still.symm ▸ w
  · have beside := others_beside r.dormant service fun n eq => lane ⟨n, eq⟩
    obtain ⟨source, desk, intake⟩ := beside.intake
    refine ⟨?_, beside.asks.asked.trans w.unasked, intake ▸ w.unwritten⟩
    rcases beside.phase with phase | ⟨-, stopped | ⟨ready, gathering⟩⟩
    · exact phase ▸ w.phase
    · exact .inr (.inl stopped)
    · exact .inr (.inr ⟨ready, gathering⟩)

/-- The service sees nobody missing, and nothing has been asked so far. Its first cycle subscribes
to what the registrations name once these changes are applied, if they name an address at all. -/
structure Commences (b : Broadcaster σ) (changes : List Change) : Prop where
  nobody : b.gate.pending = 0
  unasked : b.desk.asked = []
  filter : (b.move (.task .service)).filter =
    ⟨(Registry.after changes).addresses, (Registry.after changes).signatures⟩
  asked : (b.move (.task .service)).desk.asked =
    if (Registry.after changes).addresses = [] then []
    else [.subscribe (b.move (.task .service)).filter]

theorem Reached.applied (r : b.Reached hs) :
    b.applyChanges.herald.registry = .after (Input.changes hs ++ b.changes.queue) := by
  have follows := (r.follows.herald.notes (b.changes.queue.map .change)).registry
  rwa [Herald.foldl_note_changes, changes_append, changes_map] at follows

theorem Reached.tidy_applied (r : b.Reached hs) :
    (Registry.after (Input.changes hs ++ b.changes.queue)).Tidy := by
  rw [← r.applied]
  exact (Herald.foldl_apply r.tuned.tidy r.tuned.pending).1

theorem Waiting.commences (w : b.Waiting) (r : b.Reached hs) (nobody : b.gate.pending = 0)
    (first : b.move (.task .service) = b.firstCycle) :
    b.Commences (Input.changes hs ++ b.changes.queue) := by
  obtain ⟨d, asks, eq⟩ := b.firstCycle_eq
  have unasked : d.asked = [] := asks.asked.trans w.unasked
  have filter : b.applyChanges.herald.filter =
      ⟨(Registry.after (Input.changes hs ++ b.changes.queue)).addresses,
        (Registry.after (Input.changes hs ++ b.changes.queue)).signatures⟩ := by
    rw [Herald.filter, r.applied]
  let c := { b.applyChanges.withDesk d with savedHead := none, deepStart := b.firstStart }
  have begun : c.beginCycle.filter = c.herald.filter ∧ c.beginCycle.desk.asked =
      if c.herald.filter.addresses = [] then [] else [.subscribe c.herald.filter] := by
    rcases c.beginCycle_cases with ⟨nowhere, eq⟩ | ⟨somewhere, eq⟩
    · rw [eq, connect_desk, if_pos nowhere]
      exact ⟨rfl, unasked⟩
    · rw [eq, if_neg somewhere]
      refine ⟨rfl, ?_⟩
      rw [← unasked]
      exact (Retry.asks_start (.subscribe c.herald.filter) c.intake.nextCycle).asked
  refine ⟨nobody, w.unasked, ?_, ?_⟩
  · rw [first, eq, begun.1]
    exact filter
  · rw [first, eq, begun.2, begun.1]
    exact filter ▸ rfl

/-- As long as the first cycle has not begun nothing is asked, and then it begins so. -/
theorem Waiting.run (w : b.Waiting) (r : b.Reached hs) (ms : List (Move σ)) :
    (b.run ms).Waiting ∨ ∃ earlier later, ms = earlier ++ .task .service :: later ∧
      (b.run earlier).Commences
        (Input.changes (hs ++ b.history earlier) ++ (b.run earlier).changes.queue) := by
  induction ms generalizing b hs with
  | nil => exact .inl w
  | cons m ms ih =>
    have later (still : (b.move m).Waiting) : (b.run (m :: ms)).Waiting ∨
        ∃ earlier later, m :: ms = earlier ++ .task .service :: later ∧
          (b.run earlier).Commences
            (Input.changes (hs ++ b.history earlier) ++ (b.run earlier).changes.queue) := by
      refine (ih still (r.move m)).imp_right ?_
      rintro ⟨earlier, later, rfl, commences⟩
      refine ⟨m :: earlier, later, rfl, ?_⟩
      rwa [List.append_assoc] at commences
    by_cases service : m = .task .service
    · subst service
      rcases w.service with still | ⟨nobody, first⟩
      · exact later still
      · refine .inr ⟨[], ms, rfl, ?_⟩
        have commences := w.commences r nobody first
        simpa [history, Broadcaster.run] using commences
    · exact later (w.others r service)

/-! ## Whom the first subscription covers -/

theorem mem_delivered_add {g : Registration} {ms : List (Move σ)}
    (mem : .add g ∈ b.delivered ms) : b.nextId ≤ g.id := by
  induction ms generalizing b with
  | nil => cases mem
  | cons m ms ih =>
    have ids : b.nextId ≤ (b.move m).nextId ∧
        ∀ g, .add g ∈ b.delivers m → b.nextId ≤ g.id := by
      by_cases service : m = .task .service
      · subst service
        exact ⟨Nat.le_of_eq b.service_acts.undisturbed.nextId.symm, by simp [delivers]⟩
      · have handled := others_handled (b := b) service
        exact ⟨handled.nextId, fun g mem => (handled.ids g mem).1⟩
    rcases List.mem_append.1 mem with now | later
    · exact ids.2 g now
    · exact Nat.le_trans ids.1 (ih later)

theorem mem_delivered_remove {id : Nat} {ms : List (Move σ)}
    (mem : .remove id ∈ b.delivered ms) : .unsubscribe id ∈ ms := by
  induction ms generalizing b with
  | nil => cases mem
  | cons m ms ih =>
    rcases List.mem_append.1 mem with now | later
    · cases m with
      | register l o =>
        rcases b.register_cases l o with ⟨d, -, eq⟩ | ⟨e, d, eq⟩ <;> simp [delivers, eq] at now
      | unsubscribe id' =>
        obtain rfl : id = id' := by simpa [delivers] using now
        exact List.mem_cons_self
      | _ => cases now
    · exact List.mem_cons_of_mem _ (ih later)

/-- Whoever registers and does not unsubscribe is registered. -/
theorem live_of_register {l : Listener} {o : Options} {id : Nat} {before between : List (Move σ)}
    (registered : ((b.run before).register l o).1 = .ok id) (kept : .unsubscribe id ∉ between) :
    ⟨id, l, o⟩ ∈ (Registry.after (b.delivered (before ++ .register l o :: between))).live.values ∧
      o.filters.isEmpty = false := by
  rcases (b.run before).register_cases l o with ⟨d, filters, eq⟩ | ⟨e, d, eq⟩
  · obtain rfl : (b.run before).nextId = id := by simpa [eq] using registered
    have next : ((b.run before).move (.register l o)).nextId = (b.run before).nextId + 1 := by
      simp [Broadcaster.move, eq]
    have split : b.delivered (before ++ .register l o :: between) = b.delivered before ++
        .add ⟨(b.run before).nextId, l, o⟩ ::
          ((b.run before).move (.register l o)).delivered between := by
      rw [delivered, trace_append]
      simp [trace, delivers, eq, delivered]
    have removed : .remove (b.run before).nextId ∉
        ((b.run before).move (.register l o)).delivered between :=
      fun mem => kept (mem_delivered_remove mem)
    rw [split]
    refine ⟨Table.mem_values.2 ⟨_, Registry.get?_live_added removed fun a mem => ?_⟩, filters⟩
    have above := mem_delivered_add mem
    rw [next] at above
    exact Nat.ne_of_gt above
  · simp [eq] at registered

/-- The count is zero just when no stretch of the calls up to now has announced more dependents than
have reported ready. An announcement that there is no room for panics, and then it is none of the
calls; a build in which it wraps around keeps to this as long as there is room. Nothing is asked of
the node until the service sees the count at zero. Then the first cycle subscribes to what the
registrations name after all changes delivered by then, and so to everything that anybody who has
registered by then, and not unsubscribed since, listens for. -/
theorem dependents_gate (settings : Settings) (source : σ) (ledger : Ledger)
    (unbounded : settings.mailbox = none) (ms : List (Move σ)) :
    let init : Broadcaster σ := new settings source ledger
    (settings.overflow = .panics → ((init.run ms).gate.pending = 0 ↔
      ∀ late, late <:+ init.counted ms → announced late ≤ reported late)) ∧
    (init.counted ms = ms → ((init.run ms).gate.pending = 0 ↔
      ∀ late, late <:+ ms → announced late ≤ reported late)) ∧
    ((init.run ms).desk.asked ≠ [] → ∃ earlier later, ms = earlier ++ .task .service :: later ∧
      (init.run earlier).Commences (init.delivered earlier) ∧
      ∀ before l o id between, earlier = before ++ .register l o :: between →
        ((init.run before).register l o).1 = .ok id → .unsubscribe id ∉ between →
        o.contract ∈ ((init.run earlier).move (.task .service)).filter.addresses ∧
        ∀ t, o.filters.contains t = true →
          t ∈ ((init.run earlier).move (.task .service)).filter.signatures) := by
  intro init
  have start : init.Reached [] := .start settings source ledger
  refine ⟨fun panics => start.none_pending_iff rfl (.inl panics), fun all => ?_, fun asked => ?_⟩
  · have exactly := start.none_pending_iff rfl (.inr all)
    rwa [all] at exactly
  have waiting : init.Waiting := ⟨.inl rfl, rfl, fun _ => rfl⟩
  rcases waiting.run start ms with still | ⟨earlier, later, rfl, commences⟩
  · exact absurd still.unasked asked
  have all : Input.changes (init.history earlier) ++ (init.run earlier).changes.queue =
      init.delivered earlier :=
    (run_delivers unbounded earlier).symm
  rw [List.nil_append, all] at commences
  refine ⟨earlier, later, rfl, commences, ?_⟩
  rintro before l o id between rfl registered kept
  have tidy := (start.run (before ++ .register l o :: between)).tidy_applied
  rw [List.nil_append, all] at tidy
  obtain ⟨live, filters⟩ := live_of_register (b := init) registered kept
  rw [commences.filter]
  exact tidy.listens live filters

end Broadcaster

namespace Example

/-- The service runs, and then a dependent registers its listener and reports. -/
def gating : List (Move ScriptedChain) :=
  [.dependents 1, .start, .task .service, .register keeper options, .task .service, .ready,
    .task .service]

theorem dependent_covered :
    (start.run (gating.take 6)).desk.asked = [] ∧
    (start.run gating).desk.asked = [.subscribe ⟨[1], [7]⟩] ∧
    (∀ late, late <:+ gating → announced late ≤ reported late) ∧
    ∃ earlier later, gating = earlier ++ .task .service :: later ∧
      (start.run earlier).Commences (start.delivered earlier) := by
  obtain ⟨-, count, first⟩ := Broadcaster.dependents_gate .standard
    { ScriptedChain.new 5 with history := [log] } .empty rfl gating
  have nobody : (start.run gating).gate.pending = 0 := by decide +kernel
  have asked : (start.run gating).desk.asked = [.subscribe ⟨[1], [7]⟩] := by decide +kernel
  obtain ⟨earlier, later, split, commences, -⟩ := first (asked ▸ List.cons_ne_nil _ _)
  exact ⟨by decide +kernel, asked, (count rfl).1 nobody, earlier, later, split, commences⟩

end Example

end ChainHerald
