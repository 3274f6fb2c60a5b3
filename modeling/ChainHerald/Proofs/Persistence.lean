import ChainHerald.Broadcaster.Service
import ChainHerald.Proofs.Awaited
import ChainHerald.Proofs.Backoff
import ChainHerald.Proofs.Intake
import ChainHerald.Sample

/-!
# Requests that are not given up

A subscriber repeats a request until it succeeds or all is cancelled (`Retry.untilCancelled`), with
a pause after each failure. Followed in virtual time, it is asked once at the beginning and once at
the end of each pause, and the first answer is passed on (`retried_until_cancelled`). From the
second pause on no pause is shorter than the one before or longer than the most. The first one is
the least pause as it was set, and nothing in the settings keeps that from being more than the most
(`first_pause_uncapped`).
-/

namespace ChainHerald

variable {σ : Type} [Source σ] {α : Type}

/-- The pause after the failure with this number, the first of which is number 0. -/
def Limits.delay (l : Limits) : Nat → Nat := Backoff.delay l.leastPause l.mostPause

namespace Retry

/-- A request is repeated only as long as nothing is cancelled. -/
def untilCancelled (r : Retry σ α) (i : Intake σ) :
    Option (Turn (Retry σ α) (Option α) × Intake σ) :=
  if i.desk.cancelled then some (.done none, i)
  else (r.step i).map fun
    | (.going r, i) => (.going r, i)
    | (.done a, i) => (.done (some a), i)

end Retry

/-! ## Who repeats requests -/

theorem Broadcaster.stepSubscribing_eq (b : Broadcaster σ) (request : Retry σ (Source.Feed σ)) :
    b.stepSubscribing request = (request.untilCancelled b.intake).map fun
      | (.going request, intake) => { b with intake, phase := .subscribing request }
      | (.done none, intake) => { b with intake }.stop
      | (.done (some feed), intake) =>
        let (lane, intake) := intake.openLive feed
        let (request, intake) := Retry.start .latest intake
        { b with intake, phase := .sizing request lane } := by
  unfold stepSubscribing Retry.untilCancelled desk
  split
  · rfl
  · rcases request.step b.intake with _ | ⟨_ | _, _⟩ <;> rfl

theorem Broadcaster.stepSizing_eq (b : Broadcaster σ) (request : Retry σ Nat) (next : Nat) :
    b.stepSizing request next = (request.untilCancelled b.intake).map fun
      | (.going request, intake) => { b with intake, phase := .sizing request next }
      | (.done none, intake) => { b with intake := intake.cancelLane next }.stop
      | (.done (some latest), intake) =>
        let (backfill, intake) := intake.openBackfill b.filter b.deepStart latest
        { b with intake, deepStart := none }.connect [backfill, next] (some next) := by
  unfold stepSizing Retry.untilCancelled desk
  split
  · rfl
  · rcases request.step b.intake with _ | ⟨_ | _, _⟩ <;> rfl

theorem Intake.stepFetching_eq (i : Intake σ) (lane : Nat) (f : Filter) (rest : Ranges)
    (request : Retry σ (List Log)) :
    i.stepFetching lane f rest request = (request.untilCancelled i).map fun
      | (.going request, i) => i.put lane (.fetching f rest request)
      | (.done none, i) => i.finish lane
      | (.done (some batch), i) =>
        i.put lane (.sending f rest (batch.mergeSort inBatchOrder)) := by
  unfold stepFetching Retry.untilCancelled
  split
  · rfl
  · rcases request.step i with _ | ⟨_ | _, _⟩ <;> rfl

namespace Retry

/-- What comes to pass with the next move. -/
def incidents (r : Retry σ α) (i : Intake σ) : List (Incident ProviderError α) :=
  if i.desk.cancelled then []
  else
    match r.phase with
    | .pausing ready => if ready ≤ i.desk.clock.now then [.asked] else []
    | .asking call =>
      match Source.step call i.desk.clock i.source with
      | some (.done (.ok a), _) => [.answered a]
      | some (.done (.error e), _) => [.refused e]
      | _ => []

instance : Awaitable (Retry σ α) (Intake σ) (Option α) (Incident ProviderError α) where
  step := untilCancelled
  wakes := wakes
  now i := i.desk.clock.now
  incidents := incidents

/-- A request from its beginning on. -/
def awaited (request : Request (Source.Feed σ) α) (i : Intake σ)
    (others : Nat → Intake σ → Intake σ) : Awaited (Retry σ α) where
  first := (start request i).1
  opening := [.asked]
  world := (start request i).2
  others := others

/-- How a request that was begun at this time can have ended, after these incidents and at that
time. -/
inductive Ran (delay : Nat → Nat) (start : Nat) :
    List (Nat × Incident ProviderError α) → Nat → Option α → Prop where
  | answered (failures : List (Nat × ProviderError)) {time : Nat} (a : α) :
      Ran delay start (attempts delay start failures ++ [(time, .answered a)]) time (some a)
  | unanswered (failures : List (Nat × ProviderError)) {time : Nat} :
      Ran delay start (attempts delay start failures) time none
  | unasked (failures : List (Nat × ProviderError)) {failed time : Nat} (e : ProviderError)
      (early : time ≤ failed + delay failures.length) :
      Ran delay start (attempts delay start failures ++ [(failed, .refused e)]) time none

/-- How a request that was begun at this time stands, after these incidents and at that time. -/
inductive Stands (limits : Limits) (start : Nat) :
    Retry σ α → List (Nat × Incident ProviderError α) → Nat → Prop where
  | asking {request : Request (Source.Feed σ) α} {now : Nat}
      (failures : List (Nat × ProviderError)) (call : Source.Call σ α) :
      Stands limits start
        ⟨request, .after limits.leastPause limits.mostPause failures.length, .asking call⟩
        (attempts limits.delay start failures) now
  | pausing {request : Request (Source.Feed σ) α} {failed now : Nat}
      (failures : List (Nat × ProviderError)) (e : ProviderError)
      (early : now ≤ failed + limits.delay failures.length) :
      Stands limits start
        ⟨request, .after limits.leastPause limits.mostPause (failures.length + 1),
          .pausing (failed + limits.delay failures.length)⟩
        (attempts limits.delay start failures ++ [(failed, .refused e)]) now

variable {r r' : Retry σ α} {i i' : Intake σ} {limits : Limits} {start now later ready : Nat}
  {diary : List (Nat × Incident ProviderError α)} {result : Option α}

theorem untilCancelled_waits (waits : r.untilCancelled i = none) :
    i.desk.cancelled = false ∧ r.step i = none := by
  unfold untilCancelled at waits
  split at waits
  · cases waits
  · rename_i alive
    exact ⟨Bool.eq_false_iff.2 alive, Option.map_eq_none_iff.1 waits⟩

theorem untilCancelled_going (step : r.untilCancelled i = some (.going r', i')) :
    i.desk.cancelled = false ∧ r.step i = some (.going r', i') := by
  unfold untilCancelled at step
  split at step
  · cases step
  · rename_i alive
    obtain ⟨⟨_ | _, _⟩, move, eq⟩ := Option.map_eq_some_iff.1 step
    · cases eq
      exact ⟨Bool.eq_false_iff.2 alive, move⟩
    · cases eq

/-- It is over because all is cancelled, or with an answer. -/
theorem untilCancelled_done (step : r.untilCancelled i = some (.done result, i')) :
    i.desk.cancelled = true ∧ result = none ∨
    i.desk.cancelled = false ∧ ∃ a, result = some a ∧ r.step i = some (.done a, i') := by
  unfold untilCancelled at step
  split at step
  · rename_i ended
    cases step
    exact .inl ⟨ended, rfl⟩
  · rename_i alive
    obtain ⟨⟨_ | a, _⟩, move, eq⟩ := Option.map_eq_some_iff.1 step
    · cases eq
    · cases eq
      exact .inr ⟨Bool.eq_false_iff.2 alive, a, rfl, move⟩

/-- A pause that is over is not waited for. -/
theorem early_of_waits (waits : r.step i = none) (pausing : r.phase = .pausing ready) :
    i.desk.clock.now < ready := by
  by_contra ended
  simp [step, pausing, Nat.le_of_not_lt ended] at waits

theorem incidents_of_waits (waits : r.step i = none) : r.incidents i = [] := by
  unfold incidents
  split
  · rfl
  · cases here : r.phase with
    | pausing ready => simp [Nat.not_le.2 (early_of_waits waits here)]
    | asking call =>
      simp only [step, here] at waits
      split at waits
      · rename_i nothing
        simp only [nothing]
      · cases waits
      · cases waits
      · cases waits

theorem stands_start (request : Request (Source.Feed σ) α) (i : Intake σ) :
    (Retry.start request i).1.Stands i.limits i.desk.clock.now [(i.desk.clock.now, .asked)] now :=
  .asking [] _

namespace Stands

theorem waits (h : r.Stands limits start diary i.desk.clock.now)
    (waits : r.untilCancelled i = none)
    (timely : ∀ w ∈ r.wakes, i.desk.clock.now < w → later ≤ w) :
    r.Stands limits start (diary ++ (r.incidents i).map (i.desk.clock.now, ·)) later := by
  obtain ⟨-, waits⟩ := untilCancelled_waits waits
  rw [incidents_of_waits waits, List.map_nil, List.append_nil]
  cases h with
  | asking failures call => exact .asking failures call
  | pausing failures e =>
    have early := early_of_waits waits rfl
    exact .pausing failures e (timely _ List.mem_cons_self early)

theorem going (h : r.Stands limits start diary i.desk.clock.now)
    (step : r.untilCancelled i = some (.going r', i')) :
    r'.Stands limits start (diary ++ (r.incidents i).map (i.desk.clock.now, ·))
      i.desk.clock.now := by
  obtain ⟨alive, step⟩ := untilCancelled_going step
  simp only [incidents, alive, Bool.false_eq_true, if_false]
  cases h with
  | asking failures call =>
    cases step_moves step with
    | asks pausing => cases pausing
    | asking asking moved =>
      cases asking
      simp only [moved, List.map_nil, List.append_nil]
      exact .asking failures _
    | @refused call e source asking refused =>
      cases asking
      have pause : (Backoff.after limits.leastPause limits.mostPause failures.length).pause =
          limits.delay failures.length := Backoff.pause_after _
      simp only [refused, List.map_cons, List.map_nil, pause]
      exact .pausing failures e (Nat.le_add_right _ _)
  | @pausing request failed _ failures e early =>
    cases step_moves step with
    | asks pausing ended =>
      cases pausing
      have now := Nat.le_antisymm early ended
      have asked : attempts limits.delay start failures ++ [(failed, .refused e)] ++
          [(i.desk.clock.now, .asked)] =
          (attempts limits.delay start (failures ++ [(failed, e)]) :
            List (Nat × Incident ProviderError α)) := by
        rw [attempts_concat, now, List.append_assoc]
        rfl
      have number : (failures ++ [(failed, e)]).length = failures.length + 1 := List.length_append
      simp only [ended, if_true, List.map_cons, List.map_nil, asked]
      rw [← number]
      exact .asking _ _
    | asking asking => cases asking
    | refused asking => cases asking

theorem done (h : r.Stands limits start diary i.desk.clock.now)
    (step : r.untilCancelled i = some (.done result, i')) :
    Ran limits.delay start (diary ++ (r.incidents i).map (i.desk.clock.now, ·)) i.desk.clock.now
      result ∧ (result = none ↔ i.desk.cancelled = true) := by
  rcases untilCancelled_done step with ⟨ended, rfl⟩ | ⟨alive, a, rfl, answers⟩
  · simp only [incidents, ended, if_true, List.map_nil, List.append_nil, and_true]
    cases h with
    | asking failures call => exact .unanswered failures
    | pausing failures e early => exact .unasked failures e early
  · simp only [incidents, alive, Bool.false_eq_true, if_false, reduceCtorEq, and_true]
    cases h with
    | asking failures call =>
      cases step_moves answers with
      | answered asking answered =>
        cases asking
        simp only [answered, List.map_cons, List.map_nil]
        exact .answered failures a
    | pausing failures e early =>
      cases step_moves answers with
      | answered asking => cases asking

end Stands

/-! ## A request from its beginning to its end -/

variable {a : Awaited (Retry σ α)} {request : Request (Source.Feed σ) α}
  {others : Nat → Intake σ → Intake σ} {n : Nat}

theorem stands (begun : a = awaited request i others) (u : a.InTime) (going : a.turn n = .going r) :
    r.Stands i.limits i.desk.clock.now (a.diary n) (a.time n) := by
  subst begun
  refine u.while_going (P := fun r diary now => r.Stands i.limits i.desk.clock.now diary now)
    ?_ ?_ ?_ going
  · exact stands_start request i
  · exact fun _ _ _ h waits timely => h.waits waits timely
  · exact fun _ _ _ _ h move => h.going move

theorem diary_succ (going : a.turn n = .going r) :
    a.diary (n + 1) = a.diary n ++ (r.incidents (a.found n)).map (a.time n, ·) :=
  Awaited.diary_of_going going

theorem incidents_of_pausing (alive : i.desk.cancelled = false)
    (pausing : r.phase = .pausing ready) :
    r.incidents i = if ready ≤ i.desk.clock.now then [.asked] else [] := by
  simp only [incidents, alive, pausing, Bool.false_eq_true, if_false]

theorem Stands.early (h : r.Stands limits start diary now) (pausing : r.phase = .pausing ready) :
    now ≤ ready := by
  cases h with
  | asking => cases pausing
  | pausing failures e early =>
    cases pausing
    exact early

/-- Unless all is cancelled, a pause ends with an attempt. -/
theorem asked_again (begun : a = awaited request i others) (u : a.InTime)
    (going : a.turn n = .going r) (pausing : r.phase = .pausing ready) :
    ∃ m, n ≤ m ∧ a.turn m = .going r ∧ ((a.found m).desk.cancelled = true ∨
      a.time m = ready ∧ a.diary (m + 1) = a.diary n ++ [(ready, .asked)]) := by
  by_contra never
  have alive (m : Nat) (later : n ≤ m) (here : a.turn m = .going r) :
      (a.found m).desk.cancelled = false :=
    Bool.eq_false_iff.2 fun ended => never ⟨m, later, here, .inl ended⟩
  have early (m : Nat) (later : n ≤ m) (here : a.turn m = .going r)
      (same : a.diary m = a.diary n) : a.time m < ready := by
    by_contra ended
    have due : ready ≤ (a.found m).desk.clock.now := Nat.le_of_not_lt ended
    have now : a.time m = ready := Nat.le_antisymm ((stands begun u here).early pausing) due
    have asks := incidents_of_pausing (alive m later here) pausing
    rw [if_pos due] at asks
    have asked := diary_succ here
    rw [asks, same, now] at asked
    exact never ⟨m, later, here, .inr ⟨now, asked⟩⟩
  -- without an attempt or a cancel it goes on to pause
  have stays (m : Nat) (later : n ≤ m) : a.turn m = .going r ∧ a.diary m = a.diary n := by
    induction later with
    | refl => exact ⟨going, rfl⟩
    | @step m later ih =>
      obtain ⟨here, same⟩ := ih
      have before : (a.found m).desk.clock.now < ready := early m later here same
      have waits : r.untilCancelled (a.found m) = none := by
        simp [untilCancelled, alive m later here, step, pausing, Nat.not_le.2 before]
      have nothing := incidents_of_waits (untilCancelled_waits waits).2
      have asked := diary_succ here
      rw [nothing, same, List.map_nil, List.append_nil] at asked
      exact ⟨Awaited.turn_of_waits here waits, asked⟩
  have missed (m : Nat) (later : n ≤ m) : ∃ k, a.turn m = .going k ∧
      (ready ≤ a.time m → Awaitable.step k (a.found m) ≠ none) := by
    obtain ⟨here, same⟩ := stays m later
    exact ⟨r, here, fun due => absurd due (Nat.not_le.2 (early m later here same))⟩
  exact u.not_forever missed

/-- What was cancelled is over at once, and nothing else is over without an answer. -/
theorem done_none_iff (going : a.turn n = .going r) :
    a.turn (n + 1) = .done none ↔ (a.found n).desk.cancelled = true := by
  constructor
  · intro done
    obtain ⟨i', move⟩ := Awaited.step_of_done going done
    rcases untilCancelled_done move with ⟨ended, -⟩ | ⟨-, a, none, -⟩
    · exact ended
    · cases none
  · intro ended
    have move : r.untilCancelled (a.found n) = some (.done none, a.found n) := if_pos ended
    exact Awaited.turn_of_step going move

/-- A request is made once at the beginning and once after each failure and its pause. It ends with
the first answer, or without any as soon as all is cancelled, and it is not made again then. From
the second pause on they grow up to the most, and if the least is not more than the most they all
keep to it. -/
theorem retried_until_cancelled (begun : a = awaited request i others) (u : a.InTime) :
    (∀ n r, a.turn n = .going r → r.Stands i.limits i.desk.clock.now (a.diary n) (a.time n)) ∧
    (∀ n r ready, a.turn n = .going r → r.phase = .pausing ready →
      ∃ m, n ≤ m ∧ a.turn m = .going r ∧ ((a.found m).desk.cancelled = true ∨
        a.time m = ready ∧ a.diary (m + 1) = a.diary n ++ [(ready, .asked)])) ∧
    (∀ n r, a.turn n = .going r →
      (a.turn (n + 1) = .done none ↔ (a.found n).desk.cancelled = true)) ∧
    (∀ n r result, a.turn n = .going r → a.turn (n + 1) = .done result →
      Ran i.limits.delay i.desk.clock.now (a.diary (n + 1)) (a.time n) result ∧
      ∀ m, n < m → a.turn m = .done result ∧ a.diary m = a.diary (n + 1)) ∧
    (∀ k, i.limits.delay (k + 1) ≤ i.limits.mostPause ∧
      i.limits.delay (k + 1) ≤ i.limits.delay (k + 2)) ∧
    (i.limits.leastPause ≤ i.limits.mostPause → ∀ k,
      i.limits.delay k ≤ i.limits.mostPause ∧ i.limits.delay k ≤ i.limits.delay (k + 1)) := by
  refine ⟨fun n r => stands begun u, fun n r ready => asked_again begun u,
    fun n r => done_none_iff, ?_, ?_, ?_⟩
  · intro n r result going done
    refine ⟨?_, fun m later => Awaited.rests done later⟩
    obtain ⟨i', move⟩ := Awaited.step_of_done going done
    rw [Awaited.diary_of_going going]
    exact ((stands begun u going).done move).1
  · intro k
    exact ⟨Backoff.delay_succ_le k, Backoff.delay_succ_mono k⟩
  · intro ordered k
    exact ⟨Backoff.delay_le ordered k, Backoff.delay_mono ordered k⟩

end Retry

/-! ## Bounds in order and out of order -/

namespace Example

/-- The node refuses to be subscribed to twice. The pauses are over at these times. -/
def stubborn (s : Settings) (once twice : Nat) : Awaited (Retry ScriptedChain Nat) :=
  Retry.awaited (.subscribe ⟨[], []⟩)
    (.new { ScriptedChain.new 100 with failingSubscribes := 2 } (.new ⟨0, 0⟩ .empty) s.limits)
    fun n i => { i with desk := { i.desk with clock := ⟨moment n, moment n⟩ } }
where
  moment : Nat → Nat
    | 0 | 1 => 0
    | 2 | 3 | 4 => once
    | n + 5 => twice + (n - 2)

theorem stubborn_inTime {s : Settings} {once twice : Nat}
    (ended : (stubborn s once twice).turn 7 = .done (some 0))
    (early : ∀ n < 7, (stubborn s once twice).onTime n = true) :
    (stubborn s once twice).InTime := by
  refine .of_done rfl ended early ?_
  intro n late
  obtain ⟨k, rfl⟩ := Nat.exists_eq_add_of_le' late
  change twice + k < twice + (k + 1)
  omega

/-- The pauses are of one and of two seconds. -/
def patient : Awaited (Retry ScriptedChain Nat) := stubborn .standard 1000 3000

theorem patient_inTime : patient.InTime := stubborn_inTime rfl (by decide +kernel)

/-- The least pause is twice the most. -/
def inverted : Settings := { Settings.standard with leastPause := 8000, mostPause := 4000 }

def inverse : Awaited (Retry ScriptedChain Nat) := stubborn inverted 8000 12000

theorem inverse_inTime : inverse.InTime := stubborn_inTime rfl (by decide +kernel)

end Example

open Example in
/-- What `retried_until_cancelled` says when the bounds are the standard ones. -/
theorem stubborn_subscribed : patient.InTime ∧ patient.turn 7 = .done (some 0) ∧
    (∀ n r, patient.turn n = .going r →
      r.Stands Settings.standard.limits 0 (patient.diary n) (patient.time n)) ∧
    (∀ n r ready, patient.turn n = .going r → r.phase = .pausing ready →
      ∃ m, n ≤ m ∧ patient.turn m = .going r ∧ ((patient.found m).desk.cancelled = true ∨
        patient.time m = ready ∧
          patient.diary (m + 1) = patient.diary n ++ [(ready, .asked)])) ∧
    (∀ n r, patient.turn n = .going r →
      (patient.turn (n + 1) = .done none ↔ (patient.found n).desk.cancelled = true)) ∧
    (∀ n r result, patient.turn n = .going r → patient.turn (n + 1) = .done result →
      Retry.Ran Settings.standard.limits.delay 0 (patient.diary (n + 1)) (patient.time n) result ∧
      ∀ m, n < m → patient.turn m = .done result ∧ patient.diary m = patient.diary (n + 1)) ∧
    (∀ k, Settings.standard.limits.delay k ≤ 60000 ∧
      Settings.standard.limits.delay k ≤ Settings.standard.limits.delay (k + 1)) := by
  obtain ⟨stands, again, cancelled, ran, -, bounds⟩ :=
    Retry.retried_until_cancelled (a := patient) rfl patient_inTime
  exact ⟨patient_inTime, rfl, stands, again, cancelled, ran, bounds (by decide)⟩

open Example in
/-- The settings are accepted, yet the first pause is longer than the most, and longer than the
second one. -/
theorem first_pause_uncapped : inverted.check = .ok () ∧ inverse.InTime ∧
    inverse.turn 7 = .done (some 0) ∧
    inverse.diary 7 = [(0, .asked), (0, .refused .timeout), (8000, .asked),
      (8000, .refused .timeout), (12000, .asked), (12000, .answered 0)] ∧
    ¬ ∀ k, inverted.limits.delay k ≤ inverted.mostPause ∧
      inverted.limits.delay k ≤ inverted.limits.delay (k + 1) := by
  refine ⟨rfl, inverse_inTime, rfl, rfl, ?_⟩
  intro kept
  exact absurd (kept 0).1 (by decide)

end ChainHerald
