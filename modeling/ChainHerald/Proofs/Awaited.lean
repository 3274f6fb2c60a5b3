import ChainHerald.Source
import Mathlib.Tactic.ByContra

/-!
# What is awaited, moment by moment

`Awaited` follows something under way. By each moment others may have done anything to the world it
works on, and then it moves if it can. In virtual time (`Awaited.InTime`) a move takes no time, and
time that passes stops at each of its timers. So it cannot be past its deadline for long
(`InTime.not_forever`).
-/

namespace ChainHerald

/-- Time that goes on without end does not stand still for good once it is past a deadline. -/
theorem not_frozen {time : Nat → Nat} (forward : ∀ n, time n ≤ time (n + 1))
    (endless : ∀ t, ∃ n, t ≤ time n) {n deadline : Nat}
    (still : ∀ m, n ≤ m → deadline ≤ time m → time (m + 1) = time m) : False := by
  have mono : ∀ {m p}, m ≤ p → time m ≤ time p := by
    intro m p later
    induction later with
    | refl => exact Nat.le_refl _
    | step _ ih => exact Nat.le_trans ih (forward _)
  obtain ⟨late, past⟩ := endless deadline
  have frozen : ∀ m, max n late ≤ m → time m = time (max n late) := by
    intro m later
    induction later with
    | refl => rfl
    | @step m later ih =>
      have due := Nat.le_trans past (mono (Nat.le_trans (Nat.le_max_right _ _) later))
      exact (still m (Nat.le_trans (Nat.le_max_left _ _) later) due).trans ih
  obtain ⟨m, beyond⟩ := endless (time (max n late) + 1)
  have same := frozen (max (max n late) m) (Nat.le_max_left _ _)
  have more := mono (Nat.le_max_right (max n late) m)
  omega

/-- Something under way in a world that has a time. `incidents` is what comes to pass with its next
move. -/
class Awaitable (κ : Type) (ω α ε : outParam Type) where
  step : κ → ω → Option (Turn κ α × ω)
  wakes : κ → List Nat
  now : ω → Nat
  incidents : κ → ω → List ε

open Awaitable (step wakes incidents)

variable {κ ω α ε : Type} [Awaitable κ ω α ε]

/-- Something from its beginning on, which has already left its mark on the world. -/
structure Awaited (κ : Type) {ω α ε : Type} [Awaitable κ ω α ε] where
  first : κ
  opening : List ε
  world : ω
  others : Nat → ω → ω

namespace Awaited

/-- How far it has got before the moment, and the world that it has left. -/
def state (a : Awaited κ) : Nat → Turn κ α × ω
  | 0 => (.going a.first, a.world)
  | n + 1 =>
    match (a.state n).1 with
    | .done result => (.done result, a.others n (a.state n).2)
    | .going k =>
      (step k (a.others n (a.state n).2)).getD (.going k, a.others n (a.state n).2)

def turn (a : Awaited κ) (n : Nat) : Turn κ α := (a.state n).1

/-- The world as it is found at the moment. -/
def found (a : Awaited κ) (n : Nat) : ω := a.others n (a.state n).2

def time (a : Awaited κ) (n : Nat) : Nat := Awaitable.now κ (a.found n)

/-- When it was begun. -/
def start (a : Awaited κ) : Nat := Awaitable.now κ a.world

/-- What has come to pass before the moment, and when. -/
def diary (a : Awaited κ) : Nat → List (Nat × ε)
  | 0 => a.opening.map (a.start, ·)
  | n + 1 => a.diary n ++
    match a.turn n with
    | .done _ => []
    | .going k => (incidents k (a.found n)).map (a.time n, ·)

/-- Time goes on without end and stops at every timer, and no move takes time. -/
structure InTime (a : Awaited κ) : Prop where
  prompt : a.time 0 = a.start
  forward : ∀ n, a.time n ≤ a.time (n + 1)
  instant : ∀ n k, a.turn n = .going k → step k (a.found n) ≠ none → a.time (n + 1) = a.time n
  timely : ∀ n k, a.turn n = .going k → ∀ w ∈ wakes k, a.time n < w → a.time (n + 1) ≤ w
  endless : ∀ time, ∃ n, time ≤ a.time n

/-- From this moment to the next, time keeps to the rules. -/
def onTime (a : Awaited κ) (n : Nat) : Bool :=
  decide (a.time n ≤ a.time (n + 1)) &&
  match a.turn n with
  | .done _ => true
  | .going k =>
    (decide (a.time (n + 1) = a.time n) || (step k (a.found n)).isNone) &&
    (wakes k).all fun w => decide (w ≤ a.time n) || decide (a.time (n + 1) ≤ w)

variable {a : Awaited κ} {n m : Nat} {k : κ} {result : α}

theorem turn_of_done (done : a.turn n = .done result) : a.turn (n + 1) = .done result := by
  unfold turn at done ⊢
  simp only [state, done]

theorem turn_of_waits (going : a.turn n = .going k) (waits : step k (a.found n) = none) :
    a.turn (n + 1) = .going k := by
  unfold turn found at *
  simp only [state, going, waits, Option.getD_none]

theorem turn_of_step {turn : Turn κ α} {w : ω} (going : a.turn n = .going k)
    (step : step k (a.found n) = some (turn, w)) : a.turn (n + 1) = turn := by
  unfold Awaited.turn found at *
  simp only [state, going, step, Option.getD_some]

theorem step_of_done (going : a.turn n = .going k) (done : a.turn (n + 1) = .done result) :
    ∃ w, step k (a.found n) = some (.done result, w) := by
  cases move : step k (a.found n) with
  | none =>
    rw [turn_of_waits going move] at done
    cases done
  | some o =>
    obtain ⟨turn, w⟩ := o
    rw [turn_of_step going move] at done
    cases done
    exact ⟨w, rfl⟩

/-- What others leave alone, and every move too, holds of the world throughout. -/
theorem found_of_moves {P : ω → Prop} (first : P a.world) (others : ∀ n w, P w → P (a.others n w))
    (moves : ∀ (k : κ) w turn w', P w → step k w = some (turn, w') → P w') (n : Nat) :
    P (a.found n) := by
  refine others n _ ?_
  induction n with
  | zero => exact first
  | succ n ih =>
    have kept : P (a.found n) := others n _ ih
    cases before : (a.state n).1 with
    | done result =>
      simp only [state, before]
      exact kept
    | going k =>
      cases move : step k (a.found n) with
      | none =>
        simp only [found] at move
        simp only [state, before, move, Option.getD_none]
        exact kept
      | some o =>
        have after := moves k _ o.1 o.2 kept move
        simp only [found] at move
        simp only [state, before, move, Option.getD_some]
        exact after

/-- What is under way has been under way, and has waited or made a move. -/
inductive Onward (a : Awaited κ) (n : Nat) (k' : κ) : Prop where
  | waited (going : a.turn n = .going k') (waits : step k' (a.found n) = none)
  | moved {k : κ} {w : ω} (going : a.turn n = .going k)
      (step : step k (a.found n) = some (.going k', w))

theorem onward (going : a.turn (n + 1) = .going k) : a.Onward n k := by
  cases before : a.turn n with
  | done result =>
    rw [turn_of_done before] at going
    cases going
  | going k' =>
    cases moves : step k' (a.found n) with
    | none =>
      rw [turn_of_waits before moves] at going
      cases going
      exact .waited before moves
    | some o =>
      obtain ⟨turn, w⟩ := o
      rw [turn_of_step before moves] at going
      cases going
      exact .moved before moves

theorem diary_of_done (done : a.turn n = .done result) : a.diary (n + 1) = a.diary n := by
  simp only [diary, done, List.append_nil]

theorem diary_of_going (going : a.turn n = .going k) :
    a.diary (n + 1) = a.diary n ++ (incidents k (a.found n)).map (a.time n, ·) := by
  simp only [diary, going]

/-- When it is over nothing more happens. -/
theorem rests (done : a.turn n = .done result) (later : n ≤ m) :
    a.turn m = .done result ∧ a.diary m = a.diary n := by
  induction later with
  | refl => exact ⟨done, rfl⟩
  | step _ ih => exact ⟨turn_of_done ih.1, (diary_of_done ih.1).trans ih.2⟩

namespace InTime

variable {deadline : Nat}

theorem of_onTime (prompt : a.time 0 = a.start) (onTime : ∀ n, a.onTime n = true)
    (endless : ∀ time, ∃ n, time ≤ a.time n) : a.InTime where
  prompt := prompt
  forward := by
    intro n
    obtain ⟨forward, -⟩ := Bool.and_eq_true_iff.1 (onTime n)
    exact of_decide_eq_true forward
  instant := by
    intro n k going moves
    have kept := onTime n
    simp only [Awaited.onTime, going, Bool.and_eq_true, Bool.or_eq_true, decide_eq_true_iff,
      Option.isNone_iff_eq_none] at kept
    exact kept.2.1.resolve_right moves
  timely := by
    intro n k going w timer early
    have kept := onTime n
    simp only [Awaited.onTime, going, Bool.and_eq_true, List.all_eq_true, Bool.or_eq_true,
      decide_eq_true_iff] at kept
    exact (kept.2.2 w timer).resolve_left (Nat.not_le.2 early)
  endless := endless

/-- Once it is over, time only has to go on. -/
theorem of_done (prompt : a.time 0 = a.start) (done : a.turn m = .done result)
    (early : ∀ n < m, a.onTime n = true) (late : ∀ n, m ≤ n → a.time n < a.time (n + 1)) :
    a.InTime := by
  refine of_onTime prompt ?_ ?_
  · intro n
    by_cases before : n < m
    · exact early n before
    · have after := Nat.le_of_not_lt before
      obtain ⟨ended, -⟩ := rests done after
      simp only [Awaited.onTime, ended, Bool.and_true, decide_eq_true_iff]
      exact Nat.le_of_lt (late n after)
  · intro time
    refine ⟨m + time, ?_⟩
    induction time with
    | zero => exact Nat.zero_le _
    | succ time ih => exact Nat.lt_of_le_of_lt ih (late (m + time) (Nat.le_add_right m time))

/-- What moves whenever a time is past cannot go on for ever: its moves take no time. -/
theorem not_forever (u : a.InTime) (stays : ∀ m, n ≤ m → ∃ k, a.turn m = .going k ∧
    (deadline ≤ a.time m → step k (a.found m) ≠ none)) : False := by
  have still : ∀ m, n ≤ m → deadline ≤ a.time m → a.time (m + 1) = a.time m := by
    intro m later due
    obtain ⟨k, going, moves⟩ := stays m later
    exact u.instant m k going (moves due)
  exact not_frozen u.forward u.endless still

/-- So what moves past its deadline comes to its end. -/
theorem ends (u : a.InTime) (moves : ∀ n k, a.turn n = .going k → deadline ≤ a.time n →
    step k (a.found n) ≠ none) : ∃ n k result w, a.turn n = .going k ∧
      step k (a.found n) = some (.done result, w) := by
  by_contra never
  have goes (m : Nat) : ∃ k, a.turn m = .going k := by
    induction m with
    | zero => exact ⟨a.first, rfl⟩
    | succ m ih =>
      obtain ⟨k, going⟩ := ih
      cases step : step k (a.found m) with
      | none => exact ⟨k, turn_of_waits going step⟩
      | some o =>
        obtain ⟨turn, w⟩ := o
        cases turn with
        | going k' => exact ⟨k', turn_of_step going step⟩
        | done result => exact absurd ⟨m, k, result, w, going, step⟩ never
  have stays (m : Nat) (_ : 0 ≤ m) : ∃ k, a.turn m = .going k ∧
      (deadline ≤ a.time m → step k (a.found m) ≠ none) := by
    obtain ⟨k, going⟩ := goes m
    exact ⟨k, going, moves m k going⟩
  exact u.not_forever stays

/-- What holds at the beginning, and is kept while it waits and with each move, holds as long as it
is under way. -/
theorem while_going {P : κ → List (Nat × ε) → Nat → Prop} (u : a.InTime)
    (first : P a.first (a.opening.map (a.start, ·)) a.start)
    (waits : ∀ n k later, P k (a.diary n) (a.time n) → step k (a.found n) = none →
      (∀ w ∈ wakes k, a.time n < w → later ≤ w) →
      P k (a.diary n ++ (incidents k (a.found n)).map (a.time n, ·)) later)
    (moves : ∀ n k k' w, P k (a.diary n) (a.time n) → step k (a.found n) = some (.going k', w) →
      P k' (a.diary n ++ (incidents k (a.found n)).map (a.time n, ·)) (a.time n))
    (going : a.turn n = .going k) : P k (a.diary n) (a.time n) := by
  induction n generalizing k with
  | zero =>
    cases going
    rw [u.prompt]
    exact first
  | succ n ih =>
    cases onward going with
    | waited before quiet =>
      rw [diary_of_going before]
      exact waits n k _ (ih before) quiet (u.timely n k before)
    | moved before move =>
      have instant := u.instant n _ before (Option.ne_none_iff_exists'.2 ⟨_, move⟩)
      rw [diary_of_going before, instant]
      exact moves n _ k _ (ih before) move

/-- Nothing in the diary is from later than now. -/
theorem diary_le (u : a.InTime) (n : Nat) : ∀ x ∈ a.diary n, x.1 ≤ a.time n := by
  induction n with
  | zero =>
    intro x mem
    obtain ⟨e, -, rfl⟩ := List.mem_map.1 mem
    exact Nat.le_of_eq u.prompt.symm
  | succ n ih =>
    intro x mem
    refine Nat.le_trans ?_ (u.forward n)
    rcases List.mem_append.1 mem with earlier | now
    · exact ih x earlier
    · split at now
      · cases now
      · obtain ⟨e, -, rfl⟩ := List.mem_map.1 now
        exact Nat.le_refl _

end InTime

end Awaited

end ChainHerald
