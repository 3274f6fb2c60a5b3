import ChainHerald.Backoff
import Mathlib.Algebra.Group.Nat.Defs
import Mathlib.Data.List.Induction

/-!
# Attempts and the pauses between them

`Backoff.after` is how far the pauses have got after so many failures, `Backoff.delay` the pause
that is next then. The first pause is the least one even if that is more than the most; the others
keep to the most. `attempts` is what becomes of a request that is repeated after each failure.
-/

namespace ChainHerald

namespace Backoff

variable {least most : Nat}

/-- The pauses after so many failures. -/
def after (least most : Nat) : Nat → Backoff
  | 0 => .start least most
  | failures + 1 => (after least most failures).next.2

/-- The pause that follows the failure with this number, the first of which is number 0. -/
def delay (least most : Nat) : Nat → Nat
  | 0 => least
  | k + 1 => min (2 ^ (k + 1) * least) most

/-- A pause below the most is doubled, and any other has been there already. -/
theorem delay_succ (k : Nat) : delay least most (k + 1) =
    min (if delay least most k < most then 2 * delay least most k else delay least most k)
      most := by
  have doubled (k : Nat) : 2 ^ (k + 1) * least = 2 * (2 ^ k * least) := by
    rw [Nat.pow_succ, Nat.mul_comm _ 2, Nat.mul_assoc]
  rcases Nat.lt_or_ge (delay least most k) most with below | beyond
  · rw [if_pos below]
    cases k with
    | zero => rfl
    | succ k =>
      simp only [delay, doubled (k + 1)] at below ⊢
      omega
  · rw [if_neg (Nat.not_lt.2 beyond)]
    cases k with
    | zero =>
      simp only [delay] at beyond ⊢
      omega
    | succ k =>
      simp only [delay, doubled (k + 1)] at beyond ⊢
      omega

theorem after_succ (k : Nat) :
    after least most (k + 1) = ⟨least, most, some (delay least most k)⟩ := by
  induction k with
  | zero => rfl
  | succ k ih => rw [after, ih, delay_succ, next, pause]

@[simp]
theorem pause_after (k : Nat) : (after least most k).pause = delay least most k := by
  cases k with
  | zero => rfl
  | succ k => rw [after_succ, delay_succ, pause]

theorem delay_succ_le (k : Nat) : delay least most (k + 1) ≤ most := Nat.min_le_right _ _

/-- From the second pause on none is shorter than the one before. -/
theorem delay_succ_mono (k : Nat) : delay least most (k + 1) ≤ delay least most (k + 2) := by
  rw [delay_succ (k + 1)]
  have le : delay least most (k + 1) ≤ most := delay_succ_le k
  split <;> omega

/-- As long as the bounds are in order the pauses keep to them. -/
theorem delay_le (ordered : least ≤ most) (k : Nat) : delay least most k ≤ most := by
  cases k with
  | zero => exact ordered
  | succ k => exact delay_succ_le k

theorem delay_mono (ordered : least ≤ most) (k : Nat) :
    delay least most k ≤ delay least most (k + 1) := by
  cases k with
  | zero =>
    simp only [delay]
    omega
  | succ k => exact delay_succ_mono k

end Backoff

/-- What comes to pass with a request: it is made, it fails, or it is answered. -/
inductive Incident (φ α : Type) where
  | asked
  | refused (e : φ)
  | answered (a : α)
  deriving DecidableEq

variable {φ α : Type}

def Incident.isAsked : Incident φ α → Bool
  | .asked => true
  | _ => false

/-- A request that was first made at this time and has failed at those, and that is made once more
after each pause. -/
def attempts (delay : Nat → Nat) (start : Nat) (failures : List (Nat × φ)) :
    List (Nat × Incident φ α) :=
  (start, .asked) :: failures.zipIdx.flatMap fun failure =>
    [(failure.1.1, .refused failure.1.2), (failure.1.1 + delay failure.2, .asked)]

variable {delay : Nat → Nat} {start time : Nat} {failures : List (Nat × φ)} {e : φ}

theorem attempts_concat : (attempts delay start (failures ++ [(time, e)]) :
      List (Nat × Incident φ α)) = attempts delay start failures ++
    [(time, .refused e), (time + delay failures.length, .asked)] := by
  simp [attempts, List.zipIdx_append]

/-- One attempt for each failure, besides the first one. -/
theorem countP_attempts : (attempts delay start failures : List (Nat × Incident φ α)).countP
    (·.2.isAsked) = failures.length + 1 := by
  induction failures using List.reverseRecOn with
  | nil => rfl
  | append_singleton failures failure ih =>
    obtain ⟨time, e⟩ := failure
    rw [attempts_concat, List.countP_append, ih, List.length_append]
    rfl

end ChainHerald
