import ChainHerald.Provider.Rpc

namespace ChainHerald

variable {ν : Type} [Fleet ν] {α : Type}

/-- Awaits an operation: it moves if it can, and otherwise time passes until the first of its
timers ends. The fuel bounds its moves and waits. -/
def await {κ : Type} (step : κ → Clock → Providers ν → Option (Turn κ α × Providers ν))
    (wakes : κ → List Nat) :
    Nat → κ → Clock → Providers ν → Option (α × Clock × Providers ν)
  | 0, _, _, _ => none
  | fuel + 1, k, clock, r =>
    match step k clock r with
    | some (.done a, r) => some (a, clock, r)
    | some (.going k, r) => await step wakes fuel k clock r
    | none => (wakes k).min?.bind fun now => await step wakes fuel k { clock with now } r

namespace Round

/-- A failure and its pause use up a retry, and each can be waited for. -/
def bound (left : Nat) : Nat := 4 * left + 4

def await (k : Round ν α) (clock : Clock) (r : Providers ν) :
    Option (Except ProviderError α × Clock × Providers ν) :=
  ChainHerald.await step wakes (bound k.left) k clock r

end Round

namespace Sweeping

def bound (s : Sweeping ν α) (retries : Nat) : Nat :=
  match s with
  | .idle _ => 1
  | .active s => Round.bound s.round.left + s.rest.length * Round.bound retries

def await (s : Sweeping ν α) (clock : Clock) (r : Providers ν) :
    Option (Except ProviderError (α × Nat) × Clock × Providers ν) :=
  ChainHerald.await step wakes (s.bound r.policy.retries) s clock r

end Sweeping

def ProviderCall.await (c : ProviderCall ν α) (clock : Clock) (r : Providers ν) :
    Option (Except ProviderError α × Clock × Providers ν) :=
  ChainHerald.await step wakes (c.sweep.bound r.policy.retries) c clock r

end ChainHerald
