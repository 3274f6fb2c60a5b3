import ChainHerald.Provider.Round

namespace ChainHerald

open Fleet (Op)

variable {ν : Type} [Fleet ν] {α : Type}

/-- Providers tried one after the other until one succeeds. -/
structure Sweep (ν : Type) [Fleet ν] (α : Type) where
  round : Round ν α
  rest : List Nat

/-- A sweep with nobody to try has failed before it began. -/
inductive Sweeping (ν : Type) [Fleet ν] (α : Type) where
  | idle (e : ProviderError)
  | active (s : Sweep ν α)

namespace Providers

def eligible (r : Providers ν) (pubsub : Bool) (provider : Nat) : Bool :=
  !pubsub || Fleet.pubsub r.fleet provider

/-- The primary provider, then the fallbacks in their order. -/
def everyone (r : Providers ν) (pubsub : Bool) : List Nat :=
  (List.range (r.policy.fallbacks + 1)).filter (r.eligible pubsub)

/-- The fallbacks from the one with the given index on. -/
def fallbacksFrom (r : Providers ν) (pubsub : Bool) (index : Nat) : List Nat :=
  ((List.range r.policy.fallbacks).drop index).map (· + 1) |>.filter (r.eligible pubsub)

end Providers

namespace Sweep

/-- The last error is what remains if nobody is there to be tried. -/
def start (op : Op ν α) (candidates : List Nat) (lastError : ProviderError) (clock : Clock)
    (r : Providers ν) : Sweeping ν α × Providers ν :=
  match candidates with
  | [] => (.idle lastError, r)
  | p :: rest =>
    let (round, r) := Round.start p op clock r
    (.active ⟨round, rest⟩, r)

/-- Over every provider; without one that qualifies the lack of subscriptions is the error. -/
def failover (op : Op ν α) (pubsub : Bool) (clock : Clock) (r : Providers ν) :
    Sweeping ν α × Providers ν :=
  start op (r.everyone pubsub) (.rpc .pubsubUnavailable) clock r

def fallbacks (op : Op ν α) (pubsub : Bool) (lastError : ProviderError) (index : Nat)
    (clock : Clock) (r : Providers ν) : Sweeping ν α × Providers ν :=
  start op (r.fallbacksFrom pubsub index) lastError clock r

end Sweep

namespace Sweeping

/-- The answer comes with the number of the provider that gave it. -/
def step (s : Sweeping ν α) (clock : Clock) (r : Providers ν) :
    Option (Turn (Sweeping ν α) (Except ProviderError (α × Nat)) × Providers ν) :=
  match s with
  | .idle e => some (.done (.error e), r)
  | .active s =>
    match s.round.step clock r with
    | none => none
    | some (.going round, r) => some (.going (.active { s with round }), r)
    | some (.done (.ok a), r) => some (.done (.ok (a, s.round.provider)), r)
    | some (.done (.error e), r) =>
      let r := if s.round.provider = 0 then r else r.notice (.fallbackFailed s.round.provider e)
      match s.rest with
      | [] => some (.done (.error e), r)
      | p :: rest =>
        let (round, r) := Round.start p s.round.op clock r
        some (.going (.active ⟨round, rest⟩), r)

def wakes : Sweeping ν α → List Nat
  | .idle _ => []
  | .active s => s.round.wakes

end Sweeping

end ChainHerald
