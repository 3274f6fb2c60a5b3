import ChainHerald.Provider.Fleet

namespace ChainHerald

open Fleet (Op Try)

inductive Attempt (ν : Type) [Fleet ν] (α : Type) where
  | trying (t : Try ν α)
  | pausing (ready : Nat)

/-- One provider's bounded round of retries. -/
structure Round (ν : Type) [Fleet ν] (α : Type) where
  provider : Nat
  op : Op ν α
  deadline : Nat
  /-- Retries that are left. -/
  left : Nat
  backoff : Backoff
  attempt : Attempt ν α

variable {ν : Type} [Fleet ν] {α : Type}

namespace Round

def start (provider : Nat) (op : Op ν α) (clock : Clock) (r : Providers ν) :
    Round ν α × Providers ν :=
  let (t, fleet) := Fleet.begin provider op clock r.fleet
  (⟨provider, op, clock.now + r.policy.callTimeout, r.policy.retries, r.policy.backoff, .trying t⟩,
    { r with fleet })

/-- The deadline ends the round only if nothing else can happen at that time. -/
def expire (k : Round ν α) (clock : Clock) (r : Providers ν) :
    Option (Turn (Round ν α) (Except ProviderError α) × Providers ν) :=
  if k.deadline ≤ clock.now then some (.done (.error .timeout), r) else none

def step (k : Round ν α) (clock : Clock) (r : Providers ν) :
    Option (Turn (Round ν α) (Except ProviderError α) × Providers ν) :=
  match k.attempt with
  | .pausing ready =>
    if ready ≤ clock.now then
      let (t, fleet) := Fleet.begin k.provider k.op clock r.fleet
      some (.going { k with attempt := .trying t }, { r with fleet })
    else k.expire clock r
  | .trying t =>
    match Fleet.step t clock r.fleet with
    | none => k.expire clock r
    | some (.going t, fleet) => some (.going { k with attempt := .trying t }, { r with fleet })
    | some (.done (.ok a), fleet) => some (.done (.ok a), { r with fleet })
    | some (.done (.error e), fleet) =>
      match k.left with
      | 0 => some (.done (.error (.rpc e)), { r with fleet })
      | left + 1 =>
        let (pause, backoff) := k.backoff.next
        some (.going { k with left, backoff, attempt := .pausing (clock.now + pause) },
          { r with fleet })

def wakes (k : Round ν α) : List Nat :=
  k.deadline :: match k.attempt with
    | .pausing ready => [ready]
    | .trying t => (Fleet.due t).toList

end Round

end ChainHerald
