import ChainHerald.Broadcaster.Handle
import ChainHerald.Provider.Rpc

namespace ChainHerald

inductive HeadFeed.Phase (ν : Type) [Fleet ν] where
  | starting
  | opening (call : ProviderCall ν (Tap Head))
  | listening (subscription : Subscription ν Head) (recv : Recv ν Head)
  | ended (r : Except ProviderError Unit)

/-- The forwarding of new heads from the providers to a broadcaster. It holds a handle of the
broadcaster until it has ended. -/
structure HeadFeed (ν : Type) [Fleet ν] where
  phase : HeadFeed.Phase ν
  cancelled : Bool

variable {ν : Type} [Fleet ν]

namespace HeadFeed

def new : HeadFeed ν := ⟨.starting, false⟩

def isRunning (f : HeadFeed ν) : Bool :=
  match f.phase with
  | .ended _ => false
  | _ => true

variable [Answers ν] [Carrier ν Log] [Carrier ν Head]

def finish (f : HeadFeed ν) (r : Except ProviderError Unit) (b : Broadcaster (Providers ν)) :
    HeadFeed ν × Broadcaster (Providers ν) :=
  ({ f with phase := .ended r }, b.drop)

/-- One move, nothing if it has to wait. It can be cancelled once the subscription is open. -/
def step (f : HeadFeed ν) (b : Broadcaster (Providers ν)) :
    Option (HeadFeed ν × Broadcaster (Providers ν)) :=
  let clock := b.desk.clock
  let r := b.intake.source
  match f.phase with
  | .starting =>
    let (call, r) := ProviderCall.start .subscribeHeads clock r
    some ({ f with phase := .opening call }, b.withSource r)
  | .opening call =>
    (call.step clock r).map fun
      | (.going call, r) => ({ f with phase := .opening call }, b.withSource r)
      | (.done (.ok tap), r) =>
        ({ f with phase := .listening (.new (Answers.op .subscribeHeads) tap) .starting },
          b.withSource r)
      | (.done (.error e), r) => f.finish (.error e) (b.withSource r)
  | .listening subscription recv =>
    if f.cancelled then some (f.finish (.ok ()) (b.withSource (subscription.drop r)))
    else
      (subscription.step recv clock r).map fun
        | (.going recv, subscription, r) =>
          ({ f with phase := .listening subscription recv }, b.withSource r)
        | (.done (.ok h), subscription, r) =>
          ({ f with phase := .listening subscription .starting }, (b.withSource r).newHead h)
        | (.done (.error e), subscription, r) =>
          f.finish (.error e) (b.withSource (subscription.drop r))
  | .ended _ => none

def wakes (f : HeadFeed ν) : List Nat :=
  match f.phase with
  | .opening call => call.wakes
  | .listening _ recv => recv.wakes
  | _ => []

end HeadFeed

end ChainHerald
