import ChainHerald.Provider.Subscription

namespace ChainHerald

/-- What a broadcaster asks of a provider. -/
inductive Rpc : Type → Type where
  | latest : Rpc Nat
  | logs (f : Filter) (lo hi : Nat) : Rpc (List Log)
  | subscribeLogs (f : Filter) : Rpc (Tap Log)
  | subscribeHeads : Rpc (Tap Head)

namespace Rpc

def method {α : Type} : Rpc α → Method
  | .latest => .blockNumber
  | .logs .. => .getLogs
  | .subscribeLogs _ | .subscribeHeads => .subscribe

def needsPubsub {α : Type} : Rpc α → Bool
  | .latest | .logs .. => false
  | .subscribeLogs _ | .subscribeHeads => true

end Rpc

/-- Providers that answer these requests. -/
class Answers (ν : Type) [Fleet ν] where
  op {α : Type} : Rpc α → Fleet.Op ν α

/-- A request to the providers, on the primary first. Its failure is worth a notice. -/
structure ProviderCall (ν : Type) [Fleet ν] (α : Type) where
  method : Method
  sweep : Sweeping ν α

variable {ν : Type} [Fleet ν] {α : Type}

namespace ProviderCall

def start [Answers ν] (q : Rpc α) (clock : Clock) (r : Providers ν) :
    ProviderCall ν α × Providers ν :=
  let (sweep, r) := Sweep.failover (Answers.op q) q.needsPubsub clock r
  (⟨q.method, sweep⟩, r)

def step (c : ProviderCall ν α) (clock : Clock) (r : Providers ν) :
    Option (Turn (ProviderCall ν α) (Except ProviderError α) × Providers ν) :=
  match c.sweep.step clock r with
  | none => none
  | some (.going sweep, r) => some (.going { c with sweep }, r)
  | some (.done (.ok (a, _)), r) => some (.done (.ok a), r)
  | some (.done (.error e), r) => some (.done (.error e), r.notice (.callFailed c.method e))

def wakes (c : ProviderCall ν α) : List Nat := c.sweep.wakes

end ProviderCall

namespace Providers

/-- A subscription read as a feed. It is over after its first error. -/
structure LogFeed (ν : Type) [Fleet ν] where
  subscription : Subscription ν Log
  recv : Recv ν Log
  finished : Bool

/-- The requests of a broadcaster, as requests to the providers. -/
inductive Call (ν : Type) [Fleet ν] : Type → Type where
  | subscribe (f : Filter) (c : ProviderCall ν (Tap Log)) : Call ν (LogFeed ν)
  | latest (c : ProviderCall ν Nat) : Call ν Nat
  | logs (c : ProviderCall ν (List Log)) : Call ν (List Log)

variable [Answers ν]

def ask : {α : Type} → Request (LogFeed ν) α → Clock → Providers ν → Call ν α × Providers ν
  | _, .subscribe f, clock, r =>
    let (c, r) := ProviderCall.start (.subscribeLogs f) clock r
    (.subscribe f c, r)
  | _, .latest, clock, r =>
    let (c, r) := ProviderCall.start .latest clock r
    (.latest c, r)
  | _, .logs f lo hi, clock, r =>
    let (c, r) := ProviderCall.start (.logs f lo hi) clock r
    (.logs c, r)

def stepCall : {α : Type} → Call ν α → Clock → Providers ν →
    Option (Turn (Call ν α) (Except ProviderError α) × Providers ν)
  | _, .subscribe f c, clock, r =>
    (c.step clock r).map fun
      | (.going c, r) => (.going (.subscribe f c), r)
      | (.done (.ok tap), r) =>
        (.done (.ok ⟨.new (Answers.op (.subscribeLogs f)) tap, .starting, false⟩), r)
      | (.done (.error e), r) => (.done (.error e), r)
  | _, .latest c, clock, r =>
    (c.step clock r).map fun
      | (.going c, r) => (.going (.latest c), r)
      | (.done a, r) => (.done a, r)
  | _, .logs c, clock, r =>
    (c.step clock r).map fun
      | (.going c, r) => (.going (.logs c), r)
      | (.done a, r) => (.done a, r)

def callWakes {α : Type} : Call ν α → List Nat
  | .subscribe _ c => c.wakes
  | .latest c => c.wakes
  | .logs c => c.wakes

variable [Carrier ν Log]

def read (feed : LogFeed ν) (clock : Clock) (r : Providers ν) :
    Option (Option FeedEvent × LogFeed ν × Providers ν) :=
  if feed.finished then some (some .ended, feed, r)
  else
    (feed.subscription.step feed.recv clock r).map fun
      | (.going recv, subscription, r) => (none, { feed with subscription, recv }, r)
      | (.done (.ok l), subscription, r) =>
        (some (.item l), { feed with subscription, recv := .starting }, r)
      | (.done (.error e), subscription, r) =>
        (some (.failed e), { feed with subscription, finished := true }, r)

instance : Source (Providers ν) where
  Call := Call ν
  Feed := LogFeed ν
  ask := ask
  step := stepCall
  due := callWakes
  read := read
  feedDue := fun feed => if feed.finished then [] else feed.recv.wakes
  release := fun feed r => feed.subscription.drop r

end Providers

end ChainHerald
