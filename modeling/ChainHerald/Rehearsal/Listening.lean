import ChainHerald.Provider.Actors
import ChainHerald.Provider.Await
import ChainHerald.Simulation

namespace ChainHerald.Rehearsal

/-- A receive of one's own starts anew when it was given up. That of a stream goes on, and the
stream is over after its first error. -/
inductive Manner where
  | single
  | stream (finished : Bool)
  deriving DecidableEq

/-- Items that will be sent. -/
structure Posting (ι : Type) where
  time : Nat
  provider : Nat
  items : List ι

/-- A subscription to scripted providers and its only reader. -/
structure Listening (ι : Type) where
  clock : Clock
  providers : Providers (Actors ι)
  subscription : Subscription (Actors ι) ι
  manner : Manner
  recv : Recv (Actors ι) ι
  /-- When the one who waits for the receive gives up. -/
  patience : Option Nat
  received : Option (Except ProviderError ι)
  postings : Table Nat (Posting ι)
  posted : Nat

namespace Listening

variable {ι : Type}

/-- Subscribes, on the primary provider first. -/
def subscribe (r : Providers (Actors ι)) (clock : Clock) :
    Option (Except ProviderError (Listening ι) × Clock × Providers (Actors ι)) :=
  let (sweep, r) := Sweep.failover Actors.subscribe true clock r
  (sweep.await clock r).map fun
    | (.ok (tap, _), clock, r) =>
      let subscription := .new Actors.subscribe tap
      (.ok ⟨clock, r, subscription, .single, .starting, none, none, .empty, 0⟩, clock, r)
    | (.error e, clock, r) => (.error e, clock, r)

/-- The one who waits gives up only if the receive cannot move. -/
def stepRecv (w : Listening ι) : Option (Listening ι) :=
  match w.patience with
  | none => none
  | some time =>
    match w.subscription.step w.recv w.clock w.providers with
    | some (.going recv, subscription, providers) =>
      some { w with recv, subscription, providers }
    | some (.done a, subscription, providers) =>
      some { w with
        subscription, providers
        recv := .starting
        patience := none
        received := some a
        manner := match w.manner, a with
          | .stream _, .error _ => .stream true
          | manner, _ => manner }
    | none => if time ≤ w.clock.now then some { w with patience := none } else none

/-- The receive moves until it has to wait. -/
def turn : Nat → Listening ι → Listening ι
  | 0, w => w
  | fuel + 1, w =>
    match w.stepRecv with
    | none => w
    | some w => turn fuel w

def recvWakes (w : Listening ι) : Option Nat :=
  w.patience.map fun time => (w.recv.wakes.min?.getD time).min time

def send (w : Listening ι) (provider : Nat) (items : List ι) :
    List (Option Bool) × Listening ι :=
  let (heard, fleet) := w.providers.fleet.send provider items
  (heard, { w with providers := { w.providers with fleet } })

def stepPosting (w : Listening ι) (n : Nat) : Option (Listening ι) :=
  match w.postings.get? n with
  | none => none
  | some p =>
    if p.time ≤ w.clock.now then
      some ({ w with postings := w.postings.erase n }.send p.provider p.items).2
    else none

instance : Machine (Listening ι) where
  Task := Nat
  same := inferInstance
  tasks w := w.postings.keys
  step n w := w.stepPosting n
  wakes n w := ((w.postings.get? n).map Posting.time).toList
  now w := w.clock.now
  setNow now w := { w with clock := { w.clock with now } }

inductive Step (ι : Type) where
  | send (provider : Nat) (items : List ι)
  | sendLater (provider time : Nat) (items : List ι)
  | close (provider : Nat)
  | script (provider : Nat) (cues : List (Cue ι))
  | recv (time : Nat)
  | isEmpty
  | intoStream
  | sleep (time : Nat)

inductive Answer (ι : Type) where
  | nothing
  | flag (b : Bool)
  | heard (hs : List (Option Bool))
  | received (r : Except ProviderError ι)
  | pending
  | ended

structure Report (ι : Type) where
  answer : Answer ι
  attempts : List (Nat × Nat)
  notices : List Notice
  world : Listening ι

def listen (time : Nat) (w : Listening ι) : Listening ι :=
  { w with
    patience := some (w.clock.now + time)
    received := none
    recv := match w.manner with
      | .single => .starting
      | .stream _ => w.recv }

def receive (s : Sim (Listening ι)) (time : Nat) : Answer ι × Sim (Listening ι) :=
  let s := (s.touch (listen time)).attend (turn Sim.patience) (·.patience.isNone) recvWakes
    Sim.patience
  (match s.world.received with
    | none => .pending
    | some r => .received r, s)

def withFleet (w : Listening ι) (f : Actors ι → Actors ι) : Listening ι :=
  { w with providers := { w.providers with fleet := f w.providers.fleet } }

def act (s : Sim (Listening ι)) : Step ι → Answer ι × Sim (Listening ι)
  | .send provider items =>
    (.heard (s.world.send provider items).1, s.touch fun w => (w.send provider items).2)
  | .sendLater provider time items =>
    (.nothing, (s.touch fun w =>
      { w with
        postings := w.postings.insert w.posted ⟨w.clock.now + time, provider, items⟩
        posted := w.posted + 1 }).settle)
  | .close provider =>
    (.flag (s.world.providers.fleet.ringOf provider).isSome,
      s.touch fun w => w.withFleet fun a => a.closeRing provider)
  | .script provider cues =>
    (.nothing, s.touch fun w => w.withFleet fun a => a.setScript provider cues)
  | .recv time =>
    match s.world.manner with
    | .stream true => (.ended, s)
    | _ => receive s time
  | .isEmpty =>
    match s.world.manner with
    | .single => (.flag (s.world.subscription.isEmpty s.world.providers), s)
    | .stream _ => (.nothing, s)
  | .intoStream =>
    (.nothing, s.touch fun w =>
      match w.manner with
      | .single => { w with manner := .stream false, recv := .starting }
      | .stream _ => w)
  | .sleep time => (.nothing, s.sleep time)

/-- Sends that are due wait until a step lets time pass or arranges another send. -/
def performAll (s : Sim (Listening ι)) : List (Step ι) → List (Report ι)
  | [] => []
  | step :: rest =>
    let before := s.world.providers
    let (answer, s) := act s step
    let after := s.world.providers
    ⟨answer, gained before.fleet.attempts.length after.fleet.attempts,
      gained before.notices.length after.notices, s.world⟩ :: performAll s rest

end Listening

end ChainHerald.Rehearsal
