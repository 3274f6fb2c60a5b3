import ChainHerald.Provider.Subscription

namespace ChainHerald

/-- What an actor does when it is asked. Without a text it fails as if its backend were gone. -/
inductive Cue (ι : Type) where
  | succeed (value : ι) (time : Nat)
  | fail (text : Option String) (time : Nat)
  | hang

/-- A provider that plays a script. -/
structure Actor (ι : Type) where
  pubsub : Bool
  script : List (Cue ι)
  ring : Option Nat

/-- Scripted providers, with the record of who was asked when, newest first. -/
structure Actors (ι : Type) where
  cast : Table Nat (Actor ι)
  capacity : Nat
  rings : Rings ι
  attempts : List (Nat × Nat)

/-- An actor gives the scripted value, or opens a notification channel. -/
inductive Actors.Op (ι : Type) : Type → Type where
  | perform : Op ι ι
  | subscribe : Op ι (Tap ι)

/-- A try under way; `cue` is missing if the script had come to its end. -/
structure Actors.Try (ι α : Type) where
  op : Actors.Op ι α
  provider : Nat
  cue : Option (Cue ι)
  started : Nat

namespace Actors

variable {ι : Type}

def new (cast : List (Actor ι)) (capacity : Nat) : Actors ι :=
  ⟨.ofList ((List.range cast.length).zip cast), capacity, .empty, []⟩

def pubsub (a : Actors ι) (provider : Nat) : Bool :=
  ((a.cast.get? provider).map Actor.pubsub).getD false

def begin {α : Type} (provider : Nat) (op : Op ι α) (clock : Clock) (a : Actors ι) :
    Try ι α × Actors ι :=
  let attempts := (provider, clock.now) :: a.attempts
  match a.cast.get? provider with
  | none => (⟨op, provider, none, clock.now⟩, { a with attempts })
  | some actor =>
    (⟨op, provider, actor.script.head?, clock.now⟩,
      { a with
        attempts
        cast := a.cast.insert provider { actor with script := actor.script.tail } })

def ready {α : Type} (t : Try ι α) : Option Nat :=
  match t.cue with
  | none => some t.started
  | some (.succeed _ time) | some (.fail _ time) => some (t.started + time)
  | some .hang => none

def closeRing (a : Actors ι) (provider : Nat) : Actors ι :=
  match a.cast.get? provider with
  | some ⟨pubsub, script, some ring⟩ =>
    { a with
      rings := a.rings.update ring Ring.close
      cast := a.cast.insert provider ⟨pubsub, script, none⟩ }
  | _ => a

/-- A fresh channel takes the place of the one the provider had. -/
def openRing (a : Actors ι) (provider : Nat) : Tap ι × Actors ι :=
  let a := a.closeRing provider
  let ring := a.rings.size
  let (tap, rings) := Rings.attach (Table.insert a.rings ring (.new a.capacity)) ring
  (tap,
    match a.cast.get? provider with
    | none => { a with rings }
    | some actor =>
      { a with rings, cast := a.cast.insert provider { actor with ring := some ring } })

def failure : Option String → RpcFault
  | none => .backendGone
  | some text => .other text

def finish {α : Type} (t : Try ι α) (a : Actors ι) : Except RpcFault α × Actors ι :=
  match t.op, t.cue with
  | _, some (.fail text _) => (.error (failure text), a)
  | _, some .hang => (.error .backendGone, a)
  | .perform, some (.succeed value _) => (.ok value, a)
  | .perform, none => (.error (.other "script exhausted"), a)
  | .subscribe, _ =>
    let (tap, a) := a.openRing t.provider
    (.ok tap, a)

def step {α : Type} (t : Try ι α) (clock : Clock) (a : Actors ι) :
    Option (Turn (Try ι α) (Except RpcFault α) × Actors ι) :=
  if (ready t).any (· ≤ clock.now) then
    let (result, a) := finish t a
    some (.done result, a)
  else none

instance : Fleet (Actors ι) where
  Op := Op ι
  Try := Try ι
  pubsub := pubsub
  begin := begin
  step := step
  due := ready

/-- An actor gives the value of its script. -/
def perform : Fleet.Op (Actors ι) ι := Op.perform

def subscribe : Fleet.Op (Actors ι) (Tap ι) := Op.subscribe

instance : Carrier (Actors ι) ι where
  rings := rings
  setRings := fun rings a => { a with rings }

def ringOf (a : Actors ι) (provider : Nat) : Option Nat := (a.cast.get? provider).bind Actor.ring

/-- For each item whether somebody was there to get it; nothing without a channel. -/
def send (a : Actors ι) (provider : Nat) : List ι → List (Option Bool) × Actors ι
  | [] => ([], a)
  | i :: rest =>
    match (a.ringOf provider).bind fun ring => (Table.get? a.rings ring).map fun r => (ring, r) with
    | none =>
      let (sent, a) := a.send provider rest
      (none :: sent, a)
    | some (ring, r) =>
      let (heard, r) := r.send i
      let (sent, a) := { a with rings := Table.insert a.rings ring r }.send provider rest
      (some heard :: sent, a)

def setScript (a : Actors ι) (provider : Nat) (script : List (Cue ι)) : Actors ι :=
  match a.cast.get? provider with
  | none => a
  | some actor => { a with cast := a.cast.insert provider { actor with script } }

end Actors

end ChainHerald
