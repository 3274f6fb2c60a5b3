import ChainHerald.Source
import ChainHerald.Table

namespace ChainHerald

namespace Sample

/-- A made-up chain has one block of each height. -/
def blockHash (number : Nat) : Hash := digest (Bytes.ofNat 8 number)

def log (address : Address) (topics : List Hash) (block index : Nat) : Log :=
  ⟨address, topics, [], some block, some (blockHash block), some index, false⟩

def transaction (block index : Nat) : Hash := digest (Bytes.ofNat 8 block ++ Bytes.ofNat 8 index)

def head (number : Nat) : Head := ⟨number, blockHash number, blockHash (number - 1)⟩

end Sample

/-- A live subscription at the scripted node: what is under way to the reader, and which of the
two ends are there. -/
structure Wire where
  filter : Filter
  queue : List (Except ProviderError Log)
  connected : Bool
  read : Bool

/-- A node whose answers are arranged beforehand. -/
structure ScriptedChain where
  latest : Nat
  history : List Log
  wires : Table Nat Wire
  opened : List Filter
  failingSubscribes : Nat
  failingLogs : Nat
  failingLatest : Nat
  logDelay : Nat

namespace ScriptedChain

def new (latest : Nat) : ScriptedChain := ⟨latest, [], .empty, [], 0, 0, 0, 0⟩

def mapWires (c : ScriptedChain) (f : Wire → Wire) : ScriptedChain :=
  { c with wires := c.wires.entries.foldl (fun t (id, w) => t.insert id (f w)) c.wires }

/-- The node notices a reader that is gone when it has something to send. -/
def emit (c : ScriptedChain) (l : Log) : ScriptedChain :=
  c.mapWires fun w =>
    if !w.connected then w
    else if !w.read then { w with connected := false }
    else if w.filter.passes l then { w with queue := w.queue ++ [.ok l] }
    else w

def endSubscriptions (c : ScriptedChain) : ScriptedChain :=
  c.mapWires fun w => { w with connected := false }

def failSubscriptions (c : ScriptedChain) (e : ProviderError) : ScriptedChain :=
  c.mapWires fun w =>
    if w.connected && w.read then { w with queue := w.queue ++ [.error e], connected := false }
    else { w with connected := false }

def openSubscriptions (c : ScriptedChain) : Nat :=
  c.wires.values.countP fun w => w.connected && w.read

/-- Whether the subscription opened last names the address. -/
def lastCovers (c : ScriptedChain) (a : Address) : Bool :=
  match c.opened.getLast? with
  | none => false
  | some f => f.addresses.contains a

/-- A request under way. Whether it fails was settled when it was made. -/
structure Call (α : Type) where
  request : Request Nat α
  failing : Bool
  ready : Nat

def ask {α : Type} (r : Request Nat α) (clock : Clock) (c : ScriptedChain) :
    Call α × ScriptedChain :=
  match r.query with
  | .subscribe _ =>
    (⟨r, c.failingSubscribes != 0, clock.now⟩,
      { c with failingSubscribes := c.failingSubscribes - 1 })
  | .latest =>
    (⟨r, c.failingLatest != 0, clock.now⟩, { c with failingLatest := c.failingLatest - 1 })
  | .logs .. =>
    if c.failingLogs = 0 then (⟨r, false, clock.now + c.logDelay⟩, c)
    else (⟨r, true, clock.now⟩, { c with failingLogs := c.failingLogs - 1 })

def answer {α : Type} (c : ScriptedChain) (r : Request Nat α) : α × ScriptedChain :=
  match r with
  | .subscribe f =>
    let id := c.opened.length
    (id, { c with wires := c.wires.insert id ⟨f, [], true, true⟩, opened := c.opened ++ [f] })
  | .latest => (c.latest, c)
  | .logs f lo hi => (f.select lo hi c.history, c)

def step {α : Type} (call : Call α) (clock : Clock) (c : ScriptedChain) :
    Option (Turn (Call α) (Except ProviderError α) × ScriptedChain) :=
  if clock.now < call.ready then none
  else if call.failing then some (.done (.error .timeout), c)
  else
    let (a, c) := c.answer call.request
    some (.done (.ok a), c)

def read (wire : Nat) (c : ScriptedChain) : Option (Option FeedEvent × Nat × ScriptedChain) :=
  match c.wires.get? wire with
  | none => some (some .ended, wire, c)
  | some w =>
    let leave (queue : List (Except ProviderError Log)) : ScriptedChain :=
      { c with wires := c.wires.insert wire { w with queue } }
    match w.queue with
    | .ok l :: rest => some (some (.item l), wire, leave rest)
    | .error e :: rest => some (some (.failed e), wire, leave rest)
    | [] => if w.connected then none else some (some .ended, wire, c)

def release (wire : Nat) (c : ScriptedChain) : ScriptedChain :=
  match c.wires.get? wire with
  | none => c
  | some w => { c with wires := c.wires.insert wire { w with read := false } }

instance : Source ScriptedChain where
  Call := Call
  Feed := Nat
  ask := ask
  step := step
  due := fun call => [call.ready]
  read := fun wire _ c => read wire c
  feedDue := fun _ => []
  release := release

end ScriptedChain

end ChainHerald
