import ChainHerald.Ledger
import ChainHerald.Listener
import ChainHerald.Notice

namespace ChainHerald

/-- Timers run on `now`, in milliseconds; the wall clock only decides when a lost primary provider
is due another try. -/
structure Clock where
  now : Nat
  wall : Nat
  deriving DecidableEq

/-- Which logs a node is asked for. An empty list lets everything pass, except that a log without
topics passes no list of signatures. -/
structure Filter where
  addresses : List Address
  signatures : List Hash
  deriving DecidableEq

/-- Every address and every signature counts once. -/
def Filter.of (addresses : List Address) (signatures : List Hash) : Filter :=
  ⟨(Members.ofList addresses).keys, (Members.ofList signatures).keys⟩

def Filter.passes (f : Filter) (l : Log) : Bool :=
  (f.addresses.isEmpty || f.addresses.contains l.address) &&
    match l.topics with
    | [] => f.signatures.isEmpty
    | t :: _ => f.signatures.isEmpty || f.signatures.contains t

/-- The logs that pass, from the blocks `lo` to `hi`. -/
def Filter.select (f : Filter) (lo hi : Nat) (logs : List Log) : List Log :=
  logs.filter fun l =>
    (match l.block with
      | none => false
      | some b => decide (lo ≤ b ∧ b ≤ hi)) && f.passes l

/-- A request to a node. -/
inductive Query where
  | subscribe (f : Filter)
  | latest
  | logs (f : Filter) (lo hi : Nat)
  deriving DecidableEq

def Query.method : Query → Method
  | .subscribe _ => .subscribe
  | .latest => .blockNumber
  | .logs .. => .getLogs

/-- Something that happened. `handed` is the call of a listener, `recorded` what it kept. -/
inductive Entry where
  | notice (n : Notice)
  | asked (time : Nat) (q : Query)
  | handed (registration : Nat) (b : Broadcast)
  | recorded (listener : Listener) (b : Broadcast)

/-- What a record whose newest entry comes first has gained since it had `seen` entries, oldest
first. -/
def gained {α : Type} (seen : Nat) (record : List α) : List α :=
  (record.take (record.length - seen)).reverse

/-- What every part of a broadcaster shares. The journal's newest entry comes first. -/
structure Desk where
  clock : Clock
  cancelled : Bool
  ledger : Ledger
  journal : List Entry

namespace Desk

def new (clock : Clock) (ledger : Ledger) : Desk := ⟨clock, false, ledger, []⟩

def write (d : Desk) (e : Entry) : Desk := { d with journal := e :: d.journal }

def notice (d : Desk) (n : Notice) : Desk := d.write (.notice n)

def find (d : Desk) (lo hi : Nat) : Except LedgerError (Members Key) × Desk :=
  ((d.ledger.find lo hi).1, { d with ledger := (d.ledger.find lo hi).2 })

def mark (d : Desk) (k : Key) (block : Nat) : Except LedgerError Unit × Desk :=
  ((d.ledger.mark k block).1, { d with ledger := (d.ledger.mark k block).2 })

def was (d : Desk) (k : Key) : Except LedgerError Bool × Desk :=
  ((d.ledger.was k).1, { d with ledger := (d.ledger.was k).2 })

/-- What a listener does with a broadcast. A lookup that fails counts as not consumed, a mark that
fails is forgotten. -/
def receive (d : Desk) (l : Listener) (b : Broadcast) : Desk :=
  let record (d : Desk) : Desk := d.write (.recorded l b)
  let kept :=
    if l.marking then
      match d.was b.key with
      | (.ok true, d) => d
      | (_, d) => ((record d).mark b.key b.block).2
    else record d
  { kept with cancelled := kept.cancelled || l.cancels }

end Desk

end ChainHerald
