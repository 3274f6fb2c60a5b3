import ChainHerald.Chain
import ChainHerald.Table

namespace ChainHerald

/-- What tells the logs of one height apart: the hash of the block, and the index in it. -/
structure Slot where
  hash : Hash
  index : Nat
  deriving DecidableEq

instance : Ord Slot where
  compare := compareLex (compareOn Slot.hash) (compareOn Slot.index)

instance : Std.TransOrd Slot := inferInstanceAs (Std.TransCmp (compareLex _ _))

def Position.slot (pos : Position) : Slot := ⟨pos.hash, pos.index⟩

/-- Logs waiting for confirmations, by height. A backfilled and a live copy of one log share their
position, so they are held once; copies in competing blocks are held apart. A height without logs
is not in the pool, so the lowest and the highest one always have some. -/
structure Pool where
  heights : Table Nat (Table Slot Log)
  filled : ∀ e ∈ heights.entries, e.2.isEmpty = false

namespace Pool

def empty : Pool := ⟨.empty, fun _ => nofun⟩

def size (p : Pool) : Nat := p.heights.values.foldr (fun ls n => ls.size + n) 0

def isEmpty (p : Pool) : Bool := p.heights.isEmpty

def logsAt (p : Pool) (height : Nat) : Table Slot Log := (p.heights.get? height).getD .empty

def get? (p : Pool) (pos : Position) : Option Log := (p.logsAt pos.block).get? pos.slot

/-- The logs of one height, in chain order: by index, and by hash where blocks compete. -/
def sorted (height : Nat) (logs : Table Slot Log) : Table Position Log :=
  .ofList (logs.entries.map fun (slot, l) => (⟨height, slot.index, slot.hash⟩, l))

/-- What is held, in chain order. -/
def entries (p : Pool) : List (Position × Log) :=
  p.heights.entries.flatMap fun (height, logs) => (sorted height logs).entries

def logs (p : Pool) : List Log := p.entries.map (·.2)

def put (p : Pool) (pos : Position) (l : Log) : Pool where
  heights := p.heights.insert pos.block ((p.logsAt pos.block).insert pos.slot l)
  filled e he := by
    rcases Table.mem_place he with rfl | he
    · exact Table.isEmpty_insert ..
    · exact p.filled e he

/-- Whether the log is held now. One without a position never is. -/
def add (p : Pool) (l : Log) : Bool × Pool :=
  match l.position? with
  | none => (false, p)
  | some pos => (true, p.put pos l)

def addAll (p : Pool) (ls : List Log) : Pool := ls.foldl (fun p l => (p.add l).2) p

/-- Only some heights. -/
def only (p : Pool) (keep : Nat → Bool) : Pool where
  heights := p.heights.filter fun height _ => keep height
  filled e he := p.filled e (List.mem_filter.1 he).1

/-- With its last log a height goes. -/
def clear (p : Pool) (pos : Position) : Pool :=
  match p.heights.get? pos.block with
  | none => p
  | some logs =>
    let left := logs.erase pos.slot
    if some : left.isEmpty = false then
      { heights := p.heights.insert pos.block left
        filled := by
          intro e he
          rcases Table.mem_place he with rfl | he
          · exact some
          · exact p.filled e he }
    else p.only (· != pos.block)

def remove (p : Pool) (l : Log) : Pool :=
  match l.position? with
  | none => p
  | some pos => p.clear pos

def upTo (p : Pool) (block : Nat) : Pool := p.only (· ≤ block)

/-- Drops every log below `block`. -/
def since (p : Pool) (block : Nat) : Pool := p.only (block ≤ ·)

def lowest? (p : Pool) : Option Nat := p.heights.first?.map (·.1)

def highest? (p : Pool) : Option Nat := p.heights.last?.map (·.1)

/-- The logs mined up to `block`, with the lowest block among them. -/
def ready? (p : Pool) (block : Nat) : Option (List Log × Nat) :=
  (p.upTo block).lowest?.map fun lowest => ((p.upTo block).logs, lowest)

/-- Takes all logs out, with the lowest and the highest block. -/
def takeAll (p : Pool) : Option (List Log × Nat × Nat) × Pool :=
  (match p.lowest?, p.highest? with
    | some lowest, some highest => some (p.logs, lowest, highest)
    | _, _ => none,
    empty)

end Pool

end ChainHerald
