import ChainHerald.Listener

namespace ChainHerald

/-- How many hold each key. A key that nobody holds is not in the table. -/
abbrev Tally (κ : Type) [Ord κ] := Table κ Nat

namespace Tally

variable {κ : Type} [Ord κ] [Std.TransOrd κ]

def count (t : Tally κ) (k : κ) : Nat := (Table.get? t k).getD 0

def up (t : Tally κ) (k : κ) : Tally κ := Table.insert t k (t.count k + 1)

def down (t : Tally κ) (k : κ) : Tally κ :=
  match t.count k with
  | 0 | 1 => Table.erase t k
  | n + 2 => Table.insert t k (n + 1)

end Tally

/-- The live registrations, and the node filter that they add up to. -/
structure Registry where
  live : Table Nat Registration
  topics : Table Address (Tally Hash)
  depths : Tally Nat

namespace Registry

def empty : Registry := ⟨.empty, .empty, .empty⟩

def size (r : Registry) : Nat := r.live.size

def topicsOf (r : Registry) (contract : Address) : Tally Hash :=
  (r.topics.get? contract).getD .empty

/-- Whether the filter grows, and the registry with the registration. -/
def add (r : Registry) (g : Registration) : Bool × Registry :=
  let held := r.topicsOf g.options.contract
  let signatures := g.options.filters.keys
  (signatures.any fun t => held.count t == 0,
   { live := r.live.insert g.id g
     topics := r.topics.insert g.options.contract (signatures.foldl Tally.up held)
     depths := r.depths.up g.options.confirmations })

/-- Whether the filter shrinks, and the registry without the registration. A contract that nobody
names any more is forgotten. -/
def remove (r : Registry) (id : Nat) : Bool × Registry :=
  match r.live.get? id with
  | none => (false, r)
  | some g =>
    let contract := g.options.contract
    let held := r.topicsOf contract
    let signatures := g.options.filters.keys
    let left := signatures.foldl Tally.down held
    (signatures.any fun t => held.count t == 1,
     { live := r.live.erase id
       topics := if left.isEmpty then r.topics.erase contract else r.topics.insert contract left
       depths := r.depths.down g.options.confirmations })

def addresses (r : Registry) : List Address := r.topics.keys

/-- Every signature that some registration names, each once, ascending. -/
def signatures (r : Registry) : List Hash :=
  (Members.ofList (r.topics.values.flatMap Table.keys)).keys

def covers (r : Registry) (contract : Address) : Bool := r.topics.contains contract

/-- The deepest confirmation requirement, zero when nobody waits. -/
def depth (r : Registry) : Nat := (r.depths.last?.map (·.1)).getD 0

end Registry

/-- A log above the head is never confirmed, whatever is required. -/
def isConfirmed (head block required : Nat) : Bool :=
  decide (block ≤ head) && decide (required ≤ head - block)

end ChainHerald
