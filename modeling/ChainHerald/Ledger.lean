import ChainHerald.Fault
import ChainHerald.Table

namespace ChainHerald

/-- That a job is done with a log of this block. -/
structure Marker where
  block : Nat
  key : Key
  deriving DecidableEq

instance : Ord Marker where
  compare := compareLex (compareOn Marker.block) (compareOn Marker.key)

instance : Std.TransOrd Marker := inferInstanceAs (Std.TransCmp (compareLex _ _))

/-- The markers, and how many of the coming accesses are going to fail. -/
structure Ledger where
  markers : Members Marker
  failingReads : Nat
  failingMarks : Nat
  failingLookups : Nat
  failedReads : Nat

namespace Ledger

def empty : Ledger := ⟨.empty, 0, 0, 0, 0⟩

def readError : LedgerError := ⟨"find_consumed", "ledger unavailable"⟩

def markError : LedgerError := ⟨"mark_consumed", "disk full"⟩

def lookupError : LedgerError := ⟨"was_consumed", "lookup refused"⟩

def holds (g : Ledger) (k : Key) : Bool := g.markers.keys.any fun m => m.key == k

/-- Keys marked for a block from `lo` to `hi`. -/
def within (g : Ledger) (lo hi : Nat) : Members Key :=
  Members.ofList ((g.markers.keys.filter fun m => decide (lo ≤ m.block ∧ m.block ≤ hi)).map (·.key))

def put (g : Ledger) (k : Key) (block : Nat) : Ledger :=
  { g with markers := g.markers.add ⟨block, k⟩ }

def find (g : Ledger) (lo hi : Nat) : Except LedgerError (Members Key) × Ledger :=
  match g.failingReads with
  | 0 => (.ok (g.within lo hi), g)
  | n + 1 => (.error readError, { g with failingReads := n, failedReads := g.failedReads + 1 })

def mark (g : Ledger) (k : Key) (block : Nat) : Except LedgerError Unit × Ledger :=
  match g.failingMarks with
  | 0 => (.ok (), g.put k block)
  | n + 1 => (.error markError, { g with failingMarks := n })

def was (g : Ledger) (k : Key) : Except LedgerError Bool × Ledger :=
  match g.failingLookups with
  | 0 => (.ok (g.holds k), g)
  | n + 1 => (.error lookupError, { g with failingLookups := n })

end Ledger

end ChainHerald
