import ChainHerald.Chain

namespace ChainHerald

/-- The block ranges of at most `batch` blocks that are still to be asked for. -/
structure Ranges where
  start : Nat
  last : Nat
  batch : Nat
  exhausted : Bool
  deriving DecidableEq

namespace Ranges

def between (start last batch : Nat) : Ranges := ⟨start, last, max batch 1, last < start⟩

def remaining (r : Ranges) : Nat :=
  if r.exhausted then 0 else (r.last - r.start) / r.batch + 1

/-- Bounds for how many are left, for whoever takes them all. A count is a word like a number. -/
def sizeHint (r : Ranges) : Nat × Option Nat :=
  let count := min r.remaining maxNumber
  (count, some count)

/-- The next start is only computed below `last`, so it never leaves the block numbers. -/
def next (r : Ranges) : Option ((Nat × Nat) × Ranges) :=
  if r.exhausted then none
  else
    let stop := min (min (r.start + (r.batch - 1)) maxNumber) r.last
    some ((r.start, stop),
      if stop = r.last then { r with exhausted := true } else { r with start := stop + 1 })

end Ranges

/-- Where a restart begins to look for logs that the saved head had not settled. -/
def backfillStart (saved confirmations depth : Nat) : Nat := saved - confirmations - depth

end ChainHerald
