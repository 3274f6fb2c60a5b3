namespace ChainHerald

/-- A wait for all dependents. It looks at the count when it begins and again after changes;
`looked` says how many changes there had been by its last look. -/
inductive Wait where
  | begun
  | looked (changes : Nat)
  | done
  deriving DecidableEq

/-- What becomes of a sum that a machine word cannot hold. A build that checks its sums panics in
whoever calls, any other goes on with what is left of it. -/
inductive Overflow where
  | panics
  | wraps
  deriving DecidableEq

/-- Counts the dependents that still have to report ready. A surplus report is forgotten. -/
structure Gate where
  pending : UInt64
  /-- How often the count was set, be it to what it was before. -/
  changes : Nat
  waits : List Wait

namespace Gate

def new : Gate := ⟨0, 0, []⟩

def isOpen (g : Gate) : Bool := g.pending == 0

def set (g : Gate) (pending : UInt64) : Gate := { g with pending, changes := g.changes + 1 }

def hasRoom (g : Gate) (count : Nat) : Bool := g.pending.toNat + count < UInt64.size

/-- A call that panics has not touched the count. -/
def add (g : Gate) (count : Nat) (overflow : Overflow := .panics) : Gate :=
  if g.hasRoom count || overflow == .wraps then g.set (g.pending + .ofNat count) else g

def readyTimes (g : Gate) (times : Nat) : Gate := g.set (.ofNat (g.pending.toNat - times))

def ready (g : Gate) : Gate := g.readyTimes 1

def wait (g : Gate) : Gate := { g with waits := g.waits ++ [.begun] }

def verdict (g : Gate) : Wait := if g.isOpen then .done else .looked g.changes

/-- What a wait has come to, nothing if there is no reason to look. A count that was zero only in
passing ends no wait. -/
def look? (g : Gate) : Wait → Option Wait
  | .begun => some g.verdict
  | .looked n => if n = g.changes then none else some g.verdict
  | .done => none

/-- One wait looks, if it has reason to. -/
def step (g : Gate) (n : Nat) : Option Gate :=
  (g.waits[n]?.bind g.look?).map fun w => { g with waits := g.waits.set n w }

def isDone (g : Gate) (n : Nat) : Bool := g.waits[n]? == some .done

/-- Every wait looks. -/
def settle (g : Gate) : Gate := { g with waits := g.waits.map fun w => (g.look? w).getD w }

end Gate

end ChainHerald
