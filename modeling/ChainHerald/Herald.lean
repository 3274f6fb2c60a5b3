import ChainHerald.Dispatch
import ChainHerald.Pool

namespace ChainHerald

/-- A change to the registry, applied in the order of delivery. -/
inductive Change where
  | add (g : Registration)
  | remove (id : Nat)

/-- What logs, heads and registration changes act on. -/
structure Herald where
  registry : Registry
  pool : Pool
  head : Option Head
  /-- The node filter has changed since it was last sent. -/
  stale : Bool
  finality : Nat

/-- Distance from the head beyond which an arriving log is remarkable. -/
def farAway : Nat := 1000

namespace Herald

def new (finality : Nat) : Herald := ⟨.empty, .empty, none, false, finality⟩

def apply (e : Herald) (c : Change) : Herald :=
  let (moved, registry) := match c with
    | .add g => e.registry.add g
    | .remove id => e.registry.remove id
  { e with registry, stale := e.stale || moved }

def filter (e : Herald) : Filter := ⟨e.registry.addresses, e.registry.signatures⟩

def retention (e : Herald) : Nat := max e.finality e.registry.depth

/-- Nobody waits for confirmations: what is due leaves the pool for good, unless the ledger cannot
be read. -/
def drain (e : Herald) (d : Desk) (h : Head) : Option Pass × Herald × Desk :=
  match e.pool.takeAll with
  | (none, _) => (none, e, d)
  | (some (logs, _), pool) =>
    let (due, ahead) := logs.partition fun l => l.block.any (· ≤ h.number)
    let pool := pool.addAll ahead
    match (due.filterMap Log.block).min? with
    | none => (none, { e with pool }, d)
    | some lowest =>
      match d.find lowest h.number with
      | (.error err, d) =>
        (none, { e with pool := pool.addAll due },
          d.notice (.consumedUnavailable lowest h.number err))
      | (.ok consumed, d) =>
        (some (.start h (e.registry.offers due h consumed) none), { e with pool }, d)

/-- Logs stay pooled until they are older than finality and than every requirement, since a later
head may confirm them for somebody else. -/
def retain (e : Herald) (d : Desk) (h : Head) : Option Pass × Herald × Desk :=
  match e.pool.ready? h.number with
  | none => (none, e, d)
  | some (logs, lowest) =>
    match d.find lowest h.number with
    | (.error err, d) => (none, e, d.notice (.consumedUnavailable lowest h.number err))
    | (.ok consumed, d) =>
      (some (.start h (e.registry.offers logs h consumed) (some (h.number - e.retention))), e, d)

def dispatch (e : Herald) (d : Desk) (h : Head) : Option Pass × Herald × Desk :=
  if e.registry.depth = 0 then e.drain d h else e.retain d h

def close (e : Herald) (p : Pass) : Herald :=
  match p.prune with
  | none => e
  | some block => { e with pool := e.pool.since block }

def onHead (e : Herald) (d : Desk) (h : Head) : Option Pass × Herald × Desk :=
  { e with head := some h }.dispatch d h

def isFar (e : Herald) (block : Nat) : Option Nat :=
  match e.head with
  | none => none
  | some h => if farAway < max (block - h.number) (h.number - block) then some h.number else none

def warn (e : Herald) (d : Desk) (block : Nat) : Desk :=
  match e.isFar block with
  | none => d
  | some head => d.notice (.distantLog block head)

def onLog (e : Herald) (d : Desk) (l : Log) : Option Pass × Herald × Desk :=
  match l.position? with
  | none => (none, e, d.notice (.unpositionedLog l.address))
  | some p =>
    let d := e.warn d p.block
    if l.removed then (none, { e with pool := e.pool.remove l }, d)
    else if !e.registry.covers l.address then (none, e, d)
    else
      let e := { e with pool := (e.pool.add l).2 }
      match e.head with
      | none => (none, e, d)
      | some h =>
        if e.registry.depth = 0 ∧ p.block ≤ h.number then e.dispatch d h else (none, e, d)

end Herald

end ChainHerald
