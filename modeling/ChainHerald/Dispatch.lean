import ChainHerald.Desk
import ChainHerald.Registry

namespace ChainHerald

/-- A log that one registration is to be offered. -/
structure Offer where
  log : Log
  position : Position
  registration : Registration

def Offer.key (o : Offer) : Key :=
  ⟨o.position.hash, o.position.index, o.registration.listener.job⟩

namespace Registration

def wants (g : Registration) (h : Head) (l : Log) (p : Position) : Bool :=
  g.options.contract == l.address
    && isConfirmed h.number p.block g.options.confirmations
    && g.options.matchesTopics l.topics

end Registration

/-- Everything that a head makes due: the logs in the order given, and for each the registrations
in the order they were made. -/
def Registry.offers (r : Registry) (logs : List Log) (h : Head) (consumed : Members Key) :
    List Offer :=
  logs.flatMap fun l =>
    match l.position? with
    | none => []
    | some p =>
      (r.live.values.filter fun g => g.wants h l p).map (⟨l, p, ·⟩)
        |>.filter fun o => !consumed.contains o.key

namespace Desk

/-- Decodes for one registration. A log that does not decode is marked consumed for that job alone,
so it is not tried again on every head. -/
def prepare (d : Desk) (h : Head) (o : Offer) : Option Broadcast × Desk :=
  let job := o.registration.listener.job
  let b := Broadcast.new o.log h job
  match o.registration.options.decoder.decode o.log with
  | .ok decoded =>
    let b := { b with decoded := some decoded }
    (some b, d.write (.handed o.registration.id b))
  | .error e =>
    match (d.notice (.undecodable job b e)).mark o.key o.position.block with
    | (.ok _, d) => (none, d)
    | (.error e, d) => (none, d.notice (.markFailed job e))

def serve (d : Desk) (h : Head) (o : Offer) : Desk :=
  match d.prepare h o with
  | (none, d) => d
  | (some b, d) => d.receive o.registration.listener b

/-- Serves what is due until somebody cancels. -/
def serveAll (d : Desk) (h : Head) : List Offer → Desk
  | [] => d
  | o :: rest => if d.cancelled then d else (d.serve h o).serveAll h rest

end Desk

/-- A dispatch under way. A slow listener is called first and keeps the pass waiting. -/
structure Pass where
  head : Head
  todo : List Offer
  busy : Option (Nat × Broadcast)
  /-- Below which block the pool is pruned when the pass is over. -/
  prune : Option Nat

namespace Pass

def start (h : Head) (todo : List Offer) (prune : Option Nat) : Pass := ⟨h, todo, none, prune⟩

/-- Nothing while the pass waits or is over. -/
def step (p : Pass) (d : Desk) : Option (Pass × Desk) :=
  match p.todo, p.busy with
  | [], _ => none
  | o :: rest, some (ready, b) =>
    if ready ≤ d.clock.now then
      some ({ p with todo := rest, busy := none }, d.receive o.registration.listener b)
    else none
  | o :: rest, none =>
    if d.cancelled then some ({ p with todo := [] }, d)
    else
      match d.prepare p.head o with
      | (none, d) => some ({ p with todo := rest }, d)
      | (some b, d) =>
        if o.registration.listener.delay = 0 then
          some ({ p with todo := rest }, d.receive o.registration.listener b)
        else some ({ p with busy := some (d.clock.now + o.registration.listener.delay, b) }, d)

def wakes (p : Pass) : List Nat := (p.busy.map (·.1)).toList

end Pass

end ChainHerald
