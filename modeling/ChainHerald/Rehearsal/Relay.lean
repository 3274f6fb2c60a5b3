import ChainHerald.HeadFeed
import ChainHerald.Provider.Nodes
import ChainHerald.Rehearsal.Script

namespace ChainHerald.Rehearsal

/-- A broadcaster over several nodes, with what forwards heads to it. `current` is the forwarding
that was started last, unless its result has been taken. -/
structure Relay where
  broadcaster : Broadcaster (Providers Nodes)
  feeds : Table Nat (HeadFeed Nodes)
  started : Nat
  current : Option Nat

/-- What can be done to the nodes and to the forwarding of heads. -/
inductive RelayStep where
  | header (node : Nat) (h : Head)
  | emit (node : Nat) (l : Log)
  | history (node : Nat) (l : Log)
  | latest (node number : Nat)
  | refuse (node : Nat) (on : Bool)
  | fail (node : Nat) (method : Method) (count : Nat)
  | kill (node : Nat)
  | forward
  | stopForward
  | forwardResult

namespace Relay

def new (b : Broadcaster (Providers Nodes)) : Relay := ⟨b, .empty, 0, none⟩

inductive Task where
  | broadcaster (t : Broadcaster.Task)
  | feed (n : Nat)
  | link (n : Nat)
  | client (n : Nat)
  deriving DecidableEq

def nodes (w : Relay) : Nodes := w.broadcaster.intake.source.fleet

def withNodes (w : Relay) (ns : Nodes) : Relay :=
  let b := w.broadcaster
  { w with broadcaster := b.withSource { b.intake.source with fleet := ns } }

def tasks (w : Relay) : List Task :=
  (Broadcaster.tasks w.broadcaster).map .broadcaster ++ w.feeds.keys.map .feed
    ++ w.nodes.nodes.keys.flatMap fun n => [.link n, .client n]

def step (w : Relay) : Task → Option Relay
  | .broadcaster t =>
    (Broadcaster.step t w.broadcaster).map fun broadcaster => { w with broadcaster }
  | .feed n =>
    match w.feeds.get? n with
    | none => none
    | some feed =>
      (feed.step w.broadcaster).map fun (feed, broadcaster) =>
        { w with broadcaster, feeds := w.feeds.insert n feed }
  | .link n => (w.nodes.stepLink n w.broadcaster.desk.clock.now).map w.withNodes
  | .client n => (w.nodes.stepClient n).map w.withNodes

def wakes (w : Relay) : Task → List Nat
  | .broadcaster t => Broadcaster.wakes t w.broadcaster
  | .feed n => ((w.feeds.get? n).map HeadFeed.wakes).getD []
  | .link _ | .client _ => []

def update (f : Broadcaster (Providers Nodes) → Broadcaster (Providers Nodes)) (w : Relay) :
    Relay :=
  { w with broadcaster := f w.broadcaster }

def forward (w : Relay) : Relay :=
  { w with
    broadcaster := w.broadcaster.share
    feeds := w.feeds.insert w.started .new
    started := w.started + 1
    current := some w.started }

def currentFeed (w : Relay) : Option (Nat × HeadFeed Nodes) :=
  w.current.bind fun n => (w.feeds.get? n).map fun feed => (n, feed)

def stopForward (w : Relay) : Relay :=
  match w.currentFeed with
  | none => w
  | some (n, feed) => { w with feeds := w.feeds.insert n { feed with cancelled := true } }

/-- A result can be taken once. -/
def forwardResult (w : Relay) : Answer × Relay :=
  match w.currentFeed with
  | none => (.nothing, w)
  | some (_, feed) =>
    match feed.phase with
    | .ended r => (.forwarded r, { w with current := none })
    | _ => (.running, w)

def toNodes (step : RelayStep) (ns : Nodes) : Nodes :=
  match step with
  | .header n h => ns.header n h
  | .emit n l => ns.emit n l
  | .history n l => ns.modify n fun node => { node with history := node.history ++ [l] }
  | .latest n number => ns.modify n fun node => { node with latest := number }
  | .refuse n on => ns.modify n fun node => { node with refusing := on }
  | .fail n method count =>
    ns.modify n fun node =>
      { node with failing := fun m => if m = method then count else node.failing m }
  | .kill n => ns.kill n
  | .forward | .stopForward | .forwardResult => ns

def act (step : RelayStep) (w : Relay) : Answer × Relay :=
  match step with
  | .forward => (.nothing, w.forward)
  | .stopForward => (.nothing, w.stopForward)
  | .forwardResult => w.forwardResult
  | step => (.nothing, w.withNodes (toNodes step w.nodes))

end Relay

instance : Host Relay (Providers Nodes) RelayStep where
  Task := Relay.Task
  same := inferInstance
  tasks := Relay.tasks
  step t w := w.step t
  wakes t w := w.wakes t
  now w := w.broadcaster.desk.clock.now
  setNow now w := w.update (Broadcaster.setNow now)
  broadcaster := Relay.broadcaster
  update := Relay.update
  act := Relay.act
  needsHandle
    | .forward => true
    | _ => false

end ChainHerald.Rehearsal
