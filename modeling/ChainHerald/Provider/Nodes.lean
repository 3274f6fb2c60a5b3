import ChainHerald.Provider.Connection

namespace ChainHerald

/-- A node with the client that reaches it. The client makes a lost link anew at once, or never. -/
structure Node where
  latest : Nat
  history : List Log
  refusing : Bool
  /-- How many of the next requests by each method fail. -/
  failing : Method → Nat
  link : Link
  client : Client

namespace Node

def new (latest : Nat) : Node := ⟨latest, [], false, fun _ => 0, .new [], .new⟩

def reply (node : Node) : NodeCall → NodeReply
  | .blockNumber => .number node.latest
  | .getLogs f lo hi => .logs (f.select lo hi node.history)
  | .subscribeLogs _ | .subscribeHeads => .subscribed

/-- The ring of a subscription that the client has. -/
def ringOf (node : Node) (call : NodeCall) : Option Nat :=
  (node.client.lines.get? call.key).map Line.ring

end Node

/-- What an asker has been given. -/
inductive Grant where
  | reply (r : NodeReply)
  | logs (t : Tap Log)
  | heads (t : Tap Head)

/-- Nodes that notify, with the record of the requests that reached them, newest first. -/
structure Nodes where
  nodes : Table Nat Node
  logs : Rings Log
  heads : Rings Head
  calls : List (Nat × Nat × NodeCall)
  /-- Each try is an asker of its own. -/
  askers : Nat
  grants : Table Nat Grant

structure Nodes.Try (α : Type) where
  op : Rpc α
  node : Nat
  asker : Nat

namespace Nodes

/-- So many notifications wait for a reader that is slow. -/
def capacity : Nat := 16

def new (latest : List Nat) : Nodes where
  nodes := .ofList ((List.range latest.length).zip (latest.map Node.new))
  logs := .empty
  heads := .empty
  calls := []
  askers := 0
  grants := .empty

def modify (ns : Nodes) (n : Nat) (f : Node → Node) : Nodes :=
  match ns.nodes.get? n with
  | none => ns
  | some node => { ns with nodes := ns.nodes.insert n (f node) }

def modifyLink (ns : Nodes) (n : Nat) (f : Link → Link) : Nodes :=
  ns.modify n fun node => { node with link := f node.link }

def modifyClient (ns : Nodes) (n : Nat) (f : Client → Client) : Nodes :=
  ns.modify n fun node => { node with client := f node.client }

def grant (ns : Nodes) (asker : Nat) (g : Grant) : Nodes :=
  { ns with grants := ns.grants.insert asker g }

/-! The node's end -/

/-- A request reaches the node. -/
def serve (ns : Nodes) (n : Nat) (node : Node) (e : Errand) (now : Nat) : Nodes :=
  let ns := { ns with calls := (now, n, e.call) :: ns.calls }
  let m := e.call.method
  if node.failing m = 0 then
    ns.modifyLink n fun link => link.answer e (node.reply e.call)
  else
    (ns.modify n fun node =>
      { node with failing := fun k => if k = m then node.failing m - 1 else node.failing k })
      |>.modifyLink n fun link =>
        link.answer e (.refused (.refused (-32603) (m.name ++ " refused")))

/-- One move of the node's end. It serves requests before it sends news. -/
def stepLink (ns : Nodes) (n now : Nat) : Option Nodes :=
  match ns.nodes.get? n with
  | none => none
  | some node =>
    match node.link.phase with
    | .down => none
    | .cut =>
      some (ns.modifyLink n fun link => { link with phase := .down, outbound := [], news := [] })
    | .up =>
      match node.link.outbound, node.link.news with
      | e :: rest, _ =>
        let node := { node with link := { node.link with outbound := rest } }
        some ((ns.modify n fun _ => node).serve n node e now)
      | [], m :: rest =>
        some (ns.modifyLink n fun link => { link with news := rest }.deliver m)
      | [], [] => none

/-! The client's end -/

/-- Whoever opens a subscription that is there already reads on its ring. -/
def openLine (ns : Nodes) (n : Nat) (call : NodeCall) : Nodes :=
  let add (ring : Nat) (ns : Nodes) : Nodes :=
    ns.modifyClient n fun c => { c with lines := c.lines.insert call.key ⟨call, ring⟩ }
  if (ns.nodes.get? n).any fun node => node.client.lines.contains call.key then ns
  else
    match call with
    | .subscribeLogs _ =>
      add ns.logs.size { ns with logs := Table.insert ns.logs ns.logs.size (.new capacity) }
    | .subscribeHeads =>
      add ns.heads.size { ns with heads := Table.insert ns.heads ns.heads.size (.new capacity) }
    | _ => ns

def receive (ns : Nodes) (n : Nat) (node : Node) : Message → Nodes
  | .reply e r =>
    let ns := ns.modifyClient n fun c => { c with pending := c.pending.erase e }
    let ns := match r with
      | .subscribed => ns.openLine n e.call
      | _ => ns
    match e.asker with
    | none => ns
    | some asker => ns.grant asker (.reply r)
  | .log f l =>
    match node.ringOf (.subscribeLogs f) with
    | none => ns
    | some ring => { ns with logs := Rings.update ns.logs ring fun r => (r.send l).2 }
  | .head h =>
    match node.ringOf .subscribeHeads with
    | none => ns
    | some ring => { ns with heads := Rings.update ns.heads ring fun r => (r.send h).2 }

def meet (ns : Nodes) (n : Nat) (node : Node) : Demand → Nodes
  | .request asker call =>
    let e : Errand := ⟨some asker, call⟩
    (ns.modifyClient n fun c => { c with pending := c.pending ++ [e] })
      |>.modifyLink n fun link => { link with outbound := link.outbound ++ [e] }
  | .reader asker call =>
    match node.ringOf call, call with
    | some ring, .subscribeLogs _ =>
      let (tap, logs) := Rings.attach ns.logs ring
      { ns with logs }.grant asker (.logs tap)
    | some ring, .subscribeHeads =>
      let (tap, heads) := Rings.attach ns.heads ring
      { ns with heads }.grant asker (.heads tap)
    | _, _ => ns.grant asker (.reply (.refused .nullResponse))

/-- A client that has stopped closes its rings one after the other. -/
def closeLine (ns : Nodes) (n : Nat) (key : Hash) (line : Line) : Nodes :=
  let ns := ns.modifyClient n fun c => { c with lines := c.lines.erase key }
  match line.call with
  | .subscribeLogs _ => { ns with logs := Rings.update ns.logs line.ring Ring.close }
  | .subscribeHeads => { ns with heads := Rings.update ns.heads line.ring Ring.close }
  | _ => ns

def reconnect (ns : Nodes) (n : Nat) (node : Node) : Nodes :=
  if node.refusing then ns.modifyClient n Client.stop
  else
    let client := node.client.resume
    ns.modify n fun node => { node with client, link := .new client.pending }

/-- One move of the client. It takes in what has arrived, then sees whether the link is down, and
only then turns to its users. -/
def stepClient (ns : Nodes) (n : Nat) : Option Nodes :=
  match ns.nodes.get? n with
  | none => none
  | some node =>
    if node.client.running then
      match node.link.inbound with
      | m :: rest =>
        some ((ns.modifyLink n fun link => { link with inbound := rest }).receive n node m)
      | [] =>
        if node.link.phase = .down then some (ns.reconnect n node)
        else
          match node.client.demands with
          | d :: rest =>
            some ((ns.modifyClient n fun c => { c with demands := rest }).meet n node d)
          | [] => none
    else node.client.lines.first?.map fun (key, line) => ns.closeLine n key line

/-! The users -/

def isRunning (ns : Nodes) (n : Nat) : Bool := (ns.nodes.get? n).any fun node => node.client.running

/-- A client that has stopped hears no demands. -/
def demand (ns : Nodes) (n : Nat) (d : Demand) : Nodes :=
  if ns.isRunning n then ns.modifyClient n fun c => c.demand d else ns

def begin {α : Type} (n : Nat) (op : Rpc α) (ns : Nodes) : Try α × Nodes :=
  (⟨op, n, ns.askers⟩,
    { ns with askers := ns.askers + 1 }.demand n (.request ns.askers op.call))

def take : {α : Type} → Rpc α → Grant → Except RpcFault α
  | _, _, .reply (.refused e) => .error e
  | _, .latest, .reply (.number n) => .ok n
  | _, .logs .., .reply (.logs ls) => .ok ls
  | _, .subscribeLogs _, .logs t => .ok t
  | _, .subscribeHeads, .heads t => .ok t
  | _, _, _ => .error .nullResponse

/-- Whoever has subscribed still has to get a reader. -/
def stepTry {α : Type} (t : Try α) (ns : Nodes) :
    Option (Turn (Try α) (Except RpcFault α) × Nodes) :=
  match ns.grants.get? t.asker with
  | none => if ns.isRunning t.node then none else some (.done (.error .backendGone), ns)
  | some g =>
    let ns := { ns with grants := ns.grants.erase t.asker }
    match g with
    | .reply .subscribed => some (.going t, ns.demand t.node (.reader t.asker t.op.call))
    | g => some (.done (take t.op g), ns)

instance : Fleet Nodes where
  Op := Rpc
  Try := Try
  pubsub := fun _ _ => true
  begin := fun n op _ ns => begin n op ns
  step := fun t _ ns => stepTry t ns
  due := fun _ => none

instance : Answers Nodes where
  op := id

instance : Carrier Nodes Log where
  rings := logs
  setRings := fun logs ns => { ns with logs }

instance : Carrier Nodes Head where
  rings := heads
  setRings := fun heads ns => { ns with heads }

/-! What happens to nodes -/

/-- The node mines a log. -/
def emit (ns : Nodes) (n : Nat) (l : Log) : Nodes :=
  ns.modifyLink n fun link => link.push (link.subscribed.filterMap fun
    | .subscribeLogs f => if f.passes l then some (.log f l) else none
    | _ => none)

def header (ns : Nodes) (n : Nat) (h : Head) : Nodes :=
  ns.modifyLink n fun link => link.push (link.subscribed.filterMap fun
    | .subscribeHeads => some (.head h)
    | _ => none)

/-- The link is lost. -/
def kill (ns : Nodes) (n : Nat) : Nodes := ns.modifyLink n Link.cut

end Nodes

end ChainHerald
