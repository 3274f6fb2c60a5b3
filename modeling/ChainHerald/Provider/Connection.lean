import ChainHerald.Provider.NodeCall

namespace ChainHerald

/-- A request on its way. A client that takes a subscription up again asks for nobody. -/
structure Errand where
  asker : Option Nat
  call : NodeCall
  deriving DecidableEq

/-- What a node answers. -/
inductive NodeReply where
  | number (n : Nat)
  | logs (ls : List Log)
  | subscribed
  | refused (e : RpcFault)

/-- What a node sends to its client. -/
inductive Message where
  | reply (e : Errand) (r : NodeReply)
  | log (f : Filter) (l : Log)
  | head (h : Head)

/-- A link that is cut loses what is on it as soon as the node's end takes notice. -/
inductive Link.Phase where
  | up
  | cut
  | down
  deriving DecidableEq

/-- The link between a node and its client. -/
structure Link where
  phase : Link.Phase
  /-- Requests that have not reached the node. -/
  outbound : List Errand
  /-- Notifications that have not left the node. -/
  news : List Message
  /-- What has reached the client's end. -/
  inbound : List Message
  /-- What was subscribed to over this link. -/
  subscribed : List NodeCall

/-- What the users of a client ask of it: to pass a request on, or to read a subscription. -/
inductive Demand where
  | request (asker : Nat) (call : NodeCall)
  | reader (asker : Nat) (call : NodeCall)

/-- A subscription of a client. All who opened it read one ring. -/
structure Line where
  call : NodeCall
  ring : Nat

/-- The one end of a link that all users of a provider share. -/
structure Client where
  running : Bool
  demands : List Demand
  /-- Requests without a reply, in the order in which they were made. -/
  pending : List Errand
  lines : Table Hash Line

namespace Link

def new (outbound : List Errand) : Link := ⟨.up, outbound, [], [], []⟩

def cut (l : Link) : Link :=
  match l.phase with
  | .up => { l with phase := .cut }
  | _ => l

/-- News travels to those who subscribed over this link. -/
def push (l : Link) (news : List Message) : Link := { l with news := l.news ++ news }

def deliver (l : Link) (m : Message) : Link := { l with inbound := l.inbound ++ [m] }

/-- A reply leaves, and with it the subscription stands. -/
def answer (l : Link) (e : Errand) (r : NodeReply) : Link :=
  let l := l.deliver (.reply e r)
  match r with
  | .subscribed => { l with subscribed := l.subscribed.filter (· ≠ e.call) ++ [e.call] }
  | _ => l

end Link

namespace Client

def new : Client := ⟨true, [], [], .empty⟩

def demand (c : Client) (d : Demand) : Client := { c with demands := c.demands ++ [d] }

/-- What a new link has to carry first: the requests without a reply, then every subscription. -/
def resume (c : Client) : Client :=
  { c with pending := c.pending ++ c.lines.values.map fun line => ⟨none, line.call⟩ }

/-- Its users are told, and its subscriptions end. -/
def stop (c : Client) : Client := { c with running := false, demands := [], pending := [] }

end Client

end ChainHerald
