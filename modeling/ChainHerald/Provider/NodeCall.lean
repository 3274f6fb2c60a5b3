import ChainHerald.Provider.Rpc

namespace ChainHerald

/-- What a node was asked. -/
inductive NodeCall where
  | blockNumber
  | getLogs (f : Filter) (lo hi : Nat)
  | subscribeLogs (f : Filter)
  | subscribeHeads
  deriving DecidableEq

namespace NodeCall

def method : NodeCall → Method
  | .blockNumber => .blockNumber
  | .getLogs .. => .getLogs
  | .subscribeLogs _ | .subscribeHeads => .subscribe

def quoted (s : String) : String := "\"" ++ s ++ "\""

/-- A single one stands for itself. -/
def oneOrMany (ss : List String) : String :=
  match ss with
  | [s] => s
  | _ => "[" ++ ",".intercalate ss ++ "]"

def words {w : Nat} (vs : List (BitVec w)) : String :=
  oneOrMany (vs.map fun v => quoted (Hex.word v))

/-- The parameters of a subscription, as they are sent. -/
def parameters : NodeCall → String
  | .subscribeLogs f =>
    "[\"logs\",\x7b\"address\":" ++ words f.addresses ++ ",\"topics\":[" ++ words f.signatures
      ++ "]\x7d]"
  | .subscribeHeads => "[\"newHeads\"]"
  | .blockNumber | .getLogs .. => "[]"

/-- Subscriptions with the same parameters are one subscription. -/
def key (c : NodeCall) : Hash := digest c.parameters.toUTF8.toList

end NodeCall

def Rpc.call : {α : Type} → Rpc α → NodeCall
  | _, .latest => .blockNumber
  | _, .logs f lo hi => .getLogs f lo hi
  | _, .subscribeLogs f => .subscribeLogs f
  | _, .subscribeHeads => .subscribeHeads

end ChainHerald
