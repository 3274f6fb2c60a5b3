import ChainHerald.Provider.Rpc

namespace ChainHerald

/-- An answer that was put in readiness. -/
inductive Reply where
  | number (n : Nat)
  | logs (ls : List Log)
  | refusal (code : Int) (text : String)

/-- A provider that answers from a queue, whatever it is asked, and counts what it was asked. -/
structure ReplyQueue where
  replies : List Reply
  requests : Nat

/-- Providers without notifications. -/
structure Queues where
  cast : Table Nat ReplyQueue

namespace Queues

def new (cast : List (List Reply)) : Queues :=
  ⟨.ofList ((List.range cast.length).zip (cast.map fun rs => ⟨rs, 0⟩))⟩

def left (q : Queues) : List Nat := q.cast.values.map (·.replies.length)

/-- The request numbers start at zero. -/
def exhausted {α : Type} (op : Rpc α) (requests : Nat) : RpcFault :=
  .other ("empty asserter response queue for request with id " ++ toString requests
    ++ " and method " ++ op.method.name)

def answer : {α : Type} → Rpc α → Reply → Except RpcFault α
  | _, _, .refusal code text => .error (.refused code text)
  | _, .latest, .number n => .ok n
  | _, .logs .., .logs ls => .ok ls
  | _, .latest, .logs _ | _, .logs .., .number _ => .error .nullResponse
  | _, .subscribeLogs _, _ | _, .subscribeHeads, _ => .error .pubsubUnavailable

def begin {α : Type} (provider : Nat) (op : Rpc α) (q : Queues) : Except RpcFault α × Queues :=
  match q.cast.get? provider with
  | none => (.error .backendGone, q)
  | some queue =>
    let asked := { queue with replies := queue.replies.tail, requests := queue.requests + 1 }
    (match queue.replies with
      | [] => .error (exhausted op queue.requests)
      | reply :: _ => answer op reply,
      ⟨q.cast.insert provider asked⟩)

structure Try (α : Type) where
  result : Except RpcFault α

instance : Fleet Queues where
  Op := Rpc
  Try := Try
  pubsub := fun _ _ => false
  begin := fun provider op _ q =>
    let (result, q) := begin provider op q
    (⟨result⟩, q)
  step := fun t _ q => some (.done t.result, q)
  due := fun _ => none

instance : Answers Queues where
  op := id

end Queues

end ChainHerald
