import ChainHerald.Broadcast
import ChainHerald.Table

namespace ChainHerald

/-- How a listener reads a log. -/
structure Decoder where
  decode : Log → Except DecodeError Decoded

namespace Decoder

def unit : Decoder := ⟨fun _ => .ok .unit⟩

def fails (text : String) : Decoder := ⟨fun _ => .error (.custom text)⟩

def event (e : Event) : Decoder :=
  ⟨fun l =>
    match e.decode l with
    | .ok values => .ok (.event e.name values)
    | .error fault => .error (.abi fault)⟩

end Decoder

/-- What a listener asks for. Each event signature comes with one list of accepted topics per
indexed position; an empty list accepts everything there. -/
structure Options where
  contract : Address
  filters : Table Hash (List (List Hash))
  confirmations : Nat
  decoder : Decoder

namespace Options

def new (contract : Address) (decoder : Decoder) : Options := ⟨contract, .empty, 0, decoder⟩

def addTopic (o : Options) (signature : Hash) (accepted : List (List Hash)) : Options :=
  { o with filters := o.filters.insert signature accepted }

def forEvent (contract : Address) (e : Event) : Options :=
  (new contract (.event e)).addTopic e.topic []

/-- Every position with accepted topics has to hold one of them. -/
def accepts : List (List Hash) → List Hash → Bool
  | [], _ => true
  | [] :: rest, topics => accepts rest topics.tail
  | (_ :: _) :: _, [] => false
  | (a :: as) :: rest, t :: topics => (a :: as).contains t && accepts rest topics

def matchesTopics (o : Options) : List Hash → Bool
  | [] => false
  | signature :: indexed =>
    match o.filters.get? signature with
    | none => false
    | some accepted => accepts accepted indexed

def describeFilters (o : Options) : String :=
  ", ".intercalate (o.filters.entries.map fun (signature, accepted) =>
    Hex.word signature ++ ": ["
      ++ ", ".intercalate (accepted.map fun ts => "[" ++ ", ".intercalate (ts.map Hex.word) ++ "]")
      ++ "]")

end Options

/-- A listener that records what it is handed. A marking one asks the ledger first, skips what is
consumed there and marks what it recorded; a cancelling one ends the pass that called it. -/
structure Listener where
  name : String
  /-- Tells apart listeners that share a name. -/
  recorder : Nat
  job : Int
  marking : Bool
  cancels : Bool
  delay : Nat

structure Registration where
  id : Nat
  listener : Listener
  options : Options

def Registration.describe (r : Registration) : String :=
  "Registration \x7b id: RegistrationId(" ++ toString r.id ++ "), job_id: "
    ++ toString r.listener.job ++ ", opts: ListenerOpts \x7b contract: "
    ++ Hex.word r.options.contract ++ ", logs_with_topics: \x7b" ++ r.options.describeFilters
    ++ "\x7d, num_confirmations: " ++ toString r.options.confirmations ++ ", .. \x7d \x7d"

end ChainHerald
