import ChainHerald.Chain
import ChainHerald.Utf8

namespace ChainHerald

inductive Kind where
  | address
  | number
  | text
  deriving DecidableEq

def Kind.name : Kind → String
  | .address => "address"
  | .number => "uint256"
  | .text => "string"

structure Param where
  kind : Kind
  indexed : Bool
  deriving DecidableEq

/-- An event as a contract declares it. -/
structure Event where
  name : String
  params : List Param
  deriving DecidableEq

/-- A text among the topics is known only by its digest. -/
inductive Value where
  | address (a : Address)
  | number (n : Nat)
  | text (s : String)
  | digest (h : Hash)
  deriving DecidableEq

inductive AbiFault where
  | topicCount
  | signature (event : String) (got expected : Hash)
  | overrun
  | notAnOffset (word : Bytes)
  deriving DecidableEq

def AbiFault.message : AbiFault → String
  | .topicCount => "topic list length mismatch"
  | .signature event got expected =>
    "invalid signature hash for event \"" ++ event ++ "\": got " ++ Hex.word got ++ ", expected "
      ++ Hex.word expected
  | .overrun => "ABI decoding failed: buffer overrun while deserializing"
  | .notAnOffset word =>
    "type check failed for \"offset (usize)\" with data: "
      ++ String.ofList (word.flatMap fun x => Hex.digits 2 x.toNat)

namespace Event

def signature (e : Event) : String :=
  e.name ++ "(" ++ ",".intercalate (e.params.map (·.kind.name)) ++ ")"

/-- The first topic of every log of this event. -/
def topic (e : Event) : Hash := ChainHerald.digest e.signature.toUTF8.data.toList

/-- Bytes past the end of the data are never read. -/
def slice (data : Bytes) (start length : Nat) : Except AbiFault Bytes :=
  if start + length ≤ data.length then .ok ((data.drop start).take length) else .error .overrun

/-- Offsets and lengths have eight bytes, the rest of their word is zero. -/
def offset (data : Bytes) (start : Nat) : Except AbiFault Nat := do
  let word ← slice data start 32
  if (word.take 24).all (· == 0) then return word.toNat else throw (.notAnOffset word)

def ofTopic : Kind → Hash → Value
  | .address, h => .address (h.truncate 160)
  | .number, h => .number h.toNat
  | .text, h => .digest h

/-- Reads the parameter whose head word is at `start`. A text is found through its head word. -/
def ofData (data : Bytes) (start : Nat) : Kind → Except AbiFault Value
  | .address => do return .address (BitVec.ofNat 160 (← slice data start 32).toNat)
  | .number => do return .number (← slice data start 32).toNat
  | .text => do
    let tail ← offset data start
    let length ← offset data tail
    return .text (String.ofList (Utf8.decode (← slice data (tail + 32) length)))

/-- Indexed parameters come from the topics, the others from the data, one head word each. -/
def values (data : Bytes) : List Param → List Hash → Nat → Except AbiFault (List Value)
  | [], _, _ => .ok []
  | ⟨kind, true⟩ :: params, topic :: topics, head => do
    return ofTopic kind topic :: (← values data params topics head)
  | ⟨_, true⟩ :: _, [], _ => .error .topicCount
  | ⟨kind, false⟩ :: params, topics, head => do
    let value ← ofData data head kind
    return value :: (← values data params topics (head + 32))

def decode (e : Event) (l : Log) : Except AbiFault (List Value) :=
  match l.topics with
  | [] => .error .topicCount
  | first :: indexed =>
    if indexed.length ≠ e.params.countP (·.indexed) then .error .topicCount
    else if first ≠ e.topic then .error (.signature e.signature first e.topic)
    else values l.data e.params indexed 0

def transfer : Event := ⟨"Transfer", [⟨.address, true⟩, ⟨.address, true⟩, ⟨.number, false⟩]⟩

def note : Event := ⟨"Note", [⟨.number, true⟩, ⟨.text, false⟩]⟩

def ping : Event := ⟨"Ping", []⟩

end Event

end ChainHerald
