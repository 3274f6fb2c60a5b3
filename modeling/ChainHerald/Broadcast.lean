import ChainHerald.Fault

namespace ChainHerald

/-- What a listener's decoder made of a log. -/
inductive Decoded where
  | unit
  | event (name : String) (values : List Value)
  deriving DecidableEq

/-- One delivery of one log to one listener, at the head that made the log ready. -/
structure Broadcast where
  log : Log
  decoded : Option Decoded
  head : Nat
  headHash : Hash
  job : Int
  deriving DecidableEq

namespace Broadcast

def new (l : Log) (h : Head) (job : Int) : Broadcast := ⟨l, none, h.number, h.hash, job⟩

def contract (b : Broadcast) : Address := b.log.address

def block (b : Broadcast) : Nat := b.log.block.getD 0

def confirmations (b : Broadcast) : Nat := b.head - b.block

def key (b : Broadcast) : Key := ⟨b.log.hash.getD 0, b.log.index.getD 0, b.job⟩

def display (b : Broadcast) : String :=
  "Broadcast(job: " ++ toString b.job ++ ", address: " ++ b.contract.checksummed
    ++ ", block: " ++ toString b.block ++ ", index: " ++ toString (b.log.index.getD 0)
    ++ ", topics(" ++ toString b.log.topics.length ++ "):"
    ++ String.join (b.log.topics.map fun t => " " ++ Hex.word t) ++ ")"

end Broadcast

end ChainHerald
