import ChainHerald.Rehearsal.Script
import ChainHerald.Sample

namespace ChainHerald.Rehearsal

/-- What can be done to a scripted node. -/
inductive ChainStep where
  | emit (l : Log)
  | history (l : Log)
  | latest (number : Nat)
  | endSubscription
  | failSubscription (e : ProviderError)
  | failSubscribes (count : Nat)
  | failLogs (count : Nat)
  | failLatest (count : Nat)
  | logDelay (time : Nat)
  | covers (a : Address)
  | requests

def ChainStep.apply (c : ScriptedChain) : ChainStep → ScriptedChain
  | .emit l => c.emit l
  | .history l => { c with history := c.history ++ [l] }
  | .latest number => { c with latest := number }
  | .endSubscription => c.endSubscriptions
  | .failSubscription e => c.failSubscriptions e
  | .failSubscribes count => { c with failingSubscribes := count }
  | .failLogs count => { c with failingLogs := count }
  | .failLatest count => { c with failingLatest := count }
  | .logDelay time => { c with logDelay := time }
  | .covers _ | .requests => c

/-- The block ranges asked for so far. -/
def logRequests (journal : List Entry) : List (Nat × Nat) :=
  journal.reverse.filterMap fun
    | .asked _ (.logs _ lo hi) => some (lo, hi)
    | _ => none

def ChainStep.answer (i : Intake ScriptedChain) : ChainStep → Answer
  | .covers a => .flag (i.source.lastCovers a)
  | .requests => .ranges (logRequests i.desk.journal)
  | _ => .nothing

instance : Host (Broadcaster ScriptedChain) ScriptedChain ChainStep where
  broadcaster := id
  update := id
  act n b := (n.answer b.intake, b.withSource (n.apply b.intake.source))
  needsHandle _ := false

end ChainHerald.Rehearsal
