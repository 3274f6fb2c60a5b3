import ChainHerald.Chain
import ChainHerald.Fault
import ChainHerald.Gate
import ChainHerald.Intake

namespace ChainHerald

/-- How a broadcaster is set up. Times are in milliseconds; a mailbox without a capacity keeps
every registration change. -/
structure Settings where
  finality : Nat
  depth : Nat
  skipBackfill : Bool
  batch : Nat
  debounce : Nat
  mailbox : Option Nat
  buffer : Nat
  leastPause : Nat
  mostPause : Nat
  savedHead : Option Head
  /-- What sums do that no machine word can hold. The build decides this, no setter does. -/
  overflow : Overflow := .panics
  deriving DecidableEq

namespace Settings

def standard : Settings := ⟨50, 10, false, 100, 1000, none, 1024, 1000, 60000, none, .panics⟩

def check (s : Settings) : Except BroadcasterError Unit :=
  if s.batch = 0 then .error .invalidBackfillBatchSize
  else if s.debounce = 0 then .error .invalidDebounceInterval
  else if s.buffer = 0 then .error .invalidBufferCapacity
  else .ok ()

def limits (s : Settings) : Limits := ⟨s.depth, s.batch, s.buffer, s.leastPause, s.mostPause⟩

end Settings

end ChainHerald
