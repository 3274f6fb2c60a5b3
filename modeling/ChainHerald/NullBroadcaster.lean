import ChainHerald.Listener

namespace ChainHerald.NullBroadcaster

/-!
A broadcaster without a chain. It accepts every listener and never calls one.
-/

def start : Except BroadcasterError Unit := .ok ()

def register (_ : Listener) (_ : Options) : Except BroadcasterError Unit := .ok ()

def connected : Bool := false

def tracked : Nat := 0

def wasConsumed (_ : Broadcast) : Except BroadcasterError Bool := .error .notConnected

def markConsumed (_ : Broadcast) : Except BroadcasterError Unit := .error .notConnected

end ChainHerald.NullBroadcaster
