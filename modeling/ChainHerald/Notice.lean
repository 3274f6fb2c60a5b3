import ChainHerald.Broadcast

namespace ChainHerald

/-- The name a request has on the wire. -/
inductive Method where
  | subscribe
  | blockNumber
  | getLogs
  deriving DecidableEq

def Method.name : Method → String
  | .subscribe => "eth_subscribe"
  | .blockNumber => "eth_blockNumber"
  | .getLogs => "eth_getLogs"

/-- What is worth an operator's attention. -/
inductive Notice where
  | oldestChangeDropped
  | replayDropped (block : Nat)
  | streamFailed (e : ProviderError)
  | requestFailed (method : Method) (e : ProviderError) (pause : Nat)
  | savedHeadIgnored (saved depth : Nat)
  | unpositionedLog (address : Address)
  | distantLog (block head : Nat)
  | fallbackFailed (provider : Nat) (e : ProviderError)
  | quiet (seconds : Nat)
  | channelClosed
  | lagged (skipped consecutive : Nat)
  | tooManyLags
  | reconnectFailed (e : ProviderError)
  | noTopicFilters (job : Int) (contract : Address)
  | consumedUnavailable (lo hi : Nat) (e : LedgerError)
  | undecodable (job : Int) (b : Broadcast) (e : DecodeError)
  | markFailed (job : Int) (e : LedgerError)
  | callFailed (method : Method) (e : ProviderError)
  | noFallback (e : ProviderError)
  deriving DecidableEq

inductive Level where
  | warn
  | error
  deriving DecidableEq

def Level.name : Level → String
  | .warn => "warn"
  | .error => "error"

inductive Field where
  | number (n : Int)
  | text (s : String)
  deriving DecidableEq

namespace Notice

def level : Notice → Level
  | noTopicFilters .. | consumedUnavailable .. | undecodable .. | markFailed .. | callFailed ..
  | noFallback .. => .error
  | _ => .warn

def message : Notice → String
  | oldestChangeDropped => "Registration mailbox full, dropped the oldest pending change"
  | replayDropped _ => "Replay already pending, dropping request"
  | streamFailed _ => "Log stream failed, resubscribing"
  | requestFailed .. => "Node request failed, retrying"
  | savedHeadIgnored .. => "Backfill skip is set, ignoring the saved head"
  | unpositionedLog _ => "Ignoring log without block number, block hash or log index"
  | distantLog .. => "Received log far away from the current head"
  | fallbackFailed .. => "Fallback provider failed"
  | quiet _ => "Subscription went quiet, switching provider"
  | channelClosed => "Subscription channel closed, switching provider"
  | lagged .. => "Subscription lagged"
  | tooManyLags => "Too many consecutive lags, switching provider"
  | reconnectFailed _ => "Failed to reconnect to primary provider"
  | noTopicFilters .. => "Listener registered without topic filters"
  | consumedUnavailable .. => "Failed to load consumed logs, retrying on the next head"
  | undecodable .. => "Failed to decode log, marking it consumed"
  | markFailed .. => "Failed to mark undecodable log consumed"
  | callFailed method _ => method.name ++ " failed"
  | noFallback _ => "eth_subscribe failed - no fallbacks available"

def fields : Notice → List (String × Field)
  | oldestChangeDropped | channelClosed | tooManyLags => []
  | replayDropped block => [("from_block", .number block)]
  | streamFailed e | reconnectFailed e | callFailed _ e | noFallback e =>
    [("error", .text e.message)]
  | requestFailed method e pause =>
    [("operation", .text method.name), ("error", .text e.message), ("retry_in_ms", .number pause)]
  | savedHeadIgnored saved depth =>
    [("saved_head", .number saved), ("block_backfill_depth", .number depth)]
  | unpositionedLog address => [("address", .text address.checksummed)]
  | distantLog block head => [("block_number", .number block), ("head", .number head)]
  | fallbackFailed provider e => [("provider_num", .number provider), ("error", .text e.message)]
  | quiet seconds => [("timeout_secs", .number seconds)]
  | lagged skipped consecutive =>
    [("skipped", .number skipped), ("consecutive_lags", .number consecutive)]
  | noTopicFilters job contract =>
    [("job_id", .number job), ("contract", .text contract.checksummed)]
  | consumedUnavailable lo hi e =>
    [("from_block", .number lo), ("to_block", .number hi), ("error", .text e.message)]
  | undecodable job b e =>
    [("job_id", .number job), ("log", .text b.display), ("error", .text e.message)]
  | markFailed job e => [("job_id", .number job), ("error", .text e.message)]

end Notice

end ChainHerald
