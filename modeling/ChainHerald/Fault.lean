import ChainHerald.Event

namespace ChainHerald

/-- What a provider itself reports for one request. -/
inductive RpcFault where
  | backendGone
  | pubsubUnavailable
  | nullResponse
  | refused (code : Int) (text : String)
  | other (text : String)
  deriving DecidableEq

def RpcFault.message : RpcFault → String
  | .backendGone => "backend connection task has stopped"
  | .pubsubUnavailable => "subscriptions are not available on this provider"
  | .nullResponse => "server returned a null response when a non-null response was expected"
  | .refused code text =>
    "server returned an error response: error code " ++ toString code ++ ": " ++ text
  | .other text => text

inductive ProviderError where
  | timeout
  | rpc (fault : RpcFault)
  | subscriptionClosed
  deriving DecidableEq

def ProviderError.message : ProviderError → String
  | .timeout => "Operation timed out"
  | .rpc fault => "RPC error: " ++ fault.message
  | .subscriptionClosed => "Subscription closed"

structure LedgerError where
  context : String
  source : String
  deriving DecidableEq

def LedgerError.message (e : LedgerError) : String := e.context ++ ": " ++ e.source

inductive DecodeError where
  | abi (fault : AbiFault)
  | custom (text : String)
  deriving DecidableEq

def DecodeError.message : DecodeError → String
  | .abi fault => "ABI decoding failed: " ++ fault.message
  | .custom text => text

inductive BroadcasterError where
  | missingTopicFilters (contract : Address)
  | closed
  | notConnected
  | ledger (e : LedgerError)
  | provider (e : ProviderError)
  | invalidBackfillBatchSize
  | invalidDebounceInterval
  | invalidBufferCapacity
  deriving DecidableEq

def BroadcasterError.message : BroadcasterError → String
  | .missingTopicFilters contract =>
    "listener registration for contract " ++ contract.checksummed ++ " declares no topic filters"
  | .closed => "broadcaster is closed"
  | .notConnected => "broadcaster is not connected to a chain"
  | .ledger e => "consumption ledger error: " ++ e.message
  | .provider e => e.message
  | .invalidBackfillBatchSize => "Log backfill batch size must be greater than 0"
  | .invalidDebounceInterval => "Resubscribe debounce interval must be greater than 0"
  | .invalidBufferCapacity => "Log buffer capacity must be greater than 0"

end ChainHerald
