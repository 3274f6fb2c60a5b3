import ChainHerald.Backoff
import ChainHerald.Source

namespace ChainHerald

/-- How long and how often providers are tried. Times are in milliseconds. -/
structure Policy where
  callTimeout : Nat
  silence : Nat
  retries : Nat
  leastPause : Nat
  reconnect : Nat
  /-- How many providers there are besides the primary one. -/
  fallbacks : Nat
  deriving DecidableEq

namespace Policy

def standard (fallbacks : Nat) : Policy := ⟨60000, 120000, 3, 1000, 30000, fallbacks⟩

/-- Never retries, so that only the call timeout counts. -/
def fragile (fallbacks : Nat) : Policy := { standard fallbacks with retries := 0, leastPause := 0 }

/-- Retry pauses never grow beyond a minute. -/
def mostPause : Nat := 60000

def backoff (p : Policy) : Backoff := .start p.leastPause mostPause

end Policy

/-- Providers by number, the primary one being 0. `Op α` can be asked of any of them. A try that
cannot move has no step; `due` says when time alone lets it move. -/
class Fleet (ν : Type) where
  Op : Type → Type
  Try : Type → Type
  pubsub : ν → Nat → Bool
  begin {α : Type} : Nat → Op α → Clock → ν → Try α × ν
  step {α : Type} : Try α → Clock → ν → Option (Turn (Try α) (Except RpcFault α) × ν)
  due {α : Type} : Try α → Option Nat

/-- A fleet in use. The newest notice comes first. -/
structure Providers (ν : Type) where
  fleet : ν
  policy : Policy
  notices : List Notice

def Providers.notice {ν : Type} (r : Providers ν) (n : Notice) : Providers ν :=
  { r with notices := n :: r.notices }

end ChainHerald
