namespace ChainHerald

/-- Pauses between attempts. The first one is `least`, whatever `most` is; a later one is twice
the one before while that was below `most`, and never above it. -/
structure Backoff where
  least : Nat
  most : Nat
  last : Option Nat
  deriving DecidableEq

namespace Backoff

def start (least most : Nat) : Backoff := ⟨least, most, none⟩

def pause (b : Backoff) : Nat :=
  match b.last with
  | none => b.least
  | some p => min (if p < b.most then 2 * p else p) b.most

def next (b : Backoff) : Nat × Backoff := (b.pause, { b with last := some b.pause })

end Backoff

end ChainHerald
