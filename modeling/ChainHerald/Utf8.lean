import ChainHerald.Hex

namespace ChainHerald.Utf8

/-- How many bytes follow a lead byte, which range the first of them is in, and the lead's own
bits. -/
def lead (b : UInt8) : Option (Nat × UInt8 × UInt8 × Nat) :=
  if b < 0x80 then some (0, 0, 0, b.toNat)
  else if b < 0xc2 then none
  else if b < 0xe0 then some (1, 0x80, 0xbf, b.toNat % 32)
  else if b = 0xe0 then some (2, 0xa0, 0xbf, 0)
  else if b = 0xed then some (2, 0x80, 0x9f, 13)
  else if b < 0xf0 then some (2, 0x80, 0xbf, b.toNat % 16)
  else if b = 0xf0 then some (3, 0x90, 0xbf, 0)
  else if b < 0xf4 then some (3, 0x80, 0xbf, b.toNat % 8)
  else if b = 0xf4 then some (3, 0x80, 0x8f, 4)
  else none

/-- What is left after the continuation bytes, and the code point if none was missing. -/
def continuation : Nat → UInt8 → UInt8 → Nat → Bytes → Option Nat × Bytes
  | 0, _, _, value, rest => (some value, rest)
  | _ + 1, _, _, _, [] => (none, [])
  | n + 1, lo, hi, value, b :: rest =>
    if lo ≤ b ∧ b ≤ hi then continuation n 0x80 0xbf (64 * value + b.toNat % 64) rest
    else (none, b :: rest)

theorem length_continuation (n : Nat) (lo hi : UInt8) (value : Nat) (b : Bytes) :
    (continuation n lo hi value b).2.length ≤ b.length := by
  fun_induction continuation n lo hi value b <;> simp_all
  omega

/-- Every longest start of a sequence that goes wrong becomes one replacement character. -/
def decode (b : Bytes) : List Char :=
  match b with
  | [] => []
  | x :: rest =>
    match lead x with
    | none => '\uFFFD' :: decode rest
    | some (n, lo, hi, value) =>
      let next := continuation n lo hi value rest
      (next.1.map Char.ofNat).getD '\uFFFD' :: decode next.2
termination_by b.length
decreasing_by
  · simp
  · exact Nat.lt_succ_of_le (length_continuation n lo hi value rest)

end ChainHerald.Utf8
