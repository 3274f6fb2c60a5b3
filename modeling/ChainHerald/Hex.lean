namespace ChainHerald

abbrev Bytes := List UInt8

namespace Hex

/-- The last `width` hexadecimal digits of `n`, lower-case, most significant first. -/
def digits : Nat → Nat → List Char
  | 0, _ => []
  | width + 1, n => digits width (n / 16) ++ [Nat.digitChar (n % 16)]

def word {w : Nat} (v : BitVec w) : String :=
  "0x" ++ String.ofList (digits (w / 4) v.toNat)

def bytes (b : Bytes) : String :=
  "0x" ++ String.ofList (b.flatMap fun x => digits 2 x.toNat)

def digit? (c : Char) : Option Nat :=
  if '0' ≤ c ∧ c ≤ '9' then some (c.toNat - '0'.toNat)
  else if 'a' ≤ c ∧ c ≤ 'f' then some (c.toNat - 'a'.toNat + 10)
  else if 'A' ≤ c ∧ c ≤ 'F' then some (c.toNat - 'A'.toNat + 10)
  else none

def pairs? : List Char → Option Bytes
  | [] => some []
  | [_] => none
  | hi :: lo :: rest => do
    let h ← digit? hi
    let l ← digit? lo
    let tail ← pairs? rest
    return UInt8.ofNat (16 * h + l) :: tail

def bytes? (s : String) : Option Bytes :=
  match s.toList with
  | '0' :: 'x' :: rest => pairs? rest
  | _ => none

end Hex

namespace Bytes

/-- The big-endian number that the bytes spell. -/
def toNat (b : Bytes) : Nat := b.foldl (fun n x => 256 * n + x.toNat) 0

/-- The last `width` big-endian bytes of `n`. -/
def ofNat : Nat → Nat → Bytes
  | 0, _ => []
  | width + 1, n => ofNat width (n / 256) ++ [UInt8.ofNat n]

end Bytes

/-- Reads exactly `w` bits' worth of hexadecimal digits. -/
def Hex.word? (w : Nat) (s : String) : Option (BitVec w) :=
  match Hex.bytes? s with
  | some b => if 8 * b.length = w then some (BitVec.ofNat w b.toNat) else none
  | none => none

end ChainHerald
