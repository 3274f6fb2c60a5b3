import ChainHerald.Hex

namespace ChainHerald.Keccak

/-- The permutation's state: twenty-five lanes, lane `(x, y)` at `x + 5 * y`. -/
abbrev State := Array UInt64

def roundConstants : List UInt64 :=
  [0x0000000000000001, 0x0000000000008082, 0x800000000000808a, 0x8000000080008000,
   0x000000000000808b, 0x0000000080000001, 0x8000000080008081, 0x8000000000008009,
   0x000000000000008a, 0x0000000000000088, 0x0000000080008009, 0x000000008000000a,
   0x000000008000808b, 0x800000000000008b, 0x8000000000008089, 0x8000000000008003,
   0x8000000000008002, 0x8000000000000080, 0x000000000000800a, 0x800000008000000a,
   0x8000000080008081, 0x8000000000008080, 0x0000000080000001, 0x8000000080008008]

/-- How far each lane turns left, in lane order. -/
def offsets : Array UInt64 :=
  #[0, 1, 62, 28, 27, 36, 44, 6, 55, 20, 3, 10, 43, 25, 39, 41, 45, 15, 21, 8, 18, 2, 61, 56, 14]

def lane (s : State) (x y : Nat) : UInt64 := s.getD (x % 5 + 5 * (y % 5)) 0

def fill (f : Nat → Nat → UInt64) : State := Array.ofFn fun i : Fin 25 => f (i.val % 5) (i.val / 5)

def turn (v n : UInt64) : UInt64 := if n = 0 then v else v <<< n ||| v >>> (64 - n)

def column (s : State) (x : Nat) : UInt64 :=
  lane s x 0 ^^^ lane s x 1 ^^^ lane s x 2 ^^^ lane s x 3 ^^^ lane s x 4

def theta (s : State) : State :=
  let parity := Array.ofFn fun i : Fin 5 => column s i.val
  fill fun x y =>
    lane s x y ^^^ parity.getD ((x + 4) % 5) 0 ^^^ turn (parity.getD ((x + 1) % 5) 0) 1

/-- Lane `(x, y)` of the result is lane `(x + 3 * y, x)` turned by that lane's offset. -/
def rhoPi (s : State) : State :=
  fill fun x y => turn (lane s (x + 3 * y) x) (offsets.getD ((x + 3 * y) % 5 + 5 * x) 0)

def chi (s : State) : State :=
  fill fun x y => lane s x y ^^^ (~~~(lane s (x + 1) y) &&& lane s (x + 2) y)

def round (s : State) (constant : UInt64) : State :=
  let t := chi (rhoPi (theta s))
  t.set! 0 (t.getD 0 0 ^^^ constant)

def permute (s : State) : State := roundConstants.foldl round s

/-- A lane is eight bytes, the least significant one first. -/
def word (b : Bytes) : UInt64 := b.foldr (fun x acc => acc <<< 8 ||| x.toUInt64) 0

def lanes : Nat → Bytes → List UInt64
  | 0, _ => []
  | n + 1, b => word (b.take 8) :: lanes n (b.drop 8)

/-- The bytes a 256-bit digest absorbs at a time. -/
def rate : Nat := 136

def pad (b : Bytes) : Bytes :=
  let zeros := rate - 1 - b.length % rate
  if zeros = 0 then b ++ [0x81] else b ++ [0x01] ++ List.replicate (zeros - 1) 0 ++ [0x80]

def absorb : Nat → State → Bytes → State
  | 0, s, _ => s
  | n + 1, s, b =>
    let block := (lanes 17 (b.take rate)).toArray
    absorb n (permute (fill fun x y => lane s x y ^^^ block.getD (x + 5 * y) 0)) (b.drop rate)

def lowBytes : Nat → UInt64 → Bytes
  | 0, _ => []
  | n + 1, v => v.toUInt8 :: lowBytes n (v >>> 8)

end ChainHerald.Keccak

namespace ChainHerald

def keccak256 (b : Bytes) : Bytes :=
  let padded := Keccak.pad b
  let s := Keccak.absorb (padded.length / Keccak.rate) (Array.replicate 25 0) padded
  (s.toList.take 4).flatMap (Keccak.lowBytes 8)

end ChainHerald
