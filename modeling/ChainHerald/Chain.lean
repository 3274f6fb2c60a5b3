import ChainHerald.Keccak

namespace ChainHerald

abbrev Address := BitVec 160

/-- A block hash, a topic or an event signature. -/
abbrev Hash := BitVec 256

instance : Std.TransOrd Address := inferInstanceAs (Std.TransOrd (BitVec 160))

instance : Std.TransOrd Hash := inferInstanceAs (Std.TransOrd (BitVec 256))

/-- The largest block number or log index there is. -/
def maxNumber : Nat := 0xffffffffffffffff

def digest (b : Bytes) : Hash := BitVec.ofNat 256 (keccak256 b).toNat

def upper (c : Char) : Char :=
  if 'a' ≤ c ∧ c ≤ 'f' then Char.ofNat (c.toNat - 32) else c

/-- A letter is upper-case where the digest of the lower-case spelling has a digit of eight or
more, so a mistyped address is recognised. -/
def Address.checksummed (a : Address) : String :=
  let plain := Hex.digits 40 a.toNat
  let marks := (Hex.digits 64 (digest (plain.map fun c => UInt8.ofNat c.toNat)).toNat).take 40
  "0x" ++ String.ofList (List.zipWith (fun c s => if '8' ≤ s then upper c else c) plain marks)

/-- An event as a node reports it. The three coordinates are missing while it is pending. -/
structure Log where
  address : Address
  topics : List Hash
  data : Bytes
  block : Option Nat
  hash : Option Hash
  index : Option Nat
  removed : Bool
  deriving DecidableEq

/-- Where a mined log stands. The hash tells competing blocks of one height apart. -/
structure Position where
  block : Nat
  index : Nat
  hash : Hash
  deriving DecidableEq

/-- Chain order: by block, then by index in the block, then by hash. -/
instance : Ord Position where
  compare := compareLex (compareOn Position.block)
    (compareLex (compareOn Position.index) (compareOn Position.hash))

instance : Std.TransOrd Position :=
  inferInstanceAs (Std.TransCmp (compareLex _ (compareLex _ _)))

def Log.position? (l : Log) : Option Position :=
  match l.block, l.hash, l.index with
  | some block, some hash, some index => some ⟨block, index, hash⟩
  | _, _, _ => none

structure Head where
  number : Nat
  hash : Hash
  parent : Hash
  deriving DecidableEq

def Head.display (h : Head) : String := "#" ++ toString h.number ++ " (" ++ Hex.word h.hash ++ ")"

/-- Which log a job is done with. -/
structure Key where
  hash : Hash
  index : Nat
  job : Int
  deriving DecidableEq

instance : Ord Key where
  compare := compareLex (compareOn Key.hash) (compareLex (compareOn Key.index) (compareOn Key.job))

instance : Std.TransOrd Key :=
  inferInstanceAs (Std.TransCmp (compareLex _ (compareLex _ _)))

end ChainHerald
