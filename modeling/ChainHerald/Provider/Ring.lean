import ChainHerald.Table

namespace ChainHerald

/-- A notification channel for any number of readers, each at its own place. It keeps the last
`capacity` items; who is further behind has lost some. -/
structure Ring (ι : Type) where
  capacity : Nat
  kept : List ι
  count : Nat
  isOpen : Bool
  readers : Nat

/-- A reader's place in a ring. -/
structure Tap (ι : Type) where
  ring : Nat
  cursor : Nat
  deriving DecidableEq

inductive Signal (ι : Type) where
  | item (i : ι)
  | lagged (lost : Nat)
  | closed
  | quiet

abbrev Rings (ι : Type) := Table Nat (Ring ι)

namespace Ring

variable {ι : Type}

def new (capacity : Nat) : Ring ι := ⟨capacity, [], 0, true, 0⟩

def lost (r : Ring ι) : Nat := r.count - r.kept.length

/-- Whether anybody was there to send to. -/
def send (r : Ring ι) (i : ι) : Bool × Ring ι :=
  if r.readers = 0 then (false, r)
  else
    let kept := r.kept ++ [i]
    (true, { r with kept := kept.drop (kept.length - r.capacity), count := r.count + 1 })

def close (r : Ring ι) : Ring ι := { r with isOpen := false }

/-- A reader that fell behind is told so before it gets the oldest item there is. -/
def read (r : Ring ι) (cursor : Nat) : Signal ι × Nat :=
  if cursor < r.lost then (.lagged (r.lost - cursor), r.lost)
  else
    match r.kept[cursor - r.lost]? with
    | some i => (.item i, cursor + 1)
    | none => (if r.isOpen then .quiet else .closed, cursor)

end Ring

namespace Rings

variable {ι : Type}

def update (rs : Rings ι) (ring : Nat) (f : Ring ι → Ring ι) : Rings ι :=
  match Table.get? rs ring with
  | none => rs
  | some r => Table.insert rs ring (f r)

/-- A new reader gets what is sent from now on. -/
def attach (rs : Rings ι) (ring : Nat) : Tap ι × Rings ι :=
  (⟨ring, ((Table.get? rs ring).map Ring.count).getD 0⟩,
    update rs ring fun r => { r with readers := r.readers + 1 })

def release (rs : Rings ι) (t : Tap ι) : Rings ι :=
  update rs t.ring fun r => { r with readers := r.readers - 1 }

def read (rs : Rings ι) (t : Tap ι) : Signal ι × Tap ι :=
  match Table.get? rs t.ring with
  | none => (.closed, t)
  | some r => ((r.read t.cursor).1, { t with cursor := (r.read t.cursor).2 })

def isEmpty (rs : Rings ι) (t : Tap ι) : Bool :=
  match Table.get? rs t.ring with
  | none => true
  | some r => t.cursor == r.count

end Rings

end ChainHerald
