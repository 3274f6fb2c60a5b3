import ChainHerald.Lanes

namespace ChainHerald

/-- Lanes by name, as those hold them that have one end in hand: the writing end until it is closed,
the reading end until it is put into the queue. -/
structure Streams (α : Type) where
  lanes : Lanes α
  writing : List (String × Nat)
  reading : List (String × Nat)

namespace Streams

variable {α : Type}

def empty : Streams α := ⟨.empty, [], []⟩

def without (name : String) (held : List (String × Nat)) : List (String × Nat) :=
  held.filter (·.1 ≠ name)

/-- The ends that were held under this name are let go. -/
def forget (s : Streams α) (name : String) : Streams α :=
  let lanes := match s.writing.lookup name with
    | none => s.lanes
    | some lane => s.lanes.update lane Channel.hangUp
  let lanes := match s.reading.lookup name with
    | none => lanes
    | some lane => lanes.update lane Channel.detach
  ⟨lanes, without name s.writing, without name s.reading⟩

def opened (s : Streams α) (name : String) (capacity : Nat) : Streams α :=
  let s := s.forget name
  let lane := s.lanes.fresh
  ⟨s.lanes.add (.new capacity), (name, lane) :: s.writing, (name, lane) :: s.reading⟩

def push (s : Streams α) (name : String) : Streams α :=
  match s.reading.lookup name with
  | none => s
  | some lane => { s with lanes := s.lanes.enqueue lane, reading := without name s.reading }

def send (s : Streams α) (name : String) (a : α) : Option Sent × Streams α :=
  match (s.writing.lookup name).bind fun lane => s.lanes.send lane a with
  | none => (none, s)
  | some (sent, lanes) => (some sent, { s with lanes })

/-- Whether the writing end was still held. -/
def close (s : Streams α) (name : String) : Bool × Streams α :=
  match s.writing.lookup name with
  | none => (false, s)
  | some lane =>
    (true,
      { s with lanes := s.lanes.update lane Channel.hangUp, writing := without name s.writing })

def next (s : Streams α) : Reading α × Streams α :=
  match s.lanes.next with
  | (r, lanes) => (r, { s with lanes })

end Streams

end ChainHerald
