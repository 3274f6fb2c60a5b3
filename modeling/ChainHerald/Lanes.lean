import ChainHerald.Table

namespace ChainHerald

/-- A first-in first-out channel with room for `capacity` items and two ends that can go away. -/
structure Channel (α : Type) where
  capacity : Nat
  buffer : List α
  writable : Bool
  readable : Bool

inductive Sent where
  | accepted
  | full
  | closed
  deriving DecidableEq

/-- A reader waits while nothing is there and the writing end lives. -/
inductive Reading (α : Type) where
  | item (a : α)
  | waiting
  | ended

namespace Channel

variable {α : Type}

def new (capacity : Nat) : Channel α := ⟨capacity, [], true, true⟩

def send (c : Channel α) (a : α) : Sent × Channel α :=
  if !c.readable then (.closed, c)
  else if c.buffer.length < c.capacity then (.accepted, { c with buffer := c.buffer ++ [a] })
  else (.full, c)

def take (c : Channel α) : Reading α × Channel α :=
  match c.buffer with
  | a :: rest => (.item a, { c with buffer := rest })
  | [] => if c.writable then (.waiting, c) else (.ended, c)

def hangUp (c : Channel α) : Channel α := { c with writable := false }

def detach (c : Channel α) : Channel α := { c with readable := false }

end Channel

/-- Channels, and the order in which they are read: the first one to its end, then the next. -/
structure Lanes (α : Type) where
  channels : Table Nat (Channel α)
  queue : List Nat
  fresh : Nat

namespace Lanes

variable {α : Type}

def empty : Lanes α := ⟨.empty, [], 0⟩

/-- The number of the new lane is `fresh`. -/
def add (s : Lanes α) (c : Channel α) : Lanes α :=
  { s with channels := s.channels.insert s.fresh c, fresh := s.fresh + 1 }

def update (s : Lanes α) (lane : Nat) (f : Channel α → Channel α) : Lanes α :=
  match s.channels.get? lane with
  | none => s
  | some c => { s with channels := s.channels.insert lane (f c) }

def send (s : Lanes α) (lane : Nat) (a : α) : Option (Sent × Lanes α) :=
  (s.channels.get? lane).map fun c =>
    ((c.send a).1, { s with channels := s.channels.insert lane (c.send a).2 })

def enqueue (s : Lanes α) (lane : Nat) : Lanes α := { s with queue := s.queue ++ [lane] }

def remove (s : Lanes α) (lane : Nat) : Lanes α := { s with channels := s.channels.erase lane }

/-- Lanes found closed and read to the end leave the queue for good. -/
def nextIn (channels : Table Nat (Channel α)) :
    List Nat → Reading α × Table Nat (Channel α) × List Nat
  | [] => (.ended, channels, [])
  | lane :: rest =>
    match (channels.get? lane).map Channel.take with
    | some (.item a, c) => (.item a, channels.insert lane c, lane :: rest)
    | some (.waiting, _) => (.waiting, channels, lane :: rest)
    | some (.ended, _) => nextIn (channels.erase lane) rest
    | none => nextIn channels rest

def next (s : Lanes α) : Reading α × Lanes α :=
  match nextIn s.channels s.queue with
  | (r, channels, queue) => (r, { s with channels, queue })

end Lanes

end ChainHerald
