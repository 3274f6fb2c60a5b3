namespace ChainHerald

/-- A queue for one consumer that never makes a producer wait. Wake-ups coalesce: one stored
wake-up may stand for many deliveries, so the consumer has to empty the queue. -/
structure Mailbox (α : Type) where
  /-- Without a capacity every item is kept. -/
  capacity : Option Nat
  queue : List α
  wakeUp : Bool
  /-- Whether each waiter, in the order they came, has been woken. -/
  waiters : List Bool

namespace Mailbox

variable {α : Type}

def empty (capacity : Option Nat) : Mailbox α := ⟨capacity, [], false, []⟩

/-- Room for the newest item is always made. -/
def limit (m : Mailbox α) : Option Nat := m.capacity.map (max 1)

def finishFirst : List Bool → List Bool
  | [] => []
  | false :: rest => true :: rest
  | true :: rest => true :: finishFirst rest

/-- Wakes the waiter that waits longest, or stores the wake-up. -/
def notify (m : Mailbox α) : Mailbox α :=
  if m.waiters.all id then { m with wakeUp := true }
  else { m with waiters := finishFirst m.waiters }

/-- Whether the oldest item had to go, and the mailbox with the new item. -/
def deliver (m : Mailbox α) (a : α) : Bool × Mailbox α :=
  let queue := m.queue ++ [a]
  let excess := match m.limit with
    | none => 0
    | some n => queue.length - n
  (excess != 0, { m with queue := queue.drop excess }.notify)

def retrieve (m : Mailbox α) : Option α × Mailbox α :=
  (m.queue.head?, { m with queue := m.queue.tail })

def latest (m : Mailbox α) : Option α × Mailbox α :=
  (m.queue.getLast?, { m with queue := [] })

/-- Takes the stored wake-up. -/
def awake (m : Mailbox α) : Bool × Mailbox α := (m.wakeUp, { m with wakeUp := false })

def wait (m : Mailbox α) : Mailbox α :=
  { m with wakeUp := false, waiters := m.waiters ++ [m.wakeUp] }

end Mailbox

end ChainHerald
