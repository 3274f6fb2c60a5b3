import ChainHerald.Broadcaster.Tasks
import ChainHerald.Proofs.Dispatch

/-!
# Runs of a broadcaster

A run is any sequence of moves: tasks take turns, handles are used, the node side, the ledger and
the clock change, in any order. `Broadcaster.takes` is what the service hears of with a move, and
`Broadcaster.history` what it has heard of in a run.
-/

namespace ChainHerald

/-- Whatever can happen to a broadcaster. A task that has to wait does nothing. -/
inductive Move (σ : Type) where
  | task (t : Broadcaster.Task)
  | start
  | register (l : Listener) (o : Options)
  | unsubscribe (id : Nat)
  | head (h : Head)
  | replay (block : Nat)
  | dependents (count : Nat)
  | ready
  | awaitDependents
  | close
  | share
  | drop
  | wasConsumed (m : Broadcast)
  | markConsumed (m : Broadcast)
  | markers (lo hi : Nat)
  | failReads (count : Nat)
  | failMarks (count : Nat)
  | failLookups (count : Nat)
  | node (f : σ → σ)
  | clock (c : Clock)

namespace Broadcaster

variable {σ : Type} [Source σ]

def withLedger (b : Broadcaster σ) (g : Ledger) : Broadcaster σ :=
  b.withDesk { b.desk with ledger := g }

def move (b : Broadcaster σ) : Move σ → Broadcaster σ
  | .task t => (step t b).getD b
  | .start => b.start.toOption.getD b
  | .register l o => (b.register l o).2
  | .unsubscribe id => b.unsubscribe id
  | .head h => b.newHead h
  | .replay block => b.requestReplay block
  | .dependents count => b.addDependents count
  | .ready => b.dependentReady
  | .awaitDependents => b.awaitDependents
  | .close => b.close
  | .share => b.share
  | .drop => b.drop
  | .wasConsumed m => (b.wasConsumed m).2
  | .markConsumed m => (b.markConsumed m).2
  | .markers lo hi => b.withDesk (b.desk.find lo hi).2
  | .failReads count => b.withLedger { b.desk.ledger with failingReads := count }
  | .failMarks count => b.withLedger { b.desk.ledger with failingMarks := count }
  | .failLookups count => b.withLedger { b.desk.ledger with failingLookups := count }
  | .node f => b.withSource (f b.intake.source)
  | .clock c => b.withDesk { b.desk with clock := c }

def run (b : Broadcaster σ) (ms : List (Move σ)) : Broadcaster σ := ms.foldl move b

def pass (b : Broadcaster σ) : Option Pass :=
  match b.phase with
  | .handing pass _ => some pass
  | _ => none

/-- What the service turns to when it has come round its loop. -/
inductive Stimulus where
  | stop
  | failure
  | replay
  | head
  | changes
  | log (l : Log)
  | tick

/-- The first of what is there. -/
def stimulus (b : Broadcaster σ) (tick : Nat) : Option Stimulus :=
  if b.desk.cancelled then some .stop
  else if b.intake.fault.isSome then some .failure
  else if b.replay.isSome then some .replay
  else if b.heads.wakeUp then some .head
  else if b.changes.wakeUp then some .changes
  else
    match b.intake.lanes.next.1 with
    | .item l => some (.log l)
    | _ => if tick ≤ b.desk.clock.now then some .tick else none

/-- What the service hears of with the move, in this order. -/
def takes (b : Broadcaster σ) : Move σ → List Input
  | .task .service =>
    match b.phase with
    | .gathering ready =>
      if b.desk.cancelled then []
      else
        match b.gate.look? ready with
        | some .done => b.changes.queue.map .change
        | some _ => []
        | none => if b.changes.wakeUp then b.changes.queue.map .change else []
    | .serving tick =>
      match b.stimulus tick with
      | some .head => (b.heads.queue.getLast?.map .head).toList
      | some .changes => b.changes.queue.map .change
      | some (.log l) => [.log l]
      | _ => []
    | _ => []
  | _ => []

/-- The herald once it has taken note of what the move brings, before any dispatch. -/
def noted (b : Broadcaster σ) (m : Move σ) : Herald := (b.takes m).foldl Herald.note b.herald

def history (b : Broadcaster σ) : List (Move σ) → List Input
  | [] => []
  | m :: ms => b.takes m ++ (b.move m).history ms

/-- What the moves of a run leave behind, one after the other. -/
def trace {α : Type} (f : Broadcaster σ → Move σ → List α) (b : Broadcaster σ) :
    List (Move σ) → List α
  | [] => []
  | m :: ms => f b m ++ (b.move m).trace f ms

/-- Where a new broadcaster can get to, and what its service has heard of by then. -/
inductive Reached : Broadcaster σ → List Input → Prop where
  | start (settings : Settings) (source : σ) (ledger : Ledger) :
      Reached (new settings source ledger) []
  | move {b : Broadcaster σ} {hs : List Input} (r : Reached b hs) (m : Move σ) :
      Reached (b.move m) (hs ++ b.takes m)

variable {b : Broadcaster σ} {hs : List Input}

theorem history_append (b : Broadcaster σ) (ms ns : List (Move σ)) :
    b.history (ms ++ ns) = b.history ms ++ (b.run ms).history ns := by
  induction ms generalizing b with
  | nil => rfl
  | cons m ms ih => simpa [history, Broadcaster.run] using ih (b.move m)

theorem trace_append {α : Type} (f : Broadcaster σ → Move σ → List α) (b : Broadcaster σ)
    (ms ns : List (Move σ)) : b.trace f (ms ++ ns) = b.trace f ms ++ (b.run ms).trace f ns := by
  induction ms generalizing b with
  | nil => rfl
  | cons m ms ih => simpa [trace, Broadcaster.run] using ih (b.move m)

theorem run_append (b : Broadcaster σ) (ms ns : List (Move σ)) :
    b.run (ms ++ ns) = (b.run ms).run ns :=
  List.foldl_append

theorem run_concat (b : Broadcaster σ) (ms : List (Move σ)) (m : Move σ) :
    b.run (ms ++ [m]) = (b.run ms).move m := by
  simp [Broadcaster.run]

theorem Reached.run (r : b.Reached hs) (ms : List (Move σ)) :
    (b.run ms).Reached (hs ++ b.history ms) := by
  induction ms generalizing b hs with
  | nil => simpa [history, Broadcaster.run] using r
  | cons m ms ih => simpa [history, Broadcaster.run] using ih (r.move m)

end Broadcaster

end ChainHerald
