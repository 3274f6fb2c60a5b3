namespace ChainHerald

/-- A world of tasks that take turns. A task without a step waits; `wakes` are the times of the
timers that it has set, one of which ends its wait if time alone does. -/
class Machine (ω : Type) where
  Task : Type
  same : DecidableEq Task
  tasks : ω → List Task
  step : Task → ω → Option ω
  wakes : Task → ω → List Nat
  now : ω → Nat
  setNow : Nat → ω → ω

/-- A world with the tasks that are to move, in the order in which they became able to, and with
the timers of all tasks, in the order in which they were set. -/
structure Sim (ω : Type) [Machine ω] where
  world : ω
  queue : List (Machine.Task ω)
  timers : List (Machine.Task ω × Nat)

namespace Sim

variable {ω : Type} [Machine ω]

instance : DecidableEq (Machine.Task ω) := Machine.same

/-- Queues those of the tasks that have become able to move. -/
def enqueue (s : Sim ω) (tasks : List (Machine.Task ω)) : Sim ω :=
  { s with
    queue := s.queue ++ tasks.filter fun t =>
      !s.queue.contains t && (Machine.step t s.world).isSome }

/-- A timer keeps its place until it is gone or set again. -/
def rearm (s : Sim ω) : Sim ω :=
  let set := (Machine.tasks s.world).flatMap fun t => (Machine.wakes t s.world).map (t, ·)
  let kept := s.timers.filter set.contains
  { s with timers := kept ++ set.filter (!kept.contains ·) }

/-- Takes account of what has changed in the world. -/
def collect (s : Sim ω) : Sim ω := (s.enqueue (Machine.tasks s.world)).rearm

def start (w : ω) : Sim ω := collect ⟨w, [], []⟩

/-- An event from outside. -/
def touch (s : Sim ω) (f : ω → ω) : Sim ω := { s with world := f s.world }.collect

/-- Time passes. Of the tasks that this lets move, those come first whose timers were set first. -/
def passTo (s : Sim ω) (time : Nat) : Sim ω :=
  let due := (s.timers.filter (·.2 = time)).map (·.1)
  ({ s with world := Machine.setNow time s.world }.enqueue due.eraseDups).collect

/-- The first task keeps its turn until it has to wait. -/
def run : Nat → Sim ω → Sim ω
  | 0, s => s
  | fuel + 1, s =>
    match s.queue with
    | [] => s
    | t :: rest =>
      match Machine.step t s.world with
      | none => run fuel { s with queue := rest }
      | some w => run fuel { s with world := w }.collect

/-- More moves than any world makes without time passing. -/
def patience : Nat := 1000000

/-- Everything that can move does. -/
def settle (s : Sim ω) : Sim ω := run patience s

/-- The next time, after now, at which a timer ends. -/
def nextWake (s : Sim ω) : Option Nat :=
  ((s.timers.map (·.2)).filter (Machine.now s.world < ·)).min?

/-- Somebody outside waits for `stop`. They look first thing, whenever all tasks have come to rest,
and at every new instant before any task moves. `turn` is what they do when they look, `due` when
they look by themselves. -/
def attend (turn : ω → ω) (stop : ω → Bool) (due : ω → Option Nat) : Nat → Sim ω → Sim ω
  | 0, s => s
  | fuel + 1, s =>
    let s := s.touch turn
    if stop s.world then s
    else if s.queue.isEmpty then
      let wakes := s.nextWake.toList ++ (due s.world).toList.filter (Machine.now s.world < ·)
      match wakes.min? with
      | none => s
      | some t => attend turn stop due fuel (s.passTo t)
    else attend turn stop due fuel s.settle

/-- Waits until `stop` holds, but no longer than `time`. What happens at the very end of that time
is too late. -/
def waitFor (s : Sim ω) (stop : ω → Bool) (time : Nat) : Sim ω :=
  let target := Machine.now s.world + time
  s.attend id (fun w => stop w || decide (target ≤ Machine.now w)) (fun _ => some target) patience

def sleep (s : Sim ω) (time : Nat) : Sim ω := (s.waitFor (fun _ => false) time).settle

end Sim

end ChainHerald
