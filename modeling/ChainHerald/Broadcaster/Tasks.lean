import ChainHerald.Broadcaster.Handle
import ChainHerald.Simulation

namespace ChainHerald.Broadcaster

variable {σ : Type} [Source σ]

inductive Task where
  | service
  | lane (n : Nat)
  | close (n : Nat)
  | wait (n : Nat)
  deriving DecidableEq

def tasks (b : Broadcaster σ) : List Task :=
  .service :: b.intake.writers.keys.map .lane ++ (List.range b.closes.length).map .close
    ++ (List.range b.gate.waits.length).map .wait

def step : Task → Broadcaster σ → Option (Broadcaster σ)
  | .service, b => b.stepService
  | .lane n, b => b.stepLane n
  | .close n, b => b.stepClose n
  | .wait n, b => b.stepWait n

def wakes : Task → Broadcaster σ → List Nat
  | .service, b => b.serviceWakes
  | .lane n, b => b.intake.wakes n
  | .close _, _ | .wait _, _ => []

def setNow (now : Nat) (b : Broadcaster σ) : Broadcaster σ :=
  b.withDesk { b.desk with clock := { b.desk.clock with now } }

instance : Machine (Broadcaster σ) where
  Task := Task
  same := inferInstance
  tasks := tasks
  step := step
  wakes := wakes
  now := fun b => b.desk.clock.now
  setNow := setNow

end ChainHerald.Broadcaster
