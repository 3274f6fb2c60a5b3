import ChainHerald.Broadcaster.Tasks

namespace ChainHerald.Rehearsal

/-- One step of a rehearsal. `N` is what can be done to the node side. -/
inductive Step (N : Type) where
  | start
  | register (name : String) (job : Int) (marking : Bool) (delay : Nat) (o : Options)
  | unsubscribe (name : String)
  | head (h : Head)
  | replay (block : Nat)
  | dependents (count : Nat)
  | ready
  | awaitDependents
  | close
  | drop
  | display
  | wasConsumed (b : Broadcast)
  | markConsumed (b : Broadcast)
  | markers (lo hi : Nat)
  | received (name : String)
  | waitCount (name : String) (count time : Nat)
  | failReads (count : Nat)
  | failMarks (count : Nat)
  | failLookups (count : Nat)
  | sleep (time : Nat)
  | node (n : N)
  | batch (steps : List (Step N))

inductive Answer where
  | nothing
  | failed (e : BroadcasterError)
  | ledgerFailed (e : LedgerError)
  | dropped
  | registered (id : Nat)
  | flag (b : Bool)
  | text (s : String)
  | keys (ks : List Key)
  | received (bs : Option (List Broadcast))
  | ranges (rs : List (Nat × Nat))
  | running
  | forwarded (r : Except ProviderError Unit)
  | batch (rs : List Answer)

/-- A world with a broadcaster in it and a node side that `N` acts on. -/
class Host (ω : Type) (σ N : outParam Type) [Source σ] extends Machine ω where
  broadcaster : ω → Broadcaster σ
  update : (Broadcaster σ → Broadcaster σ) → ω → ω
  act : N → ω → Answer × ω
  needsHandle : N → Bool

/-- A rehearsal under way, with the names of the listeners, the newest first, and the handles for
unsubscribing that are still there. -/
structure Stage (ω : Type) [Machine ω] where
  sim : Sim ω
  names : List String
  tickets : List (String × Nat)
  dropped : Bool

/-- A step that has been made. -/
structure Report (ω : Type) where
  answer : Answer
  dropped : Bool
  before : ω
  after : ω

variable {ω σ N : Type} [Source σ] [Host ω σ N]

/-- What the step added to the journal. -/
def Report.entries (r : Report ω) : List Entry :=
  gained (Host.broadcaster r.before).desk.journal.length (Host.broadcaster r.after).desk.journal

namespace Stage

def start (w : ω) : Stage ω := ⟨.start w, [], [], false⟩

def broadcaster (s : Stage ω) : Broadcaster σ := Host.broadcaster s.sim.world

def journal (s : Stage ω) : List Entry := s.broadcaster.desk.journal

def touch (s : Stage ω) (f : Broadcaster σ → Broadcaster σ) : Stage ω :=
  { s with sim := s.sim.touch (Host.update f) }

def ledger (s : Stage ω) (f : Ledger → Ledger) : Stage ω :=
  s.touch fun b => b.withDesk { b.desk with ledger := f b.desk.ledger }

/-- What the listener registered last under this name has recorded. -/
def recordsOf (s : Stage ω) (name : String) (journal : List Entry) : Option (List Broadcast) :=
  let rec find : List String → Option Nat
    | [] => none
    | n :: older => if n = name then some older.length else find older
  (find s.names).map fun recorder =>
    journal.reverse.filterMap fun
      | .recorded l b => if l.recorder = recorder then some b else none
      | _ => none

/-- A step on the handle, which may be gone. -/
def onHandle (s : Stage ω) (f : Stage ω → Answer × Stage ω) : Answer × Stage ω :=
  if s.dropped then (.dropped, s) else f s

/-- What each step answers, before anything else gets to run. -/
def act (s : Stage ω) : Step N → Answer × Stage ω
  | .start =>
    s.onHandle fun s =>
      match s.broadcaster.start with
      | .ok b => (.nothing, s.touch fun _ => b)
      | .error e => (.failed e, s)
  | .register name job marking delay o =>
    s.onHandle fun s =>
      let l : Listener := ⟨name, s.names.length, job, marking, false, delay⟩
      let s := { s with names := name :: s.names }
      match s.broadcaster.register l o with
      | (.ok id, b) =>
        (.registered id, { s with tickets := (name, id) :: s.tickets }.touch fun _ => b)
      | (.error e, b) => (.failed e, s.touch fun _ => b)
  | .unsubscribe name =>
    s.onHandle fun s =>
      match s.tickets.lookup name with
      | none => (.flag false, s)
      | some id =>
        (.flag true,
          { s with tickets := s.tickets.filter (·.1 ≠ name) }.touch fun b => b.unsubscribe id)
  | .head h => s.onHandle fun s => (.nothing, s.touch fun b => b.newHead h)
  | .replay block => s.onHandle fun s => (.nothing, s.touch fun b => b.requestReplay block)
  | .dependents count => s.onHandle fun s => (.nothing, s.touch fun b => b.addDependents count)
  | .ready => s.onHandle fun s => (.nothing, s.touch fun b => b.dependentReady)
  | .awaitDependents => s.onHandle fun s => (.nothing, s.touch fun b => b.awaitDependents)
  | .close => s.onHandle fun s => (.nothing, s.touch fun b => b.close)
  | .drop => s.onHandle fun s => (.nothing, { s with dropped := true }.touch fun b => b.drop)
  | .display => s.onHandle fun s => (.text s.broadcaster.display, s)
  | .wasConsumed m =>
    s.onHandle fun s =>
      match s.broadcaster.wasConsumed m with
      | (.ok r, b) => (.flag r, s.touch fun _ => b)
      | (.error e, b) => (.failed e, s.touch fun _ => b)
  | .markConsumed m =>
    s.onHandle fun s =>
      match s.broadcaster.markConsumed m with
      | (.ok _, b) => (.nothing, s.touch fun _ => b)
      | (.error e, b) => (.failed e, s.touch fun _ => b)
  | .markers lo hi =>
    s.onHandle fun s =>
      match s.broadcaster.desk.find lo hi with
      | (.ok ks, d) => (.keys ks.keys, s.touch fun b => b.withDesk d)
      | (.error e, d) => (.ledgerFailed e, s.touch fun b => b.withDesk d)
  | .received name => (.received (s.recordsOf name s.journal), s)
  | .waitCount name count time =>
    match s.recordsOf name s.journal with
    | none => (.nothing, s)
    | some _ =>
      let reached (w : ω) : Bool :=
        (s.recordsOf name (Host.broadcaster w).desk.journal).any (count ≤ ·.length)
      let sim := s.sim.waitFor reached time
      (.flag (reached sim.world), { s with sim })
  | .failReads count => (.nothing, s.ledger fun g => { g with failingReads := count })
  | .failMarks count => (.nothing, s.ledger fun g => { g with failingMarks := count })
  | .failLookups count => (.nothing, s.ledger fun g => { g with failingLookups := count })
  | .sleep time => (.nothing, { s with sim := s.sim.sleep time })
  | .node n =>
    if s.dropped && Host.needsHandle (ω := ω) n then (.dropped, s)
    else ((Host.act n s.sim.world).1, { s with sim := s.sim.touch fun w => (Host.act n w).2 })
  | .batch steps =>
    let (answers, s) := actAll s steps
    (.batch answers, s)
where
  /-- The steps of a batch follow each other with nothing else running in between. -/
  actAll (s : Stage ω) : List (Step N) → List Answer × Stage ω
    | [] => ([], s)
    | step :: rest =>
      let (answer, s) := s.act step
      let (answers, s) := actAll s rest
      (answer :: answers, s)

def perform (s : Stage ω) (step : Step N) : Report ω × Stage ω :=
  let (answer, t) := s.act step
  let t := { t with sim := t.sim.settle }
  (⟨answer, t.dropped, s.sim.world, t.sim.world⟩, t)

def performAll (s : Stage ω) : List (Step N) → List (Report ω)
  | [] => []
  | step :: rest =>
    let (report, s) := s.perform step
    report :: s.performAll rest

end Stage

end ChainHerald.Rehearsal
