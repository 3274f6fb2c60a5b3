import ChainHerald.Rehearsal.Scripted

namespace ChainHerald.Rehearsal

/-- A call of the node-facing half, or what it gave. -/
inductive Cell (σ : Type) [Source σ] where
  | toSubscribe (f : Filter)
  | toBackfill (f : Filter) (start : Option Nat)
  | subscribing (request : Retry σ (Source.Feed σ))
  | sizing (f : Filter) (start : Option Nat) (request : Retry σ Nat)
  | gone
  | live (lane : Nat)
  | idle
  | channel (lane : Nat)

/-- The node-facing half on its own. A name that is given away leaves its cell to run to its end. -/
structure Bench (σ : Type) [Source σ] where
  intake : Intake σ
  cells : Table Nat (Cell σ)
  names : List (String × Nat)
  fresh : Nat

variable {σ : Type} [Source σ]

namespace Bench

def new (source : σ) (limits : Limits) : Bench σ :=
  ⟨.new source (.new ⟨0, 0⟩ .empty) limits, .empty, [], 0⟩

def detach (i : Intake σ) (lane : Nat) : Intake σ :=
  { i with lanes := i.lanes.update lane Channel.detach }

/-- Nobody holds the cell any more. -/
def discardCell (i : Intake σ) : Cell σ → Intake σ
  | .live lane => detach (i.cancelLane lane) lane
  | .channel lane => detach i lane
  | _ => i

/-- A cell gets its result, or loses it at once if nobody holds the cell. -/
def settleCell (b : Bench σ) (id : Nat) (i : Intake σ) (c : Cell σ) : Bench σ :=
  if b.names.any (·.2 = id) then { b with intake := i, cells := b.cells.insert id c }
  else { b with intake := discardCell i c, cells := b.cells.erase id }

def keep (b : Bench σ) (id : Nat) (i : Intake σ) (c : Cell σ) : Bench σ :=
  { b with intake := i, cells := b.cells.insert id c }

/-- The lane of a backfill without addresses has come to its end before it began. -/
def emptyLane (i : Intake σ) : Nat × Intake σ :=
  (i.lanes.fresh, { i with lanes := i.lanes.add (Channel.new i.limits.buffer).hangUp })

def stepCell (b : Bench σ) (id : Nat) : Option (Bench σ) :=
  let i := b.intake
  match b.cells.get? id with
  | some (.toSubscribe f) =>
    some (
      if f.addresses.isEmpty then b.settleCell id i .idle
      else if i.desk.cancelled then b.settleCell id i .gone
      else
        let (request, i) := Retry.start (.subscribe f) i
        b.keep id i (.subscribing request))
  | some (.toBackfill f start) =>
    some (
      if f.addresses.isEmpty then
        let (lane, i) := emptyLane i
        b.settleCell id i (.channel lane)
      else if i.desk.cancelled then b.settleCell id i .gone
      else
        let (request, i) := Retry.start .latest i
        b.keep id i (.sizing f start request))
  | some (.subscribing request) =>
    if i.desk.cancelled then some (b.settleCell id i .gone)
    else
      match request.step i with
      | none => none
      | some (.going request, i) => some (b.keep id i (.subscribing request))
      | some (.done feed, i) =>
        let (lane, i) := i.openLive feed
        some (b.settleCell id i (.live lane))
  | some (.sizing f start request) =>
    if i.desk.cancelled then some (b.settleCell id i .gone)
    else
      match request.step i with
      | none => none
      | some (.going request, i) => some (b.keep id i (.sizing f start request))
      | some (.done latest, i) =>
        let (lane, i) := i.openBackfill f start latest
        some (b.settleCell id i (.channel lane))
  | _ => none

def cellWakes : Cell σ → List Nat
  | .subscribing request => request.wakes
  | .sizing _ _ request => request.wakes
  | _ => []

inductive Task where
  | cell (id : Nat)
  | lane (n : Nat)
  deriving DecidableEq

instance : Machine (Bench σ) where
  Task := Task
  same := inferInstance
  tasks b := b.cells.keys.map .cell ++ b.intake.writers.keys.map .lane
  step
    | .cell id, b => b.stepCell id
    | .lane n, b => (b.intake.step n).map fun intake => { b with intake }
  wakes
    | .cell id, b => ((b.cells.get? id).map cellWakes).getD []
    | .lane n, b => b.intake.wakes n
  now b := b.intake.desk.clock.now
  setNow now b :=
    let d := b.intake.desk
    { b with intake := { b.intake with desk := { d with clock := { d.clock with now } } } }

def find (b : Bench σ) (name : String) : Option (Nat × Cell σ) :=
  (b.names.lookup name).bind fun id => (b.cells.get? id).map fun c => (id, c)

def release (b : Bench σ) (name : String) : Bench σ :=
  let names := b.names.filter (·.1 ≠ name)
  match b.find name with
  | none => { b with names }
  | some (id, c) =>
    match c with
    | .live _ | .channel _ | .idle | .gone =>
      { b with names, intake := discardCell b.intake c, cells := b.cells.erase id }
    | _ => { b with names }

def place (b : Bench σ) (name : String) (c : Cell σ) : Bench σ :=
  let b := b.release name
  { b with
    cells := b.cells.insert b.fresh c
    names := b.names ++ [(name, b.fresh)]
    fresh := b.fresh + 1 }

inductive Step where
  | subscribe (name : String) (f : Filter)
  | backfill (name : String) (start : Option Nat) (f : Filter)
  | recv (name : String) (most : Option Nat)
  | takeAgain (name : String)
  | unsubscribe (name : String)
  | discard (name : String)
  | errors
  | cancel
  | sleep (time : Nat)
  | node (n : ChainStep)
  | batch (steps : List Step)

/-- How a round of reading ended. -/
inductive Ending where
  | exhausted
  | opened
  | idle
  | nothing
  deriving DecidableEq

inductive Answer where
  | nothing
  | flag (b : Bool)
  | fault (e : ProviderError)
  | ranges (rs : List (Nat × Nat))
  | read (logs : List Log) (ending : Ending)
  | batch (rs : List Answer)

structure Report where
  answer : Answer
  entries : List Entry
  world : Bench ScriptedChain

/-- Reads until nothing is there or enough has been read; everything gets to run after each log. -/
def drain (lane : Nat) : Nat → Option Nat → Sim (Bench σ) → List Log × Ending × Sim (Bench σ)
  | 0, _, s => ([], .opened, s)
  | _ + 1, some 0, s => ([], .opened, s)
  | fuel + 1, most, s =>
    match (s.world.intake.lanes.channels.get? lane).map Channel.take with
    | none => ([], .nothing, s)
    | some (.waiting, _) => ([], .opened, s)
    | some (.ended, _) => ([], .exhausted, s)
    | some (.item l, c) =>
      let s := (s.touch fun b =>
        let lanes := b.intake.lanes.update lane fun _ => c
        { b with intake := { b.intake with lanes } }).settle
      let (logs, ending, s) := drain lane fuel (most.map (· - 1)) s
      (l :: logs, ending, s)

def act (s : Sim (Bench ScriptedChain)) : Step → Answer × Sim (Bench ScriptedChain)
  | .subscribe name f => (.nothing, s.touch fun b => b.place name (.toSubscribe f))
  | .backfill name start f => (.nothing, s.touch fun b => b.place name (.toBackfill f start))
  | .recv name most =>
    let s := s.settle
    match s.world.find name with
    | some (_, .live lane) | some (_, .channel lane) =>
      let (logs, ending, s) := drain lane Sim.patience most s
      (.read logs ending, s)
    | some (_, .idle) => (.read [] .idle, s)
    | _ => (.read [] .nothing, s)
  | .takeAgain name =>
    match s.world.find name with
    | some (_, .live _) | some (_, .idle) => (.flag false, s)
    | _ => (.nothing, s)
  | .unsubscribe name =>
    match s.world.find name with
    | some (id, .live lane) =>
      (.flag true, s.touch fun b => b.keep id (b.intake.cancelLane lane) (.channel lane))
    | some (id, .idle) => (.flag true, s.touch fun b => b.keep id b.intake .gone)
    | _ => (.flag false, s)
  | .discard name =>
    (.flag (s.world.names.lookup name).isSome, s.touch fun b => b.release name)
  | .errors =>
    match s.world.intake.fault with
    | none => (.nothing, s)
    | some e => (.fault e, s.touch fun b => { b with intake := { b.intake with fault := none } })
  | .cancel =>
    (.nothing, s.touch fun b =>
      { b with intake := { b.intake with desk := { b.intake.desk with cancelled := true } } })
  | .sleep time => (.nothing, s.sleep time)
  | .node n =>
    (match n.answer s.world.intake with
      | .flag b => .flag b
      | .ranges rs => .ranges rs
      | _ => .nothing,
      s.touch fun b => { b with intake := { b.intake with source := n.apply b.intake.source } })
  | .batch steps =>
    let (answers, s) := actAll s steps
    (.batch answers, s)
where
  actAll (s : Sim (Bench ScriptedChain)) :
      List Step → List Answer × Sim (Bench ScriptedChain)
    | [] => ([], s)
    | step :: rest =>
      let (answer, s) := act s step
      let (answers, s) := actAll s rest
      (answer :: answers, s)

def performAll (s : Sim (Bench ScriptedChain)) : List Step → List Report
  | [] => []
  | step :: rest =>
    let seen := s.world.intake.desk.journal.length
    let (answer, s) := act s step
    let s := s.settle
    ⟨answer, gained seen s.world.intake.desk.journal, s.world⟩ :: performAll s rest

end Bench

end ChainHerald.Rehearsal
