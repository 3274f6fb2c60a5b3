import ChainHerald.Broadcaster

namespace ChainHerald.Broadcaster

variable {σ : Type} [Source σ]

/-- The service is over. Nobody reads its lanes any more. -/
def stop (b : Broadcaster σ) : Broadcaster σ :=
  let i := match b.current with
    | none => b.intake
    | some lane => b.intake.cancelLane lane
  let lanes := i.lanes.queue.foldl (fun s lane => s.update lane Channel.detach) i.lanes
  { b with
    phase := .stopped
    connected := false
    replay := none
    intake := { i with lanes } }

def applyChanges (b : Broadcaster σ) : Broadcaster σ :=
  { b with
    herald := b.changes.queue.foldl Herald.apply b.herald
    changes := { b.changes with queue := [] } }

/-- The old subscription is given up only now that the new lanes are in the queue. -/
def connect (b : Broadcaster σ) (lanes : List Nat) (live : Option Nat) : Broadcaster σ :=
  let i := match b.current with
    | none => b.intake
    | some lane => b.intake.cancelLane lane
  { b with
    intake := { i with lanes := lanes.foldl Lanes.enqueue i.lanes }
    current := live
    herald := { b.herald with stale := false }
    tracked := b.filter.addresses.length
    connected := true
    phase := .serving (b.desk.clock.now + b.settings.debounce) }

/-- Without addresses there is nothing to subscribe to and nothing to backfill. -/
def beginCycle (b : Broadcaster σ) : Broadcaster σ :=
  let b := { b with
    connected := false
    intake := b.intake.nextCycle
    filter := b.herald.filter }
  if b.filter.addresses.isEmpty then { b with deepStart := none }.connect [] none
  else
    let (request, intake) := Retry.start (.subscribe b.filter) b.intake
    { b with intake, phase := .subscribing request }

/-- The first cycle starts from the saved head, unless that is to be skipped. -/
def firstCycle (b : Broadcaster σ) : Broadcaster σ :=
  let b := b.applyChanges
  match b.savedHead with
  | none => b.beginCycle
  | some saved =>
    let b := { b with savedHead := none }
    if b.settings.skipBackfill then
      (b.notice (.savedHeadIgnored saved.number b.settings.depth)).beginCycle
    else
      let start := backfillStart saved.number b.herald.registry.depth b.settings.depth
      { b with deepStart := some start }.beginCycle

def stepGathering (b : Broadcaster σ) (ready : Wait) : Option (Broadcaster σ) :=
  if b.desk.cancelled then some b.stop
  else
    match b.gate.look? ready with
    | some .done => some b.firstCycle
    | some ready => some { b with phase := .gathering ready }
    | none =>
      match b.changes.awake with
      | (true, changes) => some { b with changes }.applyChanges
      | (false, _) => none

def stepSubscribing (b : Broadcaster σ) (request : Retry σ (Source.Feed σ)) :
    Option (Broadcaster σ) :=
  if b.desk.cancelled then some b.stop
  else
    match request.step b.intake with
    | none => none
    | some (.going request, intake) => some { b with intake, phase := .subscribing request }
    | some (.done feed, intake) =>
      let (lane, intake) := intake.openLive feed
      let (request, intake) := Retry.start .latest intake
      some { b with intake, phase := .sizing request lane }

def stepSizing (b : Broadcaster σ) (request : Retry σ Nat) (next : Nat) : Option (Broadcaster σ) :=
  if b.desk.cancelled then some { b with intake := b.intake.cancelLane next }.stop
  else
    match request.step b.intake with
    | none => none
    | some (.going request, intake) => some { b with intake, phase := .sizing request next }
    | some (.done latest, intake) =>
      let (backfill, intake) := intake.openBackfill b.filter b.deepStart latest
      some ({ b with intake, deepStart := none }.connect [backfill, next] (some next))

/-- A dispatch that has something to do, or has nothing to do any more. -/
def follow (b : Broadcaster σ) (tick : Nat) : Option Pass × Herald × Desk → Broadcaster σ
  | (none, herald, d) => { b.withDesk d with herald, phase := .serving tick }
  | (some pass, herald, d) => { b.withDesk d with herald, phase := .handing pass tick }

/-- A timer that fires more than a moment late starts its period afresh. -/
def nextTick (b : Broadcaster σ) (tick : Nat) : Nat :=
  (if tick + 5 < b.desk.clock.now then b.desk.clock.now else tick) + b.settings.debounce

/-- What is there is taken in this order: the end, an error of the feed, a replay, a head,
registration changes, a log, the debounce timer. -/
def stepServing (b : Broadcaster σ) (tick : Nat) : Option (Broadcaster σ) :=
  if b.desk.cancelled then some b.stop
  else
    match b.intake.fault, b.replay with
    | some e, _ => some (b.notice (.streamFailed e)).beginCycle
    | none, some block => some { b with deepStart := some block, replay := none }.beginCycle
    | none, none =>
      match b.heads.awake with
      | (true, heads) =>
        match heads.latest with
        | (none, heads) => some { b with heads }
        | (some head, heads) => some ({ b with heads }.follow tick (b.herald.onHead b.desk head))
      | (false, _) =>
        match b.changes.awake with
        | (true, changes) => some { b with changes }.applyChanges
        | (false, _) =>
          match b.intake.lanes.next with
          | (.item l, lanes) =>
            let b := { b with intake := { b.intake with lanes } }
            some (b.follow tick (b.herald.onLog b.desk l))
          | _ =>
            if tick ≤ b.desk.clock.now then
              let b := { b with phase := .serving (b.nextTick tick) }
              some (if b.herald.stale then b.beginCycle else b)
            else none

def stepHanding (b : Broadcaster σ) (pass : Pass) (tick : Nat) : Option (Broadcaster σ) :=
  if pass.todo.isEmpty then some { b with herald := b.herald.close pass, phase := .serving tick }
  else (pass.step b.desk).map fun (pass, d) => { b.withDesk d with phase := .handing pass tick }

/-- One move of the service, nothing if it has to wait. -/
def stepService (b : Broadcaster σ) : Option (Broadcaster σ) :=
  match b.phase with
  | .unstarted | .stopped => none
  | .gathering ready => b.stepGathering ready
  | .subscribing request => b.stepSubscribing request
  | .sizing request next => b.stepSizing request next
  | .serving tick => b.stepServing tick
  | .handing pass tick => b.stepHanding pass tick

def stepLane (b : Broadcaster σ) (lane : Nat) : Option (Broadcaster σ) :=
  (b.intake.step lane).map fun intake => { b with intake }

/-- The debounce timer runs on during a dispatch. -/
def serviceWakes (b : Broadcaster σ) : List Nat :=
  match b.phase with
  | .subscribing request => request.wakes
  | .sizing request _ => request.wakes
  | .serving tick => [tick]
  | .handing pass tick => tick :: pass.wakes
  | _ => []

end ChainHerald.Broadcaster
