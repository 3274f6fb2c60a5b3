import ChainHerald.Backoff
import ChainHerald.Lanes
import ChainHerald.Ranges
import ChainHerald.Source

namespace ChainHerald

open Source (Call Feed)

structure Limits where
  depth : Nat
  batch : Nat
  buffer : Nat
  leastPause : Nat
  mostPause : Nat
  deriving DecidableEq

inductive Retry.Phase (σ : Type) [Source σ] (α : Type) where
  | asking (call : Call σ α)
  | pausing (ready : Nat)

/-- A request that is repeated until it succeeds. -/
structure Retry (σ : Type) [Source σ] (α : Type) where
  request : Request (Feed σ) α
  backoff : Backoff
  phase : Retry.Phase σ α

/-- What fills a lane: a live feed with the log it could not put down yet, or a backfill with its
request under way or the rest of its batch. -/
inductive Writer (σ : Type) [Source σ] where
  | live (feed : Feed σ) (held : Option Log) (cancelled : Bool) (cycle : Nat)
  | fetching (filter : Filter) (rest : Ranges) (request : Retry σ (List Log))
  | sending (filter : Filter) (rest : Ranges) (batch : List Log)

/-- The node-facing half: the lanes and what fills them. A failing feed is reported at most once,
and only while its own cycle is on. -/
structure Intake (σ : Type) [Source σ] where
  source : σ
  desk : Desk
  limits : Limits
  lanes : Lanes Log
  writers : Table Nat (Writer σ)
  cycle : Nat
  fault : Option ProviderError

variable {σ : Type} [Source σ]

namespace Retry

variable {α : Type}

def ask (request : Request (Feed σ) α) (backoff : Backoff) (i : Intake σ) :
    Retry σ α × Intake σ :=
  let (call, source) := Source.ask request i.desk.clock i.source
  (⟨request, backoff, .asking call⟩,
    { i with source, desk := i.desk.write (.asked i.desk.clock.now request.query) })

def start (request : Request (Feed σ) α) (i : Intake σ) : Retry σ α × Intake σ :=
  ask request (.start i.limits.leastPause i.limits.mostPause) i

def step (r : Retry σ α) (i : Intake σ) : Option (Turn (Retry σ α) α × Intake σ) :=
  match r.phase with
  | .pausing ready =>
    if ready ≤ i.desk.clock.now then
      let (r, i) := ask r.request r.backoff i
      some (.going r, i)
    else none
  | .asking call =>
    match Source.step call i.desk.clock i.source with
    | none => none
    | some (.going call, source) =>
      some (.going { r with phase := .asking call }, { i with source })
    | some (.done (.ok a), source) => some (.done a, { i with source })
    | some (.done (.error e), source) =>
      let (pause, backoff) := r.backoff.next
      some (.going { r with backoff, phase := .pausing (i.desk.clock.now + pause) },
        { i with
          source
          desk := i.desk.notice (.requestFailed r.request.query.method e pause) })

def wakes (r : Retry σ α) : List Nat :=
  match r.phase with
  | .pausing ready => [ready]
  | .asking call => Source.due call

end Retry

/-- Logs in the order of a backfill batch: by block, then by index, the missing ones first. -/
def inBatchOrder (a b : Log) : Bool :=
  match a.block, b.block with
  | none, some _ => true
  | some _, none => false
  | some x, some y => if x = y then index a b else decide (x ≤ y)
  | none, none => index a b
where
  index (a b : Log) : Bool :=
    match a.index, b.index with
    | none, _ => true
    | some _, none => false
    | some x, some y => decide (x ≤ y)

namespace Writer

def wakes : Writer σ → List Nat
  | .live feed none .. => Source.feedDue feed
  | .fetching _ _ request => request.wakes
  | _ => []

end Writer

namespace Intake

def new (source : σ) (desk : Desk) (limits : Limits) : Intake σ :=
  ⟨source, desk, limits, .empty, .empty, 0, none⟩

def notice (i : Intake σ) (n : Notice) : Intake σ := { i with desk := i.desk.notice n }

/-- The new lane's number is the one that was fresh. -/
def openLane (i : Intake σ) (w : Writer σ) : Nat × Intake σ :=
  (i.lanes.fresh,
    { i with
      lanes := i.lanes.add (.new i.limits.buffer)
      writers := i.writers.insert i.lanes.fresh w })

def openLive (i : Intake σ) (feed : Feed σ) : Nat × Intake σ :=
  i.openLane (.live feed none false i.cycle)

def backfillRanges (i : Intake σ) (start : Option Nat) (latest : Nat) : Ranges :=
  .between (min (start.getD (latest - i.limits.depth)) latest) latest i.limits.batch

def openBackfill (i : Intake σ) (f : Filter) (start : Option Nat) (latest : Nat) : Nat × Intake σ :=
  i.openLane (.sending f (i.backfillRanges start latest) [])

def put (i : Intake σ) (lane : Nat) (w : Writer σ) : Intake σ :=
  { i with writers := i.writers.insert lane w }

/-- The lane ends here; what it holds can still be read. -/
def finish (i : Intake σ) (lane : Nat) : Intake σ :=
  { i with writers := i.writers.erase lane, lanes := i.lanes.update lane Channel.hangUp }

def release (i : Intake σ) (feed : Feed σ) : Intake σ :=
  { i with source := Source.release feed i.source }

def report (i : Intake σ) (cycle : Nat) (e : ProviderError) : Intake σ :=
  if cycle = i.cycle ∧ i.fault.isNone then { i with fault := some e } else i

/-- From here on errors of earlier feeds go unheard. -/
def nextCycle (i : Intake σ) : Intake σ := { i with cycle := i.cycle + 1, fault := none }

/-- The feed of a cancelled lane is not read any more. -/
def cancelLane (i : Intake σ) (lane : Nat) : Intake σ :=
  match i.writers.get? lane with
  | some (.live feed held _ cycle) => i.put lane (.live feed held true cycle)
  | _ => i

def stepLive (i : Intake σ) (lane : Nat) (feed : Feed σ) (held : Option Log) (cancelled : Bool)
    (cycle : Nat) : Option (Intake σ) :=
  if i.desk.cancelled || cancelled then some ((i.release feed).finish lane)
  else
    match held with
    | some l =>
      match i.lanes.send lane l with
      | some (.accepted, lanes) =>
        some ({ i with lanes }.put lane (.live feed none cancelled cycle))
      | some (.full, _) => none
      | some (.closed, _) | none => some ((i.release feed).finish lane)
    | none =>
      match Source.read feed i.desk.clock i.source with
      | none => none
      | some (event, feed, source) =>
        let i := { i with source }
        some (match event with
          | none => i.put lane (.live feed none cancelled cycle)
          | some (.item l) => i.put lane (.live feed (some l) cancelled cycle)
          | some (.failed e) => ((i.report cycle e).release feed).finish lane
          | some .ended => ((i.report cycle .subscriptionClosed).release feed).finish lane)

def stepFetching (i : Intake σ) (lane : Nat) (f : Filter) (rest : Ranges)
    (request : Retry σ (List Log)) : Option (Intake σ) :=
  if i.desk.cancelled then some (i.finish lane)
  else
    match request.step i with
    | none => none
    | some (.going request, i) => some (i.put lane (.fetching f rest request))
    | some (.done batch, i) => some (i.put lane (.sending f rest (batch.mergeSort inBatchOrder)))

def stepSending (i : Intake σ) (lane : Nat) (f : Filter) (rest : Ranges) (batch : List Log) :
    Option (Intake σ) :=
  if i.desk.cancelled then some (i.finish lane)
  else
    match batch with
    | l :: batch =>
      match i.lanes.send lane l with
      | some (.accepted, lanes) => some ({ i with lanes }.put lane (.sending f rest batch))
      | some (.full, _) => none
      | some (.closed, _) | none => some (i.finish lane)
    | [] =>
      match rest.next with
      | none => some (i.finish lane)
      | some ((lo, hi), rest) =>
        let (request, i) := Retry.start (.logs f lo hi) i
        some (i.put lane (.fetching f rest request))

/-- One move of what fills the lane, nothing if it has to wait. -/
def step (i : Intake σ) (lane : Nat) : Option (Intake σ) :=
  match i.writers.get? lane with
  | none => none
  | some (.live feed held cancelled cycle) => i.stepLive lane feed held cancelled cycle
  | some (.fetching f rest request) => i.stepFetching lane f rest request
  | some (.sending f rest batch) => i.stepSending lane f rest batch

def wakes (i : Intake σ) (lane : Nat) : List Nat :=
  ((i.writers.get? lane).map Writer.wakes).getD []

end Intake

end ChainHerald
