import ChainHerald.Broadcaster.Service

namespace ChainHerald.Broadcaster

variable {σ : Type} [Source σ]

def deliver (b : Broadcaster σ) (c : Change) : Broadcaster σ :=
  let (dropped, changes) := b.changes.deliver c
  let b := { b with changes }
  if dropped then b.notice .oldestChangeDropped else b

/-- Starting again does nothing. -/
def start (b : Broadcaster σ) : Except BroadcasterError (Broadcaster σ) :=
  match b.life with
  | .unstarted => .ok { b with life := .started, phase := .gathering .begun }
  | .started => .ok b
  | .closed => .error .closed

/-- The number of the new registration. -/
def register (b : Broadcaster σ) (l : Listener) (o : Options) :
    Except BroadcasterError Nat × Broadcaster σ :=
  if o.filters.isEmpty then
    (.error (.missingTopicFilters o.contract), b.notice (.noTopicFilters l.job o.contract))
  else if b.life = .closed then (.error .closed, b)
  else (.ok b.nextId, { b with nextId := b.nextId + 1 }.deliver (.add ⟨b.nextId, l, o⟩))

def unsubscribe (b : Broadcaster σ) (id : Nat) : Broadcaster σ := b.deliver (.remove id)

/-- One replay can wait. A stopped service takes none. -/
def requestReplay (b : Broadcaster σ) (block : Nat) : Broadcaster σ :=
  match b.phase, b.replay with
  | .stopped, _ => b
  | _, some _ => b.notice (.replayDropped block)
  | _, none => { b with replay := some block }

def newHead (b : Broadcaster σ) (h : Head) : Broadcaster σ :=
  { b with heads := (b.heads.deliver h).2 }

def addDependents (b : Broadcaster σ) (count : Nat) : Broadcaster σ :=
  { b with gate := b.gate.add count b.settings.overflow }

def dependentReady (b : Broadcaster σ) : Broadcaster σ := { b with gate := b.gate.ready }

/-- One more handle. -/
def share (b : Broadcaster σ) : Broadcaster σ := { b with handles := b.handles + 1 }

/-- Gives one handle up. -/
def drop (b : Broadcaster σ) : Broadcaster σ :=
  let b := { b with handles := b.handles - 1 }
  if b.handles = 0 then b.cancel else b

/-- The waiting call has a handle of its own. -/
def awaitDependents (b : Broadcaster σ) : Broadcaster σ :=
  { b with gate := b.gate.wait }.share

def stepWait (b : Broadcaster σ) (n : Nat) : Option (Broadcaster σ) :=
  (b.gate.step n).map fun gate =>
    let b := { b with gate }
    if gate.isDone n then b.drop else b

/-- The closing call has a handle of its own. -/
def close (b : Broadcaster σ) : Broadcaster σ :=
  { b with closes := b.closes ++ [Closing.asked] }.share

/-- From here on the broadcaster is closed. A service that was not started never will be. -/
def shut (b : Broadcaster σ) : Broadcaster σ :=
  let phase := match b.phase with
    | .unstarted => .stopped
    | phase => phase
  { b with life := .closed, phase }.cancel

def stepClose (b : Broadcaster σ) (n : Nat) : Option (Broadcaster σ) :=
  match b.closes[n]? with
  | some .asked => some { b with closes := b.closes.set n .waiting }.shut
  | some .waiting =>
    if b.isIdle then
      some { b with closes := b.closes.set n .returned, connected := false }.drop
    else none
  | _ => none

def wasConsumed (b : Broadcaster σ) (m : Broadcast) :
    Except BroadcasterError Bool × Broadcaster σ :=
  match b.desk.was m.key with
  | (r, d) => (r.mapError .ledger, b.withDesk d)

def markConsumed (b : Broadcaster σ) (m : Broadcast) :
    Except BroadcasterError Unit × Broadcaster σ :=
  match b.desk.mark m.key m.block with
  | (r, d) => (r.mapError .ledger, b.withDesk d)

end ChainHerald.Broadcaster
