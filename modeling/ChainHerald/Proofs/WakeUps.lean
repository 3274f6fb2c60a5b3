import ChainHerald.Proofs.Dependents

/-!
# No wake-up is lost

`Traffic` lets callers and service cut into one another. A delivery is in its mailbox before it
wakes the service, which may be about to wait, waiting, or busy; a drain that meets deliveries goes
in rounds (`Broadcaster.applyChanges_round`), and what woke it counts as taken with the last one.
Whatever comes next, a mailbox that is not empty has a wake-up on its way, stored, or with a waiter
(`Mailbox.Alarmed`), so a service that rests has taken everything (`Traffic.no_wake_up_lost`).
-/

namespace ChainHerald

namespace Mailbox

variable {α : Type} {q q' : Mailbox α} {due : Nat}

/-- The first half of a delivery: the item is there, and nobody is woken yet. -/
def push (q : Mailbox α) (a : α) : Mailbox α := { q with queue := (q.deliver a).2.queue }

/-- What the consumer finds: a waiter has its own wake-up, or else it is the stored one. Waiters
that are given up pass on what they got. -/
def release (q : Mailbox α) : Mailbox α :=
  { q with wakeUp := if q.waiters.isEmpty then q.wakeUp else q.waiters.any id, waiters := [] }

/-- What was stored while somebody waited is still there. -/
def sparing (q before : Mailbox α) : Mailbox α :=
  { q with wakeUp := q.wakeUp || before.wakeUp && !before.waiters.isEmpty }

/-- A waiter that is there already goes on waiting. -/
def park (q : Mailbox α) : Mailbox α := if q.waiters.isEmpty then q.wait else q

/-- Nothing is queued, or a wake-up is due or there to be found. -/
def Alarmed (q : Mailbox α) (due : Nat) : Prop :=
  q.queue ≠ [] → 0 < due ∨ q.release.wakeUp = true

theorem notify_queue (q : Mailbox α) : q.notify.queue = q.queue := by
  unfold notify
  split <;> rfl

theorem notify_capacity (q : Mailbox α) : q.notify.capacity = q.capacity := by
  unfold notify
  split <;> rfl

theorem deliver_eq_notify (q : Mailbox α) (a : α) : (q.deliver a).2 = (q.push a).notify := by
  simp only [push, deliver, notify_queue]

/-- What deliveries make of a mailbox. Without a capacity nothing has to go for them. -/
structure Accepts (q q' : Mailbox α) (as : List α) : Prop where
  capacity : q'.capacity = q.capacity
  front : ∃ front, front ++ q'.queue = q.queue ++ as ∧ (q.capacity = none → front = [])
  newest : q'.queue.getLast? = as.getLast?.or q.queue.getLast?

theorem Accepts.refl (q : Mailbox α) : q.Accepts q [] :=
  ⟨rfl, ⟨[], (List.append_nil _).symm, fun _ => rfl⟩, rfl⟩

theorem Accepts.trans {q'' : Mailbox α} {as bs : List α} (h : q.Accepts q' as)
    (h' : q'.Accepts q'' bs) : q.Accepts q'' (as ++ bs) := by
  obtain ⟨front, split, whole⟩ := h.front
  obtain ⟨front', split', whole'⟩ := h'.front
  refine ⟨h'.capacity.trans h.capacity, ⟨front ++ front', ?_, fun unbounded => ?_⟩, ?_⟩
  · rw [List.append_assoc, split', ← List.append_assoc, split, List.append_assoc]
  · rw [whole unbounded, whole' (h.capacity.trans unbounded), List.append_nil]
  · rw [h'.newest, h.newest, List.getLast?_append, Option.or_assoc]

theorem Accepts.notify {as : List α} (h : q.Accepts q' as) : q.Accepts q'.notify as where
  capacity := (notify_capacity q').trans h.capacity
  front := by
    rw [notify_queue]
    exact h.front
  newest := by
    rw [notify_queue]
    exact h.newest

/-- The newest item is always kept. -/
theorem push_queue (q : Mailbox α) (a : α) : ∃ n, n ≤ q.queue.length ∧
    (q.capacity = none → n = 0) ∧ (q.push a).queue = (q.queue ++ [a]).drop n := by
  simp only [push, deliver, notify_queue, limit]
  cases q.capacity with
  | none => exact ⟨0, Nat.zero_le _, fun _ => rfl, rfl⟩
  | some n =>
    refine ⟨(q.queue ++ [a]).length - max 1 n, ?_, nofun, rfl⟩
    rw [List.length_append, List.length_singleton]
    omega

theorem accepts_push (q : Mailbox α) (a : α) : q.Accepts (q.push a) [a] := by
  obtain ⟨n, room, whole, queue⟩ := q.push_queue a
  refine ⟨rfl, ⟨(q.queue ++ [a]).take n, ?_, fun unbounded => ?_⟩, ?_⟩
  · rw [queue, List.take_append_drop]
  · rw [whole unbounded, List.take_zero]
  · rw [queue, List.getLast?_drop, List.getLast?_concat, if_neg]
    · rfl
    · rw [List.length_append, List.length_singleton]
      omega

theorem accepts_deliver (q : Mailbox α) (a : α) : q.Accepts (q.deliver a).2 [a] :=
  deliver_eq_notify q a ▸ (q.accepts_push a).notify

/-- Whoever notifies leaves a wake-up to be found. -/
theorem Alarmed.notify (q : Mailbox α) (due : Nat) : q.notify.Alarmed due := by
  intro _
  right
  unfold Mailbox.notify release
  cases waiting : q.waiters with
  | nil => rfl
  | cons woken rest =>
    cases woken with
    | false => simp [finishFirst]
    | true => cases asleep : rest.all id <;> simp [asleep, finishFirst]

theorem park_queue (q : Mailbox α) : q.park.queue = q.queue := by
  unfold park
  split <;> rfl

theorem park_capacity (q : Mailbox α) : q.park.capacity = q.capacity := by
  unfold park
  split <;> rfl

theorem Alarmed.park (a : q.Alarmed due) : q.park.Alarmed due := by
  unfold Mailbox.park
  split
  next nobody =>
    intro queued
    have found := a queued
    simpa [release, nobody, wait, List.isEmpty_iff.1 nobody] using found
  · exact a

theorem Alarmed.deliver (q : Mailbox α) (a : α) (due : Nat) : (q.deliver a).2.Alarmed due :=
  deliver_eq_notify q a ▸ .notify (q.push a) due

theorem deliver_all (q : Mailbox α) (as : List α) :
    q.Accepts (as.foldl (fun q a => (q.deliver a).2) q) as ∧
      (q.Alarmed due → (as.foldl (fun q a => (q.deliver a).2) q).Alarmed due) := by
  induction as generalizing q with
  | nil => exact ⟨.refl q, id⟩
  | cons a as ih =>
    obtain ⟨accepts, alarmed⟩ := ih (q.deliver a).2
    exact ⟨(q.accepts_deliver a).trans accepts, fun _ => alarmed (.deliver q a due)⟩

theorem Alarmed.empty (a : q.Alarmed 0) (silent : q.release.wakeUp = false) : q.queue = [] := by
  by_contra queued
  rcases a queued with due | found
  · exact absurd due (Nat.lt_irrefl 0)
  · simp [silent] at found

/-- Either the consumer did not turn to the mailbox, or it emptied it. -/
theorem Alarmed.spare (a : q.Alarmed due) (read : q' = q.release ∨ q'.queue = []) :
    (q'.sparing q).Alarmed due := by
  rcases read with rfl | emptied
  · intro queued
    refine (a queued).imp_right fun found => ?_
    exact Bool.or_eq_true_iff.2 (.inl found)
  · exact fun queued => absurd emptied queued

/-- What is missing at the front of a queue. -/
def gone (before after : List α) : List α := before.take (before.length - after.length)

theorem gone_eq {before after front : List α} (split : before = front ++ after) :
    gone before after = front := by
  simp [gone, split]

end Mailbox

variable {σ : Type} [Source σ]

/-- The heads that the move delivers. -/
def Move.heads : Move σ → List Head
  | .head h => [h]
  | _ => []

namespace Broadcaster

variable {b b' : Broadcaster σ} {heard : List Input}

/-! ## What the service does to its mailboxes -/

theorem beginCycle_heads (b : Broadcaster σ) : b.beginCycle.heads = b.heads := by
  rcases b.beginCycle_cases with ⟨-, eq⟩ | ⟨-, eq⟩
  · rw [eq]
    rfl
  · rw [eq]

theorem firstCycle_heads (b : Broadcaster σ) : b.firstCycle.heads = b.heads := by
  obtain ⟨d, -, eq⟩ := b.firstCycle_eq
  rw [eq, beginCycle_heads]
  rfl

theorem follow_heads (b : Broadcaster σ) (tick : Nat) (r : Option Pass × Herald × Desk) :
    (b.follow tick r).heads = b.heads := by
  obtain ⟨_ | p, e, d⟩ := r <;> rfl

theorem Acts.changes (a : b.Acts b' heard) :
    b'.changes = b.changes ∨ b'.changes.queue = [] := by
  cases a with
  | first => exact .inr (by rw [firstCycle_changes])
  | apply => exact .inr rfl
  | fail | replay | stale => exact .inl (beginCycle_changes _)
  | head | log => exact .inl (follow_changes ..)
  | _ => exact .inl rfl

/-- The service leaves the heads alone, or it takes the newest and clears the rest. -/
structure Clears (b b' : Broadcaster σ) (heard : List Input) : Prop where
  mailbox : b'.heads = b.heads ∨ b'.heads.queue = []
  newest : (b'.heads.queue.getLast?).or (Input.lastHead heard) = b.heads.queue.getLast?

theorem Clears.aside (same : b'.heads = b.heads) (silent : Input.heads heard = []) :
    b.Clears b' heard := by
  refine ⟨.inl same, ?_⟩
  simp [same, Input.lastHead, silent]

theorem Clears.head {h : Head} (newest : b.heads.queue.getLast? = some h)
    (cleared : b'.heads.queue = []) : b.Clears b' [.head h] := by
  refine ⟨.inr cleared, ?_⟩
  rw [cleared, newest]
  rfl

theorem heads_changes (cs : List Change) : Input.heads (cs.map .change) = [] := by
  simp [Input.heads]

theorem stepServing_clears {tick : Nat} (phase : b.phase = .serving tick) :
    b.Clears ((b.stepServing tick).getD b) (b.takes (.task .service)) := by
  simp only [stepServing, takes, stimulus, phase, Mailbox.awake]
  cases b.desk.cancelled with
  | true => exact .aside rfl rfl
  | false =>
  cases b.intake.fault with
  | some e => exact .aside (beginCycle_heads _) rfl
  | none =>
  cases b.replay with
  | some block => exact .aside (beginCycle_heads _) rfl
  | none =>
  cases b.heads.wakeUp with
  | true =>
    simp only [Mailbox.latest]
    cases newest : b.heads.queue.getLast? with
    | none => exact ⟨.inr rfl, newest.symm⟩
    | some h =>
      refine .head newest ?_
      exact congrArg Mailbox.queue (follow_heads _ tick _)
  | false =>
  cases b.changes.wakeUp with
  | true => exact .aside rfl (heads_changes _)
  | false =>
  cases b.intake.lanes.next with
  | mk reading lanes =>
  cases reading with
  | item l => exact .aside (follow_heads ..) rfl
  | waiting | ended =>
    by_cases due : tick ≤ b.desk.clock.now
    · simp only [due, if_true]
      cases b.herald.stale with
      | true => exact .aside (beginCycle_heads _) rfl
      | false => exact .aside rfl rfl
    · simp only [due, if_false]
      exact .aside rfl rfl

theorem service_clears (b : Broadcaster σ) :
    b.Clears (b.move (.task .service)) (b.takes (.task .service)) := by
  by_cases serving : ∃ tick, b.phase = .serving tick
  · obtain ⟨tick, phase⟩ := serving
    simp only [move, Broadcaster.step, stepService, phase]
    exact stepServing_clears phase
  · have acts := b.service_acts
    generalize b.move (.task .service) = c, b.takes (.task .service) = heard at acts
    cases acts with
    | first => exact .aside (firstCycle_heads b) (heads_changes _)
    | apply => exact .aside rfl (heads_changes _)
    | fail phase | replay phase | noHead phase | head phase | log phase | stale phase =>
      exact absurd ⟨_, phase⟩ serving
    | _ => exact .aside rfl rfl

theorem serving_silent {tick : Nat} (phase : b.phase = .serving tick)
    (waits : b.stepService = none) : b.heads.wakeUp = false ∧ b.changes.wakeUp = false := by
  simp only [stepService, phase, stepServing, Mailbox.awake] at waits
  split at waits
  · cases waits
  split at waits
  · cases waits
  · cases waits
  cases heads : b.heads.wakeUp with
  | true =>
    rw [heads] at waits
    dsimp only at waits
    split at waits <;> cases waits
  | false =>
    cases changes : b.changes.wakeUp with
    | true => simp [heads, changes] at waits
    | false => exact ⟨rfl, rfl⟩

theorem gathering_silent {ready : Wait} (phase : b.phase = .gathering ready)
    (waits : b.stepService = none) : b.changes.wakeUp = false := by
  simp only [stepService, phase, stepGathering, Mailbox.awake] at waits
  split at waits
  · cases waits
  split at waits
  · cases waits
  · cases waits
  cases changes : b.changes.wakeUp with
  | true => simp [changes] at waits
  | false => rfl

theorem others_heads {m : Move σ} (service : m ≠ .task .service) :
    (b.move m).heads = m.heads.foldl (fun q h => (q.deliver h).2) b.heads := by
  have drop (c : Broadcaster σ) : c.drop.heads = c.heads := by
    obtain ⟨d, -, eq⟩ := c.drop_eq
    rw [eq]
  have deliver (c : Broadcaster σ) (change : Change) : (c.deliver change).heads = c.heads := by
    obtain ⟨d, eq⟩ := c.deliver_eq change
    rw [eq]
  cases m with
  | task t =>
    cases t with
    | service => exact absurd rfl service
    | lane n => rcases b.lane_fills n with eq | ⟨i, -, eq⟩ <;> rw [eq] <;> rfl
    | close n =>
      simp only [move, step, stepClose]
      split
      · rfl
      · split
        · exact drop _
        · rfl
      · rfl
    | wait n =>
      simp only [move, step, stepWait]
      cases b.gate.step n with
      | none => rfl
      | some gate =>
        simp only [Option.map_some, Option.getD_some]
        split
        · exact drop _
        · rfl
  | start =>
    simp only [move, Broadcaster.start]
    split <;> rfl
  | register l o =>
    simp only [move, register]
    split
    · rfl
    · split
      · rfl
      · exact deliver _ _
  | unsubscribe id => exact deliver _ _
  | replay block =>
    simp only [move, requestReplay]
    split <;> rfl
  | drop => exact drop b
  | _ => rfl

/-! ## Traffic -/

/-- The waiters for both mailboxes are given up. -/
def released (b : Broadcaster σ) : Broadcaster σ :=
  { b with heads := b.heads.release, changes := b.changes.release }

/-- Until all dependents are ready the service waits for changes only. -/
def parked (b : Broadcaster σ) : Broadcaster σ :=
  match b.phase with
  | .gathering _ => { b with changes := b.changes.park }
  | .serving _ => { b with heads := b.heads.park, changes := b.changes.park }
  | _ => b

def sparing (b before : Broadcaster σ) : Broadcaster σ :=
  { b with
    heads := b.heads.sparing before.heads
    changes := b.changes.sparing before.changes }

/-- Whether the service is where it drains the mailbox of registration changes. -/
def drains (b : Broadcaster σ) : Bool :=
  match b.phase with
  | .gathering _ | .serving _ => true
  | _ => false

/-- A drain is its first round, and then the drain of what is there after it. -/
theorem applyChanges_round {c : Change} {changes : Mailbox Change}
    (retrieved : b.changes.retrieve = (some c, changes)) :
    b.applyChanges = applyChanges { b with changes, herald := b.herald.apply c } := by
  obtain ⟨first, rfl⟩ := Prod.mk.inj retrieved
  have queue : b.changes.queue = c :: b.changes.queue.tail := List.eq_cons_of_mem_head? first
  unfold applyChanges
  rw [queue]
  rfl

theorem drains_idle (draining : b.drains = true) : b.pass = none := by
  cases phase : b.phase with
  | handing => simp [drains, phase] at draining
  | _ => simp [pass, phase]

end Broadcaster

/-- A broadcaster that callers and service share, and what was delivered to it. -/
structure Traffic (σ : Type) [Source σ] where
  live : Broadcaster σ
  /-- Heads that are in their mailbox while the wake-up is still to come. -/
  headsDue : Nat
  changesDue : Nat
  heads : List Head
  changes : List Change
  /-- The changes that have left their mailbox, in that order, and whether the service took them.
  The others were dropped to make room. -/
  left : List (Change × Bool)

/-- What can come next. The wake-up of a delivery may come any time after its item, and a delivery
to a drain under way comes between two rounds of it. -/
inductive Traffic.Beat (σ : Type) [Source σ] where
  | service
  | round
  | head (h : Head)
  | change (c : Change)
  | headWakes
  | changeWakes
  | other (m : Move σ) (apart : m ≠ .task .service)

namespace Traffic

variable {t : Traffic σ} {room : Option Nat} {hs heard : List Input}

def new (settings : Settings) (source : σ) (ledger : Ledger) : Traffic σ :=
  ⟨.new settings source ledger, 0, 0, [], [], []⟩

/-- The broadcaster goes on to `b` with these deliveries. -/
def proceed (t : Traffic σ) (b : Broadcaster σ) (heads : List Head) (changes : List Change)
    (taken : Bool) : Traffic σ :=
  { t with
    live := b
    heads := t.heads ++ heads
    changes := t.changes ++ changes
    left := t.left ++
      (Mailbox.gone (t.live.changes.queue ++ changes) b.changes.queue).map (·, taken) }

def step (t : Traffic σ) : Beat σ →  Traffic σ
  | .service =>
    match t.live.released.stepService with
    | some b => t.proceed (b.sparing t.live) [] [] true
    | none => { t with live := t.live.parked }
  | .round =>
    match t.live.drains, t.live.changes.retrieve with
    | true, (some c, changes) =>
      t.proceed { t.live with changes, herald := t.live.herald.apply c } [] [] true
    | _, _ => t
  | .head h =>
    { t.proceed { t.live with heads := t.live.heads.push h } [h] [] false with
      headsDue := t.headsDue + 1 }
  | .change c =>
    { t.proceed { t.live.deliver c with changes := t.live.changes.push c } [] [c] false with
      changesDue := t.changesDue + 1 }
  | .headWakes =>
    if t.headsDue = 0 then t
    else { t with live.heads := t.live.heads.notify, headsDue := t.headsDue - 1 }
  | .changeWakes =>
    if t.changesDue = 0 then t
    else { t with live.changes := t.live.changes.notify, changesDue := t.changesDue - 1 }
  | .other m _ => t.proceed (t.live.move m) m.heads (t.live.delivers m) false

def run (t : Traffic σ) (beats : List (Beat σ)) : Traffic σ := beats.foldl step t

/-- The changes that were not dropped. -/
def kept (t : Traffic σ) : List Change := (t.left.filter (·.2)).map (·.1)

/-- The service finds nothing to do and nobody is about to wake it. -/
structure Rests (t : Traffic σ) : Prop where
  waits : t.live.released.stepService = none
  heads : t.headsDue = 0
  changes : t.changesDue = 0

/-- All changes have left their mailbox in the order they came, and the registry is what those make
it that were not dropped. A mailbox without bounds drops none. -/
structure CaughtUp (t : Traffic σ) (room : Option Nat) : Prop where
  empty : t.live.changes.queue = []
  order : t.left.map (·.1) = t.changes
  registry : t.live.herald.registry = .after t.kept
  whole : room = none → t.kept = t.changes

/-! ## What every beat keeps -/

/-- The record fits what the service has heard of, with what is still in the mailboxes. -/
structure Recorded (t : Traffic σ) (room : Option Nat) (hs : List Input) : Prop where
  dormant : t.live.Dormant
  follows : t.live.Follows hs
  taken : Input.changes hs = t.kept
  newest : (t.live.heads.queue.getLast?).or (Input.lastHead hs) = t.heads.getLast?
  order : t.changes = t.left.map (·.1) ++ t.live.changes.queue
  capacity : t.live.changes.capacity = room
  whole : room = none → ∀ x ∈ t.left, x.2 = true

structure Sound (t : Traffic σ) (room : Option Nat) : Prop where
  recorded : ∃ hs, t.Recorded room hs
  heads : t.live.heads.Alarmed t.headsDue
  changes : t.live.changes.Alarmed t.changesDue

theorem marked_kept (front : List Change) (taken : Bool) :
    ((front.map (·, taken)).filter (·.2)).map (·.1) = if taken then front else [] := by
  cases taken <;> simp [List.filter_map, Function.comp_def]

theorem proceed_left {b : Broadcaster σ} {changes front : List Change}
    (split : t.live.changes.queue ++ changes = front ++ b.changes.queue) (heads : List Head)
    (taken : Bool) :
    (t.proceed b heads changes taken).left = t.left ++ front.map (·, taken) := by
  rw [proceed, Mailbox.gone_eq split]

theorem Recorded.proceed (r : t.Recorded room hs) {b : Broadcaster σ} {heads : List Head}
    {changes front : List Change} {taken : Bool} (dormant : b.Dormant)
    (follows : b.Follows (hs ++ heard))
    (split : t.live.changes.queue ++ changes = front ++ b.changes.queue)
    (account : Input.changes heard = if taken then front else [])
    (newest : (b.heads.queue.getLast?).or (Input.lastHead heard) =
      heads.getLast?.or t.live.heads.queue.getLast?)
    (capacity : b.changes.capacity = t.live.changes.capacity)
    (whole : t.live.changes.capacity = none → taken = true ∨ front = []) :
    (t.proceed b heads changes taken).Recorded room (hs ++ heard) where
  dormant := dormant
  follows := follows
  taken := by
    rw [Broadcaster.changes_append, r.taken, account, kept, kept, proceed_left split,
      List.filter_append, List.map_append, marked_kept]
  newest := by
    have later : Input.lastHead (hs ++ heard) = (Input.lastHead heard).or (Input.lastHead hs) := by
      simp [Input.lastHead, Input.heads]
    rw [later, ← Option.or_assoc]
    simp only [Traffic.proceed, newest, List.getLast?_append, ← r.newest, Option.or_assoc]
  order := by
    have marked : (front.map (·, taken)).map (·.1) = front := by simp [Function.comp_def]
    rw [proceed_left split, List.map_append, marked, List.append_assoc]
    simp only [Traffic.proceed, r.order, List.append_assoc, split]
  capacity := capacity.trans r.capacity
  whole := by
    intro unbounded x mem
    rw [proceed_left split, List.mem_append, List.mem_map] at mem
    rcases mem with old | ⟨c, mem, rfl⟩
    · exact r.whole unbounded x old
    · rcases whole (r.capacity.trans unbounded) with taken | nothing
      · exact taken
      · rw [nothing] at mem
        cases mem

theorem Recorded.take (r : t.Recorded room hs) {b : Broadcaster σ} (dormant : b.Dormant)
    (follows : b.Follows (hs ++ heard))
    (drained : t.live.changes.queue = Input.changes heard ++ b.changes.queue)
    (newest : (b.heads.queue.getLast?).or (Input.lastHead heard) = t.live.heads.queue.getLast?)
    (capacity : b.changes.capacity = t.live.changes.capacity) :
    (t.proceed b [] [] true).Recorded room (hs ++ heard) :=
  r.proceed dormant follows ((List.append_nil _).trans drained) rfl newest capacity
    fun _ => .inl rfl

theorem Recorded.deliver (r : t.Recorded room hs) {b : Broadcaster σ} {heads : List Head}
    {changes : List Change} (dormant : b.Dormant) (follows : b.Follows hs)
    (headsAccept : t.live.heads.Accepts b.heads heads)
    (changesAccept : t.live.changes.Accepts b.changes changes) :
    (t.proceed b heads changes false).Recorded room hs := by
  obtain ⟨front, split, whole⟩ := changesAccept.front
  have recorded : (t.proceed b heads changes false).Recorded room (hs ++ []) :=
    r.proceed dormant ((List.append_nil hs).symm ▸ follows) split.symm rfl
      ((Option.or_none).trans headsAccept.newest) changesAccept.capacity
      fun unbounded => .inr (whole unbounded)
  rwa [List.append_nil] at recorded

/-- Only wake-ups and waiters change. -/
theorem Recorded.wake (r : t.Recorded room hs) {heads : Mailbox Head} {changes : Mailbox Change}
    (headsDue changesDue : Nat) (headsQueue : heads.queue = t.live.heads.queue)
    (changesQueue : changes.queue = t.live.changes.queue)
    (capacity : changes.capacity = t.live.changes.capacity) :
    Recorded { t with live := { t.live with heads, changes }, headsDue, changesDue } room hs where
  dormant := r.dormant
  follows := ⟨r.follows.herald, r.follows.pass⟩
  taken := r.taken
  newest := headsQueue ▸ r.newest
  order := changesQueue ▸ r.order
  capacity := capacity.trans r.capacity
  whole := r.whole

theorem Sound.park (s : t.Sound room) : Sound { t with live := t.live.parked } room := by
  obtain ⟨hs, r⟩ := s.recorded
  unfold Broadcaster.parked
  split
  · exact ⟨⟨hs, r.wake _ _ rfl (Mailbox.park_queue _) (Mailbox.park_capacity _)⟩, s.heads,
      s.changes.park⟩
  · exact ⟨⟨hs, r.wake _ _ (Mailbox.park_queue _) (Mailbox.park_queue _)
      (Mailbox.park_capacity _)⟩, s.heads.park, s.changes.park⟩
  · exact s

theorem Sound.service (s : t.Sound room) : (t.step .service).Sound room := by
  simp only [step]
  cases looked : t.live.released.stepService with
  | none => exact s.park
  | some b =>
    obtain ⟨hs, r⟩ := s.recorded
    have moved : t.live.released.move (.task .service) = b := by
      simp [Broadcaster.move, Broadcaster.step, looked]
    have dormant : t.live.released.Dormant := r.dormant
    have follows : t.live.released.Follows hs := ⟨r.follows.herald, r.follows.pass⟩
    have acts := t.live.released.service_acts
    have clears := t.live.released.service_clears
    have heard := follows.advance t.live.released.service_advances
    have later := dormant.move (.task .service)
    rw [moved] at acts clears heard later
    have recorded : (t.proceed (b.sparing t.live) [] [] true).Recorded room (hs ++ _) :=
      r.take later ⟨heard.herald, heard.pass⟩ acts.drains clears.newest
        (Broadcaster.stepService_capacity looked :)
    exact ⟨⟨_, recorded⟩, s.heads.spare clears.mailbox, s.changes.spare acts.changes⟩

theorem Sound.round (s : t.Sound room) : (t.step .round).Sound room := by
  simp only [step, Mailbox.retrieve]
  split
  next c changes draining retrieved =>
    obtain ⟨hs, r⟩ := s.recorded
    obtain ⟨first, rfl⟩ := Prod.mk.inj retrieved
    have queue : t.live.changes.queue = c :: t.live.changes.queue.tail :=
      List.eq_cons_of_mem_head? first
    have idle := Broadcaster.drains_idle draining
    let b : Broadcaster σ := { t.live with
      changes := { t.live.changes with queue := t.live.changes.queue.tail }
      herald := t.live.herald.apply c }
    have advance : t.live.Advance b [.change c] := .changes [c] idle idle (.of_quiet rfl (.refl _))
    have recorded : (t.proceed b [] [] true).Recorded room (hs ++ [.change c]) :=
      r.take r.dormant (r.follows.advance advance) queue (Option.or_none) rfl
    refine ⟨⟨_, recorded⟩, s.heads, fun _ => s.changes ?_⟩
    rw [queue]
    exact List.cons_ne_nil c _
  · exact s

theorem Sound.head (s : t.Sound room) (h : Head) : (t.step (.head h)).Sound room := by
  obtain ⟨hs, r⟩ := s.recorded
  have recorded := r.deliver (b := { t.live with heads := t.live.heads.push h })
    r.dormant ⟨r.follows.herald, r.follows.pass⟩ (t.live.heads.accepts_push h) (.refl _)
  exact ⟨⟨_, { recorded with }⟩, fun _ => .inl (Nat.succ_pos _), s.changes⟩

theorem Sound.change (s : t.Sound room) (c : Change) : (t.step (.change c)).Sound room := by
  obtain ⟨hs, r⟩ := s.recorded
  obtain ⟨d, eq⟩ := t.live.deliver_eq c
  simp only [step, eq]
  have recorded := r.deliver (b := { t.live with
      changes := t.live.changes.push c, intake := { t.live.intake with desk := d } })
    r.dormant ⟨r.follows.herald, r.follows.pass⟩ (.refl _) (t.live.changes.accepts_push c)
  exact ⟨⟨_, { recorded with }⟩, s.heads, fun _ => .inl (Nat.succ_pos _)⟩

theorem Sound.headWakes (s : t.Sound room) : (t.step .headWakes).Sound room := by
  simp only [step]
  split
  · exact s
  · obtain ⟨hs, r⟩ := s.recorded
    exact ⟨⟨hs, r.wake _ _ (Mailbox.notify_queue _) rfl rfl⟩, .notify _ _, s.changes⟩

theorem Sound.changeWakes (s : t.Sound room) : (t.step .changeWakes).Sound room := by
  simp only [step]
  split
  · exact s
  · obtain ⟨hs, r⟩ := s.recorded
    exact ⟨⟨hs, r.wake _ _ rfl (Mailbox.notify_queue _) (Mailbox.notify_capacity _)⟩, s.heads,
      .notify _ _⟩

theorem Sound.other (s : t.Sound room) {m : Move σ} (apart : m ≠ .task .service) :
    (t.step (.other m apart)).Sound room := by
  obtain ⟨hs, r⟩ := s.recorded
  have follows := r.follows.advance (Broadcaster.move_advances r.dormant m)
  rw [Broadcaster.takes_outside apart, List.append_nil] at follows
  obtain ⟨heads, headsAlarmed⟩ := t.live.heads.deliver_all m.heads
  obtain ⟨changes, changesAlarmed⟩ := t.live.changes.deliver_all (t.live.delivers m)
  rw [← Broadcaster.others_heads apart] at heads headsAlarmed
  rw [← (Broadcaster.others_handled apart).changes] at changes changesAlarmed
  exact ⟨⟨hs, r.deliver (r.dormant.move m) follows heads changes⟩, headsAlarmed s.heads,
    changesAlarmed s.changes⟩

theorem Sound.step (s : t.Sound room) (beat : Beat σ) : (t.step beat).Sound room := by
  cases beat with
  | service => exact s.service
  | round => exact s.round
  | head h => exact s.head h
  | change c => exact s.change c
  | headWakes => exact s.headWakes
  | changeWakes => exact s.changeWakes
  | other m apart => exact s.other apart

theorem Sound.run (s : t.Sound room) (beats : List (Beat σ)) : (t.run beats).Sound room := by
  induction beats generalizing t with
  | nil => exact s
  | cons beat beats ih => exact ih (s.step beat)

theorem sound_new (settings : Settings) (source : σ) (ledger : Ledger) :
    (new settings source ledger).Sound settings.mailbox where
  recorded := ⟨[], {
    dormant := fun _ => rfl
    follows := .of_idle (Herald.follows_new settings.finality) rfl
    taken := rfl
    newest := rfl
    order := rfl
    capacity := rfl
    whole := fun _ _ mem => nomatch mem }⟩
  heads queued := absurd rfl queued
  changes queued := absurd rfl queued

theorem Sound.caughtUp (s : t.Sound room) (rests : t.Rests)
    (silent : t.live.released.changes.wakeUp = false) : t.CaughtUp room := by
  obtain ⟨hs, r⟩ := s.recorded
  have empty : t.live.changes.queue = [] := Mailbox.Alarmed.empty (rests.changes ▸ s.changes) silent
  have order : t.left.map (·.1) = t.changes := by rw [r.order, empty, List.append_nil]
  refine ⟨empty, order, r.taken ▸ r.follows.herald.registry, fun unbounded => ?_⟩
  rw [← order, kept, List.filter_eq_self.2 (r.whole unbounded)]

/-- However callers and service cut into one another: when the service waits and nobody is about
to wake it, both mailboxes are empty, the head is the one delivered last, and the registry is what
the changes that were not dropped make it, in the order of delivery. As long as dependents are
missing, this holds of the changes. -/
theorem no_wake_up_lost (settings : Settings) (source : σ) (ledger : Ledger)
    (beats : List (Beat σ)) :
    let t := (new settings source ledger).run beats
    t.Rests →
      (∀ tick, t.live.phase = .serving tick → t.live.heads.queue = [] ∧
        t.live.herald.head = t.heads.getLast? ∧ t.CaughtUp settings.mailbox) ∧
      ∀ ready, t.live.phase = .gathering ready → t.CaughtUp settings.mailbox := by
  intro t rests
  have sound : t.Sound settings.mailbox := (sound_new settings source ledger).run beats
  constructor
  · intro tick phase
    obtain ⟨noHeads, noChanges⟩ :=
      Broadcaster.serving_silent (b := t.live.released) phase rests.waits
    have empty : t.live.heads.queue = [] :=
      Mailbox.Alarmed.empty (rests.heads ▸ sound.heads) noHeads
    obtain ⟨hs, r⟩ := sound.recorded
    refine ⟨empty, ?_, sound.caughtUp rests noChanges⟩
    rw [r.follows.herald.head, ← r.newest, empty]
    rfl
  · intro ready phase
    exact sound.caughtUp rests
      (Broadcaster.gathering_silent (b := t.live.released) phase rests.waits)

end Traffic

namespace Example

/-- One change has to go for the next one, wake-ups come late, and the service looks around in
between. -/
def flurry : List (Traffic.Beat ScriptedChain) :=
  [.other .start nofun, .service, .service, .service, .change (.remove 5), .service,
    .other (.register keeper options) nofun, .head head, .head { head with number := 61 },
    .changeWakes, .headWakes, .service, .headWakes, .service, .service, .service]

def afterFlurry : Traffic ScriptedChain :=
  (Traffic.new { Settings.standard with mailbox := some 1 } (.new 5) .empty).run flurry

theorem flurry_settles : afterFlurry.Rests ∧ afterFlurry.live.phase = .serving 1000 ∧
    afterFlurry.left = [(.remove 5, false), (.add ⟨0, keeper, options⟩, true)] ∧
    afterFlurry.live.heads.queue = [] ∧
    afterFlurry.live.herald.head = some { head with number := 61 } ∧
    afterFlurry.CaughtUp (some 1) := by
  have waits : afterFlurry.live.released.stepService.isNone = true := by decide +kernel
  have rests : afterFlurry.Rests := ⟨Option.isNone_iff_eq_none.1 waits, rfl, rfl⟩
  have phase : afterFlurry.live.phase = .serving 1000 := rfl
  have left : afterFlurry.left = [(.remove 5, false), (.add ⟨0, keeper, options⟩, true)] := rfl
  have settled := Traffic.no_wake_up_lost { Settings.standard with mailbox := some 1 }
    (ScriptedChain.new 5) .empty flurry rests
  obtain ⟨empty, newest, caughtUp⟩ := settled.1 1000 phase
  exact ⟨rests, phase, left, empty, newest, caughtUp⟩

end Example

end ChainHerald
