import ChainHerald.Proofs.Around
import ChainHerald.Proofs.Batches
import ChainHerald.Proofs.Consumed

/-!
# The life of a backfill

`Backfilling` is a backfill from the moment its lane is opened: at each time either its writer has
a turn or others do something. Nobody cancels. It puts logs into the lane or asks for a range, and
when it is gone the lane is closed (`Stands`). So what it has put into the lane is at any time the
front of all the logs in order (`in_order`). In a broadcaster every lane that a connection opens for
a backfill is filled by one (`Broadcaster.Backfills.backfilling`).
-/

namespace ChainHerald

open Source (Feed)

variable {σ : Type} [Source σ]

/-! ## What the node answers -/

namespace Source

/-- A call under way for the request, made and moved on while the node is at hand. -/
inductive Underway {α : Type} (held : σ → Prop) (request : Request (Feed σ) α) :
    Call σ α → Prop where
  | asked {c : σ} (clock : Clock) (at_hand : held c) :
      Underway held request (Source.ask request clock c).1
  | moved {c c' : σ} {clock : Clock} {call call' : Call σ α}
      (underway : Underway held request call) (at_hand : held c)
      (s : Source.step call clock c = some (.going call', c')) : Underway held request call'

/-- A request for a range may fail, but if it is answered, then with what a fixed history has
there. -/
def Recounts (held : σ → Prop) (f : Filter) (history : List Log) : Prop :=
  ∀ lo hi call clock c batch c', Underway held (.logs f lo hi) call → held c →
    Source.step call clock c = some (.done (.ok batch), c') → batch = minedWithin lo hi history

end Source

/-! ## The life of a backfill -/

/-- A backfill of the blocks `first` to `latest` from the moment its lane is opened. -/
structure Backfilling (σ : Type) [Source σ] where
  lane : Nat
  filter : Filter
  first : Nat
  latest : Nat
  batch : Nat
  capacity : Nat
  state : Nat → Intake σ
  /-- Whether the writer of the lane has its turn. -/
  turn : Nat → Bool
  ordered : first ≤ latest
  number : latest ≤ maxNumber
  writer : (state 0).writers.get? lane = some (.sending filter (.between first latest batch) [])
  channel : (state 0).lanes.channels.get? lane = some (.new capacity)
  own : ∀ t, turn t = true → state (t + 1) = ((state t).step lane).getD (state t)
  others : ∀ t, turn t = false → (state t).Around lane (state (t + 1))
  free : ∀ t, (state t).desk.cancelled = false

/-- A request for a range, or a failure of it. -/
inductive Trial where
  | asked (q : Query)
  | failed
  deriving DecidableEq

def Entry.trial? : Entry → Option Trial
  | .asked _ q => some (.asked q)
  | .notice (.requestFailed ..) => some .failed
  | _ => none

/-- A request that failed so often and is then made once more. -/
def Query.rounds (q : Query) (failures : Nat) : List Trial :=
  (List.replicate failures [.asked q, .failed]).flatten ++ [.asked q]

/-- One range after another, each with its failures. -/
def Filter.rounds (f : Filter) (rounds : List ((Nat × Nat) × Nat)) : List Trial :=
  rounds.flatMap fun r => (Query.logs f r.1.1 r.1.2).rounds r.2

namespace Backfilling

def ranges (b : Backfilling σ) : Ranges := .between b.first b.latest b.batch

def writerAt (b : Backfilling σ) (t : Nat) : Option (Writer σ) := (b.state t).writers.get? b.lane

def channelAt (b : Backfilling σ) (t : Nat) : Option (Channel Log) :=
  (b.state t).lanes.channels.get? b.lane

def items (b : Backfilling σ) (t : Nat) : List Log :=
  Lanes.items (b.state t).lanes.channels b.lane

/-- What the writer has put into the lane up to the time. -/
def put (b : Backfilling σ) : Nat → List Log
  | 0 => []
  | t + 1 => b.put t ++ if b.turn t then (b.items (t + 1)).drop (b.items t).length else []

/-- The requests that the writer has made up to the time, and their failures. -/
def tried (b : Backfilling σ) : Nat → List Trial
  | 0 => []
  | t + 1 => b.tried t ++
    if b.turn t then
      (gained (b.state t).desk.journal.length (b.state (t + 1)).desk.journal).filterMap
        Entry.trial?
    else []

/-- All the logs that are to be put into the lane, in order. -/
def sorted (b : Backfilling σ) (history : List Log) : List Log :=
  (minedWithin b.first b.latest history).mergeSort inBatchOrder

/-- The request for this range is the writer's business. -/
def On (b : Backfilling σ) (t lo hi : Nat) : Prop :=
  ∃ f rest request, b.writerAt t = some (.fetching f rest request) ∧ request.request = .logs f lo hi

/-- A request of the writer is under way. -/
def Asking (b : Backfilling σ) (t : Nat) : Prop :=
  ∃ f rest request call, b.writerAt t = some (.fetching f rest request) ∧
    request.phase = .asking call

/-- The channel has no room. -/
def Full (b : Backfilling σ) (t : Nat) : Prop :=
  ∃ c, b.channelAt t = some c ∧ c.capacity ≤ c.buffer.length

variable {b : Backfilling σ} {t u : Nat} {held : σ → Prop} {history : List Log} {rest : Ranges}
  {batch : List Log} {l : Log} {lo hi : Nat} {request : Retry σ (List Log)}
  {rounds : List ((Nat × Nat) × Nat)}

/-! ## One turn -/

theorem put_own (own : b.turn t = true) (new : List Log)
    (grows : b.items (t + 1) = b.items t ++ new) : b.put (t + 1) = b.put t ++ new := by
  rw [put, own, if_pos rfl, grows, List.drop_left]

theorem tried_own (own : b.turn t = true) (new : List Entry)
    (grows : (b.state (t + 1)).desk.journal = new ++ (b.state t).desk.journal) :
    b.tried (t + 1) = b.tried t ++ new.reverse.filterMap Entry.trial? := by
  rw [tried, own, if_pos rfl, grows, gained_append]

/-- The writer can write, and somebody can read. -/
def Open (b : Backfilling σ) (t : Nat) : Prop :=
  ∃ c, b.channelAt t = some c ∧ c.readable = true ∧ c.writable = true

def Closed (b : Backfilling σ) (t : Nat) : Prop :=
  ∀ c, b.channelAt t = some c → c.writable = false

/-- The writer did not get on, and nobody was in its way. -/
structure Same (b : Backfilling σ) (t u : Nat) : Prop where
  writer : b.writerAt u = b.writerAt t
  opened : b.Open t → b.Open u
  closed : b.Closed t → b.Closed u
  tried : b.tried u = b.tried t
  put : b.put u = b.put t

theorem same_aside (aside : b.turn t = false) : b.Same t (t + 1) := by
  obtain ⟨writer, left⟩ := b.others t aside
  refine ⟨writer, ?_, ?_, by simp [tried, aside], by simp [put, aside]⟩
  · rintro ⟨c, held, readable, writable⟩
    obtain ⟨c', held'⟩ := left.kept c held writable
    obtain ⟨c₀, held₀, drains⟩ := left.channel c' held'
    obtain rfl := Option.some.inj (held.symm.trans held₀)
    exact ⟨c', held', drains.readable.trans readable, drains.writable.trans writable⟩
  · intro closed c' held'
    obtain ⟨c, held, drains⟩ := left.channel c' held'
    exact drains.writable.trans (closed c held)

theorem same_own (own : b.turn t = true) (waits : (b.state t).step b.lane = none) :
    b.Same t (t + 1) := by
  have state : b.state (t + 1) = b.state t := by
    rw [b.own t own]
    exact congrArg (Option.getD · (b.state t)) waits
  refine ⟨by rw [writerAt, state]; rfl, ?_, ?_, ?_, ?_⟩
  · rw [Open, Open, channelAt, channelAt, state]
    exact id
  · rw [Closed, Closed, channelAt, channelAt, state]
    exact id
  · rw [tried_own own [] (by rw [state]; rfl)]
    exact List.append_nil _
  · rw [put_own own [] (by rw [items, items, state, List.append_nil]), List.append_nil]

/-- Into a channel with room others put nothing. -/
theorem not_full_aside (room : ¬ b.Full t) (aside : b.turn t = false) : ¬ b.Full (t + 1) := by
  rintro ⟨c', held', full⟩
  obtain ⟨c, held, drains⟩ := (b.others t aside).lane.channel c' held'
  have same := drains.capacity
  have shorter := drains.buffer.length_le
  exact room ⟨c, held, by omega⟩

theorem state_own (own : b.turn t = true) {i : Intake σ}
    (moves : (b.state t).step b.lane = some i) : b.state (t + 1) = i := by
  rw [b.own t own]
  exact congrArg (Option.getD · (b.state t)) moves

/-! ## What it is at -/

/-- The rest of a batch is being put into the lane, and there are ranges left. -/
structure Sends (b : Backfilling σ) (history : List Log) (t : Nat) (rest : Ranges)
    (batch : List Log) : Prop where
  writer : b.writerAt t = some (.sending b.filter rest batch)
  channel : b.Open t
  sound : rest.Sound
  tried : ∃ rounds, b.ranges.all = rounds.map (·.1) ++ rest.all ∧
    b.tried t = b.filter.rounds rounds
  put : b.ranges.batches history = b.put t ++ (batch ++ rest.batches history)

/-- The request that a pause delays. -/
def pending (request : Retry σ (List Log)) : List Trial :=
  match request.phase with
  | .asking _ => []
  | .pausing _ => [.asked request.request.query]

/-- A range is being asked for, and there are ranges left. -/
structure Fetches (b : Backfilling σ) (held : σ → Prop) (history : List Log) (t : Nat)
    (rest : Ranges) (lo hi : Nat) (request : Retry σ (List Log)) : Prop where
  writer : b.writerAt t = some (.fetching b.filter rest request)
  channel : b.Open t
  sound : rest.Sound
  asks : request.request = .logs b.filter lo hi
  underway : ∀ call, request.phase = .asking call →
    Source.Underway held (.logs b.filter lo hi) call
  tried : ∃ rounds failures, b.ranges.all = rounds.map (·.1) ++ (lo, hi) :: rest.all ∧
    b.tried t ++ pending request =
      b.filter.rounds rounds ++ (Query.logs b.filter lo hi).rounds failures
  put : b.ranges.batches history = b.put t ++
    ((minedWithin lo hi history).mergeSort inBatchOrder ++ rest.batches history)

/-- A request for the range is under way. -/
def Asks (b : Backfilling σ) (held : σ → Prop) (history : List Log) (t : Nat) (rest : Ranges)
    (lo hi : Nat) : Prop :=
  ∃ request call, request.phase = .asking call ∧ b.Fetches held history t rest lo hi request

theorem Asks.asking (a : b.Asks held history t rest lo hi) : b.Asking t := by
  obtain ⟨request, call, phase, f⟩ := a
  exact ⟨b.filter, rest, request, call, f.writer, phase⟩

/-- The writer is gone, and the channel is closed. -/
structure Over (b : Backfilling σ) (history : List Log) (rounds : List ((Nat × Nat) × Nat))
    (t : Nat) : Prop where
  writer : b.writerAt t = none
  closed : b.Closed t
  all : b.ranges.all = rounds.map (·.1)
  tried : b.tried t = b.filter.rounds rounds
  put : b.ranges.batches history = b.put t

theorem Sends.same (s : b.Sends history t rest batch) (same : b.Same t u) :
    b.Sends history u rest batch where
  writer := same.writer.trans s.writer
  channel := same.opened s.channel
  sound := s.sound
  tried := by
    rw [same.tried]
    exact s.tried
  put := by
    rw [same.put]
    exact s.put

theorem Fetches.same (f : b.Fetches held history t rest lo hi request) (same : b.Same t u) :
    b.Fetches held history u rest lo hi request where
  writer := same.writer.trans f.writer
  channel := same.opened f.channel
  sound := f.sound
  asks := f.asks
  underway := f.underway
  tried := by
    rw [same.tried]
    exact f.tried
  put := by
    rw [same.put]
    exact f.put

theorem Sends.step_eq (s : b.Sends history t rest batch) :
    (b.state t).step b.lane = (b.state t).stepSending b.lane b.filter rest batch := by
  have writer : (b.state t).writers.get? b.lane = _ := s.writer
  rw [Intake.step, writer]

theorem Fetches.step_eq (f : b.Fetches held history t rest lo hi request) :
    (b.state t).step b.lane = (b.state t).stepFetching b.lane b.filter rest request := by
  have writer : (b.state t).writers.get? b.lane = _ := f.writer
  rw [Intake.step, writer]

theorem Over.same (o : b.Over history rounds t) (same : b.Same t u) :
    b.Over history rounds u where
  writer := same.writer.trans o.writer
  closed := same.closed o.closed
  all := o.all
  tried := same.tried.trans o.tried
  put := o.put.trans same.put.symm

theorem Over.next (o : b.Over history rounds t) : b.Over history rounds (t + 1) := by
  cases turn : b.turn t with
  | false => exact o.same (same_aside turn)
  | true =>
    have gone : (b.state t).writers.get? b.lane = none := o.writer
    refine o.same (same_own turn ?_)
    rw [Intake.step, gone]

theorem Over.later (o : b.Over history rounds t) (later : t ≤ u) : b.Over history rounds u := by
  induction later with
  | refl => exact o
  | step _ ih => exact ih.next

/-! ### The next item, the next range, the end -/

/-- The next item goes into a channel that has room. -/
theorem Sends.item (s : b.Sends history t rest (l :: batch)) (own : b.turn t = true)
    (room : ¬ b.Full t) : b.Sends history (t + 1) rest batch := by
  obtain ⟨c, held, readable, writable⟩ := s.channel
  have some_room : c.buffer.length < c.capacity :=
    Nat.lt_of_not_le fun full => room ⟨c, held, full⟩
  have there : (b.state t).lanes.channels.get? b.lane = some c := held
  have moves : (b.state t).step b.lane = some ({ b.state t with
      lanes := { (b.state t).lanes with
        channels := (b.state t).lanes.channels.insert b.lane
          { c with buffer := c.buffer ++ [l] } } }.put b.lane (.sending b.filter rest batch)) := by
    simp [s.step_eq, Intake.stepSending, b.free t, Lanes.send, there, Channel.send,
      readable, some_room]
  have state := state_own own moves
  have grows : b.items (t + 1) = b.items t ++ [l] := by
    rw [items, items, state, Lanes.items_of_get? there]
    exact Lanes.items_insert_self
  refine ⟨?_, ⟨{ c with buffer := c.buffer ++ [l] }, ?_, readable, writable⟩, s.sound, ?_, ?_⟩
  · rw [writerAt, state]
    exact Table.get?_insert_self
  · rw [channelAt, state]
    exact Table.get?_insert_self
  · rw [tried_own own [] (by rw [state]; rfl)]
    simpa using s.tried
  · rw [put_own own _ grows, s.put]
    simp

/-- A full channel has to be waited for. -/
theorem Sends.stuck (s : b.Sends history t rest (l :: batch)) (own : b.turn t = true)
    (full : b.Full t) : b.Sends history (t + 1) rest (l :: batch) := by
  obtain ⟨c, held, readable, -⟩ := s.channel
  obtain ⟨c', held', none_left⟩ := full
  obtain rfl := Option.some.inj (held.symm.trans held')
  have there : (b.state t).lanes.channels.get? b.lane = some c := held
  have waits : (b.state t).step b.lane = none := by
    simp [s.step_eq, Intake.stepSending, b.free t, Lanes.send, there, Channel.send,
      readable, Nat.not_lt.2 none_left]
  exact s.same (same_own own waits)

/-- When the batch is sent, the next range is asked for. -/
theorem Sends.range (s : b.Sends history t rest []) (own : b.turn t = true)
    (at_hand : held (b.state t).source) {rest' : Ranges}
    (next : rest.next = some ((lo, hi), rest')) : b.Asks held history (t + 1) rest' lo hi := by
  let asks := Retry.start (.logs b.filter lo hi) (b.state t)
  have moves : (b.state t).step b.lane =
      some (asks.2.put b.lane (.fetching b.filter rest' asks.1)) := by
    simp [s.step_eq, Intake.stepSending, b.free t, next, asks]
  have state := state_own own moves
  have taken := s.sound.takes next
  refine ⟨asks.1, _, rfl, ?_, ?_, taken.sound, rfl, ?_, ?_, ?_⟩
  · rw [writerAt, state]
    exact Table.get?_insert_self
  · rw [Open, channelAt, state]
    exact s.channel
  · rintro call asking
    cases asking
    exact .asked _ at_hand
  · obtain ⟨rounds, all, tried⟩ := s.tried
    refine ⟨rounds, 0, ?_, ?_⟩
    · rw [all, Ranges.all_of_next s.sound next]
    · rw [tried_own own [.asked _ (.logs b.filter lo hi)] (by rw [state]; rfl), tried]
      exact List.append_nil _
  · rw [put_own own [] (by rw [items, state, List.append_nil]; rfl), s.put,
      Ranges.batches_of_next s.sound next, List.append_nil, List.nil_append]

/-- When no range is left, the lane is closed. -/
theorem Sends.last (s : b.Sends history t rest []) (own : b.turn t = true)
    (done : rest.next = none) :
    ∃ rounds, b.Over history rounds (t + 1) ∧
      ∃ c, b.channelAt (t + 1) = some c ∧ c.writable = false := by
  obtain ⟨c, held, -, -⟩ := s.channel
  have there : (b.state t).lanes.channels.get? b.lane = some c := held
  have moves : (b.state t).step b.lane = some ((b.state t).finish b.lane) := by
    simp [s.step_eq, Intake.stepSending, b.free t, done]
  have state := state_own own moves
  have closed : b.channelAt (t + 1) = some c.hangUp := by
    rw [channelAt, state]
    simp [Intake.finish, Lanes.update, there]
  have grows : b.items (t + 1) = b.items t ++ [] := by
    rw [items, state, List.append_nil]
    exact Lanes.items_hangUp _ _ _
  obtain ⟨rounds, all, tried⟩ := s.tried
  rw [Ranges.all_of_done done, List.append_nil] at all
  refine ⟨rounds, ⟨?_, ?_, all, ?_, ?_⟩, c.hangUp, closed, rfl⟩
  · rw [writerAt, state]
    exact Table.get?_erase_self
  · intro c' held'
    cases closed.symm.trans held'
    rfl
  · rw [tried_own own [] (by rw [state]; rfl), tried]
    exact List.append_nil _
  · rw [put_own own _ grows, s.put, Ranges.batches_of_done done]
    rfl

theorem rounds_succ (q : Query) (failures : Nat) :
    q.rounds (failures + 1) = q.rounds failures ++ [.failed, .asked q] := by
  simp [Query.rounds, List.replicate_succ']

/-- The same range is still being asked for. -/
theorem Fetches.next (f : b.Fetches held history t rest lo hi request) (own : b.turn t = true)
    {source : σ} {desk : Desk} {request' : Retry σ (List Log)}
    (state : b.state (t + 1) =
      { b.state t with source, desk }.put b.lane (.fetching b.filter rest request'))
    (new : List Entry) (journal : desk.journal = new ++ (b.state t).desk.journal)
    (asks : request'.request = .logs b.filter lo hi)
    (underway : ∀ call, request'.phase = .asking call →
      Source.Underway held (.logs b.filter lo hi) call)
    (tried : ∀ (earlier : List Trial) failures,
      b.tried t ++ pending request = earlier ++ (Query.logs b.filter lo hi).rounds failures →
      ∃ failures', b.tried t ++ new.reverse.filterMap Entry.trial? ++ pending request' =
        earlier ++ (Query.logs b.filter lo hi).rounds failures') :
    b.Fetches held history (t + 1) rest lo hi request' := by
  refine ⟨?_, ?_, f.sound, asks, underway, ?_, ?_⟩
  · rw [writerAt, state]
    exact Table.get?_insert_self
  · rw [Open, channelAt, state]
    exact f.channel
  · obtain ⟨rounds, failures, all, before⟩ := f.tried
    obtain ⟨failures', after⟩ := tried _ failures before
    refine ⟨rounds, failures', all, ?_⟩
    rw [tried_own own new (by rw [state]; exact journal), after]
  · rw [put_own own [] (by rw [items, state, List.append_nil]; rfl), List.append_nil]
    exact f.put

/-! ### The range that is asked for -/

section Asking

variable {call call' : Source.Call σ (List Log)} {source : σ}

theorem Fetches.going_on (f : b.Fetches held history t rest lo hi request) (own : b.turn t = true)
    (at_hand : held (b.state t).source) (asking : request.phase = .asking call)
    (stepped : Source.step call (b.state t).desk.clock (b.state t).source =
      some (.going call', source)) : b.Asks held history (t + 1) rest lo hi := by
  let request' : Retry σ (List Log) := { request with phase := .asking call' }
  have moves : (b.state t).step b.lane = some
      ({ b.state t with source }.put b.lane (.fetching b.filter rest request')) := by
    simp [f.step_eq, Intake.stepFetching, b.free t, Retry.step, asking, stepped, request']
  refine ⟨request', call', rfl, f.next own (state_own own moves) [] rfl f.asks ?_ ?_⟩
  · rintro call'' same
    cases same
    exact (f.underway call asking).moved at_hand stepped
  · intro earlier failures before
    rw [pending, asking] at before
    exact ⟨failures, by simpa [pending, request'] using before⟩

theorem Fetches.failed (f : b.Fetches held history t rest lo hi request) (own : b.turn t = true)
    (asking : request.phase = .asking call) {e : ProviderError}
    (stepped : Source.step call (b.state t).desk.clock (b.state t).source =
      some (.done (.error e), source)) :
    (∃ request', b.Fetches held history (t + 1) rest lo hi request') ∧
      b.tried (t + 1) = b.tried t ++ [.failed] := by
  let pause := request.backoff.next.1
  let request' : Retry σ (List Log) := { request with
    backoff := request.backoff.next.2
    phase := .pausing ((b.state t).desk.clock.now + pause) }
  let failure : Notice := .requestFailed request.request.query.method e pause
  let noticed := (b.state t).desk.notice failure
  have moves : (b.state t).step b.lane = some
      ({ b.state t with source, desk := noticed }.put b.lane
        (.fetching b.filter rest request')) := by
    simp [f.step_eq, Intake.stepFetching, b.free t, Retry.step, asking, stepped,
      request', noticed, failure, pause]
  have state := state_own own moves
  refine ⟨⟨request', f.next own state [.notice failure] rfl f.asks ?_ ?_⟩, ?_⟩
  · rintro call' ⟨⟩
  · intro earlier failures before
    rw [pending, asking, List.append_nil] at before
    refine ⟨failures + 1, ?_⟩
    rw [before, rounds_succ]
    simp [pending, request', failure, f.asks, Entry.trial?, Request.query]
  · exact tried_own own [.notice failure] (by rw [state]; rfl)

theorem Fetches.answered (f : b.Fetches held history t rest lo hi request) (own : b.turn t = true)
    (asking : request.phase = .asking call)
    (stepped : Source.step call (b.state t).desk.clock (b.state t).source =
      some (.done (.ok (minedWithin lo hi history)), source)) :
    b.Sends history (t + 1) rest ((minedWithin lo hi history).mergeSort inBatchOrder) := by
  have moves : (b.state t).step b.lane = some ({ b.state t with source }.put b.lane
      (.sending b.filter rest ((minedWithin lo hi history).mergeSort inBatchOrder))) := by
    simp [f.step_eq, Intake.stepFetching, b.free t, Retry.step, asking, stepped]
  have state := state_own own moves
  refine ⟨?_, ?_, f.sound, ?_, ?_⟩
  · rw [writerAt, state]
    exact Table.get?_insert_self
  · rw [Open, channelAt, state]
    exact f.channel
  · obtain ⟨rounds, failures, all, before⟩ := f.tried
    rw [pending, asking, List.append_nil] at before
    refine ⟨rounds ++ [((lo, hi), failures)], ?_, ?_⟩
    · rw [all]
      simp
    · rw [tried_own own [] (by rw [state]; rfl), before]
      simp [Filter.rounds]
  · rw [put_own own [] (by rw [items, state, List.append_nil]; rfl), List.append_nil]
    exact f.put

/-- A request under way goes on, or fails, or is answered with what is then sent. -/
theorem Fetches.asking_own (f : b.Fetches held history t rest lo hi request)
    (own : b.turn t = true) (recounts : Source.Recounts held b.filter history)
    (at_hand : held (b.state t).source) (asking : request.phase = .asking call) :
    b.Asks held history (t + 1) rest lo hi ∨
    ((∃ request', b.Fetches held history (t + 1) rest lo hi request') ∧
      b.tried (t + 1) = b.tried t ++ [.failed]) ∨
    b.Sends history (t + 1) rest ((minedWithin lo hi history).mergeSort inBatchOrder) := by
  cases stepped : Source.step call (b.state t).desk.clock (b.state t).source with
  | none =>
    have waits : (b.state t).step b.lane = none := by
      simp [f.step_eq, Intake.stepFetching, b.free t, Retry.step, asking, stepped]
    exact .inl ⟨request, call, asking, f.same (same_own own waits)⟩
  | some moved =>
    obtain ⟨turn, source⟩ := moved
    cases turn with
    | going call' => exact .inl (f.going_on own at_hand asking stepped)
    | done answer =>
      cases answer with
      | error e => exact .inr (.inl (f.failed own asking stepped))
      | ok answer =>
        have underway := f.underway call asking
        obtain rfl := recounts lo hi call _ _ answer source underway at_hand stepped
        exact .inr (.inr (f.answered own asking stepped))

end Asking

/-- After a pause the same range is asked for again. -/
theorem Fetches.pausing_own (f : b.Fetches held history t rest lo hi request)
    (own : b.turn t = true) (at_hand : held (b.state t).source) {ready : Nat}
    (pausing : request.phase = .pausing ready) :
    ((b.state t).desk.clock.now < ready ∧ b.Fetches held history (t + 1) rest lo hi request) ∨
      b.Asks held history (t + 1) rest lo hi := by
  by_cases due : ready ≤ (b.state t).desk.clock.now
  · let asks := Retry.ask request.request request.backoff (b.state t)
    have moves : (b.state t).step b.lane =
        some (asks.2.put b.lane (.fetching b.filter rest asks.1)) := by
      simp [f.step_eq, Intake.stepFetching, b.free t, Retry.step, pausing, due, asks]
    have again := f.next own (state_own own moves) [.asked _ request.request.query] rfl f.asks
    refine .inr ⟨asks.1, _, rfl, again ?_ ?_⟩
    · rintro call same
      cases same
      rw [← f.asks]
      exact .asked _ at_hand
    · intro earlier failures before
      rw [pending, pausing] at before
      refine ⟨failures, ?_⟩
      rw [← before]
      exact List.append_nil _
  · have waits : (b.state t).step b.lane = none := by
      simp [f.step_eq, Intake.stepFetching, b.free t, Retry.step, pausing, due]
    exact .inl ⟨Nat.lt_of_not_le due, f.same (same_own own waits)⟩

/-! ### One turn after the other -/

/-- Each item is sent, or waits. -/
theorem Sends.goes (s : b.Sends history t rest (l :: batch)) :
    b.Sends history (t + 1) rest (l :: batch) ∨ b.Sends history (t + 1) rest batch := by
  cases turn : b.turn t with
  | false => exact .inl (s.same (same_aside turn))
  | true =>
    by_cases full : b.Full t
    · exact .inl (s.stuck turn full)
    · exact .inr (s.item turn full)

/-- What a range is asked for comes, or is still waited for. -/
theorem Fetches.goes (f : b.Fetches held history t rest lo hi request)
    (recounts : Source.Recounts held b.filter history) (at_hand : ∀ t, held (b.state t).source) :
    (∃ request', b.Fetches held history (t + 1) rest lo hi request') ∨
      b.Sends history (t + 1) rest ((minedWithin lo hi history).mergeSort inBatchOrder) := by
  cases turn : b.turn t with
  | false => exact .inl ⟨request, f.same (same_aside turn)⟩
  | true =>
    cases phase : request.phase with
    | asking call =>
      rcases f.asking_own turn recounts (at_hand t) phase with
        ⟨request', -, -, going⟩ | ⟨⟨request', failed⟩, -⟩ | answered
      · exact .inl ⟨request', going⟩
      · exact .inl ⟨request', failed⟩
      · exact .inr answered
    | pausing ready =>
      rcases f.pausing_own turn (at_hand t) phase with ⟨-, waits⟩ | ⟨request', -, -, again⟩
      · exact .inl ⟨request, waits⟩
      · exact .inl ⟨request', again⟩

/-- Where a backfill can stand. -/
inductive Stands (b : Backfilling σ) (held : σ → Prop) (history : List Log) (t : Nat) : Prop where
  | sending {rest : Ranges} {batch : List Log} (s : b.Sends history t rest batch)
  | fetching {rest : Ranges} {lo hi : Nat} {request : Retry σ (List Log)}
      (f : b.Fetches held history t rest lo hi request)
  | ended {rounds : List ((Nat × Nat) × Nat)} (o : b.Over history rounds t)

theorem sends_zero (b : Backfilling σ) (history : List Log) : b.Sends history 0 b.ranges [] where
  writer := b.writer
  channel := ⟨_, b.channel, rfl, rfl⟩
  sound := Ranges.sound_between b.number
  tried := ⟨[], rfl, rfl⟩
  put := rfl

theorem Stands.next (s : b.Stands held history t)
    (recounts : Source.Recounts held b.filter history) (at_hand : ∀ t, held (b.state t).source) :
    b.Stands held history (t + 1) := by
  cases s with
  | @sending rest batch s =>
    cases batch with
    | cons l batch =>
      rcases s.goes with waits | sent
      · exact .sending waits
      · exact .sending sent
    | nil =>
      cases turn : b.turn t with
      | false => exact .sending (s.same (same_aside turn))
      | true =>
        cases next : rest.next with
        | none =>
          obtain ⟨_, ended, -⟩ := s.last turn next
          exact .ended ended
        | some taken =>
          obtain ⟨_, _, _, asks⟩ := s.range turn (at_hand t) next
          exact .fetching asks
  | fetching f =>
    rcases f.goes recounts at_hand with ⟨_, waits⟩ | answered
    · exact .fetching waits
    · exact .sending answered
  | ended o => exact .ended o.next

theorem stands (b : Backfilling σ) (recounts : Source.Recounts held b.filter history)
    (at_hand : ∀ t, held (b.state t).source) (t : Nat) : b.Stands held history t := by
  induction t with
  | zero => exact .sending (b.sends_zero history)
  | succ t ih => exact ih.next recounts at_hand

theorem batches_ranges (b : Backfilling σ) (history : List Log) :
    b.ranges.batches history = b.sorted history :=
  Ranges.batches_between b.ordered b.number history

/-- What a backfill does never goes astray. -/
structure InOrder (b : Backfilling σ) (history : List Log) : Prop where
  /-- The lane is filled in order. -/
  front : ∀ t, b.put t <+: b.sorted history
  /-- It is not closed before everything is there. -/
  whole : ∀ t c, b.channelAt t = some c → c.writable = false → b.put t = b.sorted history
  /-- A range is asked for until it is answered, and then comes the next one. -/
  asked : ∀ t, ∃ rounds, rounds.map (·.1) = b.ranges.all ∧ b.tried t <+: b.filter.rounds rounds

theorem Stands.front (s : b.Stands held history t) : b.put t <+: b.sorted history := by
  rw [← b.batches_ranges history]
  cases s with
  | sending s => exact ⟨_, s.put.symm⟩
  | fetching f => exact ⟨_, f.put.symm⟩
  | ended o => exact o.put ▸ List.prefix_refl _

theorem Stands.whole (s : b.Stands held history t) {c : Channel Log}
    (here : b.channelAt t = some c) (closed : c.writable = false) :
    b.put t = b.sorted history := by
  have shut : ¬ b.Open t := by
    rintro ⟨c', here', -, writable⟩
    obtain rfl := Option.some.inj (here.symm.trans here')
    cases closed.symm.trans writable
  cases s with
  | sending s => exact absurd s.channel shut
  | fetching f => exact absurd f.channel shut
  | ended o => exact o.put.symm.trans (b.batches_ranges history)

/-- What was tried so far can be followed by what is left, without a failure. -/
theorem asked_front {done : List ((Nat × Nat) × Nat)} {left : List (Nat × Nat)} {more : List Trial}
    (all : b.ranges.all = done.map (·.1) ++ left)
    (tried : b.tried t ++ more = b.filter.rounds done) :
    ∃ rounds, rounds.map (·.1) = b.ranges.all ∧ b.tried t <+: b.filter.rounds rounds := by
  refine ⟨done ++ left.map (·, 0), ?_, ?_⟩
  · rw [all, List.map_append, List.map_map]
    exact congrArg _ (List.map_id left)
  · rw [Filter.rounds, List.flatMap_append]
    exact (List.prefix_append _ more).trans (tried ▸ List.prefix_append _ _)

theorem Stands.asked (s : b.Stands held history t) :
    ∃ rounds, rounds.map (·.1) = b.ranges.all ∧ b.tried t <+: b.filter.rounds rounds := by
  cases s with
  | sending s =>
    obtain ⟨rounds, all, tried⟩ := s.tried
    exact asked_front all (by rw [List.append_nil, tried])
  | @fetching rest lo hi request f =>
    obtain ⟨rounds, failures, all, tried⟩ := f.tried
    have all' : b.ranges.all = (rounds ++ [((lo, hi), failures)]).map (·.1) ++ rest.all := by
      rw [all, List.map_append, List.append_assoc]
      rfl
    have tried' : b.tried t ++ pending request =
        b.filter.rounds (rounds ++ [((lo, hi), failures)]) := by
      rw [tried, Filter.rounds, Filter.rounds, List.flatMap_append, List.flatMap_singleton]
    exact asked_front all' tried'
  | ended o => exact ⟨_, o.all.symm, o.tried ▸ List.prefix_refl _⟩

theorem in_order (b : Backfilling σ) (recounts : Source.Recounts held b.filter history)
    (at_hand : ∀ t, held (b.state t).source) : b.InOrder history where
  front t := (b.stands recounts at_hand t).front
  whole t _ here closed := (b.stands recounts at_hand t).whole here closed
  asked t := (b.stands recounts at_hand t).asked

end Backfilling

/-! ## In a broadcaster -/

namespace Broadcaster

variable {b : Broadcaster σ} {hs : List Input} {n first latest : Nat} {f : Filter}
  {moves : Nat → Move σ}

/-- The lane of a backfill that has yet to begin. -/
structure Backfills (b : Broadcaster σ) (n : Nat) (f : Filter) (first latest : Nat) : Prop where
  old : n < b.intake.lanes.fresh
  ordered : first ≤ latest
  writer : b.intake.writers.get? n =
    some (.sending f (.between first latest b.intake.limits.batch) [])
  channel : b.intake.lanes.channels.get? n = some (.new b.intake.limits.buffer)

/-- A connection opens one, for the filter and the start that it has. -/
theorem connect_backfills (b : Broadcaster σ) (i : Intake σ) (latest next : Nat) :
    (connect { b with
        intake := (i.openBackfill b.filter b.deepStart latest).2, deepStart := none }
      [i.lanes.fresh, next] (some next)).Backfills i.lanes.fresh b.filter
        (min (b.deepStart.getD (latest - i.limits.depth)) latest) latest := by
  let c : Broadcaster σ :=
    { b with intake := (i.openBackfill b.filter b.deepStart latest).2, deepStart := none }
  obtain ⟨writers, intake⟩ := c.connect_intake [i.lanes.fresh, next] (some next)
  have opened : c.intake.writers.get? i.lanes.fresh =
      some (.sending b.filter (i.backfillRanges b.deepStart latest) []) :=
    Table.get?_insert_self
  have writer := spares_connect (b := c) (.of_eq rfl) [i.lanes.fresh, next] (some next) _ _ _
    opened rfl
  refine ⟨?_, Nat.min_le_right .., ?_, ?_⟩
  · rw [intake]
    exact Nat.lt_succ_self _
  · rw [writer, intake]
    rfl
  · rw [intake]
    exact Table.get?_insert_self

theorem Backfills.plain (o : b.Backfills n f first latest) : b.Plain n := by
  refine ⟨o.old, ?_⟩
  rintro cycle ⟨w, held, fed⟩
  obtain rfl := Option.some.inj (o.writer.symm.trans held)
  cases fed

/-- Such a lane is filled by a backfill, whatever the broadcaster does, short of cancelling. -/
def Backfills.backfilling (o : b.Backfills n f first latest) (number : latest ≤ maxNumber)
    (r : b.Reached hs) (moves : Nat → Move σ)
    (free : ∀ t, (b.after moves t).desk.cancelled = false) : Backfilling σ where
  lane := n
  filter := f
  first := first
  latest := latest
  batch := b.intake.limits.batch
  capacity := b.intake.limits.buffer
  state t := (b.after moves t).intake
  turn t := decide (turn? (moves t) = some n)
  ordered := o.ordered
  number := number
  writer := o.writer
  channel := o.channel
  own t own := by
    rw [after_succ]
    exact move_of_turn (of_decide_eq_true own)
  others t aside := by
    obtain ⟨hs, reached⟩ := r.after moves t
    rw [after_succ]
    exact reached.around (free t) (o.plain.after r free t) (of_decide_eq_false aside)
  free := free

end Broadcaster

end ChainHerald
