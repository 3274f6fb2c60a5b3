import ChainHerald.Proofs.Backfilling

/-!
# A backfill comes to its end

If the node and the reader are fair (`Fair`), a backfill gets to the end. However large its batches
are, and however often which of them fail, all the logs are put into the lane in order (`complete`).
-/

namespace ChainHerald

namespace Backfilling

variable {σ : Type} [Source σ]

/-- The writer has turn after turn, and the clock runs. A request that is under way comes to an end,
each range fails only so often, and a full channel is read. -/
structure Fair (b : Backfilling σ) : Prop where
  turns : ∀ t, ∃ u, t ≤ u ∧ b.turn u = true
  clock : ∀ t, (b.state t).desk.clock.now ≤ (b.state (t + 1)).desk.clock.now
  passes : ∀ n, ∃ t, n ≤ (b.state t).desk.clock.now
  answered : ∀ t, b.Asking t → ∃ u, t ≤ u ∧ ¬ b.Asking u
  relents : ∀ lo hi, ∃ u, ∀ t, u ≤ t → b.On t lo hi → b.tried (t + 1) ≠ b.tried t ++ [.failed]
  read : ∀ t f rest l batch, b.writerAt t = some (.sending f rest (l :: batch)) → b.Full t →
    ∃ u, t ≤ u ∧ ¬ b.Full u

variable {b : Backfilling σ} {t u : Nat} {held : σ → Prop} {history : List Log} {rest : Ranges}
  {batch : List Log} {l : Log} {lo hi : Nat} {request : Retry σ (List Log)}

/-! ## It gets on -/

/-- What lasts until the writer has its turn, and then leads on. -/
theorem Fair.leads (fair : b.Fair) (P Q : Nat → Prop)
    (stays : ∀ s, b.turn s = false → P s → P (s + 1))
    (moves : ∀ s, b.turn s = true → P s → Q (s + 1)) (now : P t) : ∃ u, t ≤ u ∧ Q u := by
  obtain ⟨own, later, turn⟩ := fair.turns t
  obtain ⟨wait, rfl⟩ := Nat.exists_eq_add_of_le later
  clear later
  induction wait generalizing t with
  | zero => exact ⟨t + 1, Nat.le_succ t, moves t turn now⟩
  | succ wait ih =>
    cases first : b.turn t with
    | true => exact ⟨t + 1, Nat.le_succ t, moves t first now⟩
    | false =>
      rw [Nat.add_succ, ← Nat.succ_add] at turn
      obtain ⟨u, later, led⟩ := ih (stays t first now) turn
      exact ⟨u, Nat.le_of_succ_le later, led⟩

/-- What lasts unless it leads on. -/
theorem lasts_or (P Q : Nat → Prop) (goes : ∀ s, P s → P (s + 1) ∨ Q (s + 1)) (now : P t)
    (later : t ≤ u) : P u ∨ ∃ v, t ≤ v ∧ Q v := by
  induction later with
  | refl => exact .inl now
  | @step s later ih =>
    rcases ih with still | on
    · rcases goes s still with still | on
      · exact .inl still
      · exact .inr ⟨s + 1, Nat.le_succ_of_le later, on⟩
    · exact .inr on

theorem Fair.now_mono (fair : b.Fair) (later : t ≤ u) :
    (b.state t).desk.clock.now ≤ (b.state u).desk.clock.now := by
  induction later with
  | refl => exact Nat.le_refl _
  | @step s _ ih => exact ih.trans (fair.clock s)

/-- A batch is sent to its end, however small the channel is. -/
theorem Fair.sends (fair : b.Fair) (s : b.Sends history t rest batch) :
    ∃ u, t ≤ u ∧ b.Sends history u rest [] := by
  induction batch generalizing t with
  | nil => exact ⟨t, Nat.le_refl t, s⟩
  | cons l batch ih =>
    have sent : ∃ u, t ≤ u ∧ b.Sends history u rest batch := by
      have room : ∃ u, t ≤ u ∧ ¬ b.Full u := by
        by_cases full : b.Full t
        · exact fair.read t _ _ _ _ s.writer full
        · exact ⟨t, Nat.le_refl t, full⟩
      obtain ⟨u, later, room⟩ := room
      rcases lasts_or (b.Sends history · rest (l :: batch)) (b.Sends history · rest batch)
        (fun _ s => s.goes) s later with still | sent
      · obtain ⟨v, after, sent⟩ := fair.leads
          (fun t => b.Sends history t rest (l :: batch) ∧ ¬ b.Full t) (b.Sends history · rest batch)
          (fun _ aside ⟨s, room⟩ => ⟨s.same (same_aside aside), not_full_aside room aside⟩)
          (fun _ own ⟨s, room⟩ => s.item own room) ⟨still, room⟩
        exact ⟨v, later.trans after, sent⟩
      · exact sent
    obtain ⟨u, later, s⟩ := sent
    obtain ⟨v, after, done⟩ := ih s
    exact ⟨v, later.trans after, done⟩

/-- A pause comes to its end. -/
theorem Fair.asks (fair : b.Fair) (at_hand : ∀ t, held (b.state t).source)
    (f : b.Fetches held history t rest lo hi request) :
    ∃ u, t ≤ u ∧ b.Asks held history u rest lo hi := by
  cases phase : request.phase with
  | asking call => exact ⟨t, Nat.le_refl t, request, call, phase, f⟩
  | pausing ready =>
    obtain ⟨past, due⟩ := fair.passes ready
    have goes : ∀ s, b.Fetches held history s rest lo hi request →
        b.Fetches held history (s + 1) rest lo hi request ∨
          b.Asks held history (s + 1) rest lo hi := by
      intro s f
      cases turn : b.turn s with
      | false => exact .inl (f.same (same_aside turn))
      | true => exact (f.pausing_own turn (at_hand s) phase).imp_left And.right
    rcases lasts_or (b.Fetches held history · rest lo hi request)
      (b.Asks held history · rest lo hi) goes f (Nat.le_max_left t past) with still | asked
    · obtain ⟨u, after, asked⟩ := fair.leads
        (fun s => b.Fetches held history s rest lo hi request ∧
          ready ≤ (b.state s).desk.clock.now) (b.Asks held history · rest lo hi)
        (fun s aside ⟨f, due⟩ => ⟨f.same (same_aside aside), due.trans (fair.clock s)⟩)
        (fun s own ⟨f, due⟩ => (f.pausing_own own (at_hand s) phase).resolve_left
          fun early => absurd due (Nat.not_le.2 early.1))
        ⟨still, due.trans (fair.now_mono (Nat.le_max_right t past))⟩
      exact ⟨u, (Nat.le_max_left t past).trans after, asked⟩
    · exact asked

/-- A range that is asked for often enough is answered. -/
theorem Fair.fetches (fair : b.Fair) (recounts : Source.Recounts held b.filter history)
    (at_hand : ∀ t, held (b.state t).source)
    (f : b.Fetches held history t rest lo hi request) : ∃ u, t ≤ u ∧
      b.Sends history u rest ((minedWithin lo hi history).mergeSort inBatchOrder) := by
  obtain ⟨calm, relents⟩ := fair.relents lo hi
  let Sent (s : Nat) : Prop :=
    b.Sends history s rest ((minedWithin lo hi history).mergeSort inBatchOrder)
  rcases lasts_or (fun s => ∃ request, b.Fetches held history s rest lo hi request) Sent
    (fun _ ⟨_, f⟩ => f.goes recounts at_hand) ⟨request, f⟩ (Nat.le_max_left t calm) with
    ⟨request', still⟩ | answered
  · obtain ⟨asked, after, asks⟩ := fair.asks at_hand still
    have from_t : t ≤ asked := (Nat.le_max_left t calm).trans after
    -- from here on the request does not fail, and it does not stay under way
    have goes : ∀ s, calm ≤ s ∧ b.Asks held history s rest lo hi →
        (calm ≤ s + 1 ∧ b.Asks held history (s + 1) rest lo hi) ∨ Sent (s + 1) := by
      rintro s ⟨reached, request, call, phase, f⟩
      cases turn : b.turn s with
      | false =>
        have still := f.same (same_aside turn)
        exact .inl ⟨Nat.le_succ_of_le reached, request, call, phase, still⟩
      | true =>
        rcases f.asking_own turn recounts (at_hand s) phase with going | ⟨-, failed⟩ | answered
        · exact .inl ⟨Nat.le_succ_of_le reached, going⟩
        · exact absurd failed (relents s reached ⟨b.filter, rest, request, f.writer, f.asks⟩)
        · exact .inr answered
    have reached : calm ≤ asked := (Nat.le_max_right t calm).trans after
    obtain ⟨ended, later, quiet⟩ := fair.answered asked asks.asking
    rcases lasts_or (fun s => calm ≤ s ∧ b.Asks held history s rest lo hi) Sent goes
      ⟨reached, asks⟩ later with ⟨-, still⟩ | answered
    · exact absurd still.asking quiet
    · obtain ⟨u, later, answered⟩ := answered
      exact ⟨u, from_t.trans later, answered⟩
  · exact answered

/-- One range after another is asked for and sent, until none is left. -/
theorem Fair.ends (fair : b.Fair) (recounts : Source.Recounts held b.filter history)
    (at_hand : ∀ t, held (b.state t).source) (sound : rest.Sound)
    (s : b.Sends history t rest batch) :
    ∃ u, t ≤ u ∧ ∃ rounds, b.Over history rounds u ∧
      ∃ c, b.channelAt u = some c ∧ c.writable = false := by
  induction sound using Ranges.Sound.induct generalizing t batch with
  | done rest sound done =>
    obtain ⟨u, later, s⟩ := fair.sends s
    obtain ⟨v, after, ended⟩ := fair.leads (b.Sends history · rest [])
      (fun v => ∃ rounds, b.Over history rounds v ∧
        ∃ c, b.channelAt v = some c ∧ c.writable = false)
      (fun _ aside s => s.same (same_aside aside)) (fun _ own s => s.last own done) s
    exact ⟨v, later.trans after, ended⟩
  | step rest lo hi rest' sound sound' next ih =>
    obtain ⟨u, later, s⟩ := fair.sends s
    obtain ⟨v, after, _, _, _, f⟩ := fair.leads (b.Sends history · rest [])
      (b.Asks held history · rest' lo hi) (fun _ aside s => s.same (same_aside aside))
      (fun t own s => s.range own (at_hand t) next) s
    obtain ⟨w, answered, s⟩ := fair.fetches recounts at_hand f
    obtain ⟨z, last, ended⟩ := ih s
    exact ⟨z, ((later.trans after).trans answered).trans last, ended⟩

/-! ## Complete, in order, and the same every time -/

/-- The size of a range, but for the last one. -/
def size (b : Backfilling σ) : Nat := max b.batch 1

/-- The ranges follow one another from the first block to the last one. -/
theorem ranges_all (b : Backfilling σ) :
    b.ranges.all = (List.range ((b.latest - b.first) / b.size + 1)).map fun k =>
      (b.first + k * b.size, min (b.first + k * b.size + (b.size - 1)) b.latest) := by
  have going : b.ranges.exhausted = false := decide_eq_false (Nat.not_lt.2 b.ordered)
  have count : b.ranges.remaining = (b.latest - b.first) / b.size + 1 := by
    rw [Ranges.remaining, going]
    rfl
  rw [← count]
  exact (Ranges.sound_between b.number).all_eq

/-- In the end the lane is closed, everything is there, and each range was asked for once more than
it failed. -/
def Ends (b : Backfilling σ) (history : List Log) : Prop :=
  ∃ u, (∃ c, b.channelAt u = some c ∧ c.writable = false) ∧
    ∃ rounds, rounds.map (·.1) = b.ranges.all ∧
      ∀ t, u ≤ t → b.put t = b.sorted history ∧ b.tried t = b.filter.rounds rounds

/-- A backfill puts all the logs of its blocks into the lane, stably sorted, and then closes it. It
asks for range after range, for each one until it is answered. Neither the size of the ranges nor
the failures make a difference to what is put. -/
theorem complete (b : Backfilling σ) (recounts : Source.Recounts held b.filter history)
    (at_hand : ∀ t, held (b.state t).source) :
    b.InOrder history ∧ (b.Fair → b.Ends history) ∧
    Arranged (minedWithin b.first b.latest history) (b.sorted history) ∧
    (b.ranges.all = (List.range ((b.latest - b.first) / b.size + 1)).map fun k =>
      (b.first + k * b.size, min (b.first + k * b.size + (b.size - 1)) b.latest)) ∧
    ∀ b' : Backfilling σ, b'.first = b.first → b'.latest = b.latest →
      b.Ends history → b'.Ends history → ∃ u, ∀ t, u ≤ t → b'.put t = b.put t := by
  refine ⟨b.in_order recounts at_hand, fun fair => ?_, .mergeSort _, b.ranges_all,
    fun b' first latest ends ends' => ?_⟩
  · obtain ⟨u, -, rounds, ended, closed⟩ := fair.ends recounts at_hand
      (Ranges.sound_between b.number) (b.sends_zero history)
    refine ⟨u, closed, rounds, ended.all.symm, fun t later => ?_⟩
    have still := ended.later later
    exact ⟨still.put.symm.trans (b.batches_ranges history), still.tried⟩
  · obtain ⟨u, -, rounds, -, done⟩ := ends
    obtain ⟨u', -, rounds', -, done'⟩ := ends'
    have same : b'.sorted history = b.sorted history := by rw [sorted, sorted, first, latest]
    refine ⟨max u u', fun t later => ?_⟩
    rw [(done t ((Nat.le_max_left u u').trans later)).1,
      (done' t ((Nat.le_max_right u u').trans later)).1, same]

end Backfilling

/-! ## A scripted node -/

namespace ScriptedChain

theorem request_of_underway {α : Type} {held : ScriptedChain → Prop} {request : Request Nat α}
    {call : Source.Call ScriptedChain α} (u : Source.Underway held request call) :
    Call.request call = request := by
  induction u with
  | @asked c clock at_hand =>
    cases request with
    | subscribe | latest => rfl
    | logs f lo hi =>
      simp only [Source.ask, ask, Request.query]
      split <;> rfl
  | @moved c c' clock call call' underway at_hand stepped ih =>
    -- a call is over with its first step
    simp only [Source.step, step] at stepped
    split at stepped
    · cases stepped
    · split at stepped <;> cases stepped

/-- The scripted node tells its history, in the order in which it has it. -/
theorem recounts (history : List Log) (f : Filter) :
    Source.Recounts (fun c : ScriptedChain => c.history = history) f (history.filter f.passes) := by
  intro lo hi call clock c batch c' underway at_hand stepped
  have request := request_of_underway underway
  simp only [Source.step, step] at stepped
  split at stepped
  · cases stepped
  · split at stepped
    · cases stepped
    · rw [request] at stepped
      cases stepped
      rw [← at_hand]
      exact f.select_eq lo hi c.history

end ScriptedChain

namespace Example

/-! Two logs the wrong way round, a node that fails once, and a lane with room for one log. -/

def late : Log := { log with block := some 4, hash := some 44 }

/-- Up to the lane of the backfill. -/
def retrying : Broadcaster ScriptedChain :=
  Broadcaster.run
    (.new { Settings.standard with batch := 2, buffer := 1 }
      { ScriptedChain.new 5 with history := [late, log], failingLogs := 1 } .empty)
    [.register keeper options, .start, .task .service, .task .service, .task .service]

/-- Until the backfill is over. -/
def retries : List (Move ScriptedChain) :=
  [.task (.lane 1), .task (.lane 1), .clock ⟨60000, 60000⟩, .task (.lane 1), .task (.lane 1),
    .task (.lane 1), .task (.lane 1), .task (.lane 1), .task (.lane 1), .task (.lane 1),
    .task (.lane 1), .task .service, .task .service, .task (.lane 1), .task .service,
    .task (.lane 1)]

/-- From then on time passes. -/
def goingOn (t : Nat) : Move ScriptedChain :=
  retries[t]?.getD (if t % 2 = 0 then .task (.lane 1) else .clock ⟨60000 + t, 60000 + t⟩)

theorem backfills : retrying.Backfills 1 ⟨[1], [7]⟩ 0 5 where
  old := by decide +kernel
  ordered := by decide
  writer := by rfl
  channel := by rfl

/-- Where the backfill is over. -/
def answered : Broadcaster ScriptedChain := retrying.run retries

theorem answered_gone : answered.intake.writers.get? 1 = none := by decide +kernel

theorem move_goingOn (c : Clock) {t : Nat} (later : 16 ≤ t) :
    (answered.move (.clock c)).move (goingOn t) =
      answered.move (.clock (if t % 2 = 0 then c else ⟨60000 + t, 60000 + t⟩)) := by
  rw [goingOn, List.getElem?_eq_none (show retries.length ≤ t from later), Option.getD_none]
  split
  · refine Broadcaster.move_of_waits ?_
    simp only [Intake.step, Broadcaster.move, Broadcaster.withDesk, answered_gone]
  · rfl

/-- When the backfill is over, only the clock goes on. -/
theorem after_goingOn (k : Nat) : ∃ c : Clock, c.now ≤ 60016 + k ∧
    retrying.after goingOn (16 + k) = answered.move (.clock c) := by
  induction k with
  | zero =>
    have first : (List.range 16).map goingOn = retries := rfl
    refine ⟨answered.desk.clock, by decide +kernel, ?_⟩
    rw [Nat.add_zero, Broadcaster.after, first]
    rfl
  | succ k ih =>
    obtain ⟨c, below, same⟩ := ih
    refine ⟨if (16 + k) % 2 = 0 then c else ⟨60000 + (16 + k), 60000 + (16 + k)⟩, ?_, ?_⟩
    · split
      · exact Nat.le_succ_of_le below
      · simp only
        omega
    · rw [← Nat.add_assoc, Broadcaster.after_succ, same, move_goingOn c (Nat.le_add_right 16 k)]

/-- What holds up to the end, and then whatever the clock shows, holds at any time. -/
theorem throughout (P : Intake ScriptedChain → Prop)
    (before : ∀ t < 16, P (retrying.after goingOn t).intake)
    (after : ∀ c, P (answered.move (.clock c)).intake) (t : Nat) :
    P (retrying.after goingOn t).intake := by
  by_cases early : t < 16
  · exact before t early
  · obtain ⟨k, rfl⟩ := Nat.exists_eq_add_of_le (Nat.le_of_not_lt early)
    obtain ⟨c, -, same⟩ := after_goingOn k
    rw [same]
    exact after c

theorem never_cancelled (t : Nat) : (retrying.after goingOn t).desk.cancelled = false := by
  have free : answered.desk.cancelled = false := by decide +kernel
  exact throughout (·.desk.cancelled = false) (by decide +kernel) (fun _ => free) t

theorem same_history (t : Nat) :
    (retrying.after goingOn t).intake.source.history = [late, log] := by
  have same : answered.intake.source.history = [late, log] := by decide +kernel
  exact throughout (·.source.history = [late, log]) (by decide +kernel) (fun _ => same) t

/-- The backfill of the blocks up to the latest one, two at a time. -/
def retried : Backfilling ScriptedChain :=
  backfills.backfilling (by decide) (Broadcaster.Reached.run (.start ..) _) goingOn never_cancelled

theorem retried_gone {t : Nat} (later : 16 ≤ t) : retried.writerAt t = none := by
  obtain ⟨k, rfl⟩ := Nat.exists_eq_add_of_le later
  obtain ⟨c, -, same⟩ := after_goingOn k
  change (retrying.after goingOn (16 + k)).intake.writers.get? 1 = none
  rw [same]
  exact answered_gone

theorem retried_fair : retried.Fair where
  turns t := by
    refine ⟨2 * (t + 8), by omega, ?_⟩
    have past : retries.length ≤ 2 * (t + 8) := by
      change 16 ≤ 2 * (t + 8)
      omega
    change decide (Broadcaster.turn? (goingOn (2 * (t + 8))) = some 1) = true
    rw [goingOn, List.getElem?_eq_none past, Option.getD_none, if_pos (Nat.mul_mod_right 2 _)]
    rfl
  clock t := by
    change (retrying.after goingOn t).desk.clock.now ≤
      (retrying.after goingOn (t + 1)).desk.clock.now
    by_cases early : t < 16
    · have each : ∀ t < 16, (retrying.after goingOn t).desk.clock.now ≤
          (retrying.after goingOn (t + 1)).desk.clock.now := by decide +kernel
      exact each t early
    · obtain ⟨k, rfl⟩ := Nat.exists_eq_add_of_le (Nat.le_of_not_lt early)
      obtain ⟨c, below, same⟩ := after_goingOn k
      rw [Broadcaster.after_succ, same, move_goingOn c (Nat.le_add_right 16 k)]
      change c.now ≤ Clock.now (ite _ _ _)
      split
      · exact Nat.le_refl _
      · simp only
        omega
  passes n := by
    refine ⟨16 + (2 * n + 1) + 1, ?_⟩
    obtain ⟨c, -, same⟩ := after_goingOn (2 * n + 1)
    change n ≤ (retrying.after goingOn (16 + (2 * n + 1) + 1)).desk.clock.now
    rw [Broadcaster.after_succ, same, move_goingOn c (Nat.le_add_right 16 _),
      if_neg (by omega)]
    change n ≤ 60000 + (16 + (2 * n + 1))
    omega
  answered t _ := by
    refine ⟨max t 16, Nat.le_max_left t 16, ?_⟩
    rintro ⟨f, rest, request, call, writer, -⟩
    cases (retried_gone (Nat.le_max_right t 16)).symm.trans writer
  relents lo hi := by
    refine ⟨16, fun t later on => ?_⟩
    obtain ⟨f, rest, request, writer, -⟩ := on
    cases (retried_gone later).symm.trans writer
  read t f rest l batch sending _ := by
    have early : t < 16 := by
      by_contra late
      cases (retried_gone (Nat.le_of_not_lt late)).symm.trans sending
    refine ⟨16, Nat.le_of_lt early, ?_⟩
    rintro ⟨c, here, full⟩
    have room : (retried.channelAt 16).all (fun c => c.buffer.length < c.capacity) = true := by
      decide +kernel
    rw [here, Option.all_some, decide_eq_true_iff] at room
    omega

/-- The two logs come in order, and the first range was asked for twice. -/
theorem retried_complete :
    retried.Ends ([late, log].filter (Filter.passes ⟨[1], [7]⟩)) ∧
    (retried.channelAt 16).map Channel.writable = some false ∧
    retried.put 16 = [log, late] ∧
    retried.tried 16 = [.asked (.logs ⟨[1], [7]⟩ 0 1), .failed, .asked (.logs ⟨[1], [7]⟩ 0 1),
      .asked (.logs ⟨[1], [7]⟩ 2 3), .asked (.logs ⟨[1], [7]⟩ 4 5)] := by
  have complete := Backfilling.complete retried (ScriptedChain.recounts [late, log] _) same_history
  exact ⟨complete.2.1 retried_fair, by decide +kernel, by decide +kernel, by decide +kernel⟩

end Example

end ChainHerald
