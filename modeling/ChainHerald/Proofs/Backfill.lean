import ChainHerald.Proofs.Lanes

/-!
# Where a backfill starts

A replay that the service takes up, or a saved head when it first looks around, gives the cycle that
begins a start of its own (`Broadcaster.Begins`). If the registrations then name an address, the
start is kept until the backfill is open, and every block from there on is asked for
(`Broadcaster.deep_start_kept`). A cycle without an address opens no backfill, and the start is gone
with it.
-/

namespace ChainHerald

open Source (Feed)

namespace Ranges

variable {r r' : Ranges} {lo hi batch k : Nat}

/-- Still to be asked for. -/
def Left (r : Ranges) (k : Nat) : Prop := r.exhausted = false ∧ r.start ≤ k ∧ k ≤ r.last

theorem left_between (above : lo ≤ k) (below : k ≤ hi) : (between lo hi batch).Left k :=
  ⟨decide_eq_false (Nat.not_lt.2 (Nat.le_trans above below)), above, below⟩

/-- The next range begins where the last one ended. -/
theorem Left.next (left : r.Left k) (next : r.next = some ((lo, hi), r')) :
    lo ≤ k ∧ k ≤ hi ∨ r'.Left k := by
  obtain ⟨going, above, below⟩ := left
  simp only [Ranges.next, going, Bool.false_eq_true, if_false] at next
  obtain ⟨range, rest⟩ := Prod.mk.inj (Option.some.inj next)
  obtain ⟨rfl, stop⟩ := Prod.mk.inj range
  rw [stop] at rest
  split at rest
  next last => exact .inl ⟨above, last ▸ below⟩
  next more =>
    subst rest
    by_cases asked : k ≤ hi
    · exact .inl ⟨above, asked⟩
    · exact .inr ⟨rfl, Nat.lt_of_not_le asked, below⟩

theorem Left.next_ne_none (left : r.Left k) : r.next ≠ none := by
  simp [Ranges.next, left.1]

end Ranges

variable {σ : Type} [Source σ]

/-- What a backfill has yet to ask for, apart from the request that is under way. -/
def Writer.rest? : Writer σ → Option Ranges
  | .live .. => none
  | .fetching _ rest _ | .sending _ rest _ => some rest

namespace Intake

variable {i i' : Intake σ} {lane : Nat} {f : Filter} {w : Writer σ} {rest : Ranges}
  {old : List Query} {lo hi k : Nat} {os : List Nat}

/-- The lane's writer has yet to ask for the block. -/
def Due (i : Intake σ) (lane : Nat) (f : Filter) (k : Nat) : Prop :=
  ∃ w rest, i.writers.get? lane = some w ∧ w.filter? = some f ∧ w.rest? = some rest ∧ rest.Left k

/-- Every one of the blocks was asked for since, or it is the lane's turn to do so. -/
def Covers (i : Intake σ) (lane : Nat) (f : Filter) (old : List Query) (lo hi : Nat) : Prop :=
  ∃ new, i.desk.asked = new ++ old ∧ ∀ k, lo ≤ k → k ≤ hi →
    i.Due lane f k ∨ ∃ first last, .logs f first last ∈ new ∧ first ≤ k ∧ k ≤ last

/-- Whoever has blocks left to ask for goes on doing so. -/
def Spares (i i' : Intake σ) : Prop :=
  ∀ n w rest, i.writers.get? n = some w → w.rest? = some rest → i'.writers.get? n = some w

theorem Spares.of_eq (same : i'.writers = i.writers) : i.Spares i' :=
  fun _ _ _ held _ => same ▸ held

theorem Spares.trans {i'' : Intake σ} (h : i.Spares i') (h' : i'.Spares i'') : i.Spares i'' :=
  fun n w rest held of_w => h' n w rest (h n w rest held of_w) of_w

theorem Spares.due (s : i.Spares i') (due : i.Due lane f k) : i'.Due lane f k := by
  obtain ⟨w, rest, held, of_w, ranges, left⟩ := due
  exact ⟨w, rest, s lane w rest held ranges, of_w, ranges, left⟩

theorem spares_cancelLane (i : Intake σ) (lane : Nat) : i.Spares (i.cancelLane lane) := by
  intro n w rest held ranges
  unfold cancelLane
  split
  next writer =>
    have other : n ≠ lane := by
      rintro rfl
      obtain rfl := Option.some.inj (writer.symm.trans held)
      cases ranges
    exact (Table.get?_insert_of_ne other).trans held
  · exact held

theorem Laned.spares_openLane (h : i.Laned os) (w : Writer σ) : i.Spares (i.openLane w).2 := by
  intro n u rest held _
  obtain ⟨c, there, -⟩ := h.channel n u held
  have other : n ≠ i.lanes.fresh := Nat.ne_of_lt (h.fresh n c there)
  exact (Table.get?_insert_of_ne other).trans held

theorem Due.of_writer (due : i.Due lane f k) (writer : i.writers.get? lane = some w) :
    w.filter? = some f ∧ ∃ rest, w.rest? = some rest ∧ rest.Left k := by
  obtain ⟨u, rest, held, of_w, ranges, left⟩ := due
  obtain rfl := Option.some.inj (writer.symm.trans held)
  exact ⟨of_w, rest, ranges, left⟩

theorem due_put (of_w : w.filter? = some f) (ranges : w.rest? = some rest) (left : rest.Left k) :
    (i.put lane w).Due lane f k :=
  ⟨w, rest, Table.get?_insert_self, of_w, ranges, left⟩

/-- A block that is due at a lane stays so until its writer asks for it. -/
theorem Fills.due_here (fills : i.Fills lane i') (h : i.Laned os)
    (free : i.desk.cancelled = false) :
    ∃ qs, i.desk.Asks qs i'.desk ∧ ∀ f k, i.Due lane f k →
      i'.Due lane f k ∨ ∃ first last, .logs f first last ∈ qs ∧ first ≤ k ∧ k ≤ last := by
  have live {feed held cancelled cycle} {f : Filter} {k : Nat}
      (writer : i.writers.get? lane = some (.live feed held cancelled cycle)) : ¬ i.Due lane f k := by
    intro due
    cases (due.of_writer writer).1
  cases fills with
  | quit writer | put writer | refused writer | read writer =>
    exact ⟨[], .refl _, fun f k due => absurd due (live writer)⟩
  | fail writer => exact ⟨[], .of_eq (report_desk ..), fun f k due => absurd due (live writer)⟩
  | ask writer step | fetch writer step =>
    obtain ⟨qs, asks, -⟩ := (Retry.step_repeats step).asks
    refine ⟨qs, asks, fun f k due => .inl ?_⟩
    obtain ⟨of_w, rest, ranges, left⟩ := due.of_writer writer
    exact due_put of_w ranges left
  | send writer =>
    refine ⟨[], .refl _, fun f k due => .inl ?_⟩
    obtain ⟨of_w, rest, ranges, left⟩ := due.of_writer writer
    exact due_put of_w ranges left
  | @range f rest lo hi rest' writer next =>
    refine ⟨_, Retry.asks_start _ i, fun f' k due => ?_⟩
    obtain ⟨of_w, rest, ranges, left⟩ := due.of_writer writer
    cases of_w
    cases ranges
    rcases left.next next with asked | left
    · exact .inr ⟨lo, hi, List.mem_singleton.2 rfl, asked⟩
    · exact .inl (due_put rfl rfl left)
  | exhaust writer last =>
    refine ⟨[], .refl _, fun f k due => ?_⟩
    obtain ⟨-, rest, ranges, left⟩ := due.of_writer writer
    cases ranges
    exact absurd last left.next_ne_none
  | cut writer _ halted => exact absurd (halted.resolve_left (by simp [free])) (h.not_unread writer)

theorem Fills.elsewhere {n : Nat} (fills : i.Fills lane i') (other : n ≠ lane) :
    i'.writers.get? n = i.writers.get? n := by
  have put (j : Intake σ) (w : Writer σ) : (j.put lane w).writers.get? n = j.writers.get? n :=
    Table.get?_insert_of_ne other
  have finish (j : Intake σ) : (j.finish lane).writers.get? n = j.writers.get? n :=
    Table.get?_erase_of_ne other
  cases fills with
  | quit | refused | exhaust | cut => exact finish _
  | fail =>
    rw [finish, release, report_writers]
  | put | read | send | range => exact put _ _
  | ask _ step | fetch _ step =>
    obtain ⟨⟨source, desk, rfl⟩, -, -⟩ := Retry.step_repeats step
    exact put _ _

theorem Fills.due (fills : i.Fills lane i') (h : i.Laned os) (free : i.desk.cancelled = false) :
    ∃ qs, i.desk.Asks qs i'.desk ∧ ∀ n f k, i.Due n f k →
      i'.Due n f k ∨ ∃ first last, .logs f first last ∈ qs ∧ first ≤ k ∧ k ≤ last := by
  obtain ⟨qs, asks, here⟩ := fills.due_here h free
  refine ⟨qs, asks, fun n f k due => ?_⟩
  by_cases at_lane : n = lane
  · subst at_lane
    exact here f k due
  · obtain ⟨w, rest, held, due⟩ := due
    exact .inl ⟨w, rest, (fills.elsewhere at_lane).trans held, due⟩

end Intake

namespace Broadcaster

variable {b b' : Broadcaster σ} {hs heard : List Input} {m : Move σ} {n : Nat}

/-! ## What is asked for -/

theorem spares_connect {i : Intake σ} (s : i.Spares b.intake) (lanes : List Nat)
    (live : Option Nat) : i.Spares (b.connect lanes live).intake := by
  unfold connect
  cases b.current with
  | none => exact s.trans (.of_eq rfl)
  | some lane => exact s.trans ((b.intake.spares_cancelLane lane).trans (.of_eq rfl))

theorem spares_beginCycle {i : Intake σ} (s : i.Spares b.intake) :
    i.Spares b.beginCycle.intake := by
  rcases b.beginCycle_cases with ⟨-, eq⟩ | ⟨-, eq⟩ <;> rw [eq]
  · refine spares_connect ?_ [] none
    exact s.trans (.of_eq rfl)
  · exact s.trans (.of_eq rfl)

theorem Acts.spares (h : b.Laned) (free : b.desk.cancelled = false) (a : b.Acts b' heard) :
    b.intake.Spares b'.intake := by
  cases a.engages free with
  | rests _ intake =>
    obtain ⟨lanes, desk, same⟩ := intake
    exact .of_eq (by rw [same])
  | begins _ intake =>
    obtain ⟨desk, same⟩ := intake
    exact spares_beginCycle (.of_eq (by rw [same]))
  | resubscribe _ step | resize _ step =>
    obtain ⟨⟨source, desk, rfl⟩, -, -⟩ := Retry.step_repeats step
    exact .of_eq rfl
  | @subscribed request feed i phase step =>
    obtain ⟨⟨source, desk, rfl⟩, -, -⟩ := Retry.step_repeats step
    exact h.spares_openLane (.live feed none false b.intake.cycle)
  | @connect request next latest i phase step =>
    obtain ⟨⟨source, desk, rfl⟩, -, -⟩ := Retry.step_repeats step
    exact spares_connect (h.spares_openLane _) _ _

theorem Goes.due (h : b.Laned) (free : b.desk.cancelled = false) (g : b.Goes b' heard) :
    ∃ qs, b'.desk.asked = qs ++ b.desk.asked ∧ ∀ n f k, b.intake.Due n f k →
      b'.intake.Due n f k ∨ ∃ first last, .logs f first last ∈ qs ∧ first ≤ k ∧ k ≤ last := by
  cases g with
  | act acts =>
    have spares := acts.spares h free
    obtain ⟨qs, asked⟩ : ∃ qs, b'.desk.asked = qs ++ b.desk.asked := by
      rcases acts.desk with ⟨qs, asks⟩ | ⟨p, p', -, moves⟩
      · exact ⟨qs, asks.asked⟩
      · exact ⟨[], moves.asked⟩
    exact ⟨qs, asked, fun n f k due => .inl (spares.due due)⟩
  | fill fills =>
    obtain ⟨qs, asks, due⟩ := fills.due h free
    exact ⟨qs, asks.asked, due⟩
  | beside beside =>
    obtain ⟨source, desk, same⟩ := beside.intake
    have spares : b.intake.Spares b'.intake := .of_eq (by rw [same])
    exact ⟨[], beside.asks.asked, fun n f k due => .inl (spares.due due)⟩

variable {lane lo hi latest : Nat} {f : Filter} {old : List Query}

theorem Goes.covers (h : b.Laned) (free : b.desk.cancelled = false) (g : b.Goes b' heard)
    (c : b.intake.Covers lane f old lo hi) : b'.intake.Covers lane f old lo hi := by
  obtain ⟨qs, asked, due⟩ := g.due h free
  obtain ⟨new, before, all⟩ := c
  refine ⟨qs ++ new, ?_, fun k above below => ?_⟩
  · exact asked.trans (by rw [List.append_assoc]; exact congrArg (qs ++ ·) before)
  · rcases all k above below with still | ⟨first, last, mem, within⟩
    · refine (due lane f k still).imp_right ?_
      rintro ⟨first, last, mem, within⟩
      exact ⟨first, last, List.mem_append_left _ mem, within⟩
    · exact .inr ⟨first, last, List.mem_append_right _ mem, within⟩

theorem Reached.covers (r : b.Reached hs) (ms : List (Move σ))
    (free : (b.run ms).desk.cancelled = false) (c : b.intake.Covers lane f old lo hi) :
    (b.run ms).intake.Covers lane f old lo hi := by
  refine r.preserves (P := (·.intake.Covers lane f old lo hi)) c ms free ?_
  intro c hs r before covers m
  exact (r.goes m).covers (r.laned before) before covers

/-! ## Starts of cycles -/

/-- The move begins a cycle that is to look for logs from the block on: the service takes up a
replay, or it turns to what the saved head leaves open. -/
def Begins (b : Broadcaster σ) (m : Move σ) (n : Nat) : Prop :=
  b.replay = some n ∧ (b.move m).replay = none ∨
  ∃ h, b.savedHead = some h ∧ (b.move m).savedHead = none ∧ b.settings.skipBackfill = false ∧
    n = backfillStart h.number (b.noted m).registry.depth b.settings.depth

/-- A cycle connects, and this is where its backfill is to start. -/
structure Connects (b : Broadcaster σ) (start : Option Nat) : Prop where
  deep : b.deepStart = start
  phase : (∃ request, b.phase = .subscribing request) ∨
    ∃ request next, b.phase = .sizing request next

/-- A cycle connects that is to look for logs from the block on. -/
structure Aims (b : Broadcaster σ) (n : Nat) : Prop where
  deep : b.deepStart = some n
  phase : (∃ request, b.phase = .subscribing request) ∨
    ∃ request next, b.phase = .sizing request next

/-- The node has answered which block is the latest, and the lane of a backfill opens that is to ask
for everything from the block on up to there, or for the latest one alone if it is lower. -/
structure OpensFrom (b b' : Broadcaster σ) (n lane latest : Nat) : Prop where
  answered : ∃ request next i, b.phase = .sizing request next ∧
    request.step b.intake = some (.done latest, i)
  writer : ∃ batch, b'.intake.writers.get? lane =
    some (.sending b'.filter (.between (min n latest) latest batch) [])

theorem beginCycle_frame (b : Broadcaster σ) :
    b.beginCycle.replay = b.replay ∧ b.beginCycle.savedHead = b.savedHead := by
  rcases b.beginCycle_cases with ⟨-, eq⟩ | ⟨-, eq⟩ <;> rw [eq] <;> exact ⟨rfl, rfl⟩

theorem follow_frame (b : Broadcaster σ) (tick : Nat) (r : Option Pass × Herald × Desk) :
    (b.follow tick r).replay = b.replay ∧ (b.follow tick r).savedHead = b.savedHead := by
  obtain ⟨_ | p, e, d⟩ := r <;> exact ⟨rfl, rfl⟩

theorem beginCycle_aims (named : b.herald.registry.addresses ≠ []) (deep : b.deepStart = some n) :
    b.beginCycle.Aims n := by
  rcases b.beginCycle_cases with ⟨none, -⟩ | ⟨-, eq⟩
  · exact absurd none named
  · rw [eq]
    exact ⟨deep, .inl ⟨_, rfl⟩⟩

/-- The service takes up a replay or the saved head, or neither. -/
theorem Goes.begins (free : b.desk.cancelled = false) (g : b.Goes b' heard) :
    (∀ block, b.replay = some block → b'.replay = some block) ∧ b'.savedHead = b.savedHead ∨
    (∃ block, b.replay = some block ∧ heard = [] ∧ b'.savedHead = b.savedHead ∧
      b' = { b with deepStart := some block, replay := none }.beginCycle) ∨
    heard = b.changes.queue.map .change ∧ b'.replay = b.replay ∧ b' = b.firstCycle := by
  have same (replay : b'.replay = b.replay) (savedHead : b'.savedHead = b.savedHead) :
      (∀ block, b.replay = some block → b'.replay = some block) ∧ b'.savedHead = b.savedHead :=
    ⟨fun _ => replay.trans, savedHead⟩
  cases g with
  | act acts =>
    cases acts with
    | stop cancelled | abandon _ cancelled => simp [free] at cancelled
    | first =>
      obtain ⟨d, -, eq⟩ := b.firstCycle_eq
      exact .inr (.inr ⟨rfl, by rw [eq]; exact (beginCycle_frame _).1, rfl⟩)
    | replay _ _ asked => exact .inr (.inl ⟨_, asked, rfl, (beginCycle_frame _).2, rfl⟩)
    | fail | stale => exact .inl (same (beginCycle_frame _).1 (beginCycle_frame _).2)
    | head | log => exact .inl (same (follow_frame _ _ _).1 (follow_frame _ _ _).2)
    | _ => exact .inl (same rfl rfl)
  | fill => exact .inl (same rfl rfl)
  | beside beside => exact .inl ⟨beside.replay, beside.savedHead⟩

theorem Reached.begins (r : b.Reached hs) (begins : b.Begins m n)
    (named : (b.noted m).registry.addresses ≠ []) (free : b.desk.cancelled = false) :
    (b.move m).Aims n := by
  have goes := r.goes m
  unfold Begins at begins
  unfold noted at begins named
  generalize b.move m = b' at goes begins ⊢
  generalize b.takes m = heard at goes begins named
  rcases goes.begins free with
    ⟨replay, savedHead⟩ | ⟨block, asked, rfl, savedHead, rfl⟩ | ⟨rfl, replay, rfl⟩
  · rcases begins with ⟨asked, taken⟩ | ⟨h, saved, taken, -⟩
    · cases (replay n asked).symm.trans taken
    · cases (savedHead.trans saved).symm.trans taken
  · rcases begins with ⟨asked', -⟩ | ⟨h, saved, taken, -⟩
    · obtain rfl := Option.some.inj (asked.symm.trans asked')
      exact beginCycle_aims named rfl
    · cases (savedHead.trans saved).symm.trans taken
  · rcases begins with ⟨asked, taken⟩ | ⟨h, saved, -, skip, rfl⟩
    · cases (replay.trans asked).symm.trans taken
    · rw [Herald.foldl_note_changes] at named ⊢
      obtain ⟨d, -, eq⟩ := b.firstCycle_eq
      rw [eq]
      refine beginCycle_aims named ?_
      simp only [firstStart, saved, skip]
      rfl

/-- The backfill opens where the cycle starts. Without a start of its own the cycle looks as far
back from the latest block as the settings say. -/
theorem opensFrom_connect {request : Retry σ Nat} {next latest : Nat} {i : Intake σ}
    (phase : b.phase = .sizing request next)
    (step : request.step b.intake = some (.done latest, i)) :
    b.OpensFrom (connect
      { b with intake := (i.openBackfill b.filter b.deepStart latest).2, deepStart := none }
      [i.lanes.fresh, next] (some next))
      (b.deepStart.getD (latest - b.intake.limits.depth)) i.lanes.fresh latest := by
  have limits : i.limits = b.intake.limits := by
    obtain ⟨⟨source, desk, rfl⟩, -, -⟩ := Retry.step_repeats step
    rfl
  have opened : (i.openBackfill b.filter b.deepStart latest).2.writers.get? i.lanes.fresh =
      some (.sending b.filter (.between
        (min (b.deepStart.getD (latest - b.intake.limits.depth)) latest) latest i.limits.batch)
        []) := by
    rw [← limits]
    exact Table.get?_insert_self
  refine ⟨⟨request, next, i, phase, step⟩, i.limits.batch, ?_⟩
  -- giving up the old subscription leaves a backfill alone
  refine spares_connect ?_ _ _ _ _ _ opened rfl
  exact .of_eq rfl

/-- Where a cycle starts is kept until its backfill is open. -/
theorem Goes.connects {start : Option Nat} (on : b.Connects start) (free : b.desk.cancelled = false)
    (g : b.Goes b' heard) : b'.Connects start ∨
      ∃ lane latest, b.OpensFrom b' (start.getD (latest - b.intake.limits.depth)) lane latest := by
  cases g with
  | act acts =>
    cases acts with
    | wait => exact .inl on
    | stop cancelled | abandon _ cancelled => simp [free] at cancelled
    | resubscribe => exact .inl ⟨on.deep, .inl ⟨_, rfl⟩⟩
    | subscribed | resize => exact .inl ⟨on.deep, .inr ⟨_, _, rfl⟩⟩
    | @connect request next latest i phase step =>
      exact .inr ⟨i.lanes.fresh, latest, on.deep ▸ opensFrom_connect phase step⟩
    | apply phase | first phase | look phase | fail phase | replay phase | noHead phase | head phase
    | log phase | stale phase | tick phase | close phase | serve phase =>
      rcases on.phase with ⟨_, on⟩ | ⟨_, _, on⟩ <;> simp [on] at phase
  | fill => exact .inl ⟨on.deep, on.phase⟩
  | beside beside =>
    rcases beside.phase with same | ⟨idle, -⟩
    · exact .inl ⟨beside.deepStart.trans on.deep, same ▸ on.phase⟩
    · rcases on.phase with ⟨_, on⟩ | ⟨_, _, on⟩ <;> simp [on] at idle

/-- A start is kept until the backfill is open. -/
theorem Goes.aims (aims : b.Aims n) (free : b.desk.cancelled = false) (g : b.Goes b' heard) :
    b'.Aims n ∨ ∃ lane latest, b.OpensFrom b' n lane latest := by
  have on : b.Connects (some n) := ⟨aims.deep, aims.phase⟩
  exact (g.connects on free).imp_left fun on' => ⟨on'.deep, on'.phase⟩

theorem OpensFrom.covers (o : b.OpensFrom b' n lane latest) :
    b'.intake.Covers lane b'.filter b'.desk.asked (min n latest) latest := by
  obtain ⟨batch, writer⟩ := o.writer
  refine ⟨[], rfl, fun k above below => .inl ?_⟩
  exact ⟨_, _, writer, rfl, rfl, Ranges.left_between above below⟩

/-- The start is kept, or the backfill opened at some point and covers the blocks ever since. -/
def Pursues (b : Broadcaster σ) (ms : List (Move σ)) (n : Nat) : Prop :=
  (b.run ms).Aims n ∨ ∃ earlier m later lane latest, ms = earlier ++ m :: later ∧
    (b.run earlier).OpensFrom ((b.run earlier).move m) n lane latest ∧
    (b.run ms).intake.Covers lane ((b.run earlier).move m).filter
      ((b.run earlier).move m).desk.asked (min n latest) latest

theorem Reached.pursues (r : b.Reached hs) (aims : b.Aims n) (ms : List (Move σ))
    (free : (b.run ms).desk.cancelled = false) : b.Pursues ms n := by
  have ends := r.until_end (P := (·.Aims n)) aims ms free
    fun r before aims m => (r.goes m).aims aims before
  refine ends.imp_right ?_
  rintro ⟨earlier, m, later, rfl, -, lane, latest, opens⟩
  rw [run_append] at free ⊢
  have covers := ((r.run earlier).move m).covers later free opens.covers
  exact ⟨earlier, m, later, lane, latest, rfl, opens, covers⟩

/-- A replay that is asked for waits until a cycle begins from it. -/
theorem Reached.replay_waits (r : b.Reached hs) (m : Move σ) (free : b.desk.cancelled = false)
    (asked : b.replay = some n) : (b.move m).replay = some n ∨ b.Begins m n := by
  rcases (r.goes m).begins free with ⟨replay, -⟩ | ⟨block, -, -, -, eq⟩ | ⟨-, replay, -⟩
  · exact .inl (replay n asked)
  · exact .inr (.inl ⟨asked, eq ▸ (beginCycle_frame _).1⟩)
  · exact .inl (replay.trans asked)

/-- A cycle that begins from a block of its own keeps to it while it connects, if the registrations
name an address. Once the lane of its backfill is open, every block from there on, or from the
latest one if that is lower, was asked for since or is still to be asked for. No replay that waits
is lost, and nothing but a waiting one keeps another away. -/
theorem deep_start_kept (r : b.Reached hs) :
    (∀ m n, b.Begins m n → (b.noted m).registry.addresses ≠ [] →
      ∀ ms, ((b.move m).run ms).desk.cancelled = false → (b.move m).Pursues ms n) ∧
    (∀ m n, b.desk.cancelled = false → b.replay = some n →
      (b.move m).replay = some n ∨ b.Begins m n) ∧
    ∀ block, b.phase ≠ .stopped → b.replay = none → (b.move (.replay block)).replay = some block := by
  refine ⟨fun m n begins named ms free => ?_, fun m n free => r.replay_waits m free, ?_⟩
  · have before := r.free ((r.move m).free_of_run free)
    exact (r.move m).pursues (r.begins begins named before) ms free
  · intro block going none
    simp only [move, requestReplay]
    split
    next stopped => exact absurd stopped going
    next other waiting _ => cases none.symm.trans waiting
    · rfl

end Broadcaster

namespace Example

/-! A replay that waits for the service. -/

def replaying : Broadcaster ScriptedChain := start.run (pooling ++ [.replay 2])

/-- Until the replayed blocks are fetched. -/
def fetching : List (Move ScriptedChain) :=
  [.task .service, .task .service, .task (.lane 3), .task (.lane 3)]

theorem replay_pursued :
    replaying.Begins (.task .service) 2 ∧ (replaying.move (.task .service)).Pursues fetching 2 ∧
      ((replaying.move (.task .service)).run fetching).desk.asked.head? =
        some (.logs ⟨[1], [7]⟩ 2 5) := by
  have begins : replaying.Begins (.task .service) 2 := .inl (by decide +kernel)
  have kept := Broadcaster.deep_start_kept (reached (pooling ++ [.replay 2]))
  refine ⟨begins, ?_, by decide +kernel⟩
  exact kept.1 (.task .service) 2 begins (by decide +kernel) fetching (by decide +kernel)

/-! A saved head, and nobody registered when the service first looks around. -/

def early : Broadcaster ScriptedChain :=
  Broadcaster.run
    (.new { Settings.standard with savedHead := some ⟨150, 15, 14⟩ } (.new 200) .empty) [.start]

/-- Somebody registers, and the debounce timer lets a cycle begin. -/
def joining : List (Move ScriptedChain) :=
  [.task .service, .register keeper options, .task .service, .clock ⟨1000, 1000⟩, .task .service,
    .task .service, .task .service, .task (.lane 1)]

/-- The first request for logs starts where one without a saved head would. -/
theorem early_start_lost :
    early.Begins (.task .service) 140 ∧ (early.run joining).desk.cancelled = false ∧
    (early.run joining).desk.asked =
      [.logs ⟨[1], [7]⟩ 190 200, .latest, .subscribe ⟨[1], [7]⟩] := by
  refine ⟨.inr ⟨⟨150, 15, 14⟩, ?_⟩, ?_, ?_⟩
  all_goals decide +kernel

end Example

end ChainHerald
