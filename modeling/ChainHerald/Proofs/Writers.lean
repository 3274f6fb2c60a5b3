import ChainHerald.Proofs.Gaps

/-!
# Whose lanes are whose

`Broadcaster.Steers` says once what a move of anybody but a writer does to the lanes and to their
writers: nothing, a log is read, a cycle begins, its stream gets a lane, or the cycle connects.
From it follows that a cycle has at most one stream, in a lane of its own that is cancelled only
when another cycle gives it up (`Broadcaster.Owned`).
-/

namespace ChainHerald

open Source (Feed)

variable {σ : Type} [Source σ]

theorem Lanes.next_fresh {α : Type} (s : Lanes α) : s.next.2.fresh = s.fresh := by
  unfold Lanes.next
  split
  rfl

/-- The cycle of a live stream. -/
def Writer.cycle? : Writer σ → Option Nat
  | .live _ _ _ cycle => some cycle
  | _ => none

namespace Intake

variable {i i' i'' : Intake σ} {n lane cycle : Nat}

/-- The lane is fed by a stream of the cycle. -/
def StreamOf (i : Intake σ) (n cycle : Nat) : Prop :=
  ∃ w, i.writers.get? n = some w ∧ w.cycle? = some cycle

/-- Whoever writes into the lane is a stream of the cycle that is on, and nobody has cancelled
it. -/
def Steady (i : Intake σ) (n : Nat) : Prop :=
  ∀ w, i.writers.get? n = some w → w.cycle? = some i.cycle ∧ w.idle = false

/-- The writer of the lane is as it was, or its feed is cancelled. -/
inductive Retains (i i' : Intake σ) (n : Nat) : Prop where
  | same (writer : i'.writers.get? n = i.writers.get? n)
  | cancels {feed held cancelled cycle}
      (before : i.writers.get? n = some (.live feed held cancelled cycle))
      (after : i'.writers.get? n = some (.live feed held true cycle))

theorem Retains.of_eq (same : i'.writers = i.writers) : i.Retains i' n := .same (by rw [same])

theorem Retains.trans (h : i.Retains i' n) (h' : i'.Retains i'' n) : i.Retains i'' n := by
  cases h with
  | same writer =>
    cases h' with
    | same writer' => exact .same (writer'.trans writer)
    | cancels before after => exact .cancels (writer.symm.trans before) after
  | cancels before after =>
    cases h' with
    | same writer' => exact .cancels before (writer'.trans after)
    | cancels before' after' =>
      cases after.symm.trans before'
      exact .cancels before after'

theorem Retains.gone (h : i.Retains i' n) (gone : i.writers.get? n = none) :
    i'.writers.get? n = none := by
  cases h with
  | same writer => exact writer.trans gone
  | cancels before => cases gone.symm.trans before

theorem Retains.streamOf (h : i.Retains i' n) (feeds : i'.StreamOf n cycle) :
    i.StreamOf n cycle := by
  obtain ⟨w, held, of_w⟩ := feeds
  cases h with
  | same writer => exact ⟨w, writer.symm.trans held, of_w⟩
  | cancels before after =>
    obtain rfl := Option.some.inj (after.symm.trans held)
    exact ⟨_, before, of_w⟩

theorem cancelLane_elsewhere (i : Intake σ) (other : n ≠ lane) :
    (i.cancelLane lane).writers.get? n = i.writers.get? n := by
  unfold cancelLane
  split
  · exact Table.get?_insert_of_ne other
  · rfl

theorem retains_cancelLane (i : Intake σ) (lane n : Nat) : i.Retains (i.cancelLane lane) n := by
  by_cases other : n = lane
  · subst other
    unfold cancelLane
    split
    next writer => exact .cancels writer Table.get?_insert_self
    · exact .same rfl
  · exact .same (i.cancelLane_elsewhere other)

theorem openLane_elsewhere (i : Intake σ) (w : Writer σ) (other : n ≠ i.lanes.fresh) :
    (i.openLane w).2.writers.get? n = i.writers.get? n :=
  Table.get?_insert_of_ne other

/-- A writer goes, or it goes on as what it was. -/
theorem Fills.here (f : i.Fills lane i') : i'.writers.get? lane = none ∨
    ∃ v w, i.writers.get? lane = some v ∧ i'.writers.get? lane = some w ∧
      w.cycle? = v.cycle? ∧ w.idle = false := by
  cases f with
  | quit | refused | fail | exhaust | cut => exact .inl Table.get?_erase_self
  | put writer | read writer | ask writer | fetch writer | send writer | range writer =>
    exact .inr ⟨_, _, writer, Table.get?_insert_self, rfl, rfl⟩

theorem Fills.streamOf (f : i.Fills lane i') (feeds : i'.StreamOf n cycle) :
    i.StreamOf n cycle := by
  obtain ⟨u, held, of_u⟩ := feeds
  by_cases here : n = lane
  · subst here
    rcases f.here with gone | ⟨v, w, before, after, same, -⟩
    · cases gone.symm.trans held
    · obtain rfl := Option.some.inj (after.symm.trans held)
      exact ⟨v, before, same.symm.trans of_u⟩
  · exact ⟨u, (f.elsewhere here).symm.trans held, of_u⟩

theorem Fills.steady (f : i.Fills lane i') (steady : i.Steady n) : i'.Steady n := by
  intro u held
  rw [f.fault.1]
  by_cases here : n = lane
  · subst here
    rcases f.here with gone | ⟨v, w, before, after, same, busy⟩
    · cases gone.symm.trans held
    · obtain rfl := Option.some.inj (after.symm.trans held)
      exact ⟨same.trans (steady v before).1, busy⟩
  · exact steady u ((f.elsewhere here).symm.trans held)

end Intake

namespace Broadcaster

variable {b b' : Broadcaster σ} {hs heard : List Input} {m : Move σ} {n : Nat}

/-- The lane of the cycle's own stream. -/
def stream (b : Broadcaster σ) : Option Nat :=
  match b.phase with
  | .sizing _ next => some next
  | .serving _ | .handing _ _ => b.current
  | _ => none

theorem retains_connect (b : Broadcaster σ) (lanes : List Nat) (live : Option Nat) (n : Nat) :
    b.intake.Retains (b.connect lanes live).intake n := by
  unfold connect
  cases b.current with
  | none => exact .of_eq rfl
  | some lane => exact (b.intake.retains_cancelLane lane n).trans (.of_eq rfl)

theorem connect_elsewhere (lanes : List Nat) (live : Option Nat) (other : b.current ≠ some n) :
    (b.connect lanes live).intake.writers.get? n = b.intake.writers.get? n := by
  unfold connect
  cases current : b.current with
  | none => rfl
  | some lane =>
    have other : n ≠ lane := by
      rintro rfl
      exact other current
    exact b.intake.cancelLane_elsewhere other

theorem connect_intake (b : Broadcaster σ) (lanes : List Nat) (live : Option Nat) :
    ∃ writers, (b.connect lanes live).intake = { b.intake with
      writers, lanes := { b.intake.lanes with queue := b.intake.lanes.queue ++ lanes } } := by
  unfold connect
  cases b.current with
  | none => exact ⟨b.intake.writers, by rw [← Lanes.foldl_enqueue]⟩
  | some lane =>
    obtain ⟨writers, same⟩ := b.intake.cancelLane_frame lane
    exact ⟨writers, by simp only [same, Lanes.foldl_enqueue]⟩

/-- What a move of anybody but a writer does to the lanes and to their writers. -/
inductive Steers (b b' : Broadcaster σ) (heard : List Input) : Prop where
  | holds {source desk} (stream : b'.stream = b.stream) (current : b'.current = b.current)
      (opening : b'.opening = b.opening) (intake : b'.intake = { b.intake with source, desk })
      (deaf : ∀ l, .log l ∉ heard)
  | reads {l lanes desk} (next : b.intake.lanes.next = (.item l, lanes))
      (stream : b'.stream = b.stream) (current : b'.current = b.current)
      (opening : b'.opening = b.opening)
      (intake : b'.intake = { b.intake with desk, lanes }) (hears : heard = [.log l])
  | begins {source desk writers} (stream : b'.stream = none)
      (current : b'.current = b.current ∨ b'.current = none) (closed : b.opening = [])
      (opening : b'.opening = [])
      (intake : b'.intake =
        { b.intake with source, desk, writers, cycle := b.intake.cycle + 1, fault := none })
      (retains : ∀ n, b.intake.Retains b'.intake n) (deaf : ∀ l, .log l ∉ heard)
  | opens {feed source desk} (before : b.stream = none)
      (stream : b'.stream = some b.intake.lanes.fresh) (current : b'.current = b.current)
      (closed : b.opening = [])
      (opening : b'.opening = [b.intake.lanes.fresh])
      (intake : b'.intake = { b.intake with
        source
        desk
        lanes := b.intake.lanes.add (.new b.intake.limits.buffer)
        writers := b.intake.writers.insert b.intake.lanes.fresh
          (.live feed none false b.intake.cycle) })
      (deaf : ∀ l, .log l ∉ heard)
  | connects {next f rest source desk writers} (before : b.stream = some next)
      (stream : b'.stream = some next) (current : b'.current = some next)
      (unlisted : b.opening = [next]) (opening : b'.opening = [])
      (intake : b'.intake = { b.intake with
        source
        desk
        writers
        lanes := { b.intake.lanes.add (.new b.intake.limits.buffer) with
          queue := b.intake.lanes.queue ++ [b.intake.lanes.fresh, next] } })
      (backfill : b'.intake.writers.get? b.intake.lanes.fresh = some (.sending f rest []))
      (retains : ∀ n, n ≠ b.intake.lanes.fresh → b.intake.Retains b'.intake n)
      (spared : ∀ n, n ≠ b.intake.lanes.fresh → b.current ≠ some n →
        b'.intake.writers.get? n = b.intake.writers.get? n)
      (deaf : ∀ l, .log l ∉ heard)

theorem beginCycle_steers {c : Broadcaster σ} (current : c.current = b.current)
    (closed : b.opening = []) (intake : ∃ desk, c.intake = { b.intake with desk })
    (deaf : ∀ l, .log l ∉ heard) : b.Steers c.beginCycle heard := by
  obtain ⟨desk, same⟩ := intake
  have next : c.intake.nextCycle =
      { b.intake with desk, cycle := b.intake.cycle + 1, fault := none } := by
    rw [same]
    rfl
  rcases c.beginCycle_cases with ⟨-, eq⟩ | ⟨-, eq⟩
  · let d : Broadcaster σ := { c with
      connected := false, intake := c.intake.nextCycle, filter := c.herald.filter,
      deepStart := none }
    have retains (n : Nat) : b.intake.Retains (d.connect [] none).intake n := by
      have kept : b.intake.Retains c.intake.nextCycle n := .of_eq (by rw [next])
      exact kept.trans (d.retains_connect [] none n)
    obtain ⟨writers, connected⟩ := d.connect_intake [] none
    rw [eq]
    have intake : (d.connect [] none).intake = { b.intake with
        desk, writers, cycle := b.intake.cycle + 1, fault := none } := by
      rw [connected, List.append_nil, show d.intake = _ from next]
    exact .begins rfl (.inr rfl) closed rfl intake retains deaf
  · rw [eq, next]
    exact .begins rfl (.inl current) closed rfl rfl (fun _ => .of_eq rfl) deaf

/-- Connecting opens the lane of the backfill and queues it before that of the stream. -/
theorem connect_steers {request : Retry σ Nat} {next latest : Nat} {source : σ} {desk : Desk}
    (phase : b.phase = .sizing request next) :
    let i : Intake σ := { b.intake with source, desk }
    let c : Broadcaster σ :=
      { b with intake := (i.openBackfill b.filter b.deepStart latest).2, deepStart := none }
    b.Steers (c.connect [b.intake.lanes.fresh, next] (some next)) [] := by
  intro i c
  have before : b.stream = some next ∧ b.opening = [next] := by simp [stream, opening, phase]
  obtain ⟨writers, intake⟩ := c.connect_intake [b.intake.lanes.fresh, next] (some next)
  have opened : c.intake.writers.get? b.intake.lanes.fresh =
      some (.sending b.filter (i.backfillRanges b.deepStart latest) []) :=
    Table.get?_insert_self
  have others {n : Nat} (other : n ≠ b.intake.lanes.fresh) :
      c.intake.writers.get? n = b.intake.writers.get? n := i.openLane_elsewhere _ other
  refine .connects before.1 rfl rfl before.2 rfl intake
    (spares_connect (.of_eq rfl) _ _ _ _ _ opened rfl) (fun n other => ?_)
    (fun n other former => ?_) (by simp)
  · exact (Intake.Retains.same (others other)).trans (c.retains_connect _ _ n)
  · exact (connect_elsewhere (b := c) _ _ former).trans (others other)

theorem Acts.steers (free : b.desk.cancelled = false) (a : b.Acts b' heard) :
    b.Steers b' heard := by
  have gathering {ready : Wait} (phase : b.phase = .gathering ready) : b.opening = [] := by
    simp [opening, phase]
  have serving {tick : Nat} (phase : b.phase = .serving tick) :
      b.opening = [] ∧ b.stream = b.current := by simp [opening, stream, phase]
  have handing {p : Pass} {tick : Nat} (phase : b.phase = .handing p tick) :
      b.opening = [] ∧ b.stream = b.current := by simp [opening, stream, phase]
  cases a with
  | wait | apply => exact .holds rfl rfl rfl rfl (by simp)
  | stop cancelled | abandon _ cancelled => simp [free] at cancelled
  | look phase =>
    have nothing : b.stream = none := by simp [stream, phase]
    exact .holds nothing.symm rfl (gathering phase).symm rfl (by simp)
  | first phase =>
    obtain ⟨d, -, eq⟩ := b.firstCycle_eq
    rw [eq]
    exact beginCycle_steers rfl (gathering phase) ⟨d, rfl⟩ (by simp)
  | resubscribe phase step =>
    obtain ⟨⟨source, desk, rfl⟩, -, -⟩ := Retry.step_repeats step
    have before : b.stream = none ∧ b.opening = [] := by simp [stream, opening, phase]
    exact .holds before.1.symm rfl before.2.symm rfl (by simp)
  | subscribed phase step =>
    obtain ⟨⟨source, desk, rfl⟩, -, -⟩ := Retry.step_repeats step
    have before : b.stream = none ∧ b.opening = [] := by simp [stream, opening, phase]
    exact .opens before.1 rfl rfl before.2 rfl rfl (by simp)
  | @resize request request' next i phase step =>
    obtain ⟨⟨source, desk, rfl⟩, -, -⟩ := Retry.step_repeats step
    have before : b.stream = some next ∧ b.opening = [next] := by simp [stream, opening, phase]
    exact .holds before.1.symm rfl before.2.symm rfl (by simp)
  | connect phase step =>
    obtain ⟨⟨source, desk, rfl⟩, -, -⟩ := Retry.step_repeats step
    exact connect_steers phase
  | fail phase | replay phase | stale phase =>
    exact beginCycle_steers rfl (serving phase).1 ⟨_, rfl⟩ (by simp)
  | noHead phase => exact .holds rfl rfl rfl rfl (by simp)
  | tick phase =>
    obtain ⟨closed, on⟩ := serving phase
    exact .holds on.symm rfl closed.symm rfl (by simp)
  | @head tick h phase heads =>
    obtain ⟨closed, on⟩ := serving phase
    obtain ⟨_ | p, e, d⟩ := b.herald.onHead b.desk h <;>
      exact .holds on.symm rfl closed.symm rfl (by simp)
  | @log tick l lanes phase next =>
    obtain ⟨closed, on⟩ := serving phase
    obtain ⟨_ | p, e, d⟩ := b.herald.onLog b.desk l <;>
      exact .reads next on.symm rfl closed.symm rfl rfl
  | close phase | serve phase =>
    obtain ⟨closed, on⟩ := handing phase
    exact .holds on.symm rfl closed.symm rfl (by simp)

theorem Beside.steers (beside : b.Beside b') : b.Steers b' [] := by
  have same : b'.stream = b.stream ∧ b'.opening = b.opening := by
    unfold stream opening
    rcases beside.phase with phase | ⟨unstarted, stopped | ⟨ready, gathering⟩⟩
    · rw [phase, beside.current]
      exact ⟨rfl, rfl⟩
    · rw [unstarted, stopped]
      exact ⟨rfl, rfl⟩
    · rw [unstarted, gathering]
      exact ⟨rfl, rfl⟩
  obtain ⟨source, desk, intake⟩ := beside.intake
  exact .holds same.1 beside.current same.2 intake (fun _ => List.not_mem_nil)

theorem Steers.fresh_le (s : b.Steers b' heard) :
    b.intake.lanes.fresh ≤ b'.intake.lanes.fresh := by
  cases s with
  | holds _ _ _ intake =>
    exact Nat.le_of_eq (by rw [intake])
  | reads next _ _ _ intake =>
    have fresh := b.intake.lanes.next_fresh
    rw [next] at fresh
    rw [intake]
    exact Nat.le_of_eq fresh.symm
  | begins _ _ _ _ intake =>
    exact Nat.le_of_eq (by rw [intake])
  | opens _ _ _ _ _ intake =>
    rw [intake]
    exact Nat.le_succ _
  | connects _ _ _ _ _ intake =>
    rw [intake]
    exact Nat.le_succ _

/-- The cycle goes on, with the stream it has if it has one, or another one begins without. -/
theorem Steers.cycle (s : b.Steers b' heard) :
    b'.intake.cycle = b.intake.cycle ∧ (b.stream = none ∨ b'.stream = b.stream) ∨
      b'.intake.cycle = b.intake.cycle + 1 ∧ b'.stream = none := by
  cases s with
  | holds stream _ _ intake =>
    exact .inl ⟨by rw [intake], .inr stream⟩
  | reads _ stream _ _ intake =>
    exact .inl ⟨by rw [intake], .inr stream⟩
  | begins stream _ _ _ intake =>
    exact .inr ⟨by rw [intake], stream⟩
  | opens before _ _ _ _ intake =>
    exact .inl ⟨by rw [intake], .inl before⟩
  | connects before stream _ _ _ intake =>
    exact .inl ⟨by rw [intake], .inr (stream.trans before.symm)⟩

/-- A stream was there before, or it is the first one of its cycle. -/
theorem Steers.streamOf {cycle : Nat} (s : b.Steers b' heard) (feeds : b'.intake.StreamOf n cycle) :
    b.intake.StreamOf n cycle ∨
      n = b.intake.lanes.fresh ∧ cycle = b.intake.cycle ∧ b.stream = none ∧ b'.stream = some n := by
  cases s with
  | holds _ _ _ intake =>
    rw [intake] at feeds
    exact .inl feeds
  | reads _ _ _ _ intake =>
    rw [intake] at feeds
    exact .inl feeds
  | begins _ _ _ _ _ retains => exact .inl ((retains n).streamOf feeds)
  | opens before stream _ _ _ intake =>
    obtain ⟨w, held, of_w⟩ := feeds
    rw [intake] at held
    by_cases new : n = b.intake.lanes.fresh
    · obtain rfl := Option.some.inj (Table.get?_insert_self.symm.trans (new ▸ held))
      exact .inr ⟨new, (Option.some.inj of_w).symm, before, new ▸ stream⟩
    · exact .inl ⟨w, (Table.get?_insert_of_ne new).symm.trans held, of_w⟩
  | connects _ _ _ _ _ _ backfill retains =>
    by_cases new : n = b.intake.lanes.fresh
    · obtain ⟨w, held, of_w⟩ := feeds
      rw [new, backfill] at held
      obtain rfl := Option.some.inj held
      cases of_w
    · exact .inl ((retains n new).streamOf feeds)

/-- A cycle has one stream at most, in a lane of its own that nobody cancels before the cycle gives
it up. -/
structure Owned (b : Broadcaster σ) : Prop where
  opened : ∀ n, b.stream = some n → n < b.intake.lanes.fresh
  former : ∀ n, b.current = some n → n < b.intake.lanes.fresh
  apart : ∀ n ∈ b.opening, b.current ≠ some n
  past : ∀ n cycle, b.intake.StreamOf n cycle → cycle ≤ b.intake.cycle
  own : ∀ n, b.intake.StreamOf n b.intake.cycle → b.stream = some n
  sole : ∀ n n' cycle, b.intake.StreamOf n cycle → b.intake.StreamOf n' cycle → n = n'
  steady : ∀ n, b.stream = some n → b.intake.Steady n

theorem Owned.unfed (o : b.Owned) (none : b.stream = none) :
    ¬ b.intake.StreamOf n b.intake.cycle := by
  intro feeds
  cases none.symm.trans (o.own n feeds)

/-- Only the lanes of the cycle that connects, or of the one that goes on, are anybody's. -/
theorem Steers.lanes (s : b.Steers b' heard) (o : b.Owned) :
    (∀ n, b'.stream = some n → n < b'.intake.lanes.fresh) ∧
    (∀ n, b'.current = some n → n < b'.intake.lanes.fresh) ∧
    ∀ n ∈ b'.opening, b'.current ≠ some n := by
  have fresh := s.fresh_le
  cases s with
  | holds stream current opening | reads _ stream current opening =>
    rw [stream, current, opening]
    exact ⟨fun n on => Nat.lt_of_lt_of_le (o.opened n on) fresh,
      fun n on => Nat.lt_of_lt_of_le (o.former n on) fresh, o.apart⟩
  | begins stream current _ opening =>
    rw [stream, opening]
    refine ⟨nofun, fun n on => ?_, List.forall_mem_nil _⟩
    rcases current with current | current <;> rw [current] at on
    · exact Nat.lt_of_lt_of_le (o.former n on) fresh
    · cases on
  | opens _ stream current _ opening intake =>
    have above : b.intake.lanes.fresh < b'.intake.lanes.fresh := by
      rw [intake]
      exact Nat.lt_succ_self _
    rw [stream, current, opening]
    refine ⟨?_, fun n on => Nat.lt_trans (o.former n on) above, fun n mem on => ?_⟩
    · rintro n ⟨⟩
      exact above
    · obtain rfl := List.mem_singleton.1 mem
      exact Nat.lt_irrefl _ (o.former _ on)
  | connects before stream current _ opening =>
    have opened := Nat.lt_of_lt_of_le (o.opened _ before) fresh
    rw [stream, current, opening]
    refine ⟨?_, ?_, List.forall_mem_nil _⟩ <;> rintro n ⟨⟩ <;> exact opened

/-- Connecting cancels the lane that the cycle before had, and not the one of its own. -/
theorem Steers.steady (s : b.Steers b' heard) (o : b.Owned) (on : b'.stream = some n) :
    b'.intake.Steady n := by
  cases s with
  | holds stream _ _ intake =>
    rw [intake]
    exact o.steady n (stream.symm.trans on)
  | reads _ stream _ _ intake =>
    rw [intake]
    exact o.steady n (stream.symm.trans on)
  | begins stream => cases stream.symm.trans on
  | opens _ stream _ _ _ intake =>
    obtain rfl := Option.some.inj (stream.symm.trans on)
    intro w held
    rw [intake] at held ⊢
    obtain rfl := Option.some.inj (Table.get?_insert_self.symm.trans held)
    exact ⟨rfl, rfl⟩
  | connects before stream _ unlisted _ intake _ _ spared =>
    obtain rfl := Option.some.inj (stream.symm.trans on)
    intro w held
    have cycle : b'.intake.cycle = b.intake.cycle := by rw [intake]
    have apart := o.apart _ (unlisted ▸ List.mem_cons_self)
    rw [spared _ (Nat.ne_of_lt (o.opened _ before)) apart] at held
    exact cycle ▸ o.steady _ before w held

theorem Steers.owned (s : b.Steers b' heard) (o : b.Owned) : b'.Owned := by
  obtain ⟨opened, former, apart⟩ := s.lanes o
  refine ⟨opened, former, apart, fun n c feeds => ?_, fun n feeds => ?_,
    fun n n' c feeds feeds' => ?_, fun n => s.steady o⟩
  · have now : c ≤ b.intake.cycle := by
      rcases s.streamOf feeds with old | ⟨-, rfl, -⟩
      · exact o.past n c old
      · exact Nat.le_refl _
    rcases s.cycle with ⟨same, -⟩ | ⟨next, -⟩ <;> omega
  · rcases s.cycle with ⟨same, stream⟩ | ⟨next, -⟩
    · rw [same] at feeds
      rcases s.streamOf feeds with old | ⟨-, -, -, on⟩
      · rcases stream with none | stream
        · exact absurd old (o.unfed none)
        · exact stream.trans (o.own n old)
      · exact on
    · rw [next] at feeds
      rcases s.streamOf feeds with old | ⟨-, now, -⟩
      · exact absurd (o.past n _ old) (Nat.not_succ_le_self _)
      · exact absurd now (Nat.succ_ne_self _)
  · rcases s.streamOf feeds with old | ⟨rfl, rfl, none, -⟩ <;>
      rcases s.streamOf feeds' with old' | ⟨rfl, now, none', -⟩
    · exact o.sole n n' c old old'
    · exact absurd (now ▸ old) (o.unfed none')
    · exact absurd old' (o.unfed none)
    · rfl

theorem Owned.fills {lane : Nat} {i : Intake σ} (o : b.Owned) (fills : b.intake.Fills lane i) :
    Owned { b with intake := i } where
  opened n on := fills.fresh ▸ o.opened n on
  former n on := fills.fresh ▸ o.former n on
  apart := o.apart
  past n c on := fills.fault.1 ▸ o.past n c (fills.streamOf on)
  own n on := o.own n (fills.fault.1 ▸ fills.streamOf on)
  sole n n' c on on' := o.sole n n' c (fills.streamOf on) (fills.streamOf on')
  steady n on := fills.steady (o.steady n on)

theorem Goes.owned (free : b.desk.cancelled = false) (g : b.Goes b' heard) (o : b.Owned) :
    b'.Owned := by
  cases g with
  | act acts => exact (acts.steers free).owned o
  | fill fills => exact o.fills fills
  | beside beside => exact beside.steers.owned o

theorem Reached.owned (r : b.Reached hs) (free : b.desk.cancelled = false) : b.Owned := by
  have unfed (settings : Settings) (source : σ) (ledger : Ledger) {n cycle : Nat} :
      ¬ (new settings source ledger).intake.StreamOf n cycle := by
    rintro ⟨w, held, -⟩
    cases held
  induction r with
  | start settings source ledger =>
    exact ⟨nofun, nofun, nofun, fun _ _ on => absurd on (unfed settings source ledger),
      fun _ on => absurd on (unfed settings source ledger),
      fun _ _ _ on => absurd on (unfed settings source ledger), nofun⟩
  | move r m ih =>
    have before := r.free free
    exact (r.goes m).owned before (ih before)

theorem move_of_waits {lane : Nat} (waits : b.intake.step lane = none) :
    b.move (.task (.lane lane)) = b := by
  simp [Broadcaster.move, step, stepLane, waits]

/-- A writer moves, or all of them keep still. -/
theorem Reached.turns (r : b.Reached hs) (free : b.desk.cancelled = false) (m : Move σ) :
    (∃ lane i, m = .task (.lane lane) ∧ b.intake.Fills lane i ∧
      b.move m = { b with intake := i }) ∨
    (∀ lane, m = .task (.lane lane) → b.intake.step lane = none) ∧
      b.Steers (b.move m) (b.takes m) := by
  by_cases moves : ∃ lane, m = .task (.lane lane)
  · obtain ⟨lane, rfl⟩ := moves
    cases filled : b.intake.step lane with
    | some i =>
      refine .inl ⟨lane, i, rfl, Intake.step_fills filled, ?_⟩
      simp [Broadcaster.move, step, stepLane, filled]
    | none =>
      refine .inr ⟨?_, ?_⟩
      · rintro _ ⟨⟩
        exact filled
      · rw [move_of_waits filled]
        exact (Beside.refl b).steers
  · have other (lane : Nat) : m ≠ .task (.lane lane) := fun eq => moves ⟨lane, eq⟩
    refine .inr ⟨fun lane eq => absurd eq (other lane), ?_⟩
    by_cases service : m = .task .service
    · subst service
      exact b.service_acts.steers free
    · rw [takes_outside service]
      exact (others_beside r.dormant service other).steers

end Broadcaster

end ChainHerald
