import ChainHerald.Proofs.Delivery
import ChainHerald.Proofs.Demand
import ChainHerald.Proofs.Service

/-!
# The subscription that is on

The filter of a cycle is what the registrations name when it begins. `Broadcaster.Tuned` is the
invariant that in the event loop the subscription and the backfill that are on were opened with it,
and that it is still what the registrations name unless they are known to have moved on.
-/

namespace ChainHerald

open Source (Feed)

/-- With an address comes a signature. -/
def Filter.Full (f : Filter) : Prop := f.addresses ≠ [] → f.signatures ≠ []

def Query.Full : Query → Prop
  | .subscribe f | .logs f _ _ => f.Full
  | .latest => True

def Query.subscribed? : Query → Option Filter
  | .subscribe f => some f
  | _ => none

/-- The filters of the subscriptions asked for, the latest first. -/
def Desk.subscriptions (d : Desk) : List Filter := d.asked.filterMap Query.subscribed?

theorem Desk.Asks.subscriptions {d d' : Desk} {qs : List Query} (a : d.Asks qs d') :
    d'.subscriptions = qs.filterMap Query.subscribed? ++ d.subscriptions := by
  rw [Desk.subscriptions, a.asked, List.filterMap_append]
  rfl

/-- Nothing but the same subscription may be asked for if it is to be the last one. -/
theorem Desk.Asks.last_subscription {d d' : Desk} {qs : List Query} {f : Filter}
    (a : d.Asks qs d') (only : ∀ q ∈ qs, ∀ f', q.subscribed? = some f' → f' = f)
    (before : d.subscriptions.head? = some f) : d'.subscriptions.head? = some f := by
  rw [a.subscriptions]
  cases asked : qs.filterMap Query.subscribed? with
  | nil => exact before
  | cons f' fs =>
    obtain ⟨q, hq, same⟩ := List.mem_filterMap.1 (asked ▸ List.mem_cons_self : f' ∈ _)
    exact congrArg some (only q hq f' same)

/-! ## Registration changes -/

def Change.Filtered : Change → Prop
  | .add g => g.options.filters.isEmpty = false
  | .remove _ => True

namespace Herald

variable {e : Herald} {c : Change}

theorem tidy_apply (tidy : e.registry.Tidy) (filtered : c.Filtered) :
    (e.apply c).registry.Tidy := by
  cases c with
  | add g => exact tidy.add g filtered
  | remove id => exact tidy.remove id

/-- A change that leaves the herald fresh leaves the filter. -/
theorem filter_apply (tidy : e.registry.Tidy) (filtered : c.Filtered)
    (fresh : (e.apply c).stale = false) : e.stale = false ∧ (e.apply c).filter = e.filter := by
  have same {r : Registry} (h : r.addresses = e.registry.addresses ∧
      r.signatures = e.registry.signatures) : (⟨r.addresses, r.signatures⟩ : Filter) = e.filter := by
    rw [h.1, h.2]
    rfl
  cases c with
  | add g =>
    obtain ⟨before, kept⟩ := Bool.or_eq_false_iff.1 fresh
    exact ⟨before, same (tidy.filter_add filtered kept)⟩
  | remove id =>
    obtain ⟨before, kept⟩ := Bool.or_eq_false_iff.1 fresh
    exact ⟨before, same (tidy.filter_remove kept)⟩

theorem foldl_apply {cs : List Change} (tidy : e.registry.Tidy) (filtered : ∀ c ∈ cs, c.Filtered) :
    (cs.foldl apply e).registry.Tidy ∧ ((cs.foldl apply e).stale = false →
      e.stale = false ∧ (cs.foldl apply e).filter = e.filter) := by
  induction cs generalizing e with
  | nil => exact ⟨tidy, fun fresh => ⟨fresh, rfl⟩⟩
  | cons c cs ih =>
    obtain ⟨first, others⟩ := List.forall_mem_cons.1 filtered
    obtain ⟨tidy', later⟩ := ih (tidy_apply tidy first) others
    refine ⟨tidy', fun fresh => ?_⟩
    obtain ⟨fresh', same'⟩ := later fresh
    obtain ⟨before, same⟩ := filter_apply tidy first fresh'
    exact ⟨before, same'.trans same⟩

theorem full_filter (tidy : e.registry.Tidy) : e.filter.Full := tidy.signatures_ne_nil

theorem dispatch_pool (e : Herald) (d : Desk) (h : Head) :
    ∃ pool, (e.dispatch d h).2.1 = { e with pool } := by
  unfold dispatch drain retain
  dsimp only
  repeat' split
  all_goals exact ⟨_, rfl⟩

theorem onLog_pool (e : Herald) (d : Desk) (l : Log) :
    ∃ pool, (e.onLog d l).2.1 = { e with pool } := by
  have dispatched (p : Pool) (d : Desk) (h : Head) :
      ∃ pool, ({ e with pool := p }.dispatch d h).2.1 = { e with pool } :=
    dispatch_pool { e with pool := p } d h
  unfold onLog
  dsimp only
  repeat' split
  all_goals first | exact ⟨_, rfl⟩ | exact dispatched ..

theorem close_pool (e : Herald) (p : Pass) : ∃ pool, e.close p = { e with pool } := by
  unfold close
  split <;> exact ⟨_, rfl⟩

end Herald

/-! ## Writers -/

variable {σ : Type} [Source σ]

/-- A backfill's request is one for logs. -/
def Writer.Sound : Writer σ → Prop
  | .fetching f _ request => ∃ lo hi, request.request = .logs f lo hi
  | _ => True

namespace Intake

/-- Nobody asks for addresses without signatures. -/
structure Sound (i : Intake σ) : Prop where
  writers : ∀ lane w, i.writers.get? lane = some w → w.Sound
  filters : ∀ lane w f, i.writers.get? lane = some w → w.filter? = some f → f.Full
  asked : ∀ q ∈ i.desk.asked, q.Full

variable {i i' j : Intake σ} {lane n : Nat} {f : Filter} {v w w' : Writer σ}

/-- The writer of a lane becomes another one. -/
structure Turns (v w : Writer σ) : Prop where
  filter : w.filter? = v.filter?
  sound : v.Sound → w.Sound

theorem Turns.put (held : (j.put lane w).writers.get? n = some w') (same : j.writers = i.writers)
    (before : i.writers.get? lane = some v) (turns : Turns v w) :
    ∃ u, i.writers.get? n = some u ∧ Turns u w' := by
  rw [← same] at before ⊢
  rcases get?_put held with ⟨rfl, rfl⟩ | ⟨-, older⟩
  · exact ⟨v, before, turns⟩
  · exact ⟨w', older, rfl, id⟩

/-- A lane keeps its filter for as long as it is written. -/
theorem Fills.writer (f : i.Fills lane i') (held : i'.writers.get? n = some w') :
    ∃ u, i.writers.get? n = some u ∧ Turns u w' := by
  cases f with
  | quit | refused | exhaust | cut => exact ⟨w', (get?_finish held).2, rfl, id⟩
  | fail =>
    have older := (get?_finish held).2
    rw [release, report_writers] at older
    exact ⟨w', older, rfl, id⟩
  | put writer | read writer => exact Turns.put held rfl writer ⟨rfl, fun _ => trivial⟩
  | @ask f rest request request' i₁ writer step =>
    obtain ⟨⟨source, desk, rfl⟩, -, same⟩ := Retry.step_repeats step
    refine Turns.put held rfl writer ⟨rfl, ?_⟩
    rintro ⟨lo, hi, logs⟩
    exact ⟨lo, hi, (same _ rfl).trans logs⟩
  | fetch writer step =>
    obtain ⟨⟨source, desk, rfl⟩, -, -⟩ := Retry.step_repeats step
    exact Turns.put held rfl writer ⟨rfl, fun _ => trivial⟩
  | send writer => exact Turns.put held rfl writer ⟨rfl, fun _ => trivial⟩
  | @range f rest lo hi rest' writer =>
    exact Turns.put held rfl writer ⟨rfl, fun _ => ⟨lo, hi, rfl⟩⟩

/-- A writer asks for logs that its filter passes, and for nothing else. -/
theorem Fills.queries (f : i.Fills lane i') (sound : i.Sound) : ∃ qs, i.desk.Asks qs i'.desk ∧
    ∀ q ∈ qs, ∃ w f lo hi, i.writers.get? lane = some w ∧ w.filter? = some f ∧ q = .logs f lo hi := by
  have repeated {f rest request} (writer : i.writers.get? lane = some (.fetching f rest request))
      {qs : List Query} (all : ∀ q ∈ qs, q = request.request.query) : ∀ q ∈ qs, ∃ w f lo hi,
      i.writers.get? lane = some w ∧ w.filter? = some f ∧ q = .logs f lo hi := by
    obtain ⟨lo, hi, logs⟩ := sound.writers lane _ writer
    intro q hq
    exact ⟨_, f, lo, hi, writer, rfl, by rw [all q hq, logs]; rfl⟩
  cases f with
  | quit | put | refused | read | send | exhaust | cut => exact ⟨[], .refl _, nofun⟩
  | fail => exact ⟨[], .of_eq (report_desk ..), nofun⟩
  | ask writer step | fetch writer step =>
    obtain ⟨qs, asks, all⟩ := (Retry.step_repeats step).asks
    exact ⟨qs, asks, repeated writer all⟩
  | @range f rest lo hi rest' writer =>
    refine ⟨_, Retry.asks_start _ i, ?_⟩
    intro q hq
    exact ⟨_, f, lo, hi, writer, rfl, List.mem_singleton.1 hq⟩

/-- Lanes are written on, or they are new and their filter is full. -/
theorem Sound.of_writers {qs : List Query} (s : i.Sound)
    (writers : ∀ n w, i'.writers.get? n = some w → (∃ u, i.writers.get? n = some u ∧ Turns u w) ∨
      w.Sound ∧ ∀ f, w.filter? = some f → f.Full)
    (asks : i.desk.Asks qs i'.desk) (full : ∀ q ∈ qs, q.Full) : i'.Sound where
  writers n w held := by
    rcases writers n w held with ⟨u, before, turns⟩ | ⟨sound, -⟩
    · exact turns.sound (s.writers n u before)
    · exact sound
  filters n w f held of_w := by
    rcases writers n w held with ⟨u, before, turns⟩ | ⟨-, full⟩
    · exact s.filters n u f before (turns.filter ▸ of_w)
    · exact full f of_w
  asked q hq := by
    rw [asks.asked] at hq
    rcases List.mem_append.1 hq with hq | hq
    · exact full q hq
    · exact s.asked q hq

theorem Sound.fills (s : i.Sound) (f : i.Fills lane i') : i'.Sound := by
  obtain ⟨qs, asks, all⟩ := f.queries s
  refine s.of_writers (fun n w held => .inl (f.writer held)) asks ?_
  intro q hq
  obtain ⟨w, f, lo, hi, writer, of_w, rfl⟩ := all q hq
  exact s.filters lane w f writer of_w

theorem Sound.congr {qs : List Query} (s : i.Sound) (same : i'.writers = i.writers)
    (asks : i.desk.Asks qs i'.desk) (full : ∀ q ∈ qs, q.Full) : i'.Sound :=
  s.of_writers (fun _ w held => .inl ⟨w, same ▸ held, rfl, id⟩) asks full

theorem get?_cancelLane (held : (i.cancelLane lane).writers.get? n = some w) :
    ∃ u, i.writers.get? n = some u ∧ Turns u w := by
  unfold cancelLane at held
  split at held
  next writer => exact Turns.put held rfl writer ⟨rfl, id⟩
  · exact ⟨w, held, rfl, id⟩

theorem Sound.cancelLane (s : i.Sound) (lane : Nat) : (i.cancelLane lane).Sound :=
  s.of_writers (fun _ _ held => .inl (get?_cancelLane held)) (.of_eq (i.cancelLane_desk lane)) nofun

theorem Sound.openLane (s : i.Sound) (sound : v.Sound) (full : ∀ f, v.filter? = some f → f.Full) :
    (i.openLane v).2.Sound := by
  refine s.of_writers (fun n w held => ?_) (.refl i.desk) nofun
  rcases get?_openLane held with ⟨-, rfl⟩ | ⟨-, before⟩
  · exact .inr ⟨sound, full⟩
  · exact .inl ⟨w, before, rfl, id⟩

end Intake

namespace Broadcaster

/-- While a cycle connects, its filter is what the registrations name, and the last subscription
asked for is with it. -/
structure Tapped (b : Broadcaster σ) : Prop where
  filter : b.filter = b.herald.filter
  named : b.filter.addresses ≠ []
  asked : b.desk.subscriptions.head? = some b.filter

/-- The subscription and the backfill that are on were opened with the cycle's filter, if it names
anything; and it is out of date only if that is known. -/
structure InForce (b : Broadcaster σ) : Prop where
  tracked : b.tracked = b.filter.addresses.length
  lanes : b.filter.addresses = [] ∧ b.current = none ∨
    ∃ lane, b.current = some lane ∧ b.desk.subscriptions.head? = some b.filter ∧
      ∀ w, b.intake.writers.get? (lane + 1) = some w → w.filter? = some b.filter
  fresh : b.herald.stale = false → b.filter = b.herald.filter

def Cycle (b : Broadcaster σ) : Prop :=
  match b.phase with
  | .subscribing request => b.Tapped ∧ request.request = .subscribe b.filter
  | .sizing request next =>
    b.Tapped ∧ request.request = .latest ∧ b.intake.lanes.fresh = next + 1
  | .serving _ | .handing _ _ => b.InForce
  | .unstarted | .gathering _ | .stopped => True

structure Tuned (b : Broadcaster σ) : Prop where
  pending : ∀ c ∈ b.changes.queue, c.Filtered
  tidy : b.herald.registry.Tidy
  intake : b.intake.Sound
  cycle : b.Cycle

variable {b b' : Broadcaster σ} {hs heard : List Input}

theorem get?_connect {lanes : List Nat} {live : Option Nat} {n : Nat} {w : Writer σ}
    (held : (b.connect lanes live).intake.writers.get? n = some w) :
    ∃ u, b.intake.writers.get? n = some u ∧ Intake.Turns u w := by
  unfold connect at held
  cases on : b.current with
  | none =>
    simp only [on] at held
    exact ⟨w, held, rfl, id⟩
  | some lane =>
    simp only [on] at held
    exact Intake.get?_cancelLane held

theorem sound_connect (s : b.intake.Sound) (lanes : List Nat) (live : Option Nat) :
    (b.connect lanes live).intake.Sound :=
  s.of_writers (fun _ _ held => .inl (get?_connect held)) (.of_eq (connect_desk b lanes live)) nofun

theorem sound_stop (s : b.intake.Sound) : b.stop.intake.Sound := by
  unfold stop
  cases b.current with
  | none => exact s.congr rfl (.refl _) nofun
  | some lane => exact (s.cancelLane lane).congr rfl (.refl _) nofun

theorem beginCycle_tuned (pending : ∀ c ∈ b.changes.queue, c.Filtered)
    (tidy : b.herald.registry.Tidy) (intake : b.intake.Sound) : b.beginCycle.Tuned := by
  have next : b.intake.nextCycle.Sound := intake.congr rfl (.refl _) nofun
  rcases b.beginCycle_cases with ⟨none, eq⟩ | ⟨some, eq⟩ <;> rw [eq]
  · exact ⟨pending, tidy, sound_connect next _ _, rfl, .inl ⟨none, rfl⟩, fun _ => rfl⟩
  · have asks := Retry.asks_start (.subscribe b.herald.filter) b.intake.nextCycle
    refine ⟨pending, tidy, next.congr rfl asks ?_, ⟨rfl, some, ?_⟩, rfl⟩
    · simpa [Query.Full, Request.query] using Herald.full_filter tidy
    · exact congrArg List.head? asks.subscriptions

theorem stop_tuned (pending : ∀ c ∈ b.changes.queue, c.Filtered)
    (tidy : b.herald.registry.Tidy) (intake : b.intake.Sound) : b.stop.Tuned :=
  ⟨pending, tidy, sound_stop intake, trivial⟩

/-- In the event loop. -/
def Looping (b : Broadcaster σ) : Prop :=
  (∃ tick, b.phase = .serving tick) ∨ ∃ pass tick, b.phase = .handing pass tick

theorem Looping.cycle_iff (on : b.Looping) : b.Cycle ↔ b.InForce := by
  rcases on with ⟨tick, phase⟩ | ⟨pass, tick, phase⟩ <;> simp [Cycle, phase]

theorem InForce.kept (f : b.InForce) (filter : b'.filter = b.filter)
    (tracked : b'.tracked = b.tracked) (current : b'.current = b.current)
    (asked : b'.desk.subscriptions = b.desk.subscriptions)
    (writers : ∀ n w, b'.intake.writers.get? n = some w →
      ∃ u, b.intake.writers.get? n = some u ∧ Intake.Turns u w)
    (fresh : b'.herald.stale = false →
      b.herald.stale = false ∧ b'.herald.filter = b.herald.filter) : b'.InForce := by
  refine ⟨by rw [tracked, filter, f.tracked], ?_, fun h => ?_⟩
  · rw [filter, current, asked]
    refine f.lanes.imp id ?_
    rintro ⟨lane, on, last, backfill⟩
    refine ⟨lane, on, last, fun w held => ?_⟩
    obtain ⟨u, before, turns⟩ := writers (lane + 1) w held
    exact turns.filter.trans (backfill u before)
  · obtain ⟨before, same⟩ := fresh h
    rw [filter, same, f.fresh before]

theorem Tapped.kept {qs : List Query} (f : b.Tapped) (filter : b'.filter = b.filter)
    (herald : b'.herald.filter = b.herald.filter) (asks : b.desk.Asks qs b'.desk)
    (only : ∀ q ∈ qs, ∀ f', q.subscribed? = some f' → f' = b.filter) : b'.Tapped := by
  refine ⟨by rw [filter, herald, f.filter], filter ▸ f.named, ?_⟩
  rw [filter]
  exact asks.last_subscription only f.asked

/-! ## While a cycle connects -/

variable {i : Intake σ}

theorem Tapped.full (f : b.Tapped) (tidy : b.herald.registry.Tidy) : b.filter.Full :=
  f.filter ▸ Herald.full_filter tidy

theorem Tuned.subscribe {request : Retry σ (Feed σ)} {turn : Turn (Retry σ (Feed σ)) (Feed σ)}
    (t : b.Tuned) (phase : b.phase = .subscribing request)
    (step : request.step b.intake = some (turn, i)) :
    b.Tapped ∧ i.Sound ∧ { b with intake := i }.Tapped ∧
      ∀ request', turn = .going request' → request'.request = .subscribe b.filter := by
  have cycle := t.cycle
  simp only [Cycle, phase] at cycle
  obtain ⟨tapped, subscribe⟩ := cycle
  obtain ⟨⟨source, desk, rfl⟩, ⟨qs, asks, all⟩, same⟩ := Retry.step_repeats step
  rw [subscribe] at all
  refine ⟨tapped, t.intake.congr rfl asks ?_, tapped.kept rfl rfl asks ?_, ?_⟩
  · intro q hq
    rw [all q hq]
    exact tapped.full t.tidy
  · intro q hq f' of_q
    rw [all q hq] at of_q
    exact (Option.some.inj of_q).symm
  · intro request' going
    exact (same request' going).trans subscribe

theorem Tuned.size {request : Retry σ Nat} {next : Nat} {turn : Turn (Retry σ Nat) Nat}
    (t : b.Tuned) (phase : b.phase = .sizing request next)
    (step : request.step b.intake = some (turn, i)) :
    i.Sound ∧ { b with intake := i }.Tapped ∧ i.lanes.fresh = next + 1 ∧
      ∀ request', turn = .going request' → request'.request = .latest := by
  have cycle := t.cycle
  simp only [Cycle, phase] at cycle
  obtain ⟨tapped, latest, fresh⟩ := cycle
  obtain ⟨⟨source, desk, rfl⟩, ⟨qs, asks, all⟩, same⟩ := Retry.step_repeats step
  rw [latest] at all
  refine ⟨t.intake.congr rfl asks ?_, tapped.kept rfl rfl asks ?_, fresh, ?_⟩
  · intro q hq
    rw [all q hq]
    trivial
  · intro q hq f' of_q
    rw [all q hq] at of_q
    cases of_q
  · intro request' going
    exact (same request' going).trans latest

theorem Tuned.subscribed {request : Retry σ (Feed σ)} {feed : Feed σ} (t : b.Tuned)
    (phase : b.phase = .subscribing request) (step : request.step b.intake = some (.done feed, i)) :
    { b with
      intake := (Retry.start .latest (i.openLive feed).2).2
      phase := .sizing (Retry.start .latest (i.openLive feed).2).1 i.lanes.fresh }.Tuned := by
  obtain ⟨-, sound, tapped, -⟩ := t.subscribe phase step
  have asks := Retry.asks_start .latest (i.openLive feed).2
  have opened : (i.openLive feed).2.Sound := sound.openLane trivial nofun
  refine ⟨t.pending, t.tidy, opened.congr rfl asks (by simp [Request.query, Query.Full]), ?_, rfl, rfl⟩
  exact tapped.kept rfl rfl asks (by simp [Request.query, Query.subscribed?])

theorem Tuned.connect {request : Retry σ Nat} {next latest : Nat} (t : b.Tuned)
    (phase : b.phase = .sizing request next)
    (step : request.step b.intake = some (.done latest, i)) :
    (Broadcaster.connect
      { b with intake := (i.openBackfill b.filter b.deepStart latest).2, deepStart := none }
      [i.lanes.fresh, next] (some next)).Tuned := by
  obtain ⟨sound, tapped, fresh, -⟩ := t.size phase step
  have opened : (i.openBackfill b.filter b.deepStart latest).2.Sound := by
    refine sound.openLane trivial ?_
    rintro f ⟨⟩
    exact tapped.full t.tidy
  refine ⟨t.pending, t.tidy, sound_connect opened _ _, rfl, .inr ⟨next, rfl, ?_, ?_⟩, ?_⟩
  · rw [connect_desk]
    exact tapped.asked
  · intro w held
    obtain ⟨u, before, turns⟩ := get?_connect held
    rcases Intake.get?_openLane before with ⟨-, rfl⟩ | ⟨older, -⟩
    · exact turns.filter
    · exact absurd fresh.symm older
  · exact fun _ => tapped.filter

/-! ## In the event loop -/

/-- Nothing that concerns the filter happens. -/
theorem Tuned.loop (t : b.Tuned) (on : b.Looping) (on' : b'.Looping)
    (changes : b'.changes = b.changes) (filter : b'.filter = b.filter)
    (tracked : b'.tracked = b.tracked) (current : b'.current = b.current)
    (asked : b'.desk.asked = b.desk.asked) (writers : b'.intake.writers = b.intake.writers)
    (registry : b'.herald.registry = b.herald.registry)
    (stale : b'.herald.stale = b.herald.stale) : b'.Tuned := by
  have herald : b'.herald.filter = b.herald.filter := by rw [Herald.filter, registry]; rfl
  have force := (on.cycle_iff.1 t.cycle).kept filter tracked current
    (congrArg (List.filterMap Query.subscribed?) asked)
    (fun n w held => ⟨w, writers ▸ held, rfl, id⟩) fun fresh => ⟨stale ▸ fresh, herald⟩
  refine ⟨changes ▸ t.pending, registry ▸ t.tidy, ?_, on'.cycle_iff.2 force⟩
  refine ⟨?_, ?_, ?_⟩
  · exact writers ▸ t.intake.writers
  · exact writers ▸ t.intake.filters
  · exact asked ▸ t.intake.asked

theorem Tuned.apply (t : b.Tuned)
    (phase : (∃ ready, b.phase = .gathering ready) ∨ ∃ tick, b.phase = .serving tick)
    (changes : Mailbox Change) (same : changes.queue = b.changes.queue) :
    { b with changes }.applyChanges.Tuned := by
  obtain ⟨tidy, kept⟩ := Herald.foldl_apply t.tidy (same ▸ t.pending)
  refine ⟨nofun, tidy, t.intake, ?_⟩
  rcases phase with ⟨ready, phase⟩ | ⟨tick, phase⟩
  · simp only [Cycle, applyChanges, phase]
  · have on : b.Looping := .inl ⟨tick, phase⟩
    have on' : { b with changes }.applyChanges.Looping := .inl ⟨tick, phase⟩
    refine on'.cycle_iff.2 ((on.cycle_iff.1 t.cycle).kept rfl rfl rfl rfl ?_ kept)
    exact fun n w held => ⟨w, held, rfl, id⟩

theorem Tuned.follow (t : b.Tuned) {tick : Nat} (phase : b.phase = .serving tick)
    {r : Option Pass × Herald × Desk} {e : Herald} {pool : Pool} (answer : r.2.1 = { e with pool })
    (asks : b.desk.Asks [] r.2.2) (registry : e.registry = b.herald.registry)
    (stale : e.stale = b.herald.stale) {heads : Mailbox Head} {lanes : Lanes Log} :
    Tuned (({ b with heads, intake := { b.intake with lanes } }).follow tick r) := by
  have asked : r.2.2.asked = b.desk.asked := asks.asked
  obtain ⟨pass, e', d⟩ := r
  cases answer
  cases pass with
  | none => exact t.loop (.inl ⟨tick, phase⟩) (.inl ⟨tick, rfl⟩) rfl rfl rfl rfl asked rfl registry stale
  | some p =>
    exact t.loop (.inl ⟨tick, phase⟩) (.inr ⟨p, tick, rfl⟩) rfl rfl rfl rfl asked rfl registry stale

theorem Acts.tuned (t : b.Tuned) (a : b.Acts b' heard) : b'.Tuned := by
  cases a with
  | wait => exact t
  | stop => exact stop_tuned t.pending t.tidy t.intake
  | abandon => exact stop_tuned t.pending t.tidy (t.intake.cancelLane _)
  | look => exact ⟨t.pending, t.tidy, t.intake, trivial⟩
  | first =>
    obtain ⟨d, asks, eq⟩ := b.firstCycle_eq
    rw [eq]
    refine beginCycle_tuned nofun (Herald.foldl_apply t.tidy t.pending).1 ?_
    exact t.intake.congr rfl asks nofun
  | apply phase changes same => exact t.apply phase changes same
  | resubscribe phase step =>
    obtain ⟨-, sound, tapped, same⟩ := t.subscribe phase step
    exact ⟨t.pending, t.tidy, sound, ⟨tapped.filter, tapped.named, tapped.asked⟩, same _ rfl⟩
  | subscribed phase step => exact t.subscribed phase step
  | resize phase step =>
    obtain ⟨sound, tapped, fresh, same⟩ := t.size phase step
    exact ⟨t.pending, t.tidy, sound, ⟨tapped.filter, tapped.named, tapped.asked⟩, same _ rfl, fresh⟩
  | connect phase step => exact t.connect phase step
  | fail => exact beginCycle_tuned t.pending t.tidy (t.intake.congr rfl (Desk.asks_notice _ rfl) nofun)
  | replay | stale => exact beginCycle_tuned t.pending t.tidy t.intake
  | noHead phase =>
    exact t.loop (.inl ⟨_, phase⟩) (.inl ⟨_, phase⟩) rfl rfl rfl rfl rfl rfl rfl rfl
  | tick phase => exact t.loop (.inl ⟨_, phase⟩) (.inl ⟨_, rfl⟩) rfl rfl rfl rfl rfl rfl rfl rfl
  | @head tick h phase heads =>
    obtain ⟨pool, answer⟩ := Herald.dispatch_pool { b.herald with head := h } b.desk h
    exact t.follow phase answer (Herald.asks_dispatch ..) rfl rfl
  | @log tick l lanes phase =>
    obtain ⟨pool, answer⟩ := b.herald.onLog_pool b.desk l
    exact t.follow phase answer (Herald.asks_onLog ..) rfl rfl
  | @close p tick phase =>
    obtain ⟨pool, same⟩ := b.herald.close_pool p
    rw [same]
    exact t.loop (.inr ⟨_, _, phase⟩) (.inl ⟨_, rfl⟩) rfl rfl rfl rfl rfl rfl rfl rfl
  | serve phase moves =>
    exact t.loop (.inr ⟨_, _, phase⟩) (.inr ⟨_, _, rfl⟩) rfl rfl rfl rfl moves.asked rfl rfl rfl

theorem Tuned.fill (t : b.Tuned) {lane : Nat} (fills : b.intake.Fills lane i) :
    { b with intake := i }.Tuned := by
  obtain ⟨qs, asks, all⟩ := fills.queries t.intake
  have none : ∀ q ∈ qs, q.subscribed? = none := by
    intro q hq
    obtain ⟨_, _, _, _, -, -, rfl⟩ := all q hq
    rfl
  have only : ∀ q ∈ qs, ∀ f, q.subscribed? = some f → f = b.filter := by
    intro q hq f of_q
    simp [none q hq] at of_q
  have asked : i.desk.subscriptions = b.desk.subscriptions := by
    rw [asks.subscriptions, List.filterMap_eq_nil_iff.2 none]
    rfl
  refine ⟨t.pending, t.tidy, t.intake.fills fills, ?_⟩
  have cycle := t.cycle
  unfold Cycle at cycle ⊢
  dsimp only
  split at cycle
  · exact ⟨cycle.1.kept rfl rfl asks only, cycle.2⟩
  · exact ⟨cycle.1.kept rfl rfl asks only, cycle.2.1, fills.fresh.trans cycle.2.2⟩
  · exact cycle.kept rfl rfl rfl asked (fun _ _ => fills.writer) fun fresh => ⟨fresh, rfl⟩
  · exact cycle.kept rfl rfl rfl asked (fun _ _ => fills.writer) fun fresh => ⟨fresh, rfl⟩
  all_goals trivial

theorem Tuned.beside (t : b.Tuned) (beside : b.Beside b') : b'.Tuned := by
  obtain ⟨source, desk, intake⟩ := beside.intake
  have writers : b'.intake.writers = b.intake.writers := by rw [intake]
  have asked : b'.desk.subscriptions = b.desk.subscriptions := beside.asks.subscriptions
  have pending : ∀ c ∈ b'.changes.queue, c.Filtered := by
    intro c hc
    cases c with
    | add g => exact (beside.changes g hc).elim (t.pending _) id
    | remove id => trivial
  have tapped (f : b.Tapped) : b'.Tapped :=
    f.kept beside.filter (congrArg Herald.filter beside.herald) beside.asks nofun
  have force (f : b.InForce) : b'.InForce :=
    f.kept beside.filter beside.tracked beside.current asked
      (fun n w held => ⟨w, writers ▸ held, rfl, id⟩)
      fun fresh => ⟨beside.herald ▸ fresh, congrArg Herald.filter beside.herald⟩
  refine ⟨pending, beside.herald ▸ t.tidy, t.intake.congr writers beside.asks nofun, ?_⟩
  rcases beside.phase with same | ⟨-, stopped | ⟨ready, gathering⟩⟩
  · have cycle := t.cycle
    unfold Cycle at cycle ⊢
    rw [same]
    split at cycle
    · exact ⟨tapped cycle.1, by rw [beside.filter]; exact cycle.2⟩
    · exact ⟨tapped cycle.1, cycle.2.1, by rw [intake]; exact cycle.2.2⟩
    · exact force cycle
    · exact force cycle
    all_goals trivial
  · simp only [Cycle, stopped]
  · simp only [Cycle, gathering]

theorem Goes.tuned (t : b.Tuned) (g : b.Goes b' heard) : b'.Tuned := by
  cases g with
  | act acts => exact acts.tuned t
  | fill fills => exact t.fill fills
  | beside beside => exact t.beside beside

theorem Reached.tuned (r : b.Reached hs) : b.Tuned := by
  induction r with
  | start => exact ⟨nofun, Registry.tidy_empty, ⟨nofun, nofun, nofun⟩, trivial⟩
  | move r m ih => exact (r.goes m).tuned ih

/-- In the event loop, unless it is known that the registrations have moved on, the subscription
and the backfill that are on were opened with just the filter that they name, as many addresses are
tracked as it has, and it lets every log through that a live registration accepts. And never is a
node asked for addresses without signatures. -/
theorem filter_in_force (r : b.Reached hs) :
    (b.Looping → b.herald.stale = false →
      b.filter = ⟨b.herald.registry.addresses, b.herald.registry.signatures⟩ ∧
      b.tracked = b.herald.registry.addresses.length ∧
      (b.herald.registry.addresses = [] ∧ b.current = none ∨
        ∃ lane, b.current = some lane ∧ b.desk.subscriptions.head? = some b.filter ∧
          ∀ w, b.intake.writers.get? (lane + 1) = some w → w.filter? = some b.filter) ∧
      ∀ g ∈ b.herald.registry.live.values, ∀ l : Log, g.options.contract = l.address →
        g.options.matchesTopics l.topics = true → b.filter.passes l = true) ∧
    ∀ q ∈ b.desk.asked, q.Full := by
  have tuned := r.tuned
  refine ⟨fun on fresh => ?_, tuned.intake.asked⟩
  have force := on.cycle_iff.1 tuned.cycle
  have current : b.filter = ⟨b.herald.registry.addresses, b.herald.registry.signatures⟩ :=
    force.fresh fresh
  have addresses : b.herald.registry.addresses = b.filter.addresses := by rw [current]
  refine ⟨current, addresses ▸ force.tracked, addresses ▸ force.lanes, ?_⟩
  intro g live l contract topics
  rw [current]
  exact tuned.tidy.passes live contract topics

theorem looping_keeper : (Example.start.run Example.pooling).Looping := by
  have serving : (match (Example.start.run Example.pooling).phase with
    | .serving _ => true
    | _ => false) = true := by decide +kernel
  split at serving
  next tick phase => exact .inl ⟨tick, phase⟩
  · cases serving

theorem keeper_in_force :
    (Example.start.run Example.pooling).filter = ⟨[1], [7]⟩ ∧
      (Example.start.run Example.pooling).filter.passes Example.log = true := by
  obtain ⟨filter, -, -, passes⟩ := (filter_in_force (Example.reached Example.pooling)).1
    looping_keeper (by decide +kernel)
  have accepted : (Example.start.run Example.pooling).herald.registry.live.values.any (fun g =>
      g.options.contract == Example.log.address && g.options.matchesTopics Example.log.topics) =
        true := by decide +kernel
  obtain ⟨g, live, wants⟩ := List.any_eq_true.1 accepted
  simp only [Bool.and_eq_true, beq_iff_eq] at wants
  exact ⟨filter.trans (by decide +kernel), passes g live _ wants.1 wants.2⟩

end Broadcaster

end ChainHerald
