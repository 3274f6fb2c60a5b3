import ChainHerald.Proofs.Effect

/-!
# Why a service subscribes anew

A cycle begins with the first one, after a failure, for a replay, or because registrations have
changed (`Broadcaster.cause?`). `Broadcaster.Fares` says once what becomes of a cycle with a move.
From that follows what holds as long as the cycle lasts (`Current`): its filter is out of date just
when some change applied since has given a pair of contract and signature its first registration or
taken the last one away (`Registry.Sways`), and its timer is not due before its time.
-/

namespace ChainHerald

/-! ## Pairs of contract and signature -/

namespace Registry

variable {cs past since later : List Change} {x : Change} {g : Registration} {c : Address}
  {t : Hash}

/-- Some registration that was added and not removed since names the pair. -/
def Named (cs : List Change) (c : Address) (t : Hash) : Prop :=
  ∃ g, Enrolled cs g ∧ names c t g = true

/-- Some pair is named that was not, or the other way round. -/
def Sways (cs : List Change) (x : Change) : Prop :=
  ∃ c t, ¬ (Named (cs ++ [x]) c t ↔ Named cs c t)

/-- One of the later changes sways what is named after those before it. -/
def Swayed (past since : List Change) : Prop :=
  ∃ earlier x later, since = earlier ++ x :: later ∧ Sways (past ++ earlier) x

theorem not_swayed_nil : ¬ Swayed past [] := by
  rintro ⟨earlier, x, later, split, -⟩
  cases earlier <;> cases split

theorem Swayed.ne_nil (swayed : Swayed past since) : since ≠ [] := by
  rintro rfl
  exact not_swayed_nil swayed

theorem swayed_singleton : Swayed past [x] ↔ Sways past x := by
  constructor
  · rintro ⟨earlier, y, later, split, sways⟩
    obtain ⟨rfl, eq⟩ | ⟨rfl, -⟩ := List.singleton_eq_append_iff.1 split
    · cases eq
      simpa using sways
    · simp at split
  · intro sways
    exact ⟨[], x, [], rfl, by simpa using sways⟩

theorem swayed_append :
    Swayed past (since ++ later) ↔ Swayed past since ∨ Swayed (past ++ since) later := by
  constructor
  · rintro ⟨before, x, after, split, sways⟩
    rcases List.append_eq_append_iff.1 split with ⟨mid, rfl, rfl⟩ | ⟨mid, rfl, tail⟩
    · exact .inr ⟨mid, x, after, rfl, by rwa [List.append_assoc]⟩
    · cases mid with
      | nil =>
        obtain rfl : x :: after = later := tail
        exact .inr ⟨[], x, after, rfl, by simpa using sways⟩
      | cons y mid =>
        obtain ⟨rfl, rfl⟩ := List.cons.inj tail
        exact .inl ⟨before, x, mid, rfl, sways⟩
  · rintro (⟨before, x, after, rfl, sways⟩ | ⟨before, x, after, rfl, sways⟩)
    · exact ⟨before, x, after ++ later, by simp, sways⟩
    · exact ⟨since ++ before, x, after, by simp, by rwa [← List.append_assoc]⟩

theorem Proper.named_iff (proper : Proper cs) : Named cs c t ↔ 0 < (after cs).tally c t := by
  rw [(exact_after proper).tally_pos]
  simp only [Named, proper.live_iff]

theorem gains_iff {n : Nat} {named : Bool} :
    ¬ (0 < n + (if named then 1 else 0) ↔ 0 < n) ↔ named = true ∧ n = 0 := by
  cases named <;> simp

theorem exists_names {p : Address → Hash → Prop} : (∃ c t, names c t g = true ∧ p c t) ↔
    ∃ t, g.options.filters.contains t = true ∧ p g.options.contract t := by
  constructor
  · rintro ⟨c, t, named, holds⟩
    simp only [names, Bool.and_eq_true, beq_iff_eq] at named
    obtain ⟨rfl, named⟩ := named
    exact ⟨t, named, holds⟩
  · rintro ⟨t, named, holds⟩
    exact ⟨g.options.contract, t, by simp [names, named], holds⟩

theorem Proper.add_sways (proper : Proper (cs ++ [.add g])) :
    ((after cs).add g).1 = true ↔ Sways cs (.add g) := by
  have before : (after cs).Exact := exact_after proper.init
  rw [before.add_grows, Sways]
  simp only [proper.named_iff, proper.init.named_iff, after_concat, change, tally_add, gains_iff,
    exists_names, before.tally_zero]

theorem Proper.remove_sways {id : Nat} (proper : Proper (cs ++ [.remove id])) :
    ((after cs).remove id).1 = true ↔ Sways cs (.remove id) := by
  have before : (after cs).Exact := exact_after proper.init
  have left : ((after cs).remove id).2.Exact := before.remove id
  rw [before.remove_shrinks, Sways]
  simp only [proper.named_iff, proper.init.named_iff, after_concat, change]
  cases here : (after cs).live.get? id with
  | none => simp [Registry.remove, here]
  | some g =>
    have taken (c : Address) (t : Hash) : (after cs).tally c t =
        ((after cs).remove id).2.tally c t + if names c t g then 1 else 0 := by
      rw [before.tally, left.tally, countP_live_remove here]
    simp only [taken, iff_comm (a := 0 < ((after cs).remove id).2.tally _ _), gains_iff,
      exists_names, left.tally_zero, Option.some.injEq, exists_eq_left']

end Registry

namespace Herald

open Registry (Proper Sways Swayed after)
open Broadcaster (changes_append)

variable {e : Herald} {past : List Change}

theorem stale_apply {x : Change} (registry : e.registry = after past)
    (proper : Proper (past ++ [x])) :
    (e.apply x).stale = true ↔ e.stale = true ∨ Sways past x := by
  cases x with
  | add g => simp [apply, registry, proper.add_sways]
  | remove id => simp [apply, registry, proper.remove_sways]

/-- Of all that a herald hears of, only changes concern its filter. -/
theorem stale_note (e : Herald) (i : Input) (other : Input.changes [i] = []) :
    (e.note i).stale = e.stale := by
  cases i with
  | change c => cases other
  | log l => rcases e.file_cases l with ⟨-, eq⟩ | ⟨-, -, eq⟩ | ⟨-, -, eq⟩ <;> simp [note, eq]
  | head h => rfl

theorem onHead_stale (e : Herald) (d : Desk) (h : Head) : (e.onHead d h).2.1.stale = e.stale := by
  obtain ⟨pool, same⟩ := dispatch_pool { e with head := some h } d h
  rw [onHead, same]

theorem onLog_stale (e : Herald) (d : Desk) (l : Log) : (e.onLog d l).2.1.stale = e.stale := by
  obtain ⟨pool, same⟩ := e.onLog_pool d l
  rw [same]

theorem stale_notes {hs heard : List Input} (f : e.Follows hs)
    (proper : Proper (Input.changes (hs ++ heard))) :
    (heard.foldl note e).stale = true ↔
      e.stale = true ∨ Swayed (Input.changes hs) (Input.changes heard) := by
  induction heard using List.reverseRecOn with
  | nil => simp [Input.changes, Registry.not_swayed_nil]
  | append_singleton heard i ih =>
    rw [← List.append_assoc, changes_append] at proper
    rw [List.foldl_append, List.foldl_cons, List.foldl_nil, changes_append]
    cases i with
    | change c =>
      have now := stale_apply (f.notes heard).registry proper
      rw [changes_append] at now
      have last : Input.changes [.change c] = [c] := rfl
      rw [note, now, ih proper.init, last, Registry.swayed_append, Registry.swayed_singleton,
        or_assoc]
    | log | head =>
      rw [stale_note _ _ rfl]
      simpa [Input.changes] using ih (by simpa [Input.changes] using proper)

/-- A herald that is stale just when it has been swayed since is so after it has heard more. -/
theorem stale_since {hs since heard : List Input} (f : e.Follows (hs ++ since))
    (proper : Proper (Input.changes (hs ++ since ++ heard)))
    (stale : e.stale = true ↔ Swayed (Input.changes hs) (Input.changes since)) :
    (heard.foldl note e).stale = true ↔
      Swayed (Input.changes hs) (Input.changes (since ++ heard)) := by
  rw [stale_notes f proper, stale, changes_append, changes_append, Registry.swayed_append]

end Herald

/-! ## Cycles -/

namespace Broadcaster

variable {σ : Type} [Source σ] {b b' c : Broadcaster σ} {hs heard : List Input} {m n : Move σ}
  {later : List (Move σ)}

/-- Why a cycle begins. -/
inductive Cause where
  | first
  | failure
  | replay
  | changes
  deriving DecidableEq

/-- What makes a cycle begin with the move, if one does. -/
def cause? (b : Broadcaster σ) : Move σ → Option Cause
  | .task .service =>
    match b.phase with
    | .gathering ready =>
      if b.desk.cancelled then none
      else
        match b.gate.look? ready with
        | some .done => some .first
        | _ => none
    | .serving tick =>
      match b.stimulus tick with
      | some .failure => some .failure
      | some .replay => some .replay
      | some .tick => if b.herald.stale then some .changes else none
      | _ => none
    | _ => none
  | _ => none

/-- How far the cycle that is on has come. -/
inductive Leg where
  | idle
  | connecting
  | looping (tick : Nat)
  | over
  deriving DecidableEq

def leg (b : Broadcaster σ) : Leg :=
  match b.phase with
  | .unstarted | .gathering _ => .idle
  | .subscribing _ | .sizing _ _ => .connecting
  | .serving tick | .handing _ tick => .looping tick
  | .stopped => .over

/-- What becomes of a cycle with a move, with or without a cause, when the service hears of this.
Changes are applied before the first cycle and in the event loop, and never while one connects. -/
inductive Fares (b : Broadcaster σ) : Option Cause → List Input → Broadcaster σ → Prop where
  | begins {k : Cause} {heard : List Input} {c : Broadcaster σ}
      (herald : c.herald = heard.foldl Herald.note b.herald)
      (settings : c.settings = b.settings) (asked : c.desk.asked = b.desk.asked)
      (cycle : c.intake.cycle = b.intake.cycle)
      (due : k = .changes → b.herald.stale = true ∧
        ∃ tick, b.leg = .looping tick ∧ tick ≤ b.desk.clock.now) :
      Fares b (some k) heard c.beginCycle
  | away {heard : List Input} {b' : Broadcaster σ} (cycle : b'.intake.cycle = b.intake.cycle)
      (leg : b'.leg = .idle ∨ b'.leg = .over)
      (connected : b'.connected = true → b.connected = true) : Fares b none heard b'
  | rests {b' : Broadcaster σ} (cycle : b'.intake.cycle = b.intake.cycle) (leg : b'.leg = b.leg)
      (stale : b'.herald.stale = b.herald.stale)
      (connected : b'.connected = true → b.connected = true) : Fares b none [] b'
  | loops {heard : List Input} {b' : Broadcaster σ} {tick tick' : Nat}
      (cycle : b'.intake.cycle = b.intake.cycle)
      (before : b.leg = .looping tick) (after : b'.leg = .looping tick') (kept : tick ≤ tick')
      (stale : b'.herald.stale = (heard.foldl Herald.note b.herald).stale)
      (connected : b'.connected = true → b.connected = true) : Fares b none heard b'
  | connects {b' : Broadcaster σ} (cycle : b'.intake.cycle = b.intake.cycle)
      (before : b.leg = .connecting)
      (after : b'.leg = .looping (b'.desk.clock.now + b.settings.debounce))
      (fresh : b'.herald.stale = false) (connected : b'.connected = true) : Fares b none [] b'

/-! ## Moves of the service -/

theorem stop_cycle (b : Broadcaster σ) : b.stop.intake.cycle = b.intake.cycle := by
  unfold stop
  cases b.current with
  | none => rfl
  | some lane =>
    obtain ⟨writers, same⟩ := b.intake.cancelLane_frame lane
    simp only [same]

theorem fares_stop : b.Fares none [] b.stop := .away b.stop_cycle (.inr rfl) nofun

theorem fares_refl (b : Broadcaster σ) : b.Fares none [] b := .rests rfl rfl rfl id

theorem firstCycle_fares (b : Broadcaster σ) :
    b.Fares (some .first) (b.changes.queue.map .change) b.firstCycle := by
  obtain ⟨d, asks, eq⟩ := b.firstCycle_eq
  rw [eq]
  refine .begins ?_ rfl asks.asked rfl fun changes => by cases changes
  rw [Herald.foldl_note_changes]
  rfl

theorem stepGathering_fares {ready : Wait} (phase : b.phase = .gathering ready) :
    b.Fares (b.cause? (.task .service)) (b.takes (.task .service))
      ((b.stepGathering ready).getD b) := by
  simp only [stepGathering, cause?, takes, phase, Mailbox.awake]
  cases b.desk.cancelled with
  | true => exact fares_stop
  | false =>
  cases b.gate.look? ready with
  | some verdict =>
    cases verdict with
    | done => exact b.firstCycle_fares
    | begun | looked => exact .away rfl (.inl rfl) id
  | none =>
  cases b.changes.wakeUp with
  | true => exact .away rfl (.inl rfl) id
  | false => exact fares_refl b

theorem follow_fares {tick : Nat} {r : Option Pass × Herald × Desk}
    (before : b.leg = .looping tick) (cycle : c.intake.cycle = b.intake.cycle)
    (stale : r.2.1.stale = (heard.foldl Herald.note b.herald).stale)
    (connected : c.connected = b.connected) :
    b.Fares none heard (c.follow tick r) := by
  obtain ⟨_ | p, e, d⟩ := r <;>
    exact .loops cycle before rfl (Nat.le_refl _) stale fun on => connected ▸ on

theorem nextTick_ge (b : Broadcaster σ) (tick : Nat) : tick ≤ b.nextTick tick := by
  unfold nextTick
  split <;> omega

theorem stepServing_fares {tick : Nat} (phase : b.phase = .serving tick) :
    b.Fares (b.cause? (.task .service)) (b.takes (.task .service))
      ((b.stepServing tick).getD b) := by
  have looping : b.leg = .looping tick := by simp [leg, phase]
  simp only [stepServing, cause?, takes, stimulus, phase, Mailbox.awake]
  cases b.desk.cancelled with
  | true => exact fares_stop
  | false =>
  cases b.intake.fault with
  | some e => exact .begins rfl rfl rfl rfl fun changes => by cases changes
  | none =>
  cases b.replay with
  | some block => exact .begins rfl rfl rfl rfl fun changes => by cases changes
  | none =>
  cases b.heads.wakeUp with
  | true =>
    simp only [Mailbox.latest]
    cases b.heads.queue.getLast? with
    | none => exact .rests rfl looping.symm rfl id
    | some h =>
      refine follow_fares looping rfl ?_ rfl
      exact b.herald.onHead_stale b.desk h
  | false =>
  cases b.changes.wakeUp with
  | true =>
    refine .loops rfl looping rfl (Nat.le_refl _) ?_ id
    exact (congrArg Herald.stale (b.herald.foldl_note_changes b.changes.queue)).symm
  | false =>
  cases b.intake.lanes.next with
  | mk reading lanes =>
  cases reading with
  | item l =>
    refine follow_fares looping rfl ?_ rfl
    exact (b.herald.onLog_stale _ l).trans (b.herald.stale_note (.log l) rfl).symm
  | waiting | ended =>
    by_cases due : tick ≤ b.desk.clock.now
    · simp only [due, if_true]
      cases stale : b.herald.stale with
      | true => exact .begins rfl rfl rfl rfl fun _ => ⟨stale, tick, looping, due⟩
      | false => exact .loops rfl looping rfl (b.nextTick_ge tick) rfl id
    · simp only [due, if_false]
      exact fares_refl b

theorem stepSubscribing_fares {request : Retry σ (Source.Feed σ)}
    (phase : b.phase = .subscribing request) (s : b.stepSubscribing request = some b') :
    b.Fares none [] b' := by
  have connecting : b.leg = .connecting := by simp [leg, phase]
  unfold stepSubscribing at s
  split at s
  · cases s
    exact fares_stop
  · split at s
    · cases s
    next step =>
      obtain ⟨⟨source, desk, rfl⟩, -, -⟩ := Retry.step_repeats step
      cases s
      exact .rests rfl connecting.symm rfl id
    next step =>
      obtain ⟨⟨source, desk, rfl⟩, -, -⟩ := Retry.step_repeats step
      cases s
      exact .rests rfl connecting.symm rfl id

theorem stepSizing_fares {request : Retry σ Nat} {next : Nat}
    (phase : b.phase = .sizing request next) (s : b.stepSizing request next = some b') :
    b.Fares none [] b' := by
  have connecting : b.leg = .connecting := by simp [leg, phase]
  unfold stepSizing at s
  split at s
  · cases s
    refine .away ?_ (.inr rfl) nofun
    obtain ⟨writers, same⟩ := b.intake.cancelLane_frame next
    rw [stop_cycle, same]
  · split at s
    · cases s
    next step =>
      obtain ⟨⟨source, desk, rfl⟩, -, -⟩ := Retry.step_repeats step
      cases s
      exact .rests rfl connecting.symm rfl id
    next step =>
      obtain ⟨⟨source, desk, rfl⟩, -, -⟩ := Retry.step_repeats step
      cases s
      refine .connects (connect_fault ..).1 connecting ?_ rfl rfl
      rw [connect_desk]
      rfl

theorem stepHanding_fares {p : Pass} {tick : Nat} (phase : b.phase = .handing p tick)
    (s : b.stepHanding p tick = some b') : b.Fares none [] b' := by
  have looping : b.leg = .looping tick := by simp [leg, phase]
  unfold stepHanding at s
  split at s
  · cases s
    obtain ⟨pool, same⟩ := b.herald.close_pool p
    rw [same]
    exact .rests rfl looping.symm rfl id
  · obtain ⟨⟨p', d⟩, -, rfl⟩ := Option.map_eq_some_iff.1 s
    exact .rests rfl looping.symm rfl id

theorem service_fares (b : Broadcaster σ) :
    b.Fares (b.cause? (.task .service)) (b.takes (.task .service)) (b.move (.task .service)) := by
  have quiet {next : Option (Broadcaster σ)} (h : ∀ b', next = some b' → b.Fares none [] b') :
      b.Fares none [] (next.getD b) := by
    cases next with
    | none => exact fares_refl b
    | some b' => exact h b' rfl
  simp only [move, step, stepService]
  cases phase : b.phase with
  | unstarted | stopped => simpa [cause?, takes, phase] using fares_refl b
  | gathering ready => exact stepGathering_fares phase
  | subscribing request =>
    simpa [cause?, takes, phase] using quiet fun _ => stepSubscribing_fares phase
  | sizing request next => simpa [cause?, takes, phase] using quiet fun _ => stepSizing_fares phase
  | serving tick => exact stepServing_fares phase
  | handing p tick => simpa [cause?, takes, phase] using quiet fun _ => stepHanding_fares phase

/-! ## All moves -/

theorem cause?_outside (other : m ≠ .task .service) : b.cause? m = none := by
  unfold cause?
  split
  · exact absurd rfl other
  · rfl

theorem connected_outside (other : m ≠ .task .service) (connected : (b.move m).connected = true) :
    b.connected = true := by
  cases b.move_lives m with
  | on _ _ same => exact (same other).symm.trans connected
  | start _ _ _ same | ask _ _ same | shut _ _ _ _ same => exact same.symm.trans connected
  | finish _ _ _ _ _ apart => cases apart.symm.trans connected

theorem Beside.fares (beside : b.Beside b') (connected : b'.connected = true → b.connected = true) :
    b.Fares none [] b' := by
  obtain ⟨source, desk, intake⟩ := beside.intake
  have cycle : b'.intake.cycle = b.intake.cycle := by rw [intake]
  rcases beside.phase with same | ⟨-, stopped | ⟨ready, gathering⟩⟩
  · have leg : b'.leg = b.leg := by rw [leg, same]; rfl
    exact .rests cycle leg (congrArg Herald.stale beside.herald) connected
  · exact .away cycle (.inr (by simp [leg, stopped])) connected
  · exact .away cycle (.inl (by simp [leg, gathering])) connected

theorem Reached.fares (r : b.Reached hs) (m : Move σ) :
    b.Fares (b.cause? m) (b.takes m) (b.move m) := by
  by_cases service : m = .task .service
  · exact service ▸ b.service_fares
  have connected : (b.move m).connected = true → b.connected = true := connected_outside service
  rw [takes_outside service, cause?_outside service]
  by_cases lane : ∃ n, m = .task (.lane n)
  · obtain ⟨n, rfl⟩ := lane
    rcases b.lane_fills n with same | ⟨i, fills, eq⟩
    · rw [same]
      exact fares_refl b
    · rw [eq]
      exact .rests fills.fault.1 rfl rfl id
  · exact (others_beside r.dormant service fun n eq => lane ⟨n, eq⟩).fares connected

/-! ## When a cycle begins -/

/-- It begins with a filter for all that is registered by then. With an address it subscribes, and
otherwise it is connected at once. -/
structure Began (b : Broadcaster σ) (k : Cause) (heard : List Input) (b' : Broadcaster σ) :
    Prop where
  cycle : b'.intake.cycle = b.intake.cycle + 1
  filter : b'.filter = (heard.foldl Herald.note b.herald).filter
  asked : b'.filter.addresses ≠ [] → b'.desk.asked = .subscribe b'.filter :: b.desk.asked
  leg : b'.leg = .connecting ∧ b'.connected = false ∨
    b'.leg = .looping (b'.desk.clock.now + b.settings.debounce) ∧ b'.herald.stale = false ∧
      b'.connected = true
  due : k = .changes → b.herald.stale = true ∧
    ∃ tick, b.leg = .looping tick ∧ tick ≤ b.desk.clock.now

theorem Fares.began {k : Cause} (f : b.Fares (some k) heard b') : b.Began k heard b' := by
  cases f with
  | @begins _ _ c herald settings asked cycle due =>
    have next := beginCycle_renews (b := b) cycle
    rcases c.beginCycle_cases with ⟨nobody, eq⟩ | ⟨somebody, eq⟩ <;> rw [eq] at next ⊢
    · refine ⟨next.cycle, congrArg Herald.filter herald, ?_, .inr ⟨?_, rfl, rfl⟩, due⟩
      · exact fun some => absurd nobody some
      · rw [connect_desk, ← settings]
        rfl
    · refine ⟨next.cycle, congrArg Herald.filter herald, fun _ => ?_, .inl ⟨rfl, rfl⟩, due⟩
      have asks := Retry.asks_start (.subscribe c.herald.filter) c.intake.nextCycle
      exact asks.asked.trans (congrArg _ asked)

theorem Fares.counted {k? : Option Cause} (f : b.Fares k? heard b') :
    b'.intake.cycle = b.intake.cycle + k?.toList.length := by
  cases f with
  | begins _ _ _ cycle => exact (beginCycle_renews cycle).cycle
  | away cycle | rests cycle | loops cycle | connects cycle => exact cycle

/-! ## While a cycle lasts -/

/-- The causes of the cycles that have begun with the moves. -/
def causes (b : Broadcaster σ) (ms : List (Move σ)) : List Cause :=
  b.trace (fun b m => (b.cause? m).toList) ms

/-- A cycle begins with the move and is on after all that come later. -/
structure Lasts (b : Broadcaster σ) (n : Move σ) (later : List (Move σ)) : Prop where
  begun : (b.cause? n).isSome
  still : (b.move n).causes later = []

theorem Lasts.concat (l : b.Lasts n later) (same : (b.run (n :: later)).cause? m = none) :
    b.Lasts n (later ++ [m]) where
  begun := l.begun
  still := by
    have same : ((b.move n).run later).cause? m = none := same
    rw [causes, trace_append, show trace _ _ later = [] from l.still]
    simp [trace, same]

/-- The broadcaster is connected after the move, and with it a cycle begins or it was not connected
before. -/
def connects (b : Broadcaster σ) (m : Move σ) : Bool :=
  ((b.cause? m).isSome || !b.connected) && (b.move m).connected

/-- When the moves have connected. -/
def connections (b : Broadcaster σ) (ms : List (Move σ)) : List Nat :=
  b.trace (fun b m => if b.connects m then [(b.move m).desk.clock.now] else []) ms

theorem connections_concat (b : Broadcaster σ) (ms : List (Move σ)) (m : Move σ) :
    b.connections (ms ++ [m]) = b.connections ms ++
      if (b.run ms).connects m then [((b.run ms).move m).desk.clock.now] else [] := by
  simp [connections, trace_append, trace]

theorem connects_of_none (same : b.cause? m = none) :
    b.connects m = (!b.connected && (b.move m).connected) := by
  simp [connects, same]

/-- What holds of the cycle that began with the move, when the service has heard of `hs` before. -/
structure Current (b : Broadcaster σ) (hs : List Input) (n : Move σ) (later : List (Move σ)) :
    Prop where
  lasts : b.Lasts n later
  connecting : (b.run (n :: later)).leg = .connecting →
    (b.run (n :: later)).connected = false ∧ b.connections (n :: later) = [] ∧
      (b.move n).history later = []
  looping : ∀ tick, (b.run (n :: later)).leg = .looping tick →
    (∃ time, b.connections (n :: later) = [time] ∧ time + b.settings.debounce ≤ tick) ∧
    ((b.run (n :: later)).herald.stale = true ↔
      Registry.Swayed (Input.changes (hs ++ b.takes n))
        (Input.changes ((b.move n).history later)))

theorem Reached.current (r : b.Reached hs) (begun : (b.cause? n).isSome) : b.Current hs n [] := by
  obtain ⟨k, cause⟩ := Option.isSome_iff_exists.1 begun
  have began := (cause ▸ r.fares n : b.Fares (some k) (b.takes n) (b.move n)).began
  refine ⟨⟨begun, rfl⟩, fun connecting => ?_, fun tick looping => ?_⟩
  · rcases began.leg with ⟨-, apart⟩ | ⟨leg, -⟩
    · exact ⟨apart, by simp [connections, trace, connects, apart], rfl⟩
    · cases leg.symm.trans connecting
  · rcases began.leg with ⟨leg, -⟩ | ⟨leg, fresh, connected⟩
    · cases leg.symm.trans looping
    · cases leg.symm.trans looping
      have once : b.connections [n] = [(b.move n).desk.clock.now] := by
        simp [connections, trace, connects, cause, connected]
      have fresh : (b.run [n]).herald.stale = false := fresh
      refine ⟨⟨_, once, Nat.le_refl _⟩, ?_⟩
      rw [fresh]
      exact iff_of_false Bool.false_ne_true Registry.not_swayed_nil

theorem Current.concat (k : b.Current hs n later) (r : b.Reached hs)
    (same : (b.run (n :: later)).cause? m = none) : b.Current hs n (later ++ [m]) := by
  have reached := r.run (n :: later)
  have fares := reached.fares m
  rw [same] at fares
  have run : b.run (n :: (later ++ [m])) = (b.run (n :: later)).move m :=
    b.run_concat (n :: later) m
  have history : (b.move n).history (later ++ [m]) =
      (b.move n).history later ++ (b.run (n :: later)).takes m := by
    simp [history_append, Broadcaster.history, Broadcaster.run]
  have connections := b.connections_concat (n :: later) m
  rw [connects_of_none same, List.cons_append] at connections
  have follows : (b.run (n :: later)).herald.Follows
      (hs ++ b.takes n ++ (b.move n).history later) := List.append_assoc .. ▸ reached.follows.herald
  have proper : Registry.Proper (Input.changes (hs ++ b.takes n ++ (b.move n).history later ++
      (b.run (n :: later)).takes m)) := by
    simpa [Broadcaster.history] using (reached.move m).proper
  have noted := Herald.stale_since follows proper
  have still {p q : Bool} (h : q = true → p = true) : (!p && q) = false := by
    cases p <;> cases q <;> simp_all
  refine ⟨k.lasts.concat same, ?_, ?_⟩
  -- what matters of the move is how the cycle fares with it
  all_goals
    rw [run, history, connections]
    clear run history connections
    generalize (b.run (n :: later)).takes m = heard, (b.run (n :: later)).move m = b' at *
  · intro connecting
    cases fares with
    | away _ leg => simp [connecting] at leg
    | rests _ leg _ connected =>
      obtain ⟨apart, unconnected, quiet⟩ := k.connecting (leg.symm.trans connecting)
      have apart' : b'.connected = false :=
        Bool.eq_false_iff.2 fun on => by simp [connected on] at apart
      exact ⟨apart', by simp [apart', unconnected], by rw [quiet]; rfl⟩
    | loops _ _ after | connects _ _ after => cases after.symm.trans connecting
  · intro tick looping
    cases fares with
    | away _ leg => simp [looping] at leg
    | rests _ leg stale connected =>
      obtain ⟨once, swayed⟩ := k.looping tick (leg.symm.trans looping)
      exact ⟨by simpa [still connected] using once, by rw [stale, swayed, List.append_nil]⟩
    | loops _ before after kept stale connected =>
      obtain ⟨⟨time, once, due⟩, swayed⟩ := k.looping _ before
      cases after.symm.trans looping
      refine ⟨⟨time, ?_, Nat.le_trans due kept⟩, by rw [stale, noted swayed]⟩
      simpa [still connected] using once
    | connects _ before after fresh connected =>
      obtain ⟨apart, unconnected, quiet⟩ := k.connecting before
      cases after.symm.trans looping
      refine ⟨⟨b'.desk.clock.now, by simp [unconnected, apart, connected], ?_⟩, ?_⟩
      · exact Nat.le_of_eq (by rw [r.run_settings (n :: later)])
      · rw [fresh, quiet]
        exact iff_of_false Bool.false_ne_true Registry.not_swayed_nil

/-- No cycle has begun yet or none is on any more, or one of the moves began the one that is on. -/
theorem Reached.away_or_current (r : b.Reached hs) (idle : b.leg = .idle) (ms : List (Move σ)) :
    ((b.run ms).leg = .idle ∨ (b.run ms).leg = .over) ∨ ∃ earlier n later,
      ms = earlier ++ n :: later ∧ (b.run earlier).Current (hs ++ b.history earlier) n later := by
  induction ms using List.reverseRecOn with
  | nil => exact .inl (.inl idle)
  | append_singleton ms m ih =>
    have fares := (r.run ms).fares m
    cases cause : (b.run ms).cause? m with
    | some k =>
      exact .inr ⟨ms, m, [], rfl, (r.run ms).current (by simp [cause])⟩
    | none =>
      rcases ih with away | ⟨earlier, n, later, rfl, current⟩
      · left
        rw [run_concat]
        rw [cause] at fares
        generalize (b.run ms).takes m = heard, (b.run ms).move m = b' at fares
        cases fares with
        | away _ leg => exact leg
        | rests _ leg => exact leg ▸ away
        | loops _ before | connects _ before => simp [before] at away
      · have same : ((b.run earlier).run (n :: later)).cause? m = none := by
          rwa [← run_append]
        exact .inr ⟨earlier, n, later ++ [m], by simp, current.concat (r.run earlier) same⟩

/-! ## Changes fold into one -/

/-- Time does not go back. -/
def Forward (b : Broadcaster σ) (ms : List (Move σ)) : Prop :=
  ∀ earlier m later, ms = earlier ++ m :: later →
    (b.run earlier).desk.clock.now ≤ ((b.run earlier).move m).desk.clock.now

theorem Forward.le {ms ns : List (Move σ)} (f : b.Forward (ms ++ ns)) :
    b.desk.clock.now ≤ (b.run ms).desk.clock.now := by
  induction ms using List.reverseRecOn generalizing ns with
  | nil => exact Nat.le_refl _
  | append_singleton ms m ih =>
    rw [run_concat]
    rw [List.append_assoc] at f
    exact Nat.le_trans (ih f) (f ms m ns rfl)

theorem mem_connections {ms : List (Move σ)} {time : Nat} (mem : time ∈ b.connections ms) :
    ∃ m ns, m :: ns <+: ms ∧ time = ((b.move m).run ns).desk.clock.now := by
  induction ms generalizing b with
  | nil => cases mem
  | cons m ms ih =>
    rw [connections, trace, List.mem_append, List.mem_ite_nil_right, List.mem_singleton] at mem
    rcases mem with ⟨-, rfl⟩ | there
    · exact ⟨m, [], List.cons_prefix_cons.2 ⟨rfl, List.nil_prefix⟩, rfl⟩
    · obtain ⟨m', ns, begins, eq⟩ := ih there
      exact ⟨m, m' :: ns, List.cons_prefix_cons.2 ⟨rfl, begins⟩, eq⟩

/-- No other cycle began after one that is on. -/
theorem Lasts.latest {init : Broadcaster σ} {earlier earlier' later' : List (Move σ)} {n' : Move σ}
    (l : (init.run earlier').Lasts n' later') (begun : ((init.run earlier).cause? n).isSome)
    (split : earlier ++ n :: later = earlier' ++ n' :: later') :
    ∃ mid, later = mid ++ later' ∧
      (init.run earlier').move n' = ((init.run earlier).move n).run mid := by
  rw [List.append_cons, List.append_cons earlier'] at split
  rcases List.append_eq_append_iff.1 split with ⟨mid, eq, rest⟩ | ⟨mid, eq, rest⟩
  · refine ⟨mid, rest, ?_⟩
    rw [← run_concat, ← run_concat, eq, run_append]
  · rcases List.eq_nil_or_concat mid with rfl | ⟨mid, x, rfl⟩
    · rw [List.append_nil] at eq
      refine ⟨[], rest.symm, ?_⟩
      rw [← run_concat, ← eq, run_concat]
      rfl
    -- else the one cycle would have begun while the other was on
    · rw [List.concat_eq_append, ← List.append_assoc] at eq
      obtain ⟨rfl, same⟩ := List.append_inj' eq rfl
      cases same
      have still := l.still
      rw [run_append, run_concat] at begun
      obtain ⟨k, cause⟩ := Option.isSome_iff_exists.1 begun
      rw [rest, causes, trace_append] at still
      simp [trace_append, trace, cause] at still

/-- Only one cycle is on. -/
theorem Lasts.unique {init : Broadcaster σ} {earlier earlier' later' : List (Move σ)} {n' : Move σ}
    (l : (init.run earlier).Lasts n later) (l' : (init.run earlier').Lasts n' later')
    (split : earlier ++ n :: later = earlier' ++ n' :: later') :
    earlier = earlier' ∧ n = n' ∧ later = later' := by
  obtain ⟨mid, rest, -⟩ := l'.latest l.begun split
  obtain ⟨mid', rest', -⟩ := l.latest l'.begun split.symm
  have long := congrArg List.length rest
  have long' := congrArg List.length rest'
  rw [List.length_append] at long long'
  obtain rfl : mid = [] := List.eq_nil_of_length_eq_zero (by omega)
  obtain rfl : later = later' := rest
  obtain ⟨same, tail⟩ := List.append_inj' split rfl
  exact ⟨same, (List.cons.inj tail).1, rfl⟩

/-- The filter has just what the changes leave registered. -/
structure Covers (b : Broadcaster σ) (cs : List Change) : Prop where
  addresses : ∀ a, a ∈ b.filter.addresses ↔ ∃ g, Registry.Enrolled cs g ∧ g.options.contract = a
  signatures : ∀ t, t ∈ b.filter.signatures ↔
    ∃ g, Registry.Enrolled cs g ∧ g.options.filters.contains t = true

theorem Began.covers {k : Cause} (began : b.Began k (b.takes m) b') (r : b.Reached hs) :
    b'.Covers (Input.changes (hs ++ b.takes m)) := by
  have proper := (r.move m).proper
  have exact := Registry.exact_after proper
  have filter : b'.filter = (b.noted m).filter := began.filter
  rw [Herald.filter, (r.follows_noted m).registry] at filter
  constructor
  · intro a
    rw [filter, exact.mem_addresses]
    simp only [proper.live_iff]
  · intro t
    rw [filter, exact.mem_signatures]
    simp only [proper.live_iff]

/-- In the event loop the filter counts as out of date just when one of the changes applied in the
cycle has swayed what is named. -/
theorem Reached.stale_iff_swayed (r : b.Reached []) (idle : b.leg = .idle) {ms : List (Move σ)}
    {tick : Nat} (looping : (b.run ms).leg = .looping tick) :
    ∃ earlier n later time, ms = earlier ++ n :: later ∧ (b.run earlier).Lasts n later ∧
      ((b.run ms).herald.stale = true ↔
        Registry.Swayed (Input.changes (b.history (earlier ++ [n])))
          (Input.changes (((b.run earlier).move n).history later))) ∧
      (b.run earlier).connections (n :: later) = [time] ∧ time + b.settings.debounce ≤ tick := by
  rcases r.away_or_current idle ms with away | ⟨earlier, n, later, rfl, current⟩
  · simp [looping] at away
  · rw [run_append] at looping ⊢
    obtain ⟨⟨time, connected, due⟩, swayed⟩ := current.looping tick looping
    rw [r.run_settings earlier] at due
    have covered : b.history (earlier ++ [n]) =
        [] ++ b.history earlier ++ (b.run earlier).takes n := by
      simp [history_append, history]
    rw [← covered] at swayed
    exact ⟨earlier, n, later, time, rfl, current.lasts, swayed, connected, due⟩

/-- One of the changes applied in the cycle that is on has swayed what is named, and the debounce
time has passed since the cycle connected. -/
def Warranted (b : Broadcaster σ) (ms : List (Move σ)) : Prop :=
  ∃ earlier n later time, ms = earlier ++ n :: later ∧ (b.run earlier).Lasts n later ∧
    Registry.Swayed (Input.changes (b.history (earlier ++ [n])))
      (Input.changes (((b.run earlier).move n).history later)) ∧
    (b.run earlier).connections (n :: later) = [time] ∧
    time + b.settings.debounce ≤ (b.run ms).desk.clock.now

theorem Reached.warranted (r : b.Reached []) (idle : b.leg = .idle) {ms : List (Move σ)}
    (cause : (b.run ms).cause? m = some .changes) : b.Warranted ms := by
  have fares := (r.run ms).fares m
  rw [cause] at fares
  obtain ⟨stale, tick, looping, past⟩ := fares.began.due rfl
  obtain ⟨earlier, n, later, time, split, lasts, swayed, connected, due⟩ :=
    r.stale_iff_swayed idle looping
  exact ⟨earlier, n, later, time, split, lasts, swayed.1 stale, connected, Nat.le_trans due past⟩

/-- What a move that comes after others means for the cycles. -/
structure Debounced (b : Broadcaster σ) (ms : List (Move σ)) (m : Move σ) : Prop where
  /-- A cycle begins just when there is a cause for it. -/
  counted : ((b.run ms).move m).intake.cycle =
    (b.run ms).intake.cycle + ((b.run ms).cause? m).toList.length
  /-- Whatever the cause, all that was applied by then is in the filter that is subscribed to. -/
  covers : ((b.run ms).cause? m).isSome →
    ((b.run ms).move m).Covers (Input.changes (b.history (ms ++ [m]))) ∧
      (((b.run ms).move m).filter.addresses ≠ [] → ((b.run ms).move m).desk.asked =
        .subscribe ((b.run ms).move m).filter :: (b.run ms).desk.asked)
  warranted : (b.run ms).cause? m = some .changes → b.Warranted ms
  /-- When the service turns to its timer that is enough. -/
  heeded : ∀ tick, (b.run ms).phase = .serving tick → (b.run ms).stimulus tick = some .tick →
    b.Warranted ms → (b.run ms).cause? (.task .service) = some .changes
  /-- After a cycle has begun, whatever its cause, it takes another change. -/
  quiet : ∀ earlier n later, ms = earlier ++ n :: later → ((b.run earlier).cause? n).isSome →
    Input.changes (((b.run earlier).move n).history later) = [] →
    (b.run ms).cause? m ≠ some .changes
  /-- As time goes on, the debounce time passes between any cycle and one that changes begin. -/
  apart : ∀ earlier n later, ms = earlier ++ n :: later → ((b.run earlier).cause? n).isSome →
    (b.run earlier).Forward (n :: later) → (b.run ms).cause? m = some .changes →
    (b.run earlier).desk.clock.now + b.settings.debounce ≤ (b.run ms).desk.clock.now

/-- Whatever happens in whatever order, changes fold into one cycle: it begins if a pair of contract
and signature has come or gone in the cycle before it, and only then, once the debounce time has
passed since that one connected, and with a filter for all that is registered by then. -/
theorem changes_fold (settings : Settings) (source : σ) (ledger : Ledger) (ms : List (Move σ))
    (m : Move σ) : (new settings source ledger).Debounced ms m := by
  have r : (new settings source ledger).Reached [] := .start settings source ledger
  generalize start : new settings source ledger = b at r
  have idle : b.leg = .idle := by rw [← start]; rfl
  have fares := (r.run ms).fares m
  refine ⟨fares.counted, ?_, r.warranted idle, ?_, ?_, ?_⟩
  · intro begun
    obtain ⟨k, cause⟩ := Option.isSome_iff_exists.1 begun
    rw [cause] at fares
    have covers := fares.began.covers (r.run ms)
    refine ⟨?_, fares.began.asked⟩
    simpa [history_append, history] using covers
  · rintro tick phase turn ⟨earlier, n, later, time, split, lasts, swayed, -⟩
    have looping : (b.run ms).leg = .looping tick := by simp [leg, phase]
    obtain ⟨earlier', n', later', time', split', lasts', stale_iff, -⟩ :=
      r.stale_iff_swayed idle looping
    obtain ⟨rfl, rfl, rfl⟩ := lasts.unique lasts' (split.symm.trans split')
    simp [cause?, phase, turn, stale_iff.2 swayed]
  · rintro earlier n later rfl begun quiet cause
    obtain ⟨earlier', n', later', time, split, lasts, swayed, -⟩ := r.warranted idle cause
    obtain ⟨mid, rfl, same⟩ := lasts.latest begun split
    rw [history_append, changes_append, List.append_eq_nil_iff, ← same] at quiet
    exact swayed.ne_nil quiet.2
  · rintro earlier n later rfl begun forward cause
    obtain ⟨earlier', n', later', time, split, lasts, -, connected, past⟩ := r.warranted idle cause
    obtain ⟨mid, rfl, same⟩ := lasts.latest begun split
    obtain ⟨c, ns, begins, rfl⟩ := mem_connections (connected ▸ List.mem_singleton_self time)
    obtain ⟨rfl, rest, rfl⟩ := List.cons_prefix_cons.1 begins
    rw [same, ← run_append] at past
    rw [← List.append_assoc, ← List.cons_append] at forward
    exact Nat.le_trans (Nat.add_le_add_right forward.le _) past

end Broadcaster

namespace Example

def asking (contract : Address) : Options := (Options.new contract .unit).addTopic 7 []

/-- Two more register, and the debounce time passes. -/
def folding : List (Move ScriptedChain) :=
  pooling ++ [.register keeper (asking 2), .register keeper (asking 3), .task .service,
    .clock ⟨1000, 1000⟩]

theorem folded : (start.run folding).cause? (.task .service) = some .changes ∧
    start.Warranted folding ∧
    ((start.run folding).move (.task .service)).filter = ⟨[1, 2, 3], [7]⟩ := by
  have folds : start.Debounced folding (.task .service) :=
    Broadcaster.changes_fold .standard _ .empty folding _
  have cause : (start.run folding).cause? (.task .service) = some .changes := by decide +kernel
  exact ⟨cause, folds.warranted cause, by decide +kernel⟩

end Example

end ChainHerald
