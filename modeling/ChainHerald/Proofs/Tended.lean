import ChainHerald.Proofs.Tails

/-!
# Broadcasters on a growing chain

As long as the node does no more than a growing chain does (`Move.Natural`), the subscription that
is on has an open stream of its own, and so has the next one while the cycle connects
(`Broadcaster.Tended`).
-/

namespace ChainHerald

/-- A move by which the node does no more than a growing chain does. -/
inductive Move.Natural : Move GrowingChain → Prop where
  | mine (logs : List Log) : Natural (.node (·.mine logs))
  | weather (failing : Option ProviderError) : Natural (.node fun c => { c with failing })
  | other {m : Move GrowingChain} (aside : ∀ f, m ≠ .node f) : Natural m

namespace Broadcaster

section

variable {σ : Type} [Source σ] {b b' : Broadcaster σ} {hs heard : List Input} {m : Move σ}

theorem connect_limits (b : Broadcaster σ) (lanes : List Nat) (live : Option Nat) :
    (b.connect lanes live).intake.limits = b.intake.limits := by
  obtain ⟨writers, lanes', same⟩ := b.connect_frame lanes live
  rw [same]

theorem beginCycle_limits (b : Broadcaster σ) :
    b.beginCycle.intake.limits = b.intake.limits := by
  rcases b.beginCycle_cases with ⟨-, eq⟩ | ⟨-, eq⟩ <;> rw [eq]
  · exact connect_limits _ [] none
  · rfl

theorem Engages.limits (g : b.Engages b') : b'.intake.limits = b.intake.limits := by
  cases g with
  | rests _ intake =>
    obtain ⟨lanes, desk, same⟩ := intake
    rw [same]
  | begins _ intake =>
    obtain ⟨desk, same⟩ := intake
    rw [beginCycle_limits, same]
  | resubscribe _ step | resize _ step | subscribed _ step =>
    obtain ⟨⟨source, desk, rfl⟩, -, -⟩ := Retry.step_repeats step
    rfl
  | connect _ step =>
    obtain ⟨⟨source, desk, rfl⟩, -, -⟩ := Retry.step_repeats step
    exact connect_limits _ _ _

theorem Goes.limits (free : b.desk.cancelled = false) (g : b.Goes b' heard) :
    b'.intake.limits = b.intake.limits := by
  cases g with
  | act acts => exact (acts.engages free).limits
  | fill fills =>
    cases fills with
    | quit | put | refused | read | send | range | exhaust | cut => rfl
    | fail =>
      simp only [Intake.finish, Intake.release, Intake.report]
      split <;> rfl
    | ask _ step | fetch _ step =>
      obtain ⟨⟨source, desk, rfl⟩, -, -⟩ := Retry.step_repeats step
      rfl
  | beside beside =>
    obtain ⟨source, desk, same⟩ := beside.intake
    rw [same]

theorem Reached.limits {ms : List (Move σ)} (r : b.Reached hs)
    (free : (b.run ms).desk.cancelled = false) :
    (b.run ms).intake.limits = b.intake.limits := by
  exact r.preserves (P := (·.intake.limits = b.intake.limits)) rfl ms free fun r before same m =>
    ((r.goes m).limits before).trans same

/-- What a move of the service makes of the subscription that is on and of the writers. -/
inductive HandsOver (b b' : Broadcaster σ) : Prop where
  | keeps (current : b'.current = b.current) (kept : b.intake.KeepsBut b'.intake none)
  | gives (current : b'.current = none) (kept : b.intake.KeepsBut b'.intake b.current)
  | replaces {request next} (phase : b.phase = .sizing request next)
      (current : b'.current = some next) (kept : b.intake.KeepsBut b'.intake b.current)

theorem keepsBut_connect {i : Intake σ} (kept : i.KeepsBut b.intake none) (lanes : List Nat)
    (live : Option Nat) : i.KeepsBut (b.connect lanes live).intake b.current := by
  have kept : i.KeepsBut b.intake b.current := fun n w _ => kept n w nofun
  unfold Broadcaster.connect
  cases on : b.current with
  | none => exact (on ▸ kept).trans (.of_eq rfl)
  | some lane => exact (on ▸ kept).trans ((b.intake.keepsBut_cancelLane lane).trans (.of_eq rfl))

theorem HandsOver.beginCycle {c : Broadcaster σ} (current : c.current = b.current)
    (kept : b.intake.KeepsBut c.intake none) : b.HandsOver c.beginCycle := by
  rcases c.beginCycle_cases with ⟨-, eq⟩ | ⟨-, eq⟩ <;> rw [eq]
  · refine .gives rfl ?_
    rw [← current]
    refine keepsBut_connect ?_ [] none
    exact kept.trans (.of_eq rfl)
  · exact .keeps current (kept.trans (.of_eq rfl))

theorem Engages.handsOver (laned : b.Laned) (g : b.Engages b') : b.HandsOver b' := by
  cases g with
  | rests current intake =>
    obtain ⟨lanes, desk, same⟩ := intake
    exact .keeps current (.of_eq (by rw [same]))
  | begins current intake =>
    obtain ⟨desk, same⟩ := intake
    exact .beginCycle current (.of_eq (by rw [same]))
  | resubscribe _ step | resize _ step =>
    obtain ⟨⟨source, desk, rfl⟩, -, -⟩ := Retry.step_repeats step
    exact .keeps rfl (.of_eq rfl)
  | @subscribed request feed i _ step =>
    obtain ⟨⟨source, desk, rfl⟩, -, -⟩ := Retry.step_repeats step
    exact .keeps rfl (laned.keepsBut_openLane (.live feed none false b.intake.cycle))
  | @connect request next latest i phase step =>
    obtain ⟨⟨source, desk, rfl⟩, -, -⟩ := Retry.step_repeats step
    refine .replaces phase rfl (keepsBut_connect ?_ _ (some next))
    exact laned.keepsBut_openLane _

end

variable {b b' : Broadcaster GrowingChain} {hs heard : List Input} {m : Move GrowingChain}
  {lane n feed : Nat} {f : Filter} {base : Nat} {put put' : Log → Prop}

/-! ## What the service does to the node side -/

theorem connect_source (b : Broadcaster GrowingChain) (lanes : List Nat) (live : Option Nat) :
    (b.connect lanes live).intake.source = b.intake.source := by
  obtain ⟨writers, lanes', same⟩ := b.connect_frame lanes live
  rw [same]

theorem beginCycle_source (b : Broadcaster GrowingChain) :
    b.beginCycle.intake.source = b.intake.source := by
  rcases b.beginCycle_cases with ⟨-, eq⟩ | ⟨-, eq⟩ <;> rw [eq]
  · exact connect_source _ [] none
  · rfl

/-- The service only ever opens subscriptions. -/
theorem Engages.opens (g : b.Engages b') : b.intake.source.Opens b'.intake.source := by
  cases g with
  | rests _ intake =>
    obtain ⟨lanes, desk, same⟩ := intake
    rw [same]
    exact .refl _
  | begins _ intake =>
    obtain ⟨desk, same⟩ := intake
    rw [beginCycle_source, same]
    exact .refl _
  | resubscribe _ step | resize _ step => exact Retry.step_opens step
  | subscribed _ step =>
    have opens := Retry.step_opens step
    exact opens
  | connect _ step =>
    have opens := Retry.step_opens step
    rw [connect_source]
    exact opens

theorem feeds_connect {lanes : List Nat} {live : Option Nat}
    (fed : (b.connect lanes live).intake.Feeds n feed) : b.intake.Feeds n feed := by
  obtain ⟨held, cancelled, cycle, fed⟩ := fed
  unfold connect at fed
  cases on : b.current with
  | none =>
    simp only [on] at fed
    exact ⟨_, _, _, fed⟩
  | some lane =>
    simp only [on, Intake.cancelLane] at fed
    split at fed
    next writer =>
      rcases Intake.get?_put fed with ⟨rfl, eq⟩ | ⟨-, before⟩
      · cases eq
        exact ⟨_, _, _, writer⟩
      · exact ⟨_, _, _, before⟩
    · exact ⟨_, _, _, fed⟩

theorem feeds_beginCycle (fed : b.beginCycle.intake.Feeds n feed) : b.intake.Feeds n feed := by
  rcases b.beginCycle_cases with ⟨-, eq⟩ | ⟨-, eq⟩ <;> rw [eq] at fed
  · have before := feeds_connect fed
    exact before
  · exact fed

/-- The request to subscribe is what it seems to be. -/
structure Asking (b : Broadcaster GrowingChain) : Prop where
  request : ∀ request, b.phase = .subscribing request → request.request = .subscribe b.filter
  honest : ∀ request, b.phase = .subscribing request → request.Honest fun _ => False

/-- A lane is fed as before, or by the subscription that has just been opened. -/
theorem Engages.feeds (g : b.Engages b') (asking : b.Asking) (fed : b'.intake.Feeds n feed) :
    b.intake.Feeds n feed ∨
      feed = b.intake.source.tails.length ∧ feed < b'.intake.source.tails.length := by
  cases g with
  | rests _ intake =>
    obtain ⟨lanes, desk, same⟩ := intake
    exact .inl ((Intake.feeds_congr (by rw [same])).1 fed)
  | begins _ intake =>
    obtain ⟨desk, same⟩ := intake
    exact .inl ((Intake.feeds_congr (by rw [same])).1 (feeds_beginCycle fed))
  | resubscribe _ step | resize _ step =>
    obtain ⟨⟨source, desk, rfl⟩, -, -⟩ := Retry.step_repeats step
    exact .inl fed
  | @subscribed request feed' i phase step =>
    have opened := (asking.honest request phase).step_subscribe (asking.request request phase) step
    obtain ⟨⟨source, desk, rfl⟩, -, -⟩ := Retry.step_repeats step
    obtain ⟨held, cancelled, cycle, fed⟩ := fed
    rcases Intake.get?_openLane fed with ⟨-, eq⟩ | ⟨-, before⟩
    · cases eq
      rcases opened with ⟨-, ⟨r, eq, -⟩⟩ | ⟨eq, done⟩
      · cases eq
      · cases done
        refine .inr ⟨rfl, ?_⟩
        have eq : source = _ := eq
        subst eq
        simp [Retry.start, Retry.ask, Source.ask, Intake.openLive, Intake.openLane]
    · exact .inl ⟨_, _, _, before⟩
  | @connect request next latest i phase step =>
    obtain ⟨⟨source, desk, rfl⟩, -, -⟩ := Retry.step_repeats step
    obtain ⟨held, cancelled, cycle, fed⟩ := feeds_connect fed
    rcases Intake.get?_openLane fed with ⟨-, eq⟩ | ⟨-, before⟩
    · cases eq
    · exact .inl ⟨_, _, _, before⟩

/-! ## Moves over a growing chain -/

/-- What a natural move can be. -/
inductive Proceeds (b : Broadcaster GrowingChain) :
    Broadcaster GrowingChain → List Input → Prop where
  | act {c : Broadcaster GrowingChain} {new : List Input} (acts : b.Acts c new) : Proceeds b c new
  | fill {n : Nat} {i : Intake GrowingChain} (fills : b.intake.Fills n i) :
      Proceeds b { b with intake := i } []
  | beside {c : Broadcaster GrowingChain} (beside : b.Beside c)
      (grows : b.intake.source.Grows c.intake.source) : Proceeds b c []

theorem Reached.proceeds (r : b.Reached hs) (natural : m.Natural) :
    b.Proceeds (b.move m) (b.takes m) := by
  by_cases service : m = .task .service
  · subst service
    exact .act b.service_acts
  rw [takes_outside service]
  by_cases lane : ∃ n, m = .task (.lane n)
  · obtain ⟨n, rfl⟩ := lane
    rcases b.lane_fills n with same | ⟨i, fills, eq⟩
    · rw [same]
      exact .beside (.refl b) .still
    · rw [eq]
      exact .fill fills
  · have other (n : Nat) : m ≠ .task (.lane n) := fun eq => lane ⟨n, eq⟩
    refine .beside (others_beside r.dormant service other) ?_
    cases natural with
    | mine logs => exact .mine logs
    | weather failing => exact .weather failing
    | other aside => exact move_source service other aside ▸ .still

/-- Nobody gives the lane up with the move: it is not the one that the next subscription
replaces. -/
structure Safe (b b' : Broadcaster GrowingChain) (lane : Nat) : Prop where
  stays : b.current = some lane → b'.current = some lane
  other : b.current = some lane → ∀ request, b.phase ≠ .sizing request lane

theorem Safe.kept (safe : b.Safe b' lane) (hands : b.HandsOver b') {w : Writer GrowingChain}
    (writer : b.intake.writers.get? lane = some w) : b'.intake.writers.get? lane = some w := by
  have kept (k : b.intake.KeepsBut b'.intake b.current) (away : b.current ≠ some lane) :
      b'.intake.writers.get? lane = some w := k lane w away writer
  cases hands with
  | keeps _ k => exact k lane w nofun writer
  | gives current k =>
    refine kept k fun on => ?_
    cases current.symm.trans (safe.stays on)
  | replaces phase current k =>
    refine kept k fun on => ?_
    cases current.symm.trans (safe.stays on)
    exact safe.other on _ phase

/-- A lane that is not given up gets whatever is mined. -/
theorem Proceeds.streams (p : b.Proceeds b' heard) (asking : b.Asking) (laned : b.Laned)
    (free : b.desk.cancelled = false) (safe : b.Safe b' lane)
    (s : b.intake.Streams lane f base put) :
    b'.intake.Streams lane f base fun l => put l ∨ b'.intake.InLane lane l := by
  cases p with
  | act acts =>
    obtain ⟨feed, held, tail, fed⟩ := s
    have opens := (acts.engages free).opens
    obtain ⟨cycle, writer⟩ := fed.writer
    have same := (safe.kept ((acts.engages free).handsOver laned) writer).trans writer.symm
    have s := fed.frame same (fed.opens opens) opens.mined ?_
    · exact s.mono fun _ => .inl
    · intro n feeds
      refine ((acts.engages free).feeds asking feeds).resolve_right ?_
      rintro ⟨rfl, -⟩
      simpa using fed.here
  | fill fills => exact s.fills fills laned free
  | beside beside grows =>
    obtain ⟨source, desk, same⟩ := beside.intake
    rw [same] at grows ⊢
    exact (s.grows grows).mono fun _ => .inl

/-- What holds of every subscription on a growing chain. -/
structure Tended (b : Broadcaster GrowingChain) : Prop where
  bound : ∀ n feed, b.intake.Feeds n feed → feed < b.intake.source.tails.length
  current : ∀ lane, b.current = some lane → ∃ f base, b.intake.Streams lane f base fun _ => True
  next : ∀ request lane, b.phase = .sizing request lane →
    b.current ≠ some lane ∧ ∃ f base, b.intake.Streams lane f base fun _ => True
  honest : ∀ request, b.phase = .subscribing request → request.Honest fun _ => False

/-- The lane that a new subscription gets is fed by nobody else, and nothing was mined above the
height of the chain. -/
theorem streams_subscribed (bound : ∀ n feed, b.intake.Feeds n feed →
      feed < b.intake.source.tails.length) (asking : b.Asking)
    {request : Retry GrowingChain Nat} {i : Intake GrowingChain}
    (phase : b.phase = .subscribing request) (step : request.step b.intake = some (.done feed, i)) :
    (Retry.start .latest (i.openLive feed).2).2.Streams i.lanes.fresh b.filter
      b.intake.source.height put := by
  have opened := (asking.honest request phase).step_subscribe (asking.request request phase) step
  obtain ⟨⟨source, desk, rfl⟩, -, -⟩ := Retry.step_repeats step
  rcases opened with ⟨-, ⟨r, eq, -⟩⟩ | ⟨eq, done⟩
  · cases eq
  cases done
  have eq : source = _ := eq
  subst eq
  refine ⟨_, none, ⟨b.filter, [], true⟩, ⟨b.intake.cycle, Table.get?_insert_self⟩,
    List.getElem?_concat_length, rfl, rfl, ?_, ?_⟩
  · rintro n ⟨held, cancelled, cycle, fed⟩
    rcases Intake.get?_openLane fed with ⟨here, -⟩ | ⟨-, before⟩
    · exact here
    · exact absurd (bound n _ ⟨_, _, _, before⟩) (Nat.lt_irrefl _)
  · intro l mined passes k block above
    obtain ⟨k', at_k', below⟩ := b.intake.source.grown l mined
    cases block.symm.trans at_k'
    exact absurd below (Nat.not_le.2 above)

theorem beginCycle_honest {request : Retry GrowingChain Nat} {good : Nat → Prop}
    (phase : b.beginCycle.phase = .subscribing request) : request.Honest good := by
  rcases b.beginCycle_cases with ⟨-, eq⟩ | ⟨-, eq⟩ <;> rw [eq] at phase
  · cases phase
  · cases phase
    exact Retry.honest_ask _ _ _

theorem Engages.honest (g : b.Engages b') (asking : b.Asking) {request : Retry GrowingChain Nat}
    (phase : b'.phase = .subscribing request) : request.Honest fun _ => False := by
  cases g with
  | rests _ _ rests =>
    rcases rests with same | ⟨other, -⟩
    · exact asking.honest request (same.symm.trans phase)
    · exact absurd phase (other request)
  | begins => exact beginCycle_honest phase
  | resubscribe on step =>
    cases phase
    rcases (asking.honest _ on).step_subscribe (asking.request _ on) step with
      ⟨-, ⟨r, eq, honest⟩⟩ | ⟨-, eq⟩
    · cases eq
      exact honest
    · cases eq
  | subscribed | resize | connect => cases phase

/-- A cycle that asks for the latest block has done so before, or it has just subscribed. -/
theorem Engages.sizing (g : b.Engages b') {request : Retry GrowingChain Nat}
    (phase : b'.phase = .sizing request lane) :
    b'.current = b.current ∧ ((∃ request, b.phase = .sizing request lane) ∨
      ∃ request feed i, b.phase = .subscribing request ∧
        request.step b.intake = some (.done feed, i) ∧ lane = i.lanes.fresh ∧
        b'.intake = (Retry.start .latest (i.openLive feed).2).2) := by
  cases g with
  | rests current _ rests =>
    rcases rests with same | ⟨-, other⟩
    · exact ⟨current, .inl ⟨request, same.symm.trans phase⟩⟩
    · exact absurd phase (other request lane)
  | @begins c =>
    rcases c.beginCycle_cases with ⟨-, eq⟩ | ⟨-, eq⟩ <;> rw [eq] at phase <;> cases phase
  | @subscribed request' feed i on step =>
    cases phase
    exact ⟨rfl, .inr ⟨request', feed, i, on, step, rfl, rfl⟩⟩
  | @resize request' request'' next i on step =>
    cases phase
    exact ⟨rfl, .inl ⟨request', on⟩⟩
  | resubscribe | connect => cases phase

theorem Tended.bound_step (t : b.Tended) (asking : b.Asking) (free : b.desk.cancelled = false)
    (p : b.Proceeds b' heard) :
    ∀ n feed, b'.intake.Feeds n feed → feed < b'.intake.source.tails.length := by
  intro n feed feeds
  cases p with
  | act acts =>
    rcases (acts.engages free).feeds asking feeds with before | ⟨-, new⟩
    · exact Nat.lt_of_lt_of_le (t.bound n feed before) (acts.engages free).opens.length_le
    · exact new
  | fill fills => exact Nat.lt_of_lt_of_le (t.bound n feed (fills.feeds feeds)) fills.mined.2.2
  | beside beside grows =>
    obtain ⟨source, desk, same⟩ := beside.intake
    rw [grows.length_eq]
    exact t.bound n feed ((Intake.feeds_congr (by rw [same])).1 feeds)

theorem Tended.asking (t : b.Tended) (tuned : b.Tuned) : b.Asking where
  request request phase := by
    have cycle := tuned.cycle
    rw [Cycle, phase] at cycle
    exact cycle.2
  honest := t.honest

theorem Tended.safe (t : b.Tended) (on : b.current ≠ some lane ∨ b'.current = some lane) :
    b.Safe b' lane where
  stays was := on.resolve_left (absurd was)
  other was request phase := (t.next request lane phase).1 was

/-- The subscription that is on was on before, or it is the one that the cycle has opened. -/
theorem Proceeds.current (p : b.Proceeds b' heard) (laned : b.Laned)
    (free : b.desk.cancelled = false) (on : b'.current = some lane) :
    b.current = some lane ∨ ∃ request, b.phase = .sizing request lane := by
  cases p with
  | act acts =>
    cases (acts.engages free).handsOver laned with
    | keeps current => exact .inl (current.symm.trans on)
    | gives current => cases current.symm.trans on
    | @replaces request next phase current =>
      cases current.symm.trans on
      exact .inr ⟨request, phase⟩
  | fill => exact .inl on
  | beside beside => exact .inl (beside.current.symm.trans on)

/-- As `Engages.sizing`. -/
theorem Proceeds.sizing (p : b.Proceeds b' heard) (free : b.desk.cancelled = false)
    {request : Retry GrowingChain Nat} (phase : b'.phase = .sizing request lane) :
    b'.current = b.current ∧ ((∃ request, b.phase = .sizing request lane) ∨
      ∃ request feed i, b.phase = .subscribing request ∧
        request.step b.intake = some (.done feed, i) ∧ lane = i.lanes.fresh ∧
        b'.intake = (Retry.start .latest (i.openLive feed).2).2) := by
  cases p with
  | act acts => exact (acts.engages free).sizing phase
  | fill => exact ⟨rfl, .inl ⟨request, phase⟩⟩
  | beside beside =>
    refine ⟨beside.current, .inl ⟨request, ?_⟩⟩
    rcases beside.phase with same | ⟨-, stopped | ⟨ready, gathering⟩⟩
    · exact same ▸ phase
    · cases stopped.symm.trans phase
    · cases gathering.symm.trans phase

theorem Proceeds.honest (p : b.Proceeds b' heard) (asking : b.Asking)
    (free : b.desk.cancelled = false) {request : Retry GrowingChain Nat}
    (phase : b'.phase = .subscribing request) : request.Honest fun _ => False := by
  cases p with
  | act acts => exact (acts.engages free).honest asking phase
  | fill => exact asking.honest request phase
  | beside beside =>
    rcases beside.phase with same | ⟨-, stopped | ⟨ready, gathering⟩⟩
    · exact asking.honest request (same ▸ phase)
    · cases stopped.symm.trans phase
    · cases gathering.symm.trans phase

theorem Tended.step (t : b.Tended) (tuned : b.Tuned) (laned : b.Laned)
    (free : b.desk.cancelled = false) (p : b.Proceeds b' heard) : b'.Tended := by
  have asking := t.asking tuned
  have still {lane : Nat} (safe : b.Safe b' lane)
      (s : ∃ f base, b.intake.Streams lane f base fun _ => True) :
      ∃ f base, b'.intake.Streams lane f base fun _ => True := by
    obtain ⟨f, base, s⟩ := s
    exact ⟨f, base, (p.streams asking laned free safe s).mono fun _ _ => trivial⟩
  refine ⟨t.bound_step asking free p, fun lane on => ?_, fun request lane phase => ?_,
    fun request phase => p.honest asking free phase⟩
  · rcases p.current laned free on with before | ⟨request, phase⟩
    · exact still (t.safe (.inr on)) (t.current lane before)
    · obtain ⟨other, s⟩ := t.next request lane phase
      exact still (t.safe (.inl other)) s
  · obtain ⟨current, ⟨request', before⟩ | ⟨request', feed, i, on, step, rfl, eq⟩⟩ :=
      p.sizing free phase
    · obtain ⟨other, s⟩ := t.next request' lane before
      exact ⟨current ▸ other, still (t.safe (.inl other)) s⟩
    · refine ⟨fun on => ?_, b.filter, _, eq ▸ streams_subscribed t.bound asking on step⟩
      -- the new lane's number is above all others
      obtain ⟨f, base, feed', held, tail, fed⟩ := t.current _ (current.symm.trans on)
      obtain ⟨cycle, writer⟩ := fed.writer
      obtain ⟨c, there, -⟩ := laned.channel _ _ writer
      obtain ⟨⟨source, desk, rfl⟩, -, -⟩ := Retry.step_repeats step
      exact absurd (laned.fresh _ c there) (Nat.lt_irrefl _)

theorem tended_new (settings : Settings) (chain : GrowingChain) (ledger : Ledger) :
    (new settings chain ledger).Tended where
  bound n feed := by
    rintro ⟨held, cancelled, cycle, fed⟩
    cases fed
  current := nofun
  next := nofun
  honest := nofun

/-- The state after a run in which the node does what a growing chain does. -/
structure Grown (b : Broadcaster GrowingChain) : Prop where
  reached : ∃ hs, b.Reached hs
  tended : b.desk.cancelled = false → b.Tended

theorem Grown.move (g : b.Grown) (natural : m.Natural) : (b.move m).Grown := by
  obtain ⟨hs, reached⟩ := g.reached
  refine ⟨⟨_, reached.move m⟩, fun free => ?_⟩
  have before := reached.free free
  exact (g.tended before).step reached.tuned (reached.laned before) before
    (reached.proceeds natural)

theorem Grown.run (g : b.Grown) {ms : List (Move GrowingChain)} (natural : ∀ m ∈ ms, m.Natural) :
    (b.run ms).Grown := by
  induction ms generalizing b with
  | nil => exact g
  | cons m ms ih =>
    obtain ⟨first, later⟩ := List.forall_mem_cons.1 natural
    exact ih (g.move first) later

theorem grown_new (settings : Settings) (chain : GrowingChain) (ledger : Ledger) :
    (new settings chain ledger).Grown :=
  ⟨⟨[], .start settings chain ledger⟩, fun _ => tended_new settings chain ledger⟩

end Broadcaster

end ChainHerald
