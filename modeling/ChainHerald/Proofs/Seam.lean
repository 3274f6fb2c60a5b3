import ChainHerald.Proofs.Tended

/-!
# Where backfill and live logs meet

While a cycle connects, the subscription before it stays open. Once its own subscription is open, it
asks for the latest block and backfills up to there, so whatever is mined from the start of the
backfill on gets into one of its two lanes (`Broadcaster.no_gap_at_seam`).
-/

namespace ChainHerald

open GrowingChain (Tail)

namespace Broadcaster

variable {b b' : Broadcaster GrowingChain} {hs heard : List Input} {m : Move GrowingChain}
  {lane : Nat} {f : Filter} {base : Nat} {put : Log → Prop}

/-! ## One cycle -/

/-- What a cycle goes by while it connects. -/
structure SameCycle (b b' : Broadcaster GrowingChain) : Prop where
  filter : b'.filter = b.filter
  current : b'.current = b.current
  deep : b'.deepStart = b.deepStart

/-- A cycle that subscribes goes on doing so, or its subscription is open and it asks for the latest
block. -/
theorem Proceeds.subscribing (p : b.Proceeds b' heard) (free : b.desk.cancelled = false)
    {request : Retry GrowingChain Nat} (phase : b.phase = .subscribing request) :
    b.SameCycle b' ∧ ((∃ request, b'.phase = .subscribing request) ∨
      ∃ feed i, request.step b.intake = some (.done feed, i) ∧
        b'.phase = .sizing (Retry.start .latest (i.openLive feed).2).1 i.lanes.fresh ∧
        b'.intake = (Retry.start .latest (i.openLive feed).2).2) := by
  cases p with
  | act acts =>
    cases acts with
    | wait => exact ⟨⟨rfl, rfl, rfl⟩, .inl ⟨_, phase⟩⟩
    | stop cancelled | abandon _ cancelled => simp [free] at cancelled
    | resubscribe => exact ⟨⟨rfl, rfl, rfl⟩, .inl ⟨_, rfl⟩⟩
    | subscribed on step =>
      cases on.symm.trans phase
      exact ⟨⟨rfl, rfl, rfl⟩, .inr ⟨_, _, step, rfl, rfl⟩⟩
    | apply on | first on | look on | fail on | replay on | noHead on | head on | log on | stale on
    | tick on | close on | serve on | resize on | connect on => simp [phase] at on
  | fill => exact ⟨⟨rfl, rfl, rfl⟩, .inl ⟨_, phase⟩⟩
  | beside beside =>
    refine ⟨⟨beside.filter, beside.current, beside.deepStart⟩, .inl ⟨request, ?_⟩⟩
    rcases beside.phase with same | ⟨idle, -⟩
    · exact same.trans phase
    · cases idle.symm.trans phase

/-- An answer that is under way was the height of the chain at some time since `base` was. -/
def Sizes (request : Retry GrowingChain Nat) (base : Nat) (c : GrowingChain) : Prop :=
  request.Honest fun latest => base ≤ latest ∧ latest ≤ c.height

theorem Sizes.grows {request : Retry GrowingChain Nat} {c c' : GrowingChain}
    (sizes : Sizes request base c) (le : c.height ≤ c'.height) : Sizes request base c' :=
  sizes.mono fun _ within => ⟨within.1, Nat.le_trans within.2 le⟩

theorem Sizes.step {request : Retry GrowingChain Nat} {i i' : Intake GrowingChain}
    {t : Turn (Retry GrowingChain Nat) Nat} (sizes : Sizes request base i.source)
    (asks : request.request = .latest) (le : base ≤ i.source.height)
    (step : request.step i = some (t, i')) : i'.source = i.source ∧
      ((∃ r, t = .going r ∧ Sizes r base i'.source) ∨
        ∃ latest, t = .done latest ∧ base ≤ latest ∧ latest ≤ i'.source.height) := by
  have query : GrowingChain.answer request.request i.source =
      (.going ⟨request.request, some i.source.height⟩, i.source) := by
    rw [asks]
    rfl
  obtain ⟨same, answered⟩ := sizes.step_query query ⟨le, Nat.le_refl _⟩ step
  rw [same]
  exact ⟨rfl, answered⟩

theorem Proceeds.height_le (p : b.Proceeds b' heard) (free : b.desk.cancelled = false) :
    b.intake.source.height ≤ b'.intake.source.height := by
  cases p with
  | act acts => exact Nat.le_of_eq (acts.engages free).opens.height.symm
  | fill fills => exact Nat.le_of_eq fills.mined.2.1.symm
  | beside _ grows => exact grows.height_le

/-- A cycle that asks for the latest block goes on doing so, or it connects with an answer from
after it had subscribed. -/
theorem Proceeds.connects (p : b.Proceeds b' heard) (tuned : b.Tuned)
    (free : b.desk.cancelled = false) {request : Retry GrowingChain Nat} {next : Nat}
    (phase : b.phase = .sizing request next) (sizes : Sizes request base b.intake.source)
    (le : base ≤ b.intake.source.height) :
    b.SameCycle b' ∧ (∃ request, b'.phase = .sizing request next ∧
      Sizes request base b'.intake.source) ∨
    ∃ lane latest tick, base ≤ latest ∧ latest ≤ b'.intake.source.height ∧
      b.OpensFrom b' (b.deepStart.getD (latest - b.intake.limits.depth)) lane latest ∧
      b'.filter = b.filter ∧ b'.current = some next ∧ b'.phase = .serving tick := by
  have asks : request.request = .latest := by
    have cycle := tuned.cycle
    rw [Cycle, phase] at cycle
    exact cycle.2.1
  have stays (same : b.SameCycle b') (on : b'.phase = b.phase) :
      b.SameCycle b' ∧ ∃ request, b'.phase = .sizing request next ∧
        Sizes request base b'.intake.source :=
    ⟨same, request, on.trans phase, sizes.grows (p.height_le free)⟩
  cases p with
  | act acts =>
    cases acts with
    | wait => exact .inl (stays ⟨rfl, rfl, rfl⟩ rfl)
    | stop cancelled | abandon _ cancelled => simp [free] at cancelled
    | resize on step =>
      cases on.symm.trans phase
      obtain ⟨-, ⟨r, eq, sizes'⟩ | ⟨a, eq, -⟩⟩ := sizes.step asks le step
      · cases eq
        exact .inl ⟨⟨rfl, rfl, rfl⟩, _, rfl, sizes'⟩
      · cases eq
    | @connect _ _ latest i on step =>
      cases on.symm.trans phase
      obtain ⟨-, ⟨r, eq, -⟩ | ⟨a, eq, above, below⟩⟩ := sizes.step asks le step
      · cases eq
      · cases eq
        refine .inr ⟨_, latest, _, above, ?_, opensFrom_connect phase step, rfl, rfl, rfl⟩
        rw [connect_source]
        exact below
    | apply on | first on | look on | fail on | replay on | noHead on | head on | log on | stale on
    | tick on | close on | serve on | resubscribe on | subscribed on => simp [phase] at on
  | fill => exact .inl (stays ⟨rfl, rfl, rfl⟩ rfl)
  | beside beside =>
    refine .inl (stays ⟨beside.filter, beside.current, beside.deepStart⟩ ?_)
    rcases beside.phase with same | ⟨idle, -⟩
    · exact same
    · cases idle.symm.trans phase

/-- In its loop the service leaves the subscription that is on alone, for as long as the cycle is
on. -/
theorem Proceeds.loops (p : b.Proceeds b' heard) (free : b.desk.cancelled = false)
    (on : b.Looping) (same : b'.intake.cycle = b.intake.cycle) :
    b'.Looping ∧ b'.current = b.current := by
  have began {c : Broadcaster GrowingChain} (same : c.beginCycle.intake.cycle = b.intake.cycle)
      (cycle : c.intake.cycle = b.intake.cycle) : False := by
    have next := (beginCycle_renews cycle).cycle
    omega
  cases p with
  | act acts =>
    cases acts with
    | wait => exact ⟨on, rfl⟩
    | stop cancelled | abandon _ cancelled => simp [free] at cancelled
    | apply phase => exact ⟨on, rfl⟩
    | noHead phase => exact ⟨on, rfl⟩
    | fail => exact (began same rfl).elim
    | replay => exact (began same rfl).elim
    | stale => exact (began same rfl).elim
    | tick | close => exact ⟨.inl ⟨_, rfl⟩, rfl⟩
    | serve => exact ⟨.inr ⟨_, _, rfl⟩, rfl⟩
    | @head tick h _ heads =>
      obtain ⟨_ | p, e, d⟩ := b.herald.onHead b.desk h
      · exact ⟨.inl ⟨_, rfl⟩, rfl⟩
      · exact ⟨.inr ⟨_, _, rfl⟩, rfl⟩
    | @log tick l lanes =>
      obtain ⟨_ | p, e, d⟩ := b.herald.onLog b.desk l
      · exact ⟨.inl ⟨_, rfl⟩, rfl⟩
      · exact ⟨.inr ⟨_, _, rfl⟩, rfl⟩
    | look phase | first phase | resubscribe phase | subscribed phase | resize phase
    | connect phase =>
      rcases on with ⟨_, on⟩ | ⟨_, _, on⟩ <;> simp [phase] at on
  | fill => exact ⟨on, rfl⟩
  | beside beside =>
    refine ⟨?_, beside.current⟩
    rcases beside.phase with same | ⟨idle, -⟩
    · simpa [Looping, same] using on
    · rcases on with ⟨_, on⟩ | ⟨_, _, on⟩ <;> simp [idle] at on

theorem Proceeds.fetches {lo hi : Nat} (p : b.Proceeds b' heard) (laned : b.Laned)
    (free : b.desk.cancelled = false) (s : b.intake.Fetches lane f lo hi put) :
    b'.intake.Fetches lane f lo hi fun l => put l ∨ b'.intake.InLane lane l := by
  cases p with
  | act acts =>
    exact (s.spares (acts.spares laned free) (acts.engages free).opens).mono fun _ => .inl
  | fill fills => exact s.fills fills laned free
  | beside beside grows =>
    obtain ⟨source, desk, same⟩ := beside.intake
    rw [same] at grows ⊢
    exact (s.grows grows).mono fun _ => .inl

end Broadcaster

namespace Intake

variable {i : Intake GrowingChain} {lane : Nat} {f : Filter} {base : Nat} {put : Log → Prop}
  {l : Log} {k : Nat}

/-- The lane is fed by an open subscription and is not cancelled. -/
def Subscribed (i : Intake GrowingChain) (lane : Nat) : Prop :=
  ∃ (feed : Nat) (held : Option Log) (cycle : Nat) (tail : Tail),
    i.writers.get? lane = some (.live feed held false cycle) ∧
    i.source.tails[feed]? = some tail ∧ tail.isOpen = true

/-- The log is on its way to the lane, with the subscription or in hand. -/
def Carries (i : Intake GrowingChain) (lane : Nat) (l : Log) : Prop :=
  ∃ (feed : Nat) (held : Option Log) (cycle : Nat) (tail : Tail),
    i.writers.get? lane = some (.live feed held false cycle) ∧
    i.source.tails[feed]? = some tail ∧ (l ∈ tail.ahead ∨ held = some l)

theorem Streams.subscribed (s : i.Streams lane f base put) : i.Subscribed lane := by
  obtain ⟨feed, held, tail, fed⟩ := s
  obtain ⟨cycle, writer⟩ := fed.writer
  exact ⟨feed, held, cycle, tail, writer, fed.here, fed.isOpen⟩

theorem Streams.carries {os : List Nat} (s : i.Streams lane f base put) (h : i.Laned os)
    (mined : l ∈ i.source.mined) (passes : f.passes l = true) (block : l.block = some k)
    (above : base < k) : i.Carries lane l ∧ i.Active lane ∨ put l := by
  obtain ⟨feed, held, tail, fed⟩ := s
  obtain ⟨cycle, writer⟩ := fed.writer
  rcases fed.reaches l mined passes k block above with ahead | rfl | before
  · exact .inl ⟨⟨feed, held, cycle, tail, writer, fed.here, .inl ahead⟩,
      fed.active h (.inl (List.ne_nil_of_mem ahead))⟩
  · exact .inl ⟨⟨feed, some l, cycle, tail, writer, fed.here, .inr rfl⟩, fed.active h (.inr nofun)⟩
  · exact .inr before

end Intake

namespace Broadcaster

variable {b b' : Broadcaster GrowingChain} {hs : List Input} {m : Move GrowingChain}
  {ms : List (Move GrowingChain)} {lane : Nat} {l : Log}

/-- The log was in the lane at some time of the run. -/
def Took (b : Broadcaster GrowingChain) (ms : List (Move GrowingChain)) (lane : Nat) (l : Log) :
    Prop :=
  ∃ earlier later, ms = earlier ++ later ∧ (b.run earlier).intake.InLane lane l

/-- The subscription that is on to begin with is open at every time of the run. -/
def HoldsOn (b : Broadcaster GrowingChain) (ms : List (Move GrowingChain)) : Prop :=
  ∀ lane, b.current = some lane → ∀ earlier later, ms = earlier ++ later →
    (b.run earlier).intake.Subscribed lane

theorem Took.concat (took : b.Took ms lane l ∨ ((b.run ms).move m).intake.InLane lane l) :
    b.Took (ms ++ [m]) lane l := by
  rcases took with ⟨earlier, later, rfl, here⟩ | here
  · exact ⟨earlier, later ++ [m], List.append_assoc .., here⟩
  · exact ⟨ms ++ [m], [], (List.append_nil _).symm, run_concat b ms m ▸ here⟩

theorem HoldsOn.concat (held : b.HoldsOn ms)
    (still : ∀ lane, b.current = some lane → ((b.run ms).move m).intake.Subscribed lane) :
    b.HoldsOn (ms ++ [m]) := by
  intro lane on earlier later split
  rcases List.eq_nil_or_concat later with rfl | ⟨before, last, rfl⟩
  · rw [List.append_nil] at split
    rw [← split, run_concat]
    exact still lane on
  · rw [List.concat_eq_append, ← List.append_assoc] at split
    exact held lane on earlier before (List.append_inj_left' split rfl)

theorem Tended.subscribed (t : b.Tended) (on : b.current = some lane) :
    b.intake.Subscribed lane := by
  obtain ⟨f, base, s⟩ := t.current lane on
  exact s.subscribed

/-- The move connects the cycle: its subscription is open, and so is its backfill. Until then the
subscription before it was. -/
structure Joins (b : Broadcaster GrowingChain) (earlier : List (Move GrowingChain))
    (m : Move GrowingChain) (backfill live latest : Nat) : Prop where
  held : b.HoldsOn earlier
  opened : (b.run earlier).OpensFrom ((b.run earlier).move m)
    (b.deepStart.getD (latest - b.intake.limits.depth)) backfill latest
  current : ((b.run earlier).move m).current = some live
  subscribed : ((b.run earlier).move m).intake.Subscribed live

/-- How far a cycle has come. -/
inductive Stage (b : Broadcaster GrowingChain) (ms : List (Move GrowingChain)) : Prop where
  | subscribing {request} (same : b.SameCycle (b.run ms)) (held : b.HoldsOn ms)
      (phase : (b.run ms).phase = .subscribing request)
  | sizing {request next base} (same : b.SameCycle (b.run ms)) (held : b.HoldsOn ms)
      (phase : (b.run ms).phase = .sizing request next)
      (sizes : Sizes request base (b.run ms).intake.source)
      (le : base ≤ (b.run ms).intake.source.height)
      (streams : (b.run ms).intake.Streams next b.filter base (b.Took ms next))
  | joined {earlier m later backfill live latest base} (split : ms = earlier ++ m :: later)
      (joins : b.Joins earlier m backfill live latest) (loops : (b.run ms).Looping)
      (current : (b.run ms).current = some live) (le : base ≤ latest)
      (streams : (b.run ms).intake.Streams live b.filter base (b.Took ms live))
      (fetches : (b.run ms).intake.Fetches backfill b.filter
        (min (b.deepStart.getD (latest - b.intake.limits.depth)) latest) latest
        (b.Took ms backfill))

theorem SameCycle.trans {b'' : Broadcaster GrowingChain} (h : b.SameCycle b')
    (h' : b'.SameCycle b'') : b.SameCycle b'' :=
  ⟨h'.filter.trans h.filter, h'.current.trans h.current, h'.deep.trans h.deep⟩

/-- The blocks of a backfill that has just opened are all to be asked for. -/
theorem OpensFrom.fetches {c : Broadcaster GrowingChain} {start backfill latest : Nat}
    {put : Log → Prop} (opened : b.OpensFrom c start backfill latest)
    (below : latest ≤ c.intake.source.height) :
    c.intake.Fetches backfill c.filter (min start latest) latest put := by
  obtain ⟨batch, writer⟩ := opened.writer
  refine ⟨below, fun l _ _ k _ above below => .inl ⟨_, writer, rfl, .inl ?_⟩⟩
  exact Ranges.left_between above below

/-- A natural move of a broadcaster that nobody closes. -/
structure Onward (b : Broadcaster GrowingChain) (m : Move GrowingChain) : Prop where
  proceeds : b.Proceeds (b.move m) (b.takes m)
  free : b.desk.cancelled = false
  tuned : b.Tuned
  laned : b.Laned
  tended : b.Tended
  after : (b.move m).Tended

theorem Grown.onward (grown : b.Grown) (natural : m.Natural)
    (free : (b.move m).desk.cancelled = false) : b.Onward m := by
  obtain ⟨hs, reached⟩ := grown.reached
  have before := reached.free free
  exact ⟨reached.proceeds natural, before, reached.tuned, reached.laned before,
    grown.tended before, (grown.move natural).tended free⟩

theorem Onward.streams {f : Filter} {base : Nat} (o : (b.run ms).Onward m)
    (safe : (b.run ms).Safe ((b.run ms).move m) lane)
    (s : (b.run ms).intake.Streams lane f base (b.Took ms lane)) :
    ((b.run ms).move m).intake.Streams lane f base (b.Took (ms ++ [m]) lane) :=
  (o.proceeds.streams (o.tended.asking o.tuned) o.laned o.free safe s).mono fun _ => Took.concat

theorem Onward.holdsOn (o : (b.run ms).Onward m) (same : b.SameCycle ((b.run ms).move m))
    (held : b.HoldsOn ms) : b.HoldsOn (ms ++ [m]) :=
  held.concat fun _ on => o.after.subscribed (same.current.trans on)

theorem Onward.subscribing (o : (b.run ms).Onward m) (same : b.SameCycle (b.run ms))
    (held : b.HoldsOn ms) {request : Retry GrowingChain Nat}
    (phase : (b.run ms).phase = .subscribing request) : b.Stage (ms ++ [m]) := by
  have here := run_concat b ms m
  obtain ⟨still, ⟨r, on⟩ | ⟨feed, i, step, on, intake⟩⟩ := o.proceeds.subscribing o.free phase
  · exact .subscribing (here ▸ same.trans still) (o.holdsOn (same.trans still) held) (here ▸ on)
  · have streams : ((b.run ms).move m).intake.Streams i.lanes.fresh (b.run ms).filter
        (b.run ms).intake.source.height (b.Took (ms ++ [m]) i.lanes.fresh) :=
      intake ▸ streams_subscribed o.tended.bound (o.tended.asking o.tuned) phase step
    rw [← here, same.filter] at streams
    have le := o.proceeds.height_le o.free
    exact .sizing (here ▸ same.trans still) (o.holdsOn (same.trans still) held) (here ▸ on)
      (Retry.honest_ask _ _ _) (here ▸ le) streams

theorem Onward.sizing {request : Retry GrowingChain Nat} {next base : Nat}
    (o : (b.run ms).Onward m) (same : b.SameCycle (b.run ms)) (held : b.HoldsOn ms)
    (limits : (b.run ms).intake.limits = b.intake.limits)
    (phase : (b.run ms).phase = .sizing request next)
    (sizes : Sizes request base (b.run ms).intake.source)
    (le : base ≤ (b.run ms).intake.source.height)
    (streams : (b.run ms).intake.Streams next b.filter base (b.Took ms next)) :
    b.Stage (ms ++ [m]) := by
  have here := run_concat b ms m
  obtain ⟨other, -⟩ := o.tended.next _ _ phase
  have streams' := o.streams (o.tended.safe (.inl other)) streams
  rcases o.proceeds.connects o.tuned o.free phase sizes le with
    ⟨still, r, on, sizes'⟩ | ⟨backfill, latest, tick, above, below, opened, filter, current, on⟩
  · have le' := Nat.le_trans le (o.proceeds.height_le o.free)
    exact .sizing (here ▸ same.trans still) (o.holdsOn (same.trans still) held) (here ▸ on)
      (here ▸ sizes') (here ▸ le') (here ▸ streams')
  · rw [limits, same.deep] at opened
    have fetches : ((b.run ms).move m).intake.Fetches backfill ((b.run ms).move m).filter
        (min (b.deepStart.getD (latest - b.intake.limits.depth)) latest) latest
        (b.Took (ms ++ [m]) backfill) := opened.fetches below
    rw [filter, same.filter] at fetches
    exact .joined (rfl : ms ++ [m] = ms ++ m :: []) ⟨held, opened, current, streams'.subscribed⟩
      (here ▸ .inl ⟨tick, on⟩) (here ▸ current) above (here ▸ streams') (here ▸ fetches)

/-- While its cycle is on, a broadcaster goes on with it. -/
theorem Stage.step (stage : b.Stage ms) (grown : b.Grown) (natural : ∀ x ∈ ms, x.Natural)
    (last : m.Natural) (free : ((b.run ms).move m).desk.cancelled = false)
    (same : ((b.run ms).move m).intake.cycle = (b.run ms).intake.cycle) :
    b.Stage (ms ++ [m]) := by
  have o := (grown.run natural).onward last free
  cases stage with
  | subscribing cycle held phase => exact o.subscribing cycle held phase
  | sizing cycle held phase sizes le streams =>
    obtain ⟨hs, reached⟩ := grown.reached
    exact o.sizing cycle held (reached.limits o.free) phase sizes le streams
  | @joined earlier m' later backfill live latest base split joins loops current le streams
      fetches =>
    obtain ⟨loops', current'⟩ := o.proceeds.loops o.free loops same
    have streams' := o.streams (o.tended.safe (.inr (current'.trans current))) streams
    have fetches' := (o.proceeds.fetches o.laned o.free fetches).mono fun _ => Took.concat
    have split' : ms ++ [m] = earlier ++ m' :: (later ++ [m]) := by
      rw [split, List.append_assoc, List.cons_append]
    have here := run_concat b ms m
    exact .joined split' joins (here ▸ loops') (here ▸ current'.trans current) le (here ▸ streams')
      (here ▸ fetches')

theorem Grown.stage (grown : b.Grown) {request : Retry GrowingChain Nat}
    (phase : b.phase = .subscribing request) (natural : ∀ m ∈ ms, m.Natural)
    (free : (b.run ms).desk.cancelled = false) (same : (b.run ms).intake.cycle = b.intake.cycle) :
    b.Stage ms := by
  obtain ⟨hs, reached⟩ := grown.reached
  -- the stage is about the run so far, so the induction adds moves at its end
  induction ms using List.reverseRecOn with
  | nil =>
    refine .subscribing ⟨rfl, rfl, rfl⟩ (fun lane on earlier later split => ?_) phase
    obtain ⟨rfl, -⟩ := List.append_eq_nil_iff.1 split.symm
    exact (grown.tended free).subscribed on
  | append_singleton ms m ih =>
    rw [run_concat] at free same
    have sooner (x : Move GrowingChain) (mem : x ∈ ms) : x.Natural :=
      natural x (List.mem_append_left _ mem)
    have reached' := reached.run ms
    have before := reached'.free free
    have above := reached.cycle_le before
    have below := (reached'.goes m).cycle_le before
    have cycle : (b.run ms).intake.cycle = b.intake.cycle := by omega
    exact (ih sooner before cycle).step grown sooner (natural m (by simp)) free
      (same.trans cycle.symm)

/-- The cycle connects and the subscription before it is open; or it has connected, and every log
that passes its filter and is from the first block of its backfill on has been in one of its two
lanes or is under way there. What is under way moves, unless there is no room in the lane or a timer
has not run out. -/
def Bridges (b : Broadcaster GrowingChain) (ms : List (Move GrowingChain)) : Prop :=
  (b.run ms).Connects b.deepStart ∧ b.HoldsOn ms ∨
  ∃ earlier m later backfill live latest, ms = earlier ++ m :: later ∧
    b.Joins earlier m backfill live latest ∧ (b.run ms).intake.Subscribed live ∧
    ∀ l ∈ (b.run ms).intake.source.mined, b.filter.passes l = true → ∀ k, l.block = some k →
      min (b.deepStart.getD (latest - b.intake.limits.depth)) latest ≤ k →
      b.Took ms backfill l ∨ b.Took ms live l ∨
        (b.run ms).intake.Owes backfill b.filter l k ∧ (b.run ms).intake.Active backfill ∨
        (b.run ms).intake.Carries live l ∧ (b.run ms).intake.Active live

/-- Whenever blocks are mined and however often requests fail, a cycle that subscribes leaves no gap
between its backfill and its live logs, and the subscription before it is given up only when both
are open. -/
theorem no_gap_at_seam (settings : Settings) (chain : GrowingChain) (ledger : Ledger)
    {past ms : List (Move GrowingChain)} (natural : ∀ m ∈ past ++ ms, m.Natural)
    {request : Retry GrowingChain Nat}
    (on : ((new settings chain ledger).run past).phase = .subscribing request)
    (free : (((new settings chain ledger).run past).run ms).desk.cancelled = false)
    (same : (((new settings chain ledger).run past).run ms).intake.cycle =
      ((new settings chain ledger).run past).intake.cycle) :
    ((new settings chain ledger).run past).Bridges ms := by
  have grown := (grown_new settings chain ledger).run fun m mem =>
    natural m (List.mem_append_left ms mem)
  have later (m : Move GrowingChain) (mem : m ∈ ms) : m.Natural :=
    natural m (List.mem_append_right past mem)
  cases grown.stage on later free same with
  | subscribing cycle held phase => exact .inl ⟨⟨cycle.deep, .inl ⟨_, phase⟩⟩, held⟩
  | sizing cycle held phase => exact .inl ⟨⟨cycle.deep, .inr ⟨_, _, phase⟩⟩, held⟩
  | @joined _ _ _ _ _ latest _ split joins _ _ le streams fetches =>
    refine .inr ⟨_, _, _, _, _, _, split, joins, streams.subscribed, ?_⟩
    intro l mined passes k block above
    obtain ⟨hs, reached⟩ := grown.reached
    have laned := (reached.run ms).laned free
    by_cases below : k ≤ latest
    · rcases fetches.brings l mined passes k block above below with owes | took
      · exact .inr (.inr (.inl ⟨owes, owes.active laned⟩))
      · exact .inl took
    · have higher := Nat.lt_of_le_of_lt le (Nat.lt_of_not_le below)
      rcases streams.carries laned mined passes block higher with carries | took
      · exact .inr (.inr (.inr carries))
      · exact .inr (.inl took)

end Broadcaster

namespace Example

/-! A second cycle, of which the first request fails. A block is mined before every request and
every answer. -/

def oneByOne : Settings := { Settings.standard with batch := 1 }

def growing : Broadcaster GrowingChain := .new oneByOne (.empty 5) .empty

/-- Until the second cycle begins. -/
def rejoining : List (Move GrowingChain) :=
  [.start, .register keeper options] ++ List.replicate 5 (.task .service) ++
    [.replay 6, .task .service]

def mineOne : Move GrowingChain := .node (·.mine [log])

def connecting : List (Move GrowingChain) :=
  [.node fun c => { c with failing := some .timeout }, .task .service,
    .node fun c => { c with failing := none }, .clock ⟨1000, 1000⟩, mineOne, .task .service,
    mineOne, .task .service, mineOne, .task .service, mineOne, .task .service, mineOne]

/-- Until the backfill has ended and the live lane has taken what there was. -/
def drawing : List (Move GrowingChain) :=
  List.replicate 13 (.task (.lane 3)) ++ List.replicate 6 (.task (.lane 2))

theorem natural_run : ∀ m ∈ rejoining ++ (connecting ++ drawing), m.Natural := by
  intro m mem
  simp only [rejoining, connecting, drawing, mineOne, List.mem_append, List.mem_cons,
    List.mem_replicate, List.not_mem_nil, or_false] at mem
  rcases mem with (((rfl | rfl) | ⟨-, rfl⟩) | rfl | rfl) |
    (rfl | rfl | rfl | rfl | rfl | rfl | rfl | rfl | rfl | rfl | rfl | rfl | rfl) |
    ⟨-, rfl⟩ | ⟨-, rfl⟩
  all_goals first | exact .mine _ | exact .weather _ | exact .other (by simp)

theorem seam_bridged :
    (growing.run rejoining).current = some 0 ∧
    (growing.run rejoining).Bridges (connecting ++ drawing) ∧
    (growing.run rejoining).filter.passes log = true ∧
    ((growing.run rejoining).run (connecting ++ drawing)).intake.source.mined =
      [above 6, above 7, above 8, above 9, above 10] ∧
    ∀ l ∈ ((growing.run rejoining).run (connecting ++ drawing)).intake.source.mined,
      ((growing.run rejoining).run (connecting ++ drawing)).intake.InLane 3 l ∨
      ((growing.run rejoining).run (connecting ++ drawing)).intake.InLane 2 l := by
  refine ⟨by decide +kernel, ?_, by decide +kernel, by decide +kernel, by decide +kernel⟩
  obtain ⟨request, on⟩ : ∃ request, (growing.run rejoining).phase = .subscribing request :=
    ⟨_, rfl⟩
  exact Broadcaster.no_gap_at_seam oneByOne (.empty 5) .empty natural_run on (by decide +kernel)
    (by decide +kernel)

end Example

end ChainHerald
