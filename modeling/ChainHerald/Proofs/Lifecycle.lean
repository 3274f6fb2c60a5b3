import ChainHerald.Proofs.Delivery
import ChainHerald.Proofs.Demand
import ChainHerald.Proofs.Service

/-!
# The life of a broadcaster

A service only ever comes further: it has not begun, it runs, it is over (`Reached.stage_le`).
`Broadcaster.Lives` says once what a move can mean for the life of a broadcaster, and `Orderly` is
the invariant that a `close` which has returned left it `Over`. From then on nothing is left that
could move (`Over.rests`).
-/

namespace ChainHerald

variable {σ : Type} [Source σ]

/-- How far the service has come. -/
def Phase.stage : Phase σ → Nat
  | .unstarted => 0
  | .stopped => 2
  | _ => 1

theorem Phase.stage_le_two (p : Phase σ) : p.stage ≤ 2 := by
  cases p <;> simp [stage]

theorem Phase.stopped_of_stage {p : Phase σ} (finished : 2 ≤ p.stage) : p = .stopped := by
  cases p <;> first | rfl | simp [stage] at finished

/-- The node side changes by itself. -/
def Move.onNode : Move σ → σ → σ
  | .node f => f
  | _ => id

omit [Source σ] in
theorem Move.onNode_eq {m : Move σ} (other : ∀ f, m ≠ .node f) : m.onNode = id := by
  cases m with
  | node f => exact absurd rfl (other f)
  | _ => rfl

namespace Broadcaster

variable {b b' : Broadcaster σ} {hs heard : List Input} {m : Move σ} {n : Nat}

/-- What the service and the writers of its lanes leave alone. -/
structure Undisturbed (b b' : Broadcaster σ) : Prop where
  settings : b'.settings = b.settings
  gate : b'.gate = b.gate
  life : b'.life = b.life
  closes : b'.closes = b.closes
  nextId : b'.nextId = b.nextId

theorem Undisturbed.beginCycle (u : b.Undisturbed b') : b.Undisturbed b'.beginCycle := by
  rcases b'.beginCycle_cases with ⟨-, eq⟩ | ⟨-, eq⟩ <;> rw [eq] <;>
    exact ⟨u.settings, u.gate, u.life, u.closes, u.nextId⟩

theorem Undisturbed.follow (u : b.Undisturbed b') (tick : Nat) (r : Option Pass × Herald × Desk) :
    b.Undisturbed (b'.follow tick r) := by
  obtain ⟨_ | p, e, d⟩ := r <;> exact ⟨u.settings, u.gate, u.life, u.closes, u.nextId⟩

theorem Acts.undisturbed (a : b.Acts b' heard) : b.Undisturbed b' := by
  cases a with
  | first =>
    obtain ⟨d, -, eq⟩ := b.firstCycle_eq
    rw [eq]
    exact .beginCycle ⟨rfl, rfl, rfl, rfl, rfl⟩
  | fail | replay | stale => exact .beginCycle ⟨rfl, rfl, rfl, rfl, rfl⟩
  | @head tick h _ heads =>
    have u : b.Undisturbed { b with heads } := ⟨rfl, rfl, rfl, rfl, rfl⟩
    exact u.follow _ _
  | @log tick l lanes =>
    have u : b.Undisturbed { b with intake := { b.intake with lanes } } := ⟨rfl, rfl, rfl, rfl, rfl⟩
    exact u.follow _ _
  | _ => exact ⟨rfl, rfl, rfl, rfl, rfl⟩

theorem Goes.settings (g : b.Goes b' heard) : b'.settings = b.settings := by
  cases g with
  | act acts => exact acts.undisturbed.settings
  | fill => rfl
  | beside beside => exact beside.settings

theorem Reached.run_settings (r : b.Reached hs) (ms : List (Move σ)) :
    (b.run ms).settings = b.settings := by
  induction ms generalizing b hs with
  | nil => rfl
  | cons m ms ih => exact (ih (r.move m)).trans (r.goes m).settings

/-! ## The service comes and goes -/

theorem Acts.stage_le (a : b.Acts b' heard) : b.phase.stage ≤ b'.phase.stage := by
  have begun (c : Broadcaster σ) : c.beginCycle.phase.stage = 1 := by
    rcases c.beginCycle_cases with ⟨-, eq⟩ | ⟨-, eq⟩ <;> rw [eq] <;> rfl
  have followed (c : Broadcaster σ) (tick : Nat) (r : Option Pass × Herald × Desk) :
      (c.follow tick r).phase.stage = 1 := by
    obtain ⟨_ | p, e, d⟩ := r <;> rfl
  cases a with
  | wait | apply | noHead => exact Nat.le_refl _
  | stop | abandon => exact b.phase.stage_le_two
  | first phase =>
    obtain ⟨d, -, eq⟩ := b.firstCycle_eq
    rw [eq, begun, phase]
    exact Nat.le_refl _
  | fail phase | replay phase | stale phase =>
    rw [begun, phase]
    exact Nat.le_refl _
  | head phase | log phase =>
    rw [followed, phase]
    exact Nat.le_refl _
  | look phase | resubscribe phase | subscribed phase | resize phase | connect phase | tick phase
  | close phase | serve phase =>
    rw [phase]
    exact Nat.le_refl _

theorem Goes.stage_le (g : b.Goes b' heard) : b.phase.stage ≤ b'.phase.stage := by
  cases g with
  | act acts => exact acts.stage_le
  | fill => exact Nat.le_refl _
  | beside beside =>
    rcases beside.phase with same | ⟨unstarted, -⟩
    · exact Nat.le_of_eq (congrArg _ same.symm)
    · simp [unstarted, Phase.stage]

theorem Reached.stage_le (r : b.Reached hs) (m : Move σ) :
    b.phase.stage ≤ (b.move m).phase.stage :=
  (r.goes m).stage_le

theorem Reached.stage_le_run (r : b.Reached hs) (ms : List (Move σ)) :
    b.phase.stage ≤ (b.run ms).phase.stage := by
  induction ms generalizing b hs with
  | nil => exact Nat.le_refl _
  | cons m ms ih => exact Nat.le_trans (r.stage_le m) (ih (r.move m))

/-- With the move the service begins to run. -/
def Launches (b : Broadcaster σ) (m : Move σ) : Prop :=
  b.phase.stage ≠ 1 ∧ (b.move m).phase.stage = 1

theorem Launches.only (launch : b.Launches m) (r : b.Reached hs) (ms : List (Move σ))
    (m' : Move σ) : ¬ ((b.move m).run ms).Launches m' := by
  rintro ⟨idle, running⟩
  have before := (r.move m).stage_le_run ms
  have after := ((r.move m).run ms).stage_le m'
  have begun := launch.2
  omega

/-! ## Handles -/

/-- The move is the first one of a call to `close`. -/
def Shuts (b : Broadcaster σ) (m : Move σ) : Prop :=
  ∃ n, m = .task (.close n) ∧ b.closes[n]? = some .asked

/-- What a move can mean for the life of a broadcaster. -/
inductive Lives (b : Broadcaster σ) (m : Move σ) (b' : Broadcaster σ) : Prop where
  | on (life : b'.life = b.life) (closes : b'.closes = b.closes)
      (connected : m ≠ .task .service → b'.connected = b.connected)
  | start (before : b.life = .unstarted) (life : b'.life = .started)
      (closes : b'.closes = b.closes) (connected : b'.connected = b.connected)
  | ask (life : b'.life = b.life) (closes : b'.closes = b.closes ++ [.asked])
      (connected : b'.connected = b.connected)
  | shut {n : Nat} (turn : m = .task (.close n)) (asked : b.closes[n]? = some .asked)
      (life : b'.life = .closed) (closes : b'.closes = b.closes.set n .waiting)
      (connected : b'.connected = b.connected)
  | finish {n : Nat} (turn : m = .task (.close n)) (waited : b.closes[n]? = some .waiting)
      (idle : b.isIdle = true) (life : b'.life = b.life)
      (closes : b'.closes = b.closes.set n .returned) (connected : b'.connected = false)

theorem move_lives (b : Broadcaster σ) (m : Move σ) : b.Lives m (b.move m) := by
  have same : b.Lives m b := .on rfl rfl fun _ => rfl
  have drop {c : Broadcaster σ} (life : c.life = b.life) (closes : c.closes = b.closes)
      (connected : c.connected = b.connected) : b.Lives m c.drop := by
    obtain ⟨d, -, eq⟩ := c.drop_eq
    rw [eq]
    exact .on life closes fun _ => connected
  have deliver {c : Broadcaster σ} {change : Change} (life : c.life = b.life)
      (closes : c.closes = b.closes) (connected : c.connected = b.connected) :
      b.Lives m (c.deliver change) := by
    obtain ⟨d, eq⟩ := c.deliver_eq change
    rw [eq]
    exact .on life closes fun _ => connected
  cases m with
  | task t =>
    cases t with
    | service =>
      have u := b.service_acts.undisturbed
      exact .on u.life u.closes fun other => absurd rfl other
    | lane n =>
      rcases b.lane_fills n with eq | ⟨i, -, eq⟩ <;> rw [eq] <;> exact .on rfl rfl fun _ => rfl
    | close n =>
      simp only [move, step, stepClose]
      split
      next asked => exact .shut rfl asked rfl rfl rfl
      next waited =>
        split
        next idle =>
          obtain ⟨d, -, eq⟩ := drop_eq
            { b with closes := b.closes.set n .returned, connected := false }
          simp only [Option.getD_some, eq]
          exact .finish rfl waited idle rfl rfl rfl
        · exact same
      · exact same
    | wait n =>
      simp only [move, step, stepWait]
      cases b.gate.step n with
      | none => exact same
      | some gate =>
        simp only [Option.map_some, Option.getD_some]
        split
        · exact drop rfl rfl rfl
        · exact .on rfl rfl fun _ => rfl
  | start =>
    simp only [move, Broadcaster.start]
    split
    next before => exact .start before rfl rfl rfl
    · exact same
    · exact same
  | register l o =>
    simp only [move, register]
    split
    · exact .on rfl rfl fun _ => rfl
    · split
      · exact same
      · exact deliver rfl rfl rfl
  | unsubscribe id => exact deliver rfl rfl rfl
  | replay block =>
    simp only [move, requestReplay]
    split <;> exact .on rfl rfl fun _ => rfl
  | close => exact .ask rfl rfl rfl
  | drop => exact drop rfl rfl rfl
  | _ => exact .on rfl rfl fun _ => rfl

theorem Shuts.closed (shuts : b.Shuts m) : (b.move m).life = .closed := by
  obtain ⟨n, rfl, asked⟩ := shuts
  simp only [move, step, stepClose, asked]
  rfl

/-- Nothing but a `close` closes a broadcaster, and nothing opens it again. -/
theorem closed_iff : (b.move m).life = .closed ↔ b.life = .closed ∨ b.Shuts m := by
  constructor
  · intro closed
    cases b.move_lives m with
    | on life | ask life | finish _ _ _ life => exact .inl (life ▸ closed)
    | start _ life => cases life.symm.trans closed
    | shut turn asked => exact .inr ⟨_, turn, asked⟩
  · rintro (closed | shuts)
    · cases b.move_lives m with
      | on life | ask life | finish _ _ _ life => exact life.trans closed
      | start before => cases before.symm.trans closed
      | shut _ _ life => exact life
    · exact shuts.closed

theorem closed_run_iff (ms : List (Move σ)) : (b.run ms).life = .closed ↔ b.life = .closed ∨
    ∃ earlier m later, ms = earlier ++ m :: later ∧ (b.run earlier).Shuts m := by
  induction ms generalizing b with
  | nil => simp [Broadcaster.run]
  | cons m ms ih =>
    have split := ih (b := b.move m)
    rw [closed_iff, or_assoc] at split
    refine split.trans (or_congr_right ?_)
    constructor
    · rintro (shuts | ⟨earlier, m', later, rfl, shuts⟩)
      · exact ⟨[], m, ms, rfl, shuts⟩
      · exact ⟨m :: earlier, m', later, rfl, shuts⟩
    · rintro ⟨_ | ⟨_, earlier⟩, m', later, eq, shuts⟩ <;> cases eq
      · exact .inl shuts
      · exact .inr ⟨earlier, m', later, rfl, shuts⟩

theorem start_closed_iff : b.start = .error .closed ↔ b.life = .closed := by
  unfold Broadcaster.start
  cases b.life <;> simp

/-! ## After the end -/

/-- The broadcaster is closed, and nothing that it started is left. -/
structure Over (b : Broadcaster σ) : Prop where
  closed : b.life = .closed
  stopped : b.phase = .stopped
  unwritten : ∀ n, b.intake.writers.get? n = none
  apart : b.connected = false

/-- Nothing has happened but notices, and what the node side does by itself. -/
structure Rests (b : Broadcaster σ) (ms : List (Move σ)) (b' : Broadcaster σ) : Prop where
  finished : b'.Over
  lanes : b'.intake.lanes = b.intake.lanes
  journal : ∃ new, b'.desk.journal = new ++ b.desk.journal ∧ ∀ e ∈ new, ∃ n, e = .notice n
  source : b'.intake.source = ms.foldl (fun s m => m.onNode s) b.intake.source

theorem notices_of_asks {d d' : Desk} (asks : d.Asks [] d') :
    ∃ new, d'.journal = new ++ d.journal ∧ ∀ e ∈ new, ∃ n, e = .notice n := by
  obtain ⟨new, journal, unasked, other⟩ := asks.journal
  refine ⟨new, journal, fun e mem => ?_⟩
  cases e with
  | notice n => exact ⟨n, rfl⟩
  | asked time q => simpa [Entry.query?] using List.filterMap_eq_nil_iff.1 unasked _ mem
  | handed | recorded => cases other _ mem

theorem Over.rests (finished : b.Over) (m : Move σ) : b.Rests [m] (b.move m) := by
  have same (still : b.move m = b) (own : m.onNode = id) : b.Rests [m] (b.move m) := by
    rw [still]
    exact ⟨finished, rfl, ⟨[], rfl, List.forall_mem_nil _⟩, by simp [own]⟩
  by_cases service : m = .task .service
  · subst service
    have still : b.move (.task .service) = b := by simp [move, step, stepService, finished.stopped]
    exact same still rfl
  by_cases lane : ∃ n, m = .task (.lane n)
  · obtain ⟨n, rfl⟩ := lane
    have still : b.move (.task (.lane n)) = b := by
      simp [move, step, stepLane, Intake.step, finished.unwritten]
    exact same still rfl
  have lane (n : Nat) : m ≠ .task (.lane n) := fun eq => lane ⟨n, eq⟩
  have dormant : b.Dormant := fun unstarted => by cases finished.closed.symm.trans unstarted
  have beside := others_beside dormant service lane
  obtain ⟨source, desk, intake⟩ := beside.intake
  refine ⟨⟨closed_iff.2 (.inl finished.closed), ?_, ?_, ?_⟩, by rw [intake],
    notices_of_asks beside.asks, ?_⟩
  · rcases beside.phase with phase | ⟨unstarted, -⟩
    · exact phase.trans finished.stopped
    · cases finished.stopped.symm.trans unstarted
  · rw [intake]
    exact finished.unwritten
  · cases b.move_lives m with
    | on _ _ connected => exact (connected service).trans finished.apart
    | start _ _ _ connected | ask _ _ connected | shut _ _ _ _ connected =>
      exact connected.trans finished.apart
    | finish _ _ _ _ _ connected => exact connected
  · by_cases node : ∃ f, m = .node f
    · obtain ⟨f, rfl⟩ := node
      rfl
    · have other (f : σ → σ) : m ≠ .node f := fun eq => node ⟨f, eq⟩
      simpa [Move.onNode_eq other] using move_source service lane other

theorem Rests.trans {ms ns : List (Move σ)} {b'' : Broadcaster σ} (h : b.Rests ms b')
    (h' : b'.Rests ns b'') : b.Rests (ms ++ ns) b'' := by
  obtain ⟨new, journal, notices⟩ := h.journal
  obtain ⟨new', journal', notices'⟩ := h'.journal
  refine ⟨h'.finished, h'.lanes.trans h.lanes, ⟨new' ++ new, ?_, fun e mem => ?_⟩, ?_⟩
  · rw [journal', journal, List.append_assoc]
  · exact (List.mem_append.1 mem).elim (notices' e) (notices e)
  · rw [h'.source, h.source, List.foldl_append]

theorem Over.rests_run (finished : b.Over) (ms : List (Move σ)) : b.Rests ms (b.run ms) := by
  induction ms generalizing b with
  | nil => exact ⟨finished, rfl, ⟨[], rfl, List.forall_mem_nil _⟩, rfl⟩
  | cons m ms ih =>
    have first := finished.rests m
    exact first.trans (ih first.finished)

/-- No listener is called and no node is asked. -/
theorem Rests.silent {ms : List (Move σ)} (h : b.Rests ms b') :
    b'.desk.callsSince b.desk = [] ∧ b'.desk.asked = b.desk.asked := by
  obtain ⟨new, journal, notices⟩ := h.journal
  constructor
  · refine List.eq_nil_iff_forall_not_mem.2 ?_
    rintro ⟨id, x⟩ call
    obtain ⟨n, eq⟩ := notices _ ((Desk.mem_callsSince journal).1 call)
    cases eq
  · have unasked : new.filterMap Entry.query? = [] := by
      refine List.filterMap_eq_nil_iff.2 fun e mem => ?_
      obtain ⟨n, rfl⟩ := notices e mem
      rfl
    rw [Desk.asked, journal, List.filterMap_append, unasked]
    rfl

theorem Over.register (finished : b.Over) (l : Listener) (o : Options) :
    (∃ e, (b.register l o).1 = .error e) ∧ (b.register l o).2.changes = b.changes := by
  unfold Broadcaster.register
  split
  · exact ⟨⟨_, rfl⟩, rfl⟩
  · simp [finished.closed]

/-! ## Runs -/

/-- A `close` that is under way has closed the broadcaster, and one that has returned leaves nothing
behind. -/
structure Orderly (b : Broadcaster σ) : Prop where
  closing : ∀ c ∈ b.closes, c ≠ .asked → b.life = .closed
  begun : b.life = .closed → b.phase ≠ .unstarted
  finished : .returned ∈ b.closes → b.Over

/-- Whoever waits for the end returns when nothing is left. -/
theorem Orderly.finish (h : b.Orderly) (r : b.Reached hs) (waited : b.closes[n]? = some .waiting)
    (idle : b.isIdle = true) (apart : (b.move (.task (.close n))).connected = false) :
    (b.move (.task (.close n))).Over := by
  have closed := h.closing _ (List.mem_of_getElem? waited) nofun
  obtain ⟨ended, unwritten⟩ := Bool.and_eq_true_iff.1 idle
  have stopped : b.phase = .stopped := by
    have begun := h.begun closed
    cases phase : b.phase <;> simp_all
  have beside := others_beside (m := .task (.close n)) r.dormant nofun nofun
  obtain ⟨source, desk, intake⟩ := beside.intake
  refine ⟨closed_iff.2 (.inl closed), ?_, ?_, apart⟩
  · have stage := r.stage_le (.task (.close n))
    rw [stopped] at stage
    exact Phase.stopped_of_stage stage
  · rw [intake]
    exact Table.isEmpty_iff.1 unwritten

theorem Orderly.move (h : b.Orderly) (r : b.Reached hs) (m : Move σ) : (b.move m).Orderly := by
  have begun (closed : (b.move m).life = .closed) : (b.move m).phase ≠ .unstarted := by
    intro unstarted
    rcases closed_iff.1 closed with before | ⟨n, rfl, asked⟩
    · have stage := r.stage_le m
      rw [unstarted] at stage
      have running := h.begun before
      cases phase : b.phase <;> simp_all [Phase.stage]
    · simp only [Broadcaster.move, step, stepClose, asked, Option.getD_some] at unstarted
      cases phase : b.phase <;> simp [shut, cancel, withDesk, phase] at unstarted
  have finished (before : .returned ∈ b.closes) : (b.move m).Over :=
    ((h.finished before).rests m).finished
  cases b.move_lives m with
  | on life closes => exact ⟨life ▸ closes ▸ h.closing, begun, closes ▸ finished⟩
  | start before life closes =>
    refine ⟨fun c mem under => ?_, begun, closes ▸ finished⟩
    cases before.symm.trans (h.closing c (closes ▸ mem) under)
  | ask life closes =>
    refine ⟨fun c mem under => ?_, begun, fun mem => ?_⟩
    · have older := (List.mem_append.1 (closes ▸ mem)).resolve_right (by simp [under])
      exact life.trans (h.closing c older under)
    · exact finished ((List.mem_append.1 (closes ▸ mem)).resolve_right (by simp))
  | shut turn asked life closes =>
    refine ⟨fun _ _ _ => life, begun, fun mem => ?_⟩
    rw [closes] at mem
    exact finished ((List.mem_or_eq_of_mem_set mem).resolve_right (by simp))
  | @finish n turn waited idle life closes connected =>
    subst turn
    have ended := h.finish r waited idle connected
    exact ⟨fun _ _ _ => ended.closed, begun, fun _ => ended⟩

theorem Reached.orderly (r : b.Reached hs) : b.Orderly := by
  induction r with
  | start => exact ⟨nofun, nofun, nofun⟩
  | move r m ih => exact ih.move r m

/-- In any run the service begins to run at most once, and starting fails as closed just when a
`close` has begun. Once a `close` has returned, nothing but notices is ever written again: no
listener is called, no node is asked or read, no lane takes a log, the broadcaster stays
disconnected, and registering fails and delivers nothing. -/
theorem lifecycle_safe (settings : Settings) (source : σ) (ledger : Ledger) (ms : List (Move σ)) :
    let init : Broadcaster σ := new settings source ledger
    (∀ earlier m between m' later, ms = earlier ++ m :: between ++ m' :: later →
      (init.run earlier).Launches m → ¬ (init.run (earlier ++ m :: between)).Launches m') ∧
    ((init.run ms).start = .error .closed ↔
      ∃ earlier m later, ms = earlier ++ m :: later ∧ (init.run earlier).Shuts m) ∧
    (.returned ∈ (init.run ms).closes → ∀ more,
      (init.run ms).Rests more ((init.run ms).run more) ∧
      ((init.run ms).run more).desk.callsSince (init.run ms).desk = [] ∧
      ((init.run ms).run more).desk.asked = (init.run ms).desk.asked ∧
      ((init.run ms).run more).connected = false ∧
      ∀ l o, (∃ e, (((init.run ms).run more).register l o).1 = .error e) ∧
        (((init.run ms).run more).register l o).2.changes = ((init.run ms).run more).changes) := by
  intro init
  have reached (ms : List (Move σ)) : (init.run ms).Reached _ := .run (.start ..) ms
  refine ⟨?_, ?_, fun returned more => ?_⟩
  · rintro earlier m between m' later rfl launch
    have only := launch.only (reached earlier) between m'
    simpa [Broadcaster.run] using only
  · have unstarted : init.life ≠ .closed := by simp [init, new]
    rw [start_closed_iff, closed_run_iff]
    exact or_iff_right unstarted
  · have rests := ((reached ms).orderly.finished returned).rests_run more
    exact ⟨rests, rests.silent.1, rests.silent.2, rests.finished.apart, rests.finished.register⟩

end Broadcaster

namespace Example

/-- A pass is about to call the listener when somebody closes. -/
def closing : List (Move ScriptedChain) :=
  dispatching ++ [.close, .task (.close 0), .task .service, .task .service, .task .service,
    .task (.lane 0), .task (.lane 1), .task (.close 0)]

/-- All that handles can still do. -/
def insisting : List (Move ScriptedChain) :=
  [.node (·.emit log), .register keeper options, .unsubscribe 0, .start, .replay 2, .head head,
    .dependents 1, .ready, .clock ⟨9000, 9000⟩, .task .service, .task (.lane 0)]

theorem pass_cut_short :
    (start.run (closing.take 1)).Launches .start ∧
    ¬ (start.run (closing.take 2)).Launches (.task .service) ∧
    .returned ∈ (start.run closing).closes ∧
    ((start.run closing).run insisting).desk.callsSince (start.run closing).desk = [] ∧
    ((start.run closing).run insisting).desk.asked =
      [.logs ⟨[1], [7]⟩ 0 5, .latest, .subscribe ⟨[1], [7]⟩] := by
  have returned : .returned ∈ (start.run closing).closes := by decide +kernel
  have safe := Broadcaster.lifecycle_safe .standard
    { ScriptedChain.new 5 with history := [log] } .empty closing
  have launch : (start.run (closing.take 1)).Launches .start :=
    ⟨by decide +kernel, by decide +kernel⟩
  have only := safe.1 (closing.take 1) .start [] (.task .service) (closing.drop 3) rfl launch
  obtain ⟨-, calls, asked, -⟩ := safe.2.2 returned insisting
  have before : (start.run closing).desk.asked =
      [.logs ⟨[1], [7]⟩ 0 5, .latest, .subscribe ⟨[1], [7]⟩] := by decide +kernel
  exact ⟨launch, only, returned, calls, asked.trans before⟩

end Example

end ChainHerald
