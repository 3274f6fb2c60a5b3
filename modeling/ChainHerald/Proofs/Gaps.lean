import ChainHerald.Proofs.Backfill
import ChainHerald.Provider.Rpc

/-!
# What the service notices of a subscription

A failing feed is reported once, and what is reported stays until the next cycle begins
(`Goes.fault`). So a subscription whose `recv` returns an error is replaced, and its gap is asked
for anew. A subscription that has only lagged, or gone on with another provider, goes on all the
same, with whatever was lost in between (`Broadcaster.gap_closed_when_told`).
-/

namespace ChainHerald

open Source (Feed)

namespace Intake

variable {σ : Type} [Source σ] {i i' : Intake σ} {lane : Nat}

/-- A feed that has read an error of its own cycle, with no error known yet. -/
def Breaks (i : Intake σ) (lane : Nat) (e : ProviderError) : Prop :=
  i.fault = none ∧ ∃ feed event feed' source,
    i.writers.get? lane = some (.live feed none false i.cycle) ∧
    Source.read feed i.desk.clock i.source = some (some event, feed', source) ∧
    feedError event = some e

/-- A writer's move leaves the cycle, and it reports nothing but the first error. -/
theorem Fills.fault (f : i.Fills lane i') : i'.cycle = i.cycle ∧
    (i'.fault = i.fault ∨ ∃ e, i.Breaks lane e ∧ i'.fault = some e) := by
  cases f with
  | quit | put | refused | read | send | exhaust | cut | range => exact ⟨rfl, .inl rfl⟩
  | ask _ step | fetch _ step =>
    obtain ⟨⟨source, desk, rfl⟩, -, -⟩ := Retry.step_repeats step
    exact ⟨rfl, .inl rfl⟩
  | @fail feed cycle event e feed' source writer read error =>
    unfold report
    split
    next first =>
      obtain ⟨rfl, unknown⟩ := first
      have none : i.fault = none := Option.isNone_iff_eq_none.1 unknown
      exact ⟨rfl, .inr ⟨e, ⟨none, feed, event, feed', source, writer, read, error⟩, rfl⟩⟩
    · exact ⟨rfl, .inl rfl⟩

end Intake

namespace Broadcaster

variable {σ : Type} [Source σ] {b b' : Broadcaster σ} {hs heard : List Input}

/-- The next cycle begins. With an address it subscribes anew, and otherwise there is nothing to
subscribe to. -/
structure Renews (b b' : Broadcaster σ) : Prop where
  cycle : b'.intake.cycle = b.intake.cycle + 1
  fault : b'.intake.fault = none
  goes_on : b'.filter.addresses = [] ∨
    ∃ request, b'.phase = .subscribing request ∧ request.request = .subscribe b'.filter

theorem connect_fault (b : Broadcaster σ) (lanes : List Nat) (live : Option Nat) :
    (b.connect lanes live).intake.cycle = b.intake.cycle ∧
      (b.connect lanes live).intake.fault = b.intake.fault := by
  obtain ⟨writers, lanes', same⟩ := b.connect_frame lanes live
  rw [same]
  exact ⟨rfl, rfl⟩

theorem beginCycle_renews {c : Broadcaster σ} (same : c.intake.cycle = b.intake.cycle) :
    b.Renews c.beginCycle := by
  rcases c.beginCycle_cases with ⟨nobody, eq⟩ | ⟨-, eq⟩ <;> rw [eq]
  · refine ⟨(connect_fault _ _ _).1.trans (congrArg (· + 1) same), (connect_fault _ _ _).2, .inl ?_⟩
    simpa [connect] using nobody
  · exact ⟨congrArg (· + 1) same, rfl, .inr ⟨_, rfl, rfl⟩⟩

/-- The cycle goes on and knows the same, or another begins. -/
theorem Acts.fault (free : b.desk.cancelled = false) (a : b.Acts b' heard) :
    b'.intake.cycle = b.intake.cycle ∧ b'.intake.fault = b.intake.fault ∨ b.Renews b' := by
  cases a.engages free with
  | rests _ intake =>
    obtain ⟨lanes, desk, same⟩ := intake
    rw [same]
    exact .inl ⟨rfl, rfl⟩
  | begins _ intake =>
    obtain ⟨desk, same⟩ := intake
    exact .inr (beginCycle_renews (by rw [same]))
  | resubscribe _ step | resize _ step | subscribed _ step =>
    obtain ⟨⟨source, desk, rfl⟩, -, -⟩ := Retry.step_repeats step
    exact .inl ⟨rfl, rfl⟩
  | connect _ step =>
    obtain ⟨⟨source, desk, rfl⟩, -, -⟩ := Retry.step_repeats step
    exact .inl (connect_fault _ _ _)

/-- Only an error that a feed of the cycle reads makes a difference, and only the next cycle makes
it good. -/
theorem Goes.fault (free : b.desk.cancelled = false) (g : b.Goes b' heard) :
    b'.intake.cycle = b.intake.cycle ∧ (b'.intake.fault = b.intake.fault ∨
      ∃ lane e, b.intake.Breaks lane e ∧ b'.intake.fault = some e) ∨ b.Renews b' := by
  cases g with
  | act acts => exact (acts.fault free).imp_left fun same => ⟨same.1, .inl same.2⟩
  | @fill lane i fills =>
    obtain ⟨cycle, fault⟩ := fills.fault
    exact .inl ⟨cycle, fault.imp_right fun broken => ⟨lane, broken⟩⟩
  | beside beside =>
    obtain ⟨source, desk, same⟩ := beside.intake
    exact .inl ⟨by rw [same], .inl (by rw [same])⟩

theorem Goes.cycle_le (free : b.desk.cancelled = false) (g : b.Goes b' heard) :
    b.intake.cycle ≤ b'.intake.cycle := by
  rcases g.fault free with ⟨same, -⟩ | renews
  · exact Nat.le_of_eq same.symm
  · exact renews.cycle ▸ Nat.le_succ _

/-! ## Runs -/

theorem Reached.cycle_le {ms : List (Move σ)} (r : b.Reached hs)
    (free : (b.run ms).desk.cancelled = false) : b.intake.cycle ≤ (b.run ms).intake.cycle := by
  induction ms generalizing b hs with
  | nil => exact Nat.le_refl _
  | cons m ms ih =>
    exact Nat.le_trans ((r.goes m).cycle_le (r.free_of_run free)) (ih (r.move m) free)

variable {n : Nat} {e : ProviderError}

/-- An error is known and its cycle is still on. -/
structure Broken (b : Broadcaster σ) (n : Nat) (e : ProviderError) : Prop where
  cycle : b.intake.cycle = n
  fault : b.intake.fault = some e

theorem Goes.broken (broken : b.Broken n e) (free : b.desk.cancelled = false)
    (g : b.Goes b' heard) : b'.Broken n e ∨ b.Renews b' := by
  rcases g.fault free with ⟨cycle, fault | ⟨_, _, ⟨unknown, -⟩, -⟩⟩ | renews
  · exact .inl ⟨cycle.trans broken.cycle, fault.trans broken.fault⟩
  · cases unknown.symm.trans broken.fault
  · exact .inr renews

/-- Back in its loop the service turns to a known error before anything else. -/
theorem Broken.served (broken : b.Broken n e) {tick : Nat} (phase : b.phase = .serving tick)
    (free : b.desk.cancelled = false) : b.Renews (b.move (.task .service)) := by
  have served : b.stepServing tick = some (b.notice (.streamFailed e)).beginCycle := by
    simp [stepServing, free, broken.fault]
  simp only [move, step, stepService, phase, served, Option.getD_some]
  exact beginCycle_renews rfl

/-- The cycle connects, or its backfill opened at some point and covers its blocks ever since. -/
def Resumes (b : Broadcaster σ) (ms : List (Move σ)) : Prop :=
  (∃ start, (b.run ms).Connects start) ∨ ∃ earlier m later n lane latest,
    ms = earlier ++ m :: later ∧
    (b.run earlier).OpensFrom ((b.run earlier).move m) n lane latest ∧
    (b.run ms).intake.Covers lane ((b.run earlier).move m).filter
      ((b.run earlier).move m).desk.asked (min n latest) latest

theorem Reached.resumes (r : b.Reached hs) {start : Option Nat} (on : b.Connects start)
    (ms : List (Move σ)) (free : (b.run ms).desk.cancelled = false) : b.Resumes ms := by
  have ends := r.until_end (P := (·.Connects start)) on ms free
    fun r before on m => (r.goes m).connects on before
  refine ends.imp (fun on => ⟨start, on⟩) ?_
  rintro ⟨earlier, m, later, rfl, -, lane, latest, opens⟩
  rw [run_append] at free ⊢
  have covers := ((r.run earlier).move m).covers later free opens.covers
  exact ⟨earlier, m, later, _, lane, latest, rfl, opens, covers⟩

/-- The error waits for the service, or the next cycle began and makes up for what was missed. -/
def Heals (b : Broadcaster σ) (n : Nat) (e : ProviderError) (ms : List (Move σ)) : Prop :=
  (b.run ms).Broken n e ∨ ∃ earlier m later, ms = earlier ++ m :: later ∧
    (b.run earlier).Broken n e ∧ (b.run earlier).Renews ((b.run earlier).move m) ∧
    (((b.run earlier).move m).filter.addresses = [] ∨ ((b.run earlier).move m).Resumes later)

theorem Reached.heals (r : b.Reached hs) (broken : b.Broken n e) (ms : List (Move σ))
    (free : (b.run ms).desk.cancelled = false) : b.Heals n e ms := by
  have ends := r.until_end (P := (·.Broken n e)) broken ms free
    fun r before broken m => (r.goes m).broken broken before
  refine ends.imp_right ?_
  rintro ⟨earlier, m, later, rfl, broken, renews⟩
  refine ⟨earlier, m, later, rfl, broken, renews, renews.goes_on.imp_right ?_⟩
  rintro ⟨request, phase, -⟩
  rw [run_append] at free
  exact ((r.run earlier).move m).resumes ⟨rfl, .inl ⟨request, phase⟩⟩ later free

end Broadcaster

/-! ## Subscriptions that move between providers -/

namespace Providers

variable {ν : Type} [Fleet ν]

/-- What a feed and its reader are left with after a move of its subscription. -/
def LogFeed.after (feed : LogFeed ν) :
    Subscription.Outcome ν Log → Option FeedEvent × LogFeed ν × Providers ν
  | (.going recv, subscription, p) => (none, { feed with subscription, recv }, p)
  | (.done (.ok l), subscription, p) =>
    (some (.item l), { feed with subscription, recv := .starting }, p)
  | (.done (.error e), subscription, p) =>
    (some (.failed e), { feed with subscription, finished := true }, p)

theorem read_eq [Answers ν] [Carrier ν Log] (feed : LogFeed ν) (clock : Clock) (p : Providers ν) :
    read feed clock p = if feed.finished then some (some .ended, feed, p)
      else (feed.subscription.step feed.recv clock p).map feed.after := by
  unfold read
  congr

end Providers

namespace Broadcaster

open Providers (LogFeed)

variable {ν : Type} [Fleet ν] [Answers ν] [Carrier ν Log] {b : Broadcaster (Providers ν)}
  {hs : List Input}

/-- What the lane does is up to what its feed has just read. -/
theorem stepLane_read {lane : Nat} {feed feed' : LogFeed ν} {event : Option FeedEvent}
    {p : Providers ν} (free : b.desk.cancelled = false)
    (writer : b.intake.writers.get? lane = some (.live feed none false b.intake.cycle)) :
    Providers.read feed b.desk.clock b.intake.source = some (event, feed', p) →
    b.move (.task (.lane lane)) = { b with intake :=
      let i := { b.intake with source := p }
      match event with
      | none => i.put lane (.live feed' none false b.intake.cycle)
      | some (.item l) => i.put lane (.live feed' (some l) false b.intake.cycle)
      | some (.failed e) => ((i.report b.intake.cycle e).release feed').finish lane
      | some .ended =>
        ((i.report b.intake.cycle .subscriptionClosed).release feed').finish lane } := by
  intro read
  have now : b.intake.desk.cancelled = false := free
  have stepped : Source.read feed b.intake.desk.clock b.intake.source = some (event, feed', p) :=
    read
  rcases event with _ | _ | _ | _ <;>
    simp only [move, step, stepLane, Intake.step, writer, Intake.stepLive, now, stepped,
      Bool.or_self, Bool.false_eq_true, if_false, Option.map_some, Option.getD_some]

/-- Nothing that concerns the service has changed, and the lane has this feed. -/
structure Unmoved (b b' : Broadcaster (Providers ν)) (lane : Nat) (feed : LogFeed ν) : Prop where
  phase : b'.phase = b.phase
  cycle : b'.intake.cycle = b.intake.cycle
  fault : b'.intake.fault = b.intake.fault
  asked : b'.desk.asked = b.desk.asked
  writer : ∃ held, b'.intake.writers.get? lane = some (.live feed held false b.intake.cycle)

/-- An error of the cycle's own feed is known from then on, unless another one already is. -/
theorem broken_of_failed {lane : Nat} {feed feed' : LogFeed ν} {e : ProviderError} {p : Providers ν}
    (free : b.desk.cancelled = false)
    (writer : b.intake.writers.get? lane = some (.live feed none false b.intake.cycle))
    (unknown : b.intake.fault = none)
    (read : Providers.read feed b.desk.clock b.intake.source = some (some (.failed e), feed', p)) :
    (b.move (.task (.lane lane))).Broken b.intake.cycle e := by
  rw [stepLane_read free writer read]
  refine ⟨?_, ?_⟩ <;>
    simp [Intake.report, unknown, Intake.release, Intake.finish]

/-- Anything else leaves the service alone, and the subscription goes on as the lane's feed. -/
theorem unmoved_of_read {lane : Nat} {feed feed' : LogFeed ν} {event : Option FeedEvent}
    {p : Providers ν} (free : b.desk.cancelled = false)
    (writer : b.intake.writers.get? lane = some (.live feed none false b.intake.cycle))
    (quiet : event = none ∨ ∃ l, event = some (.item l))
    (read : Providers.read feed b.desk.clock b.intake.source = some (event, feed', p)) :
    b.Unmoved (b.move (.task (.lane lane))) lane feed' := by
  rw [stepLane_read free writer read]
  rcases quiet with rfl | ⟨l, rfl⟩
  · exact ⟨rfl, rfl, rfl, rfl, none, b.intake.writers.get?_insert_self ..⟩
  · exact ⟨rfl, rfl, rfl, rfl, some l, b.intake.writers.get?_insert_self ..⟩

/-- The only thing that the service is told of a subscription is that its `recv` returned an error.
Then the cycle ends, the service subscribes anew the next time round its loop, and a backfill asks
for every block from its start on. Whatever else becomes of a subscription, however much it lags
and whichever provider it goes on with, the service and its requests stay as they are. -/
theorem gap_closed_when_told (r : b.Reached hs) {lane : Nat} {feed : LogFeed ν}
    (writer : b.intake.writers.get? lane = some (.live feed none false b.intake.cycle))
    (free : b.desk.cancelled = false) (going : feed.finished = false)
    {turn : Turn (Recv ν Log) (Except ProviderError Log)} {s : Subscription ν Log} {p : Providers ν}
    (moved : feed.subscription.step feed.recv b.desk.clock b.intake.source = some (turn, s, p)) :
    (∀ e, turn = .done (.error e) → b.intake.fault = none →
      ∀ ms, ((b.move (.task (.lane lane))).run ms).desk.cancelled = false →
        (b.move (.task (.lane lane))).Heals b.intake.cycle e ms ∧
        ∀ tick, ((b.move (.task (.lane lane))).run ms).Broken b.intake.cycle e →
          ((b.move (.task (.lane lane))).run ms).phase = .serving tick →
          ((b.move (.task (.lane lane))).run ms).Renews
            (((b.move (.task (.lane lane))).run ms).move (.task .service))) ∧
    ((∀ e, turn ≠ .done (.error e)) →
      ∃ recv, b.Unmoved (b.move (.task (.lane lane))) lane ⟨s, recv, feed.finished⟩) := by
  have read : Providers.read feed b.desk.clock b.intake.source =
      some (feed.after (turn, s, p)) := by
    simp [Providers.read_eq, going, moved]
  refine ⟨?_, ?_⟩
  · rintro e rfl unknown ms on
    have broken := broken_of_failed free writer unknown read
    exact ⟨(r.move _).heals broken ms on, fun tick still phase => still.served phase on⟩
  · intro told
    match turn with
    | .going recv => exact ⟨recv, unmoved_of_read free writer (.inl rfl) read⟩
    | .done (.ok l) => exact ⟨.starting, unmoved_of_read free writer (.inr ⟨l, rfl⟩) read⟩
    | .done (.error e) => exact absurd rfl (told e)

end Broadcaster

/-! ## Two towers

Providers that answer at once and watch the same chain. The ring with a provider's number is its
log subscription, for all who read it. -/

structure Towers where
  height : Nat
  mined : List Log
  rings : Rings Log

namespace Towers

def raise (count height : Nat) : Towers :=
  ⟨height, [], .ofList ((List.range count).map fun n => (n, .new 16))⟩

def answer (provider : Nat) : {α : Type} → Rpc α → Towers → Except RpcFault α × Towers
  | _, .latest, t => (.ok t.height, t)
  | _, .logs f lo hi, t => (.ok (f.select lo hi t.mined), t)
  | _, .subscribeLogs _, t =>
    if (Table.get? t.rings provider).any Ring.isOpen then
      (.ok (t.rings.attach provider).1, { t with rings := (t.rings.attach provider).2 })
    else (.error .backendGone, t)
  | _, .subscribeHeads, t => (.error .pubsubUnavailable, t)

instance : Fleet Towers where
  Op := Rpc
  Try := fun α => Nat × Rpc α
  pubsub := fun _ _ => true
  begin := fun provider op _ t => ((provider, op), t)
  step := fun k _ t => some (.done (answer k.1 k.2 t).1, (answer k.1 k.2 t).2)
  due := fun _ => none

instance : Answers Towers where
  op := id

instance : Carrier Towers Log where
  rings := Towers.rings
  setRings := fun rings t => { t with rings }

def fall (provider : Nat) (t : Towers) : Towers :=
  { t with rings := t.rings.update provider Ring.close }

def mend (provider : Nat) (t : Towers) : Towers :=
  { t with rings := t.rings.update provider fun ring => { ring with isOpen := true } }

/-- A new block has this log, and the towers that stand tell whoever reads. -/
def mine (l : Log) (t : Towers) : Towers where
  height := t.height + 1
  mined := t.mined ++ [l]
  rings := t.rings.keys.foldl (fun rs n => Rings.update rs n fun ring =>
    if ring.isOpen then (ring.send l).2 else ring) t.rings

end Towers

namespace Example

def above (block : Nat) : Log := { log with block := some block }

/-- A listener's first cycle over so many providers, up to where its backfill has ended and its
subscription listens. -/
def watching (towers : Nat) : Broadcaster (Providers Towers) :=
  Broadcaster.run (.new .standard ⟨.raise towers 5, .fragile (towers - 1), []⟩ .empty)
    ([.start, .register keeper options] ++ List.replicate 5 (.task .service) ++
      List.replicate 5 (.task (.lane 1)) ++ List.replicate 2 (.task (.lane 0)))

def happens (f : Towers → Towers) : Move (Providers Towers) :=
  .node fun p => { p with fleet := f p.fleet }

/-- The tower whose ring the first subscription reads. -/
def tower (b : Broadcaster (Providers Towers)) : Option Nat :=
  match b.intake.writers.get? 0 with
  | some (.live feed ..) => feed.subscription.tap.map Tap.ring
  | _ => none

/-- The only tower has fallen, and there is no other to go on with. -/
def severed : Broadcaster (Providers Towers) :=
  (watching 1).run [happens (Towers.fall 0), .task (.lane 0)]

/-- A block goes by before the tower is mended and the service subscribes anew. -/
def mending : List (Move (Providers Towers)) :=
  [happens (Towers.mine (above 6)), happens (Towers.mend 0)] ++ List.replicate 3 (.task .service) ++
    [.task (.lane 3)]

/-- Its subscription by then. -/
def orphan : Providers.LogFeed Towers :=
  ⟨⟨Rpc.subscribeLogs ⟨[1], [7]⟩, some ⟨0, 0⟩, some 0, 0, none⟩,
    .switching (.idle (.rpc .backendGone)), false⟩

theorem severed_gap_closed :
    (severed.move (.task (.lane 0))).Heals severed.intake.cycle (.rpc .backendGone)
        mending ∧
    ((severed.move (.task (.lane 0))).run mending).desk.asked.head? =
      some (.logs ⟨[1], [7]⟩ 0 6) := by
  have reached : severed.Reached _ := .run (.run (.start ..) _) _
  have writer : severed.intake.writers.get? 0 =
      some (.live orphan none false severed.intake.cycle) := by with_unfolding_all rfl
  have healed := Broadcaster.gap_closed_when_told reached writer (by decide +kernel) rfl rfl
  exact ⟨(healed.1 _ rfl (by decide +kernel) mending (by decide +kernel)).1,
    by decide +kernel⟩

/-- The first tower falls, a block goes by, and the subscription goes on with the second one. -/
def parting : List (Move (Providers Towers)) :=
  [happens fun t => (t.fall 0).mine (above 6)] ++ List.replicate 2 (.task (.lane 0))

/-- Another block is mined, and the service takes its log and finds its filter up to date. -/
def carryingOn : List (Move (Providers Towers)) :=
  List.replicate 2 (.task (.lane 0)) ++ [happens (Towers.mine (above 7))] ++
    List.replicate 2 (.task (.lane 0)) ++ List.replicate 2 (.task .service) ++
    [.clock ⟨1000, 1000⟩, .task .service]

/-- The service never hears of the block between the towers: its cycle goes on, it asks for nothing
more, and the log above the gap waits in its pool alone. -/
theorem switch_unnoticed :
    tower (watching 2) = some 0 ∧ tower ((watching 2).run parting) = some 1 ∧
    ((watching 2).run parting).intake.source.fleet.mined = [above 6] ∧
    ((watching 2).run parting).filter.passes (above 6) ∧
    (((watching 2).run parting).run carryingOn).herald.pool.logs = [above 7] ∧
    (((watching 2).run parting).run carryingOn).intake.cycle = (watching 2).intake.cycle ∧
    (((watching 2).run parting).run carryingOn).desk.asked = (watching 2).desk.asked ∧
    (((watching 2).run parting).run carryingOn).desk.cancelled = false := by
  refine ⟨?_, ?_, ?_, ?_, ?_, ?_, ?_, ?_⟩
  all_goals decide +kernel

end Example

end ChainHerald
