import ChainHerald.Proofs.Failover
import ChainHerald.Provider.Actors

/-!
# Where a subscription stands

A subscription is followed from the call that opens it through any sequence of `recv`s, whatever
the providers do and however late it is. Beside it stands what it cannot see of itself: on which
provider its stream was opened. Its own index tells the same as soon as the stream has been opened
once by a `recv`, and from the start if the primary opened it (`Standing.knows_where_it_is`). In no
other case does it (`Standing.index_eq_iff`).
-/

namespace ChainHerald

open Fleet (Op)

variable {ν ι : Type} [Fleet ν]

/-- A subscription with the `recv` under way, the provider on which its stream was opened, and how
often a `recv` has opened it anew. -/
structure Standing (ν ι : Type) [Fleet ν] where
  subscription : Subscription ν ι
  recv : Recv ν ι
  home : Nat
  moves : Nat

/-- The fallback that a provider is; the primary is none. -/
def fallbackIndex : Nat → Option Nat
  | 0 => none
  | i + 1 => some i

/-- The provider from which this move gets a new stream. -/
def Recv.gains (recv : Recv ν ι) (clock : Clock) (r : Providers ν) : Option Nat :=
  match recv with
  | .returning round _ =>
    match round.step clock r with
    | some (.done (.ok _), _) => some round.provider
    | _ => none
  | .switching sweep =>
    match sweep.step clock r with
    | some (.done (.ok (_, p)), _) => some p
    | _ => none
  | _ => none

namespace Standing

/-- The subscription has moved; a `recv` that has ended is followed by another. -/
def after (w : Standing ν ι) (gained : Option Nat) (turn : Turn (Recv ν ι) (Except ProviderError ι))
    (s : Subscription ν ι) : Standing ν ι where
  subscription := s
  recv := match turn with
    | .going recv => recv
    | .done _ => .starting
  home := gained.getD w.home
  moves := if gained.isSome then w.moves + 1 else w.moves

variable {s : Subscription ν ι} {w : Standing ν ι} {recv : Recv ν ι} {home moves : Nat}
  {policy : Policy} {op : Op ν (Tap ι)}

theorem floor_eq (index : s.fallback = fallbackIndex home) : s.floor = home := by
  rw [Subscription.floor, index]
  cases home <;> rfl

theorem read_ring {ι : Type} (rs : Rings ι) (t : Tap ι) : (rs.read t).2.ring = t.ring := by
  unfold Rings.read
  split <;> rfl

/-- The index cannot be wrong any more. -/
def Known (w : Standing ν ι) : Prop := w.home = 0 ∨ 0 < w.moves

/-- What a subscription and its `recv` keep to. A switch only asks fallbacks, and none at or before
the one that is known to be left. -/
structure Sound (op : Op ν (Tap ι)) (w : Standing ν ι) : Prop where
  asks : w.subscription.op = op
  ring : ∀ t, w.subscription.tap = some t → ∃ t₀, Gave w.home op t₀ ∧ t₀.ring = t.ring
  index : w.Known → w.subscription.fallback = fallbackIndex w.home
  first : w.moves = 0 → w.subscription.fallback = none
  away : w.subscription.fallback ≠ none → w.subscription.lastReturn ≠ none
  returning : ∀ round quiet, w.recv = .returning round quiet →
    round.provider = 0 ∧ round.op = op ∧ round.Honest
  switching : ∀ sweep, w.recv = .switching sweep → w.subscription.lastReturn ≠ none ∧
    sweep.Within (fun p => p ≠ 0 ∧ (w.Known → w.home < p)) op

/-- A move that asks nobody and keeps stream and index. -/
theorem Sound.calm (h : w.Sound op) (asks : s.op = w.subscription.op)
    (ring : ∀ t, s.tap = some t → ∃ t₁, w.subscription.tap = some t₁ ∧ t₁.ring = t.ring)
    (index : s.fallback = w.subscription.fallback)
    (away : w.subscription.lastReturn ≠ none → s.lastReturn ≠ none)
    (alone : ∀ round quiet, recv ≠ .returning round quiet)
    (stays : ∀ sweep, recv ≠ .switching sweep) :
    Sound op ⟨s, recv, w.home, w.moves⟩ where
  asks := asks.trans h.asks
  ring := by
    intro t on
    obtain ⟨t₁, on₁, same⟩ := ring t on
    obtain ⟨t₀, gave, same₀⟩ := h.ring t₁ on₁
    exact ⟨t₀, gave, same₀.trans same⟩
  index := fun known => index.trans (h.index known)
  first := fun unmoved => index.trans (h.first unmoved)
  away := fun fallback => away (h.away (index ▸ fallback))
  returning := fun round quiet eq => absurd eq (alone round quiet)
  switching := fun sweep eq => absurd eq (stays sweep)

theorem Sound.rest (h : w.Sound op) : Sound op { w with recv := .starting } :=
  h.calm rfl (fun t on => ⟨t, on, rfl⟩) rfl id nofun nofun

theorem Sound.startReturn (h : w.Sound op) (quiet : Bool) (clock : Clock) (r : Providers ν) :
    Sound op { w with recv := (w.subscription.startReturn quiet clock r).1 } := by
  refine { h.rest with returning := ?_, switching := nofun }
  rintro round quiet' ⟨⟩
  exact ⟨rfl, h.asks, Round.honest_start _ _ _ _⟩

theorem Sound.startSwitch (h : Sound op ⟨s, recv, home, moves⟩) (e : ProviderError) (clock : Clock)
    (r : Providers ν) :
    Sound op ⟨(s.startSwitch e clock r).2.1, (s.startSwitch e clock r).1, home, moves⟩ := by
  obtain ⟨sweep, r', eq, within⟩ := s.startSwitch_eq e clock r
  rw [eq]
  refine ⟨h.asks, h.ring, h.index, h.first, nofun, nofun, ?_⟩
  rintro sweep' ⟨⟩
  refine ⟨nofun, h.asks ▸ within.mono ?_⟩
  intro p above
  refine ⟨Nat.ne_of_gt (Nat.zero_lt_of_lt above), fun known => ?_⟩
  rwa [floor_eq (h.index known)] at above

/-- A try to get back that came to nothing. -/
theorem Sound.refused (h : w.Sound op) (wall : Nat) :
    Sound op { w with
      subscription := { w.subscription with lastReturn := some wall }, recv := .arming } :=
  h.calm rfl (fun t on => ⟨t, on, rfl⟩) rfl (fun _ => nofun) nofun nofun

/-- The same stream, read further. -/
theorem Sound.read (h : w.Sound op) {t t' : Tap ι} {x : Signal ι} {rs : Rings ι}
    (on : w.subscription.tap = some t) (read : rs.read t = (x, t')) (lags : Nat) :
    Sound op { w with
      subscription := { w.subscription with tap := some t', lags }, recv := .starting } := by
  have same : t'.ring = t.ring := by simpa only [read] using read_ring rs t
  refine h.calm rfl ?_ rfl id nofun nofun
  rintro t₁ ⟨⟩
  exact ⟨t, on, same.symm⟩

variable [Carrier ν ι]

def step (w : Standing ν ι) (clock : Clock) (r : Providers ν) :
    Option (Standing ν ι × Providers ν) :=
  (w.subscription.step w.recv clock r).map fun (turn, s, r') =>
    (w.after (w.recv.gains clock r) turn s, r')

/-- Where a subscription can get to. Between two moves the providers can do anything, and a `recv`
can be given up at any time. -/
inductive Reached (policy : Policy) (op : Op ν (Tap ι)) : Standing ν ι → Prop where
  | opened {clock₀ clock : Clock} {r₀ r r' : Providers ν} {sweep : Sweeping ν (Tap ι)} {t : Tap ι}
      {p : Nat} (same : r₀.policy = policy)
      (came : (Sweep.failover op true clock₀ r₀).1.Came sweep)
      (done : sweep.step clock r = some (.done (.ok (t, p)), r')) :
      Reached policy op ⟨.new op t, .starting, p, 0⟩
  | moved {w w' : Standing ν ι} {clock : Clock} {r r' : Providers ν} (reached : Reached policy op w)
      (same : r.policy = policy) (step : w.step clock r = some (w', r')) : Reached policy op w'
  | restarted {w : Standing ν ι} (reached : Reached policy op w) :
      Reached policy op { w with recv := .starting }

variable {w' : Standing ν ι} {clock : Clock} {r r' : Providers ν}

theorem Sound.step (h : w.Sound op) (step : w.step clock r = some (w', r')) : w'.Sound op := by
  obtain ⟨⟨turn, s', r''⟩, moved, eq⟩ := Option.map_eq_some_iff.1 step
  obtain ⟨rfl, -⟩ := Prod.mk.inj eq
  obtain ⟨s, recv, home, moves⟩ := w
  cases Subscription.step_goes moved with
  | due => exact h.startReturn false clock r
  | notDue => exact h.calm rfl (fun t on => ⟨t, on, rfl⟩) rfl id nofun nofun
  | armed => exact h.calm rfl (fun t on => ⟨t, on, rfl⟩) rfl id nofun nofun
  | off plain =>
    rcases plain with rfl | ⟨deadline, rfl⟩
    · exact h.rest
    · exact h.rest
  | trying going =>
    obtain ⟨provider, asks, honest⟩ := h.returning _ _ rfl
    obtain ⟨provider', asks', honest'⟩ := Round.step_going going
    simp only [Recv.gains, going, after]
    refine { h.rest with returning := ?_, switching := nofun }
    rintro round quiet ⟨⟩
    exact ⟨provider'.trans provider, asks'.trans asks, honest' honest⟩
  | returned back =>
    obtain ⟨provider, asks, honest⟩ := h.returning _ _ rfl
    have gave := Round.step_ok back honest
    simp only [Recv.gains, back, after]
    refine ⟨h.asks, ?_, fun _ => ?_, nofun, nofun, ?_, ?_⟩
    · intro t on
      cases on
      exact ⟨_, asks ▸ gave, rfl⟩
    · simp [provider, fallbackIndex]
    · split <;> exact nofun
    · split <;> exact nofun
  | refused error =>
    simp only [Recv.gains, error]
    exact h.refused clock.wall
  | refusedQuiet error =>
    simp only [Recv.gains, error]
    exact (h.refused clock.wall).startSwitch .timeout clock _
  | item on read => exact h.read on read 0
  | lagged on read => exact h.read on read (s.lags + 1)
  | worn on read => exact (h.read on read (s.lags + 1)).startSwitch (.rpc .backendGone) clock _
  | closed => exact h.startSwitch (.rpc .backendGone) clock _
  | quietDue => exact h.startReturn true clock _
  | quiet => exact h.startSwitch .timeout clock _
  | sweeping going =>
    obtain ⟨left, within⟩ := h.switching _ rfl
    simp only [Recv.gains, going, after]
    refine { h.rest with returning := nofun, switching := ?_ }
    rintro sweep ⟨⟩
    exact ⟨left, within.step going⟩
  | switched done =>
    obtain ⟨left, within⟩ := h.switching _ rfl
    obtain ⟨⟨fallback, -⟩, gave⟩ := within.done done
    simp only [Recv.gains, done, after]
    refine ⟨h.asks, ?_, fun _ => ?_, nofun, fun _ => left, nofun, nofun⟩
    · intro t on
      cases on
      exact ⟨_, gave, rfl⟩
    · obtain ⟨i, rfl⟩ := Nat.exists_eq_succ_of_ne_zero fallback
      rfl
  | lost error =>
    simp only [Recv.gains, error]
    exact h.calm rfl nofun rfl id nofun nofun

theorem Reached.sound (reached : Reached policy op w) : w.Sound op := by
  induction reached with
  | @opened clock₀ clock r₀ r r' sweep t p same came done =>
    have start : (Sweep.failover op true clock₀ r₀).1.Within (fun _ => True) op :=
      Sweeping.within_start (fun _ _ => trivial) _ _ _ _
    obtain ⟨-, gave⟩ := (start.came came).done done
    refine ⟨rfl, ?_, ?_, fun _ => rfl, nofun, nofun, nofun⟩
    · rintro t' ⟨⟩
      exact ⟨t, gave, rfl⟩
    · rintro (primary | moved)
      · simp only at primary
        subst primary
        rfl
      · exact absurd moved (Nat.lt_irrefl 0)
  | moved _ _ step ih => exact ih.step step
  | restarted _ ih => exact ih.rest

/-- A `recv` looks whether a return is due when it begins, and when all has been quiet. -/
inductive MayReturn (w : Standing ν ι) : Bool → Clock → Providers ν → Prop where
  | begins {clock : Clock} {r : Providers ν} (starting : w.recv = .starting) :
      MayReturn w false clock r
  | quiet {clock : Clock} {r : Providers ν} {deadline : Nat} {t t' : Tap ι}
      (listening : w.recv = .listening deadline) (past : deadline ≤ clock.now)
      (on : w.subscription.tap = some t)
      (read : (Carrier.rings (ι := ι) r.fleet).read t = (.quiet, t')) : MayReturn w true clock r

/-- With this move the primary gives the stream back, or refuses it. -/
def Returning (w : Standing ν ι) (clock : Clock) (r : Providers ν) (gives : Bool) : Prop :=
  ∃ round quiet a r', w.recv = .returning round quiet ∧ round.step clock r = some (.done a, r') ∧
    a.isOk = gives

/-- The interval runs from the last refusal, at first from the switch away from the primary. -/
def Marks (w : Standing ν ι) (clock : Clock) (r : Providers ν) (w' : Standing ν ι) : Prop :=
  w'.subscription.lastReturn = w.subscription.lastReturn ∨
  (w'.subscription.lastReturn = none ∧ w.Returning clock r true) ∨
  w'.subscription.lastReturn = some clock.wall ∧
    (w.subscription.lastReturn = none ∨ w.Returning clock r false)

/-- The stream, the index that says where it is, and what follows for the ways to leave it. -/
structure Oriented (policy : Policy) (op : Op ν (Tap ι)) (w : Standing ν ι) : Prop where
  stream : ∀ t, w.subscription.tap = some t → ∃ t₀, Gave w.home op t₀ ∧ t₀.ring = t.ring
  fallback : ∀ i, w.subscription.fallback = some i ↔ w.home = i + 1
  primary : w.subscription.fallback = none ↔ w.home = 0
  retries : w.home ≠ 0 → ∃ left, w.subscription.lastReturn = some left ∧
    ∀ clock r, r.policy = policy → left + policy.reconnect ≤ clock.wall →
      ∀ quiet, w.MayReturn quiet clock r → ∃ round r',
        w.step clock r = some ({ w with recv := .returning round quiet }, r') ∧
        round.provider = 0 ∧ round.op = op ∧
        round.attempt = .trying (Fleet.begin 0 op clock r.fleet).1
  elsewhere : ∀ sweep, w.recv = .switching sweep → sweep.Within (w.home < ·) op ∧
    ∀ clock r w' r', w.step clock r = some (w', r') → w'.home = w.home ∨ w.home < w'.home
  mark : ∀ clock r w' r', w.step clock r = some (w', r') → w.Marks clock r w'

theorem mark_step (step : w.step clock r = some (w', r')) : w.Marks clock r w' := by
  obtain ⟨⟨turn, s', r''⟩, moved, eq⟩ := Option.map_eq_some_iff.1 step
  obtain ⟨rfl, -⟩ := Prod.mk.inj eq
  obtain ⟨s, recv, home, moves⟩ := w
  have leaves : some (s.lastReturn.getD clock.wall) = s.lastReturn ∨
      some (s.lastReturn.getD clock.wall) = some clock.wall ∧ s.lastReturn = none := by
    cases s.lastReturn with
    | none => exact .inr ⟨rfl, rfl⟩
    | some t => exact .inl rfl
  cases Subscription.step_goes moved with
  | due | notDue | armed | off | trying | item | lagged | quietDue | sweeping | switched | lost =>
    exact .inl rfl
  | returned back => exact .inr (.inl ⟨rfl, _, _, _, _, rfl, back, rfl⟩)
  | refused error => exact .inr (.inr ⟨rfl, .inr ⟨_, _, _, _, rfl, error, rfl⟩⟩)
  | refusedQuiet error => exact .inr (.inr ⟨rfl, .inr ⟨_, _, _, _, rfl, error, rfl⟩⟩)
  | worn | closed | quiet => exact leaves.imp_right fun h => .inr ⟨h.1, .inl h.2⟩

/-- A return that is due is begun wherever a `recv` looks. -/
theorem step_return {left : Nat} {quiet : Bool} (may : w.MayReturn quiet clock r)
    (away : w.subscription.fallback ≠ none) (mark : w.subscription.lastReturn = some left)
    (due : left + r.policy.reconnect ≤ clock.wall) :
    ∃ round r', w.step clock r = some ({ w with recv := .returning round quiet }, r') ∧
      round.provider = 0 ∧ round.op = w.subscription.op ∧
      round.attempt = .trying (Fleet.begin 0 w.subscription.op clock r.fleet).1 := by
  obtain ⟨s, recv, home, moves⟩ := w
  simp only at away mark
  have now : s.returnDue clock r = true := by
    simp only [Subscription.returnDue, mark]
    exact decide_eq_true due
  cases may with
  | begins starting =>
    simp only at starting
    subst starting
    refine ⟨(Round.start 0 s.op clock r).1, (Round.start 0 s.op clock r).2, ?_, rfl, rfl, rfl⟩
    simp only [step, Subscription.step, now, if_true]
    rfl
  | @quiet _ _ deadline t t' listening past on read =>
    simp only at listening on
    subst listening
    have gone : s.fallback.isSome = true := Option.isSome_iff_ne_none.2 away
    have late : ¬ clock.now < deadline := Nat.not_lt.2 past
    refine ⟨(Round.start 0 s.op clock (r.notice (.quiet (r.policy.silence / 1000)))).1,
      (Round.start 0 s.op clock (r.notice (.quiet (r.policy.silence / 1000)))).2, ?_, rfl, rfl, rfl⟩
    simp only [step, Subscription.step, Subscription.stepListening, on, read, late, gone,
      Subscription.returnDue_notice, now, Bool.and_self, if_true, if_false]
    rfl

theorem step_switching {sweep : Sweeping ν (Tap ι)} {P : Nat → Prop}
    (switching : w.recv = .switching sweep) (within : sweep.Within P op)
    (step : w.step clock r = some (w', r')) : w'.home = w.home ∨ P w'.home := by
  obtain ⟨⟨turn, s', r''⟩, -, eq⟩ := Option.map_eq_some_iff.1 step
  obtain ⟨rfl, -⟩ := Prod.mk.inj eq
  simp only [after, switching, Recv.gains]
  split
  · rename_i done
    exact .inr (within.done done).1
  · exact .inl rfl

/-- A subscription whose stream came from the primary, or was opened anew since, knows where it is:
the index names the fallback on which the stream was opened, the primary is asked again when it is
time, and a switch goes on to other providers. -/
theorem knows_where_it_is (reached : Reached policy op w) (known : w.Known) :
    w.Oriented policy op := by
  have sound := reached.sound
  have index := sound.index known
  refine ⟨sound.ring, ?_, ?_, ?_, ?_, fun _ _ _ _ => mark_step⟩
  · intro i
    rw [index]
    cases w.home <;> simp [fallbackIndex]
  · rw [index]
    cases w.home <;> simp [fallbackIndex]
  · intro gone
    have away : w.subscription.fallback ≠ none := by
      rw [index]
      cases home : w.home with
      | zero => exact absurd home gone
      | succ => exact nofun
    obtain ⟨left, mark⟩ := Option.ne_none_iff_exists'.1 (sound.away away)
    refine ⟨left, mark, ?_⟩
    intro clock r same due quiet may
    exact sound.asks ▸ step_return may away mark (same ▸ due)
  · intro sweep switching
    have within := (sound.switching sweep switching).2.mono fun p within => within.2 known
    exact ⟨within, fun clock r w' r' step => step_switching switching within step⟩

/-- Only a stream that was opened on a fallback to begin with, and is still the first one, is
thought to be the primary's. -/
theorem index_eq_iff (reached : Reached policy op w) :
    w.subscription.fallback = fallbackIndex w.home ↔ w.Known := by
  refine ⟨fun tells => ?_, reached.sound.index⟩
  rcases Nat.eq_zero_or_pos w.moves with unmoved | moved
  · rw [reached.sound.first unmoved] at tells
    cases home : w.home with
    | zero => exact .inl home
    | succ =>
      rw [home] at tells
      cases tells
  · exact .inr moved

theorem Reached.awaited {t : Tap ι} {p : Nat} {clock' : Clock} (same : r.policy = policy)
    (ends : (Sweep.failover op true clock r).1.await clock (Sweep.failover op true clock r).2 =
      some (.ok (t, p), clock', r')) : Reached policy op ⟨.new op t, .starting, p, 0⟩ := by
  obtain ⟨sweep, r₁, came, done⟩ := Sweeping.came_of_await ends
  exact .opened same came done

/-- A run in which the fleet changes before each move. -/
def play (policy : Policy) (w : Standing ν ι) (f : ν) :
    List (Clock × (ν → ν)) → Option (Standing ν ι × ν)
  | [] => some (w, f)
  | (clock, change) :: rest =>
    (w.step clock ⟨change f, policy, []⟩).bind fun (w, r) => play policy w r.fleet rest

theorem Reached.play {f f' : ν} {moves : List (Clock × (ν → ν))} (reached : Reached policy op w)
    (played : play policy w f moves = some (w', f')) : Reached policy op w' := by
  induction moves generalizing w f with
  | nil =>
    cases played
    exact reached
  | cons move rest ih =>
    obtain ⟨⟨w₁, r₁⟩, step, played⟩ := Option.bind_eq_some_iff.1 played
    exact ih (reached.moved rfl step) played

end Standing

namespace Example

def policy : Policy := .fragile 1

def willing : Actors Nat := .new [⟨true, [], none⟩, ⟨true, [], none⟩] 4

/-- The primary refuses once. -/
def refusing : Actors Nat := .new [⟨true, [.fail (some "down") 0], none⟩, ⟨true, [], none⟩] 4

/-- The stream of this provider has closed by the time the `recv` listens to it. -/
def loses (provider : Nat) : List (Clock × (Actors Nat → Actors Nat)) :=
  [(⟨0, 0⟩, id), (⟨0, 0⟩, id), (⟨0, 0⟩, fun a => a.closeRing provider), (⟨0, 0⟩, id)]

/-- A subscription as it is opened, and the actors by then. -/
def opening (a : Actors Nat) : Option (Tap Nat × Nat × Actors Nat) :=
  let call := Sweep.failover Actors.subscribe true ⟨0, 0⟩ ⟨a, policy, []⟩
  match call.1.await ⟨0, 0⟩ call.2 with
  | some (.ok (t, p), _, r) => some (t, p, r.fleet)
  | _ => none

theorem opening_reached {a a' : Actors Nat} {t : Tap Nat} {p : Nat}
    (opened : opening a = some (t, p, a')) :
    Standing.Reached policy Actors.subscribe (⟨.new Actors.subscribe t, .starting, p, 0⟩ :
      Standing (Actors Nat) Nat) := by
  unfold opening at opened
  simp only at opened
  split at opened
  · rename_i ends
    cases opened
    exact .awaited rfl ends
  · cases opened

end Example

open Example Standing

/-- The stream moves from the primary to the fallback, and half a minute later the next `recv` asks
the primary. -/
theorem fallback_knows_itself : ∃ w : Standing (Actors Nat) Nat,
    w.Reached policy Actors.subscribe ∧ w.Known ∧ w.home = 1 ∧ w.subscription.fallback = some 0 ∧
    ∃ left, w.subscription.lastReturn = some left ∧ ∀ clock r, r.policy = policy →
      left + 30000 ≤ clock.wall → ∃ round r',
        w.step clock r = some ({ w with recv := .returning round false }, r') ∧
        round.provider = 0 := by
  obtain ⟨a, opened⟩ : ∃ a, opening willing = some (⟨0, 0⟩, 0, a) := ⟨_, rfl⟩
  have reached := opening_reached opened
  obtain ⟨w, a', played, home, moves, starting⟩ : ∃ w a',
      play policy ⟨.new Actors.subscribe ⟨0, 0⟩, .starting, 0, 0⟩ a (loses 0) = some (w, a') ∧
      w.home = 1 ∧ w.moves = 1 ∧ w.recv = .starting := by
    cases opened
    exact ⟨_, _, rfl, rfl, rfl, rfl⟩
  have known : w.Known := .inr (by omega)
  have oriented := knows_where_it_is (reached.play played) known
  obtain ⟨left, mark, retries⟩ := oriented.retries (by omega)
  refine ⟨w, reached.play played, known, home, (oriented.fallback 0).2 home, left, mark, ?_⟩
  intro clock r same due
  obtain ⟨round, r', step, primary, -⟩ := retries clock r same due false (.begins starting)
  exact ⟨round, r', step, primary⟩

/-- A stream that was opened on the fallback passes for the primary's: however late it is nobody
asks the primary, and when it closes it is opened once more where it has just closed. -/
theorem fallback_taken_for_primary : ∃ w : Standing (Actors Nat) Nat,
    w.Reached policy Actors.subscribe ∧ w.subscription.tap.isSome ∧ w.home = 1 ∧
    w.subscription.fallback = none ∧
    (∀ clock r, w.step clock r = some ({ w with recv := .arming }, r)) ∧
    ∃ a w' a', play policy w a (loses 1) = some (w', a') ∧ w'.home = 1 ∧ w'.moves = 1 := by
  obtain ⟨a, opened⟩ : ∃ a, opening refusing = some (⟨0, 0⟩, 1, a) := ⟨_, rfl⟩
  refine ⟨_, opening_reached opened, rfl, rfl, rfl, fun _ _ => rfl, a, ?_⟩
  cases opened
  exact ⟨_, _, rfl, rfl, rfl⟩

end ChainHerald
