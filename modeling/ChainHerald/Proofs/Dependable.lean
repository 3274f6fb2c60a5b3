import ChainHerald.Proofs.Course

/-!
# One dependable provider

A search goes over later and later providers, and back to the primary: it never gets past a provider
that takes every subscription in time (`Sweep.Leads`), and once there it never sets out again
(`Standing.Short`). So with one dependable provider the call for a subscription succeeds and no
`recv` fails, whatever all the others do.
-/

namespace ChainHerald

open Fleet (Op)

variable {ν ι : Type} [Fleet ν] {α : Type} {p : Nat}

/-! ## Searching -/

namespace Round

variable {k k' : Round ν α} {clock : Clock} {r r' : Providers ν}

/-- The provider does not refuse, and has answered by the deadline. -/
def prompt (k : Round ν α) (clock : Clock) (f : ν) : Bool :=
  match k.attempt with
  | .pausing _ => true
  | .trying t =>
    match Fleet.step t clock f with
    | none => decide (clock.now < k.deadline)
    | some (.done (.error _), _) => false
    | _ => true

/-- Nothing has been refused so far. -/
def Unrefused (k : Round ν α) : Prop := ∃ t, k.attempt = .trying t

theorem Unrefused.step_going (unrefused : k.Unrefused) (prompt : k.prompt clock r.fleet = true)
    (step : k.step clock r = some (.going k', r')) : k'.Unrefused := by
  obtain ⟨t, trying⟩ := unrefused
  simp only [Round.prompt, trying] at prompt
  simp only [Round.step, trying] at step
  split at step
  · unfold expire at step
    split at step <;> cases step
  · cases step
    exact ⟨_, rfl⟩
  · cases step
  · rename_i refused
    simp [refused] at prompt

theorem Unrefused.step_done (unrefused : k.Unrefused) (prompt : k.prompt clock r.fleet = true)
    (e : ProviderError) : k.step clock r ≠ some (.done (.error e), r') := by
  obtain ⟨t, trying⟩ := unrefused
  intro step
  simp only [Round.prompt, trying] at prompt
  simp only [Round.step, trying] at step
  split at step
  · rename_i waits
    simp only [waits, decide_eq_true_eq] at prompt
    unfold expire at step
    split at step
    · omega
    · cases step
  · cases step
  · cases step
  · rename_i refused
    simp [refused] at prompt

end Round

/-- The provider is still to be tried, or is being tried and has not refused. -/
structure Sweep.Leads (p : Nat) (w : Sweep ν α) : Prop where
  ahead : p ∈ w.round.provider :: w.rest
  ascending : (w.round.provider :: w.rest).Pairwise (· < ·)
  unrefused : w.round.provider = p → w.round.Unrefused

namespace Sweeping

variable {s s' : Sweeping ν α} {clock : Clock} {r r' : Providers ν} {a : α} {q : Nat}

def Leads (p : Nat) (s : Sweeping ν α) : Prop := ∃ w, s = .active w ∧ w.Leads p

/-- The round under way, if it is with the provider, is a prompt one. -/
def Prompt (p : Nat) (s : Sweeping ν α) (clock : Clock) (f : ν) : Prop :=
  ∀ w, s = .active w → w.round.provider = p → w.round.prompt clock f = true

theorem leads_start {candidates : List Nat} (mem : p ∈ candidates)
    (ascending : candidates.Pairwise (· < ·)) (op : Op ν α) (e : ProviderError) (clock : Clock)
    (r : Providers ν) : (Sweep.start op candidates e clock r).1.Leads p := by
  cases candidates with
  | nil => cases mem
  | cons q rest => exact ⟨_, rfl, mem, ascending, fun _ => ⟨_, rfl⟩⟩

theorem Leads.step_going (leads : s.Leads p) (prompt : s.Prompt p clock r.fleet)
    (step : s.step clock r = some (.going s', r')) : s'.Leads p := by
  obtain ⟨w, rfl, ahead, ascending, unrefused⟩ := leads
  cases step_moves step with
  | trying going =>
    obtain ⟨provider, -, -⟩ := Round.step_going going
    refine ⟨_, rfl, provider ▸ ahead, provider ▸ ascending, ?_⟩
    intro here
    have here := provider.symm.trans here
    exact (unrefused here).step_going (prompt w rfl here) going
  | @next _ e q rest r' r₁ refused left =>
    have elsewhere : w.round.provider ≠ p := by
      intro here
      exact (unrefused here).step_done (prompt w rfl here) e refused
    rw [left] at ahead ascending
    have later := (List.mem_cons.1 ahead).resolve_left (Ne.symm elsewhere)
    exact ⟨_, rfl, later, (List.pairwise_cons.1 ascending).2, fun _ => ⟨_, rfl⟩⟩

/-- Whoever takes the subscription comes no later than the provider. -/
theorem Leads.step_ok (leads : s.Leads p)
    (step : s.step clock r = some (.done (.ok (a, q)), r')) : q ≤ p := by
  obtain ⟨w, rfl, ahead, ascending, -⟩ := leads
  cases step_moves step with
  | gave =>
    rcases List.mem_cons.1 ahead with rfl | later
    · exact Nat.le_refl _
    · exact Nat.le_of_lt ((List.pairwise_cons.1 ascending).1 p later)

theorem Leads.step_error (leads : s.Leads p) (prompt : s.Prompt p clock r.fleet)
    (e : ProviderError) : s.step clock r ≠ some (.done (.error e), r') := by
  obtain ⟨w, rfl, ahead, -, unrefused⟩ := leads
  intro step
  cases step_moves step with
  | spent refused left =>
    rw [left] at ahead
    have here := (List.mem_singleton.1 ahead).symm
    exact (unrefused here).step_done (prompt w rfl here) e refused

end Sweeping

/-- A subscription can be had from the provider. -/
structure Providers.Carries (p : Nat) (r : Providers ν) : Prop where
  known : p ≤ r.policy.fallbacks
  pubsub : Fleet.pubsub r.fleet p = true

theorem Providers.Carries.round [Fleet.Settled ν] {k : Round ν α} {clock : Clock}
    {r r' : Providers ν} {turn : Turn (Round ν α) (Except ProviderError α)} (carries : r.Carries p)
    (step : k.step clock r = some (turn, r')) : r'.Carries p where
  known := (congrArg Policy.fallbacks (Round.step_policy step)).symm ▸ carries.known
  pubsub := (congrFun (Round.pubsub_step step) p).trans carries.pubsub

/-! ## Listening -/

/-- Nothing is being searched that the loss of a stream has set off. -/
def Recv.Calm : Recv ν ι → Prop
  | .returning _ true | .switching _ => False
  | _ => True

namespace Standing

variable {w : Standing ν ι} {policy : Policy} {op : Op ν (Tap ι)} {clock : Clock}
  {r r' : Providers ν}

/-- The subscription has not got past the provider. -/
structure Short (p : Nat) (w : Standing ν ι) : Prop where
  on : w.subscription.tap ≠ none
  home : w.home ≤ p
  returning : ∀ round, w.recv = .returning round true → w.home ≠ p
  switching : ∀ s, w.recv = .switching s → s.Leads p

/-- A search sets out only before the provider, and leads to it. -/
theorem Short.leave {s₀ s s' : Subscription ν ι} {recv : Recv ν ι} {home moves : Nat}
    {e : ProviderError} (h : Short p ⟨s₀, recv, home, moves⟩) (floor : s₀.floor ≤ home)
    (away : home ≠ p) (carries : r.Carries p) (same : s.fallback = s₀.fallback)
    (on : s'.tap ≠ none) : Short p ⟨s', (s.startSwitch e clock r).1, home, moves⟩ := by
  have index : s.floor = s₀.floor := by rw [Subscription.floor, same, Subscription.floor]
  have short : s.floor < p := index ▸ Nat.lt_of_le_of_lt floor (Nat.lt_of_le_of_ne h.home away)
  have mem : p ∈ r.fallbacksFrom true s.floor :=
    Providers.mem_fallbacksFrom.2 ⟨short, carries.known, carries.pubsub⟩
  rw [Subscription.startSwitch_fst]
  refine ⟨on, h.home, ?_, ?_⟩
  · rintro round ⟨⟩
  · rintro sweep ⟨⟩
    exact Sweeping.leads_start mem (r.fallbacksFrom_ascending _ _) _ _ _ _

theorem Short.of_calm (calm : w.recv.Calm) (on : w.subscription.tap ≠ none) (home : w.home ≤ p) :
    w.Short p where
  on := on
  home := home
  returning round here := by
    rw [here] at calm
    exact calm.elim
  switching sweep here := by
    rw [here] at calm
    exact calm.elim

variable [Carrier ν ι]

/-- Whenever the stream is listened to, it is open, has kept everything for its reader, and has
something for it in time. -/
def fed (w : Standing ν ι) (clock : Clock) (f : ν) : Bool :=
  match w.recv, w.subscription.tap with
  | .listening deadline, some t =>
    match (Carrier.rings (ι := ι) f).read t with
    | (.item _, _) => true
    | (.lagged _, _) | (.closed, _) => false
    | (.quiet, _) => decide (clock.now < deadline)
  | _, _ => true

variable {t t' : Tap ι} {f : ν} {deadline : Nat}

theorem fed_of_lagged {lost : Nat} (listening : w.recv = .listening deadline)
    (on : w.subscription.tap = some t)
    (read : (Carrier.rings (ι := ι) f).read t = (.lagged lost, t')) : w.fed clock f = false := by
  simp only [fed, on, read, listening]

theorem fed_of_closed (listening : w.recv = .listening deadline) (on : w.subscription.tap = some t)
    (read : (Carrier.rings (ι := ι) f).read t = (.closed, t')) : w.fed clock f = false := by
  simp only [fed, on, read, listening]

theorem fed_of_quiet (listening : w.recv = .listening deadline) (on : w.subscription.tap = some t)
    (read : (Carrier.rings (ι := ι) f).read t = (.quiet, t')) (past : deadline ≤ clock.now) :
    w.fed clock f = false := by
  simp only [fed, on, read, listening, decide_eq_false (Nat.not_lt.2 past)]

/-- With this provider everything is as it should be. -/
structure Upheld (p : Nat) (w : Standing ν ι) (clock : Clock) (r : Providers ν) : Prop where
  carries : r.Carries p
  accepts : ∀ k, w.recv.round? = some k → k.provider = p → k.prompt clock r.fleet = true
  streams : w.home = p → w.fed clock r.fleet = true

theorem Upheld.away (u : w.Upheld p clock r) (unfed : w.fed clock r.fleet = false) :
    w.home ≠ p := by
  intro here
  rw [u.streams here] at unfed
  cases unfed

theorem Upheld.prompt (u : w.Upheld p clock r) {sweep : Sweeping ν (Tap ι)}
    (switching : w.recv = .switching sweep) : sweep.Prompt p clock r.fleet := by
  rintro sweep rfl here
  exact u.accepts _ (by rw [switching]; rfl) here

variable {turn : Turn (Recv ν ι) (Except ProviderError ι)} {s : Subscription ν ι}

theorem Short.step_ne_error (h : w.Short p) (u : w.Upheld p clock r) (e : ProviderError) :
    w.subscription.step w.recv clock r ≠ some (.done (.error e), s, r') := by
  intro step
  obtain ⟨s₀, recv, home, moves⟩ := w
  cases Subscription.step_goes step with
  | off _ off => exact h.on off
  | lost error => exact (h.switching _ rfl).step_error (u.prompt rfl) e error

/-- A move does not get past a dependable provider. -/
theorem Short.step [Fleet.Settled ν] (h : w.Short p) (sound : w.Sound op) (u : w.Upheld p clock r)
    (step : w.subscription.step w.recv clock r = some (turn, s, r')) :
    (w.after (w.recv.gains clock r) turn s).Short p := by
  have floor := sound.floor_le
  obtain ⟨s₀, recv, home, moves⟩ := w
  cases Subscription.step_goes step with
  | due =>
    exact .of_calm trivial h.on h.home
  | notDue =>
    exact .of_calm trivial h.on h.home
  | armed =>
    exact .of_calm trivial h.on h.home
  | off _ off => exact absurd off h.on
  | trying going =>
    simp only [Recv.gains, going]
    refine ⟨h.on, h.home, ?_, ?_⟩
    · rintro round ⟨⟩
      exact h.returning _ rfl
    · rintro sweep ⟨⟩
  | returned back =>
    obtain ⟨provider, -⟩ := sound.returning _ _ rfl
    simp only [Recv.gains, back, after, provider]
    refine .of_calm ?_ (Option.some_ne_none _) (Nat.zero_le p)
    dsimp only
    split <;> trivial
  | refused error =>
    simp only [Recv.gains, error]
    exact .of_calm trivial h.on h.home
  | refusedQuiet error =>
    simp only [Recv.gains, error]
    obtain ⟨known, pubsub⟩ := u.carries.round error
    exact h.leave floor (h.returning _ rfl) ⟨known, pubsub⟩ rfl h.on
  | item =>
    exact .of_calm trivial (Option.some_ne_none _) h.home
  | lagged =>
    exact .of_calm trivial (Option.some_ne_none _) h.home
  | worn on read =>
    obtain ⟨known, pubsub⟩ := u.carries
    exact h.leave floor (u.away (fed_of_lagged rfl on read)) ⟨known, pubsub⟩ rfl
      (Option.some_ne_none _)
  | closed on read =>
    obtain ⟨known, pubsub⟩ := u.carries
    exact h.leave floor (u.away (fed_of_closed rfl on read)) ⟨known, pubsub⟩ rfl h.on
  | quietDue on read past =>
    refine ⟨h.on, h.home, fun _ _ => u.away (fed_of_quiet rfl on read past), ?_⟩
    rintro sweep ⟨⟩
  | quiet on read past =>
    obtain ⟨known, pubsub⟩ := u.carries
    exact h.leave floor (u.away (fed_of_quiet rfl on read past)) ⟨known, pubsub⟩ rfl h.on
  | sweeping going =>
    simp only [Recv.gains, going]
    refine ⟨h.on, h.home, ?_, ?_⟩
    · rintro round ⟨⟩
    · rintro sweep ⟨⟩
      exact (h.switching _ rfl).step_going (u.prompt rfl) going
  | switched done =>
    simp only [Recv.gains, done]
    exact .of_calm trivial (Option.some_ne_none _) ((h.switching _ rfl).step_ok done)
  | lost error => exact absurd error ((h.switching _ rfl).step_error (u.prompt rfl) _)

end Standing

/-! ## The whole course -/

/-- The subscription, once there is one. -/
def Subscriber.standing? : Subscriber ν ι → Option (Standing ν ι)
  | .on w => some w
  | _ => none

/-- The search, or the stream it has found, has not got past the provider. -/
def Subscriber.Short (p : Nat) : Subscriber ν ι → Prop
  | .opening s => s.Leads p
  | .on w => w.Short p
  | .refused _ => False

namespace Course

variable [Carrier ν ι] {c : Course ν ι}

/-- The provider carries subscriptions and takes each one in time. Its streams do not close, do not
lag and do not go quiet. -/
structure Dependable (c : Course ν ι) (p : Nat) : Prop where
  known : p ≤ c.policy.fallbacks
  pubsub : Fleet.pubsub c.fleet p = true
  accepts : ∀ n, ∀ k ∈ (c.subscriber n).round?, k.provider = p →
    k.prompt (c.clock n) (c.found n).fleet = true
  streams : ∀ n, ∀ w ∈ (c.subscriber n).standing?, w.home = p →
    w.fed (c.clock n) (c.found n).fleet = true

variable [Carrier.Settled ν ι] {n : Nat} {w : Standing ν ι}

theorem Dependable.upheld (d : c.Dependable p) (on : c.subscriber n = .on w) :
    w.Upheld p (c.clock n) (c.found n) where
  carries := ⟨d.known, (congrFun (c.pubsub_found n) p).trans d.pubsub⟩
  accepts k under := d.accepts n k (by rwa [on])
  streams := d.streams n w (by rw [on]; rfl)

theorem Dependable.short (d : c.Dependable p) (n : Nat) : (c.subscriber n).Short p := by
  induction n with
  | zero =>
    have mem : p ∈ (⟨c.fleet, c.policy, []⟩ : Providers ν).everyone true :=
      Providers.mem_everyone.2 ⟨d.known, d.pubsub⟩
    exact Sweeping.leads_start mem (Providers.everyone_ascending _ _) _ _ _ _
  | succ n ih =>
    cases before : c.subscriber n with
    | opening s =>
      rw [before] at ih
      have prompt : s.Prompt p (c.clock n) (c.found n).fleet := by
        rintro w rfl
        exact d.accepts n _ (by rw [before]; rfl)
      have next := subscriber_of_opening before
      generalize c.subscriber (n + 1) = after at next ⊢
      cases next with
      | waits => exact ih
      | going step => exact ih.step_going prompt step
      | opened step => exact .of_calm trivial (Option.some_ne_none _) (ih.step_ok step)
      | refused step => exact absurd step (ih.step_error prompt _)
    | on w =>
      rw [before] at ih
      obtain ⟨w', after, listens⟩ := subscriber_of_on before
      rw [after]
      cases listens with
      | idle => exact .of_calm trivial ih.on ih.home
      | waits => exact ih
      | moved _ step =>
        obtain ⟨⟨turn, s, r⟩, moved, eq⟩ := Option.map_eq_some_iff.1 step
        cases eq
        exact ih.step (sound before) (d.upheld before) moved
    | refused e =>
      rw [before] at ih
      exact ih.elim

/-- With one dependable provider a call for a subscription succeeds and no `recv` fails. -/
theorem one_provider_suffices (c : Course ν ι) (d : c.Dependable p) :
    (∀ n e, c.subscriber n ≠ .refused e) ∧
    (c.Unhurried → ∃ n w, c.subscriber n = .on w ∧ w.home ≤ p) ∧
    ∀ n w, c.subscriber n = .on w → ∀ e s r,
      w.subscription.step w.recv (c.clock n) (c.found n) ≠ some (.done (.error e), s, r) := by
  have never : ∀ n e, c.subscriber n ≠ .refused e := by
    intro n e refused
    have short := d.short n
    rwa [refused] at short
  refine ⟨never, ?_, ?_⟩
  · intro unhurried
    obtain ⟨n, ended⟩ := unhurried.call_ends
    cases here : c.subscriber n with
    | opening s => exact absurd here (ended s)
    | refused e => exact absurd here (never n e)
    | on w =>
      have short := d.short n
      rw [here] at short
      exact ⟨n, w, here, short.home⟩
  · intro n w on e s r
    have short := d.short n
    rw [on] at short
    exact short.step_ne_error (d.upheld on) e

end Course

/-! ## A course with a good last provider -/

namespace Example

/-- The first fallback refuses once. -/
def trio : Actors Nat :=
  .new [⟨true, [], none⟩, ⟨true, [.fail (some "down") 0], none⟩, ⟨true, [], none⟩] 4

/-- The primary's stream closes, and later the second fallback sends an item. -/
def upset : Nat → Actors Nat → Actors Nat
  | 3 => fun a => a.closeRing 0
  | 8 => fun a => (a.send 2 [7]).2
  | _ => id

theorem pubsub_upset (n : Nat) (a : Actors Nat) : Actors.pubsub (upset n a) = a.pubsub := by
  unfold upset
  split
  · exact Actors.pubsub_closeRing a 0
  · exact Actors.pubsub_send a 2 [7]
  · rfl

/-- When the item has been read there are no more `recv`s. -/
def faltering : Course (Actors Nat) Nat where
  policy := .fragile 2
  op := Actors.subscribe
  fleet := trio
  moments n := ⟨⟨n - 9, n - 9⟩, upset n, pubsub_upset n, decide (9 ≤ n)⟩

theorem faltering_rests {n : Nat} (late : 9 ≤ n) : ∃ w, faltering.subscriber n = .on w ∧
    w.recv = .starting ∧ w.home = 2 ∧ w.moves = 1 := by
  induction late with
  | refl => exact ⟨_, rfl, rfl, rfl, rfl⟩
  | @step n late ih =>
    obtain ⟨w, here, -, home, moves⟩ := ih
    have rests := Course.state_of_idle here (decide_eq_true late)
    exact ⟨_, congrArg Prod.fst rests, rfl, home, moves⟩

theorem faltering_dependable : faltering.Dependable 2 where
  known := by decide
  pubsub := by decide
  accepts := by
    intro n
    by_cases early : n < 9
    · revert n
      decide +kernel
    · obtain ⟨w, here, starting, -⟩ := faltering_rests (Nat.le_of_not_lt early)
      simp [here, Subscriber.round?, starting, Recv.round?]
  streams := by
    intro n
    by_cases early : n < 9
    · revert n
      decide +kernel
    · obtain ⟨w, here, starting, -⟩ := faltering_rests (Nat.le_of_not_lt early)
      simp [here, Subscriber.standing?, Standing.fed, starting]

theorem faltering_unhurried : faltering.Unhurried :=
  .of_idle (m := 9) rfl (fun _ late => decide_eq_true late) fun _ => rfl

end Example

open Example

theorem faltering_two_suffices : (∃ w, faltering.subscriber 1 = .on w ∧ w.home = 0) ∧
    (∃ w, faltering.subscriber 9 = .on w ∧ w.home = 2 ∧ w.moves = 1) ∧
    (∀ n e, faltering.subscriber n ≠ .refused e) ∧
    (∃ n w, faltering.subscriber n = .on w ∧ w.home ≤ 2) ∧
    ∀ n w, faltering.subscriber n = .on w → ∀ e s r, w.subscription.step w.recv
      (faltering.clock n) (faltering.found n) ≠ some (.done (.error e), s, r) := by
  have moved : ∃ w, faltering.subscriber 9 = .on w ∧ w.home = 2 ∧ w.moves = 1 :=
    ⟨_, rfl, rfl, rfl⟩
  obtain ⟨never, opens, listens⟩ := Course.one_provider_suffices faltering faltering_dependable
  exact ⟨⟨_, rfl, rfl⟩, moved, never, opens faltering_unhurried, listens⟩

end ChainHerald
