import ChainHerald.Proofs.Course

/-!
# Who was asked before a `recv` gives up

A search begins when the stream fails, and a `recv` gives up when the search has nobody left. What
has been tried and what is still pending are together the same providers all along
(`Course.Search`): the fallbacks beyond the one the subscription believes it is on, and the primary
only if the stream has gone quiet and a return is due. Nobody else is asked, not even a primary to
which a return is due.
-/

namespace ChainHerald

open Fleet (Op)

variable {ν ι : Type} [Fleet ν]

/-- The providers that a search has still to hear from, with the one that is being asked first.
`beyond` are those that come after the primary. -/
def Recv.pending (beyond : List Nat) : Recv ν ι → Option (List Nat)
  | .returning round true => some (round.provider :: beyond)
  | .switching (.active w) => some (w.round.provider :: w.rest)
  | .switching (.idle _) => some []
  | _ => none

theorem Recv.round?_of_pending {recv : Recv ν ι} {beyond rest : List Nat} {p : Nat}
    (pending : recv.pending beyond = some (p :: rest)) :
    ∃ round, recv.round? = some round ∧ round.provider = p := by
  unfold Recv.pending at pending
  split at pending <;> cases pending
  · exact ⟨_, rfl, rfl⟩
  · exact ⟨_, rfl, rfl⟩

theorem Subscription.pending_startSwitch (s : Subscription ν ι) (e : ProviderError) (clock : Clock)
    (r : Providers ν) (beyond : List Nat) :
    (s.startSwitch e clock r).1.pending beyond = some (r.fallbacksFrom true s.floor) := by
  rw [startSwitch_fst]
  cases r.fallbacksFrom true s.floor <;> rfl

theorem Providers.fallbacksFrom_congr {r r' : Providers ν} (policy : r.policy = r'.policy)
    (pubsub : Fleet.pubsub r.fleet = Fleet.pubsub r'.fleet) (index : Nat) :
    r.fallbacksFrom true index = r'.fallbacksFrom true index := by
  have eligible : r.eligible true = r'.eligible true := by
    funext p
    simp only [Providers.eligible, pubsub]
  simp only [fallbacksFrom, eligible, policy]

variable [Carrier ν ι]

/-- The stream that is being listened to fails. Only if it has gone quiet is the primary asked, and
before anybody else. -/
inductive Standing.Broke (w : Standing ν ι) (clock : Clock) (r : Providers ν) : Bool → Prop where
  | closed {deadline : Nat} {t t' : Tap ι} (listening : w.recv = .listening deadline)
      (on : w.subscription.tap = some t)
      (read : (Carrier.rings (ι := ι) r.fleet).read t = (.closed, t')) : Broke w clock r false
  | worn {deadline lost : Nat} {t t' : Tap ι} (listening : w.recv = .listening deadline)
      (on : w.subscription.tap = some t)
      (read : (Carrier.rings (ι := ι) r.fleet).read t = (.lagged lost, t'))
      (many : mostLags ≤ w.subscription.lags + 1) : Broke w clock r false
  | quiet {deadline : Nat} {t t' : Tap ι} (listening : w.recv = .listening deadline)
      (on : w.subscription.tap = some t)
      (read : (Carrier.rings (ι := ι) r.fleet).read t = (.quiet, t'))
      (past : deadline ≤ clock.now) {first : Bool}
      (due : (w.subscription.fallback.isSome && w.subscription.returnDue clock r) = first) :
      Broke w clock r first

/-- A `recv` with a round under way waits only if the round does. -/
theorem Subscription.round_waits {s : Subscription ν ι} {recv : Recv ν ι} {round : Round ν (Tap ι)}
    {clock : Clock} {r : Providers ν} (here : recv.round? = some round)
    (waits : s.step recv clock r = none) : round.step clock r = none := by
  cases recv with
  | starting | arming | listening => cases here
  | returning round quiet =>
    cases here
    simp only [step, stepReturning] at waits
    split at waits
    · assumption
    · cases waits
    · cases waits
    · split at waits <;> cases waits
  | switching sweep => cases sweep with
    | idle => cases here
    | active w =>
      cases here
      refine Sweeping.step_eq_none (w := w) ?_
      simp only [step, stepSwitching] at waits
      split at waits
      · assumption
      · cases waits
      · cases waits
      · cases waits

namespace Course

/-! ## Asking and refusing -/

/-- With the move of this moment a round with the provider comes to nothing. -/
def Refuses (c : Course ν ι) (n p : Nat) : Prop :=
  (c.moments n).idle = false ∧ ∃ w round e r, c.subscriber n = .on w ∧
    w.recv.round? = some round ∧ round.provider = p ∧
    round.step (c.clock n) (c.found n) = some (.done (.error e), r)

/-- With the move of this moment a round with the provider begins. -/
def Asks (c : Course ν ι) (n p : Nat) : Prop :=
  ∃ w w' round, c.subscriber n = .on w ∧ c.subscriber (n + 1) = .on w' ∧
    w'.recv.round? = some round ∧ round.provider = p ∧
    (w.recv.round? = none ∨ ∃ q, c.Refuses n q)

/-- From the one moment on, and before the other, the provider was asked and has refused. -/
def Failed (c : Course ν ι) (k n p : Nat) : Prop :=
  ∃ a b, k ≤ a ∧ a < b ∧ b < n ∧ c.Asks a p ∧ c.Refuses b p

/-- A fallback that carries subscriptions and comes after the floor. -/
def Beyond (c : Course ν ι) (floor p : Nat) : Prop :=
  floor < p ∧ p ≤ c.policy.fallbacks ∧ Fleet.pubsub c.fleet p = true

/-- The `recv` that began at that moment, with a stream, is still under way. -/
inductive Lasts (c : Course ν ι) (i : Nat) : Nat → Prop where
  | begins {w : Standing ν ι} (on : c.subscriber i = .on w) (starting : w.recv = .starting)
      (stream : w.subscription.tap ≠ none) : Lasts c i i
  | waits {n : Nat} {w : Standing ν ι} (lasts : Lasts c i n) (on : c.subscriber n = .on w)
      (awake : (c.moments n).idle = false)
      (waits : w.subscription.step w.recv (c.clock n) (c.found n) = none) : Lasts c i (n + 1)
  | goes {n : Nat} {w : Standing ν ι} {recv : Recv ν ι} {s : Subscription ν ι} {r : Providers ν}
      (lasts : Lasts c i n) (on : c.subscriber n = .on w) (awake : (c.moments n).idle = false)
      (step : w.subscription.step w.recv (c.clock n) (c.found n) = some (.going recv, s, r)) :
      Lasts c i (n + 1)

/-- At this moment the `recv` that is under way ends with an error. -/
def Fails (c : Course ν ι) (n : Nat) (e : ProviderError) : Prop :=
  (c.moments n).idle = false ∧ ∃ w s r, c.subscriber n = .on w ∧
    w.subscription.step w.recv (c.clock n) (c.found n) = some (.done (.error e), s, r)

variable {c : Course ν ι} {i k n p q : Nat} {w w₀ : Standing ν ι} {first : Bool}
  {L : List Nat} {e : ProviderError}

theorem Refuses.unique (one : c.Refuses n p) (other : c.Refuses n q) : p = q := by
  obtain ⟨-, w, round, e, r, on, here, rfl, -⟩ := one
  obtain ⟨-, w', round', e', r', on', here', rfl, -⟩ := other
  cases on.symm.trans on'
  cases here.symm.trans here'
  rfl

theorem failed_succ : c.Failed k (n + 1) p ↔
    c.Failed k n p ∨ c.Refuses n p ∧ ∃ a, k ≤ a ∧ a < n ∧ c.Asks a p := by
  constructor
  · rintro ⟨a, b, since, later, before, asks, refuses⟩
    rcases Nat.lt_succ_iff_lt_or_eq.1 before with before | rfl
    · exact .inl ⟨a, b, since, later, before, asks, refuses⟩
    · exact .inr ⟨refuses, a, since, later, asks⟩
  · rintro (⟨a, b, since, later, before, asks, refuses⟩ | ⟨refuses, a, since, later, asks⟩)
    · exact ⟨a, b, since, later, Nat.lt_succ_of_lt before, asks, refuses⟩
    · exact ⟨a, n, since, later, Nat.lt_succ_self n, asks, refuses⟩

/-! ## A search -/

/-- Since the stream failed, those who refused and those who are pending are the same providers
together. -/
structure Search (c : Course ν ι) (k n : Nat) (w₀ : Standing ν ι) (first : Bool)
    (pending : List Nat) : Prop where
  begun : k < n
  on : c.subscriber k = .on w₀
  broke : w₀.Broke (c.clock k) (c.found k) first
  asked : ∀ p, pending.head? = some p → ∃ a, k ≤ a ∧ a < n ∧ c.Asks a p
  tried : ∀ p, c.Failed k n p ∨ p ∈ pending ↔
    c.Beyond w₀.subscription.floor p ∨ first = true ∧ p = 0

theorem search_begins (on : c.subscriber k = .on w₀)
    (broke : w₀.Broke (c.clock k) (c.found k) first)
    (asks : ∀ p, L.head? = some p → c.Asks k p)
    (goal : ∀ p, p ∈ L ↔ c.Beyond w₀.subscription.floor p ∨ first = true ∧ p = 0) :
    c.Search k (k + 1) w₀ first L where
  begun := Nat.lt_succ_self k
  on := on
  broke := broke
  asked p head := ⟨k, Nat.le_refl k, Nat.lt_succ_self k, asks p head⟩
  tried p := by
    have nobody : ¬ c.Failed k (k + 1) p := by
      rintro ⟨a, b, since, later, before, -⟩
      omega
    rw [or_iff_right nobody, goal p]

theorem Search.stays (h : c.Search k n w₀ first L) (nobody : ∀ p, ¬ c.Refuses n p) :
    c.Search k (n + 1) w₀ first L where
  begun := Nat.lt_succ_of_lt h.begun
  on := h.on
  broke := h.broke
  asked p head := by
    obtain ⟨a, since, before, asks⟩ := h.asked p head
    exact ⟨a, since, Nat.lt_succ_of_lt before, asks⟩
  tried p := by
    have same : c.Failed k (n + 1) p ↔ c.Failed k n p := by
      rw [failed_succ]
      exact or_iff_left fun refused => nobody p refused.1
    rw [same, h.tried p]

theorem Search.refused (h : c.Search k n w₀ first (p :: L)) (refuses : c.Refuses n p)
    (next : ∀ q, L.head? = some q → c.Asks n q) : c.Search k (n + 1) w₀ first L where
  begun := Nat.lt_succ_of_lt h.begun
  on := h.on
  broke := h.broke
  asked q head := ⟨n, Nat.le_of_lt h.begun, Nat.lt_succ_self n, next q head⟩
  tried q := by
    have more : c.Failed k (n + 1) q ↔ c.Failed k n q ∨ q = p := by
      rw [failed_succ]
      refine or_congr_right ⟨fun refused => refused.1.unique refuses, ?_⟩
      rintro rfl
      exact ⟨refuses, h.asked q rfl⟩
    rw [more, or_assoc, ← List.mem_cons, h.tried q]

/-! ## Following a `recv` -/

theorem subscriber_of_step {turn : Turn (Recv ν ι) (Except ProviderError ι)} {s : Subscription ν ι}
    {r : Providers ν} (on : c.subscriber n = .on w) (awake : (c.moments n).idle = false)
    (step : w.subscription.step w.recv (c.clock n) (c.found n) = some (turn, s, r)) :
    c.subscriber (n + 1) = .on (w.after (w.recv.gains (c.clock n) (c.found n)) turn s) := by
  obtain ⟨w', after, listens⟩ := subscriber_of_on on
  rw [after]
  cases listens with
  | idle idle => simp [idle] at awake
  | waits _ waits => simp [Standing.step, step] at waits
  | moved _ moved =>
    simp only [Standing.step, step, Option.map_some, Option.some.injEq, Prod.mk.injEq] at moved
    rw [moved.1]

theorem subscriber_of_wait (on : c.subscriber n = .on w) (awake : (c.moments n).idle = false)
    (waits : w.subscription.step w.recv (c.clock n) (c.found n) = none) :
    c.subscriber (n + 1) = .on w := by
  obtain ⟨w', after, listens⟩ := subscriber_of_on on
  cases listens with
  | idle idle => simp [idle] at awake
  | waits => exact after
  | moved _ moved => simp [Standing.step, waits] at moved

/-- The fallbacks after the one the subscription believes it is on. -/
def beyond (c : Course ν ι) (s : Subscription ν ι) : List Nat :=
  (⟨c.fleet, c.policy, []⟩ : Providers ν).fallbacksFrom true s.floor

omit [Carrier ν ι] in
theorem mem_beyond {s : Subscription ν ι} : p ∈ c.beyond s ↔ c.Beyond s.floor p :=
  Providers.mem_fallbacksFrom

omit [Carrier ν ι] in
/-- Whoever switches has just these still to hear from. -/
theorem pending_startSwitch {r : Providers ν} (policy : r.policy = c.policy)
    (pubsub : Fleet.pubsub r.fleet = Fleet.pubsub c.fleet) (s : Subscription ν ι)
    (e : ProviderError) (clock : Clock) (L : List Nat) :
    (s.startSwitch e clock r).1.pending L = some (c.beyond s) := by
  rw [Subscription.pending_startSwitch]
  exact congrArg some (Providers.fallbacksFrom_congr policy pubsub s.floor)

theorem asks_of_pending {w' : Standing ν ι} {beyond : List Nat} (on : c.subscriber n = .on w)
    (after : c.subscriber (n + 1) = .on w') (pending : w'.recv.pending beyond = some L)
    (free : w.recv.round? = none ∨ ∃ q, c.Refuses n q) (head : L.head? = some p) : c.Asks n p := by
  obtain ⟨rest, rfl⟩ := List.head?_eq_some_iff.1 head
  obtain ⟨round, here, provider⟩ := Recv.round?_of_pending pending
  exact ⟨w, w', round, on, after, here, provider, free⟩

theorem not_refuses {round round' : Round ν (Tap ι)} {r : Providers ν} (on : c.subscriber n = .on w)
    (here : w.recv.round? = some round)
    (going : round.step (c.clock n) (c.found n) = some (.going round', r)) (p : Nat) :
    ¬ c.Refuses n p := by
  rintro ⟨-, w', round', e, r', on', here', -, error⟩
  cases on.symm.trans on'
  cases here.symm.trans here'
  simp [going] at error

/-- Should a search be under way, it began during this `recv`. -/
def Searches (c : Course ν ι) (i n : Nat) (s : Subscription ν ι) (recv : Recv ν ι) : Prop :=
  ∀ L, recv.pending (c.beyond s) = some L → ∃ k w₀ first, i ≤ k ∧
    w₀.subscription.floor = s.floor ∧ c.Search k n w₀ first L

theorem searches_of_broke {w' : Standing ν ι} (on : c.subscriber n = .on w) (since : i ≤ n)
    (broke : w.Broke (c.clock n) (c.found n) first) (after : c.subscriber (n + 1) = .on w')
    (same : w'.subscription.floor = w.subscription.floor)
    (pending : w'.recv.pending (c.beyond w'.subscription) = some L)
    (goal : ∀ p, p ∈ L ↔ c.Beyond w.subscription.floor p ∨ first = true ∧ p = 0) :
    c.Searches i (n + 1) w'.subscription w'.recv := by
  intro L' pending'
  cases pending.symm.trans pending'
  have free : w.recv.round? = none := by
    cases broke <;> simp only [Recv.round?, *]
  refine ⟨n, w, first, since, same.symm, search_begins on broke ?_ goal⟩
  exact fun p head => asks_of_pending on after pending (.inl free) head

/-- The stream is given up for one on a later fallback at once. -/
theorem searches_of_leave {s s' : Subscription ν ι} {r : Providers ν} {clock : Clock}
    {home moves : Nat} (on : c.subscriber n = .on w) (since : i ≤ n)
    (broke : w.Broke (c.clock n) (c.found n) false)
    (after : c.subscriber (n + 1) = .on ⟨s', (s.startSwitch e clock r).1, home, moves⟩)
    (left : s.fallback = w.subscription.fallback) (same : s'.fallback = w.subscription.fallback)
    (policy : r.policy = c.policy) (pubsub : Fleet.pubsub r.fleet = Fleet.pubsub c.fleet) :
    c.Searches i (n + 1) s' (s.startSwitch e clock r).1 := by
  have floor : s'.floor = w.subscription.floor := congrArg (Option.elim · 0 (· + 1)) same
  have floor' : s.floor = w.subscription.floor := congrArg (Option.elim · 0 (· + 1)) left
  have pending := pending_startSwitch policy pubsub s e clock (c.beyond s')
  refine searches_of_broke on since broke after floor pending fun p => ?_
  rw [mem_beyond, floor']
  simp

theorem Searches.stays {v : Standing ν ι} {round round' : Round ν (Tap ι)} {r : Providers ν}
    (h : c.Searches i n w.subscription w.recv) (on : c.subscriber n = .on w)
    (here : w.recv.round? = some round)
    (going : round.step (c.clock n) (c.found n) = some (.going round', r))
    (same : v.subscription.floor = w.subscription.floor)
    (before : w.recv.pending (c.beyond w.subscription) = some L)
    (pending : v.recv.pending (c.beyond v.subscription) = some L) :
    c.Searches i (n + 1) v.subscription v.recv := by
  intro L' pending'
  cases pending.symm.trans pending'
  obtain ⟨k, w₀, first, since, floor, search⟩ := h L before
  exact ⟨k, w₀, first, since, floor.trans same.symm, search.stays (not_refuses on here going)⟩

theorem Searches.refused {w' : Standing ν ι} {round : Round ν (Tap ι)} {r : Providers ν}
    (h : c.Searches i n w.subscription w.recv) (on : c.subscriber n = .on w)
    (awake : (c.moments n).idle = false) (here : w.recv.round? = some round)
    (error : round.step (c.clock n) (c.found n) = some (.done (.error e), r))
    (after : c.subscriber (n + 1) = .on w')
    (same : w'.subscription.floor = w.subscription.floor)
    (before : w.recv.pending (c.beyond w.subscription) = some (round.provider :: L))
    (pending : w'.recv.pending (c.beyond w'.subscription) = some L) :
    c.Searches i (n + 1) w'.subscription w'.recv := by
  intro L' pending'
  cases pending.symm.trans pending'
  obtain ⟨k, w₀, first, since, floor, search⟩ := h _ before
  have refuses : c.Refuses n round.provider := ⟨awake, w, round, e, r, on, here, rfl, error⟩
  refine ⟨k, w₀, first, since, floor.trans same.symm, search.refused refuses fun q head => ?_⟩
  exact asks_of_pending on after pending (.inr ⟨_, refuses⟩) head

theorem Lasts.since (lasts : c.Lasts i n) : i ≤ n := by
  induction lasts with
  | begins => exact Nat.le_refl i
  | waits _ _ _ _ ih => exact Nat.le_succ_of_le ih
  | goes _ _ _ _ ih => exact Nat.le_succ_of_le ih

variable [Carrier.Settled ν ι] {recv : Recv ν ι} {s : Subscription ν ι} {r : Providers ν}

theorem Searches.step (h : c.Searches i n w.subscription w.recv) (on : c.subscriber n = .on w)
    (awake : (c.moments n).idle = false) (stream : w.subscription.tap ≠ none) (since : i ≤ n)
    (step : w.subscription.step w.recv (c.clock n) (c.found n) = some (.going recv, s, r)) :
    s.tap ≠ none ∧ c.Searches i (n + 1) s recv := by
  have after := subscriber_of_step on awake step
  have pubsub := c.pubsub_found n
  obtain ⟨s₀, recv₀, home, moves⟩ := w
  cases Subscription.step_goes step with
  | due => exact ⟨stream, nofun⟩
  | notDue => exact ⟨stream, nofun⟩
  | armed => exact ⟨stream, nofun⟩
  | @trying round round' quiet r' going =>
    refine ⟨stream, ?_⟩
    cases quiet with
    | false => exact nofun
    | true =>
      obtain ⟨provider, -⟩ := Round.step_going going
      have same := congrArg (fun p => some (p :: c.beyond s₀)) provider
      exact h.stays (v := ⟨s₀, .returning round' true, home, moves⟩) on rfl going rfl rfl same
  | @returned round quiet t r' back =>
    refine ⟨nofun, ?_⟩
    cases quiet <;> exact nofun
  | refused error => exact ⟨stream, nofun⟩
  | @refusedQuiet round e r' error =>
    have pending := pending_startSwitch (r := r'.notice (.reconnectFailed e))
      (Round.step_policy error) ((Round.pubsub_step error).trans pubsub)
    exact ⟨stream, h.refused on awake rfl error after rfl rfl (pending _ _ _ _)⟩
  | lagged => exact ⟨nofun, nofun⟩
  | worn stream' read many =>
    have broke : Standing.Broke ⟨s₀, .listening _, home, moves⟩ (c.clock n) (c.found n) false :=
      .worn rfl stream' read (Nat.le_of_not_lt many)
    exact ⟨nofun, searches_of_leave on since broke after rfl rfl rfl pubsub⟩
  | closed stream' read =>
    have broke : Standing.Broke ⟨s₀, .listening _, home, moves⟩ (c.clock n) (c.found n) false :=
      .closed rfl stream' read
    exact ⟨stream, searches_of_leave on since broke after rfl rfl rfl pubsub⟩
  | quietDue stream' read past away due told =>
    have broke : Standing.Broke ⟨s₀, .listening _, home, moves⟩ (c.clock n) (c.found n) true :=
      .quiet rfl stream' read past (Bool.and_eq_true_iff.2 ⟨away, due⟩)
    refine ⟨stream, searches_of_broke on since broke after rfl rfl fun p => ?_⟩
    have primary : p ∈ 0 :: c.beyond s₀ ↔ c.Beyond s₀.floor p ∨ true = true ∧ p = 0 := by
      simp [mem_beyond, or_comm]
    exact primary
  | quiet stream' read past stay =>
    have broke : Standing.Broke ⟨s₀, .listening _, home, moves⟩ (c.clock n) (c.found n) false :=
      .quiet rfl stream' read past stay
    exact ⟨stream, searches_of_leave on since broke after rfl rfl rfl pubsub⟩
  | @sweeping sweep sweep' r' going =>
    refine ⟨stream, ?_⟩
    cases Sweeping.step_moves going with
    | @trying sweep round' r' going =>
      obtain ⟨provider, -⟩ := Round.step_going going
      have same := congrArg (fun p => some (p :: sweep.rest)) provider
      exact h.stays (v := ⟨s₀, .switching (.active ⟨round', sweep.rest⟩), home, moves⟩) on rfl
        going rfl rfl same
    | @next sweep e p rest r' r₁ error left =>
      have before := congrArg (fun rest => some (sweep.round.provider :: rest)) left
      exact h.refused on awake rfl error after rfl before rfl
  | switched done => exact ⟨nofun, nofun⟩

theorem Lasts.searches (lasts : c.Lasts i n) : ∃ w, c.subscriber n = .on w ∧
    w.subscription.tap ≠ none ∧ c.Searches i n w.subscription w.recv := by
  induction lasts with
  | begins on starting stream =>
    refine ⟨_, on, stream, ?_⟩
    rw [starting]
    exact nofun
  | @waits n w _ on awake waits ih =>
    obtain ⟨w', on', stream, searches⟩ := ih
    cases on.symm.trans on'
    refine ⟨w, subscriber_of_wait on awake waits, stream, fun L pending => ?_⟩
    obtain ⟨k, w₀, first, since, floor, search⟩ := searches L pending
    refine ⟨k, w₀, first, since, floor, search.stays ?_⟩
    rintro p ⟨-, w', round, e, r, on', here, -, error⟩
    cases on.symm.trans on'
    simp [Subscription.round_waits here waits] at error
  | @goes n w recv s r lasts on awake step ih =>
    obtain ⟨w', on', stream, searches⟩ := ih
    cases on.symm.trans on'
    obtain ⟨stream', searches'⟩ := searches.step on awake stream lasts.since step
    exact ⟨_, subscriber_of_step on awake step, stream', searches'⟩

/-- Whoever gives up has nobody left to hear from. -/
theorem Lasts.search (lasts : c.Lasts i n) (fails : c.Fails n e) : ∃ k w first, i ≤ k ∧ k < n ∧
    c.Search k (n + 1) w first [] := by
  obtain ⟨w, on, stream, searches⟩ := lasts.searches
  obtain ⟨awake, w', s, r, on', step⟩ := fails
  cases on.symm.trans on'
  obtain ⟨s₀, recv₀, home, moves⟩ := w
  cases Subscription.step_goes step with
  | off _ off => exact absurd off stream
  | lost error =>
    cases Sweeping.step_moves error with
    | nobody =>
      obtain ⟨k, w₀, first, since, -, search⟩ := searches [] rfl
      refine ⟨k, w₀, first, since, search.begun, search.stays ?_⟩
      rintro p ⟨-, w', round, e, r, on', here, -⟩
      cases on.symm.trans on'
      cases here
    | @spent sweep _ r' _ error left =>
      obtain ⟨k, w₀, first, since, -, search⟩ := searches _ rfl
      rw [left] at search
      have refuses : c.Refuses n sweep.round.provider :=
        ⟨awake, _, sweep.round, _, _, on, rfl, rfl, error⟩
      exact ⟨k, w₀, first, since, search.begun, search.refused refuses nofun⟩

/-- A `recv` that gives up has searched since its stream failed: every fallback after the one it
believed to be on has been asked and has refused, and so has the primary if the stream had gone
quiet and a return was due. Nobody else has. So when the stream was the primary's, all others have
failed. -/
theorem gives_up_after_search (lasts : c.Lasts i n) (fails : c.Fails n e) :
    ∃ k w first, i ≤ k ∧ k < n ∧ c.subscriber k = .on w ∧
      w.Broke (c.clock k) (c.found k) first ∧
      (∀ p, c.Failed k (n + 1) p ↔ c.Beyond w.subscription.floor p ∨ first = true ∧ p = 0) ∧
      (w.home = 0 → ∀ p, p ≠ 0 → p ≤ c.policy.fallbacks → Fleet.pubsub c.fleet p = true →
        c.Failed k (n + 1) p) := by
  obtain ⟨k, w, first, since, begun, search⟩ := lasts.search fails
  have failed (p : Nat) :
      c.Failed k (n + 1) p ↔ c.Beyond w.subscription.floor p ∨ first = true ∧ p = 0 := by
    simpa using search.tried p
  refine ⟨k, w, first, since, begun, search.on, search.broke, failed, ?_⟩
  intro primary p other known pubsub
  have floor := (sound search.on).floor_le
  exact (failed p).2 (.inl ⟨by omega, known, pubsub⟩)

end Course

/-! ## The primary passed over -/

namespace Example

/-- The stream of the primary closes, and the fallback sends an item. Much later, while the next
`recv` listens, there is another blow. -/
def exile (time : Nat) (blow : Actors Nat → Actors Nat)
    (same : ∀ a, Actors.pubsub (blow a) = a.pubsub) : Course (Actors Nat) Nat where
  policy := policy
  op := Actors.subscribe
  fleet := willing
  moments
    | 3 => ⟨⟨0, 0⟩, fun a => a.closeRing 0, fun a => Actors.pubsub_closeRing a 0, false⟩
    | 7 => ⟨⟨0, 0⟩, fun a => (a.send 1 [7]).2, fun a => Actors.pubsub_send a 1 [7], false⟩
    | 10 => ⟨⟨time, time⟩, blow, same, false⟩
    | n => ⟨if n < 10 then ⟨0, 0⟩ else ⟨time, time⟩, id, fun _ => rfl, false⟩

/-- The fallback's stream closes. -/
def stranded : Course (Actors Nat) Nat :=
  exile 40000 (fun a => a.closeRing 1) fun a => Actors.pubsub_closeRing a 1

/-- The fallback has been quiet for too long, and the primary refuses to take the stream back. -/
def hushed : Course (Actors Nat) Nat :=
  exile 120000 (fun a => a.setScript 0 [.fail (some "down") 0]) fun a =>
    Actors.pubsub_setScript a 0 _

theorem stranded_lasts : stranded.Lasts 8 11 := by
  have begins : stranded.Lasts 8 8 := .begins rfl rfl nofun
  have arming : stranded.Lasts 8 9 := begins.goes rfl rfl rfl
  have listening : stranded.Lasts 8 10 := arming.goes rfl rfl rfl
  exact listening.goes rfl rfl rfl

theorem stranded_fails : stranded.Fails 11 (.rpc .backendGone) := ⟨rfl, _, _, _, rfl, rfl⟩

theorem stranded_asks_nobody {n : Nat} (since : 8 ≤ n) (before : n ≤ 11) :
    ∃ w, stranded.subscriber n = .on w ∧ w.home = 1 ∧ w.recv.round? = none := by
  obtain rfl | rfl | rfl | rfl : n = 8 ∨ n = 9 ∨ n = 10 ∨ n = 11 := by omega
  · exact ⟨_, rfl, rfl, rfl⟩
  · exact ⟨_, rfl, rfl, rfl⟩
  · exact ⟨_, rfl, rfl, rfl⟩
  · exact ⟨_, rfl, rfl, rfl⟩

theorem hushed_lasts : hushed.Lasts 8 12 := by
  have begins : hushed.Lasts 8 8 := .begins rfl rfl nofun
  have arming : hushed.Lasts 8 9 := begins.goes rfl rfl rfl
  have listening : hushed.Lasts 8 10 := arming.goes rfl rfl rfl
  have returning : hushed.Lasts 8 11 := listening.goes rfl rfl rfl
  exact returning.goes rfl rfl rfl

theorem hushed_fails : hushed.Fails 12 .timeout := ⟨rfl, _, _, _, rfl, rfl⟩

end Example

open Example

/-- What `gives_up_after_search` says of the quiet fallback. -/
theorem hushed_gives_up : ∃ k w first, 8 ≤ k ∧ k < 12 ∧ hushed.subscriber k = .on w ∧
    w.Broke (hushed.clock k) (hushed.found k) first ∧
    (∀ p, hushed.Failed k 13 p ↔
      hushed.Beyond w.subscription.floor p ∨ first = true ∧ p = 0) ∧
    (w.home = 0 → ∀ p, p ≠ 0 → p ≤ 1 → Fleet.pubsub hushed.fleet p = true →
      hushed.Failed k 13 p) :=
  Course.gives_up_after_search hushed_lasts hushed_fails

/-- A return to the primary is due, and it would give the stream back. Yet when the stream of the
only fallback closes, the `recv` fails without asking it. -/
theorem primary_passed_over : stranded.Lasts 8 11 ∧ stranded.Fails 11 (.rpc .backendGone) ∧
    (∃ w, stranded.subscriber 10 = .on w ∧
      w.subscription.returnDue (stranded.clock 10) (stranded.found 10) = true) ∧
    (∃ t r, (Round.start 0 stranded.op (stranded.clock 10) (stranded.found 10)).1.step
      (stranded.clock 10) (Round.start 0 stranded.op (stranded.clock 10) (stranded.found 10)).2 =
        some (.done (.ok t), r)) ∧
    ¬ ∃ k w first, 8 ≤ k ∧ k < 11 ∧ stranded.subscriber k = .on w ∧
      w.Broke (stranded.clock k) (stranded.found k) first ∧
      ∀ p, p ≠ w.home → p ≤ stranded.policy.fallbacks →
        Fleet.pubsub stranded.fleet p = true → stranded.Failed k 12 p := by
  refine ⟨stranded_lasts, stranded_fails, ⟨_, rfl, rfl⟩, ⟨_, _, rfl⟩, ?_⟩
  rintro ⟨k, w, first, since, before, on, -, all⟩
  obtain ⟨w', on', home, -⟩ := stranded_asks_nobody since (Nat.le_of_lt before)
  cases on.symm.trans on'
  have away : 0 ≠ w.home := by omega
  obtain ⟨a, b, later, asked, past, asks, -⟩ := all 0 away (Nat.zero_le _) rfl
  obtain ⟨v, v', round, -, after, here, -⟩ := asks
  obtain ⟨u, now, -, free⟩ := stranded_asks_nobody (n := a + 1) (by omega) (by omega)
  cases after.symm.trans now
  simp [free] at here

end ChainHerald
