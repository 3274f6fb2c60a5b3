import ChainHerald.Proofs.Dependable
import ChainHerald.Proofs.LastResort

/-!
# What a subscription keeps to

Between its moves a subscription never contradicts itself (`Subscription.Firm`): without a mark for
the return it has the stream that it was opened with or that the primary gave back. So the primary
is not asked for it before a fallback has been looked for (`Course.Returns.after_leaving`). As long
as no `recv` is given up while it asks a provider (`Course.Patient`), a stream in use has not lagged
too often, and the primary is not asked again before the interval is over.
-/

namespace ChainHerald

open Fleet (Op)

variable {ν ι : Type} [Fleet ν]

/-- The primary is being asked to give the stream back. -/
def Recv.Returns : Recv ν ι → Prop
  | .returning .. => True
  | _ => False

/-- A fallback is being looked for. -/
def Recv.Searches : Recv ν ι → Prop
  | .switching _ => True
  | _ => False

/-- With this move the primary gives the stream back. -/
def Recv.Regains (recv : Recv ν ι) (clock : Clock) (r : Providers ν) : Prop :=
  ∃ round quiet t r', recv = .returning round quiet ∧
    round.step clock r = some (.done (.ok t), r')

/-- With this move a fallback takes the stream. -/
def Recv.Switches (recv : Recv ν ι) (clock : Clock) (r : Providers ν) : Prop :=
  ∃ sweep found r', recv = .switching sweep ∧ sweep.step clock r = some (.done (.ok found), r')

/-- Where the next move finds the `recv`; one that has ended is followed by another. -/
def Recv.next : Turn (Recv ν ι) (Except ProviderError ι) → Recv ν ι
  | .going recv => recv
  | .done _ => .starting

namespace Subscription

/-- The mark for the return is there as long as there is anything to return from, a search is only
for another stream, and it only goes over later fallbacks. -/
structure Firm (policy : Policy) (s : Subscription ν ι) (recv : Recv ν ι) : Prop where
  primary : s.lastReturn = none → s.tap ≠ none ∧ s.fallback = none
  marked : recv.Returns ∨ recv.Searches → s.lastReturn ≠ none
  searching : ¬ recv.Calm → s.tap ≠ none
  later : ∀ sweep, recv = .switching sweep →
    sweep.Within (fun p => s.floor < p ∧ p ≤ policy.fallbacks) s.op

variable {s s' : Subscription ν ι} {recv : Recv ν ι} {policy : Policy} {clock : Clock}
  {r r' : Providers ν} {turn : Turn (Recv ν ι) (Except ProviderError ι)}

/-- A move after which nobody is asked. -/
theorem Firm.calm (plain : ¬ (recv.Returns ∨ recv.Searches))
    (primary : s.lastReturn = none → s.tap ≠ none ∧ s.fallback = none) : s.Firm policy recv where
  primary := primary
  marked asks := absurd asks plain
  searching search := by
    cases recv with
    | returning => exact absurd (.inl trivial) plain
    | switching => exact absurd (.inr trivial) plain
    | starting | arming | listening => exact absurd trivial search
  later := by
    rintro sweep rfl
    exact absurd (.inr trivial) plain

theorem firm_new (op : Op ν (Tap ι)) (t : Tap ι) : (new op t).Firm policy .starting :=
  .calm or_self_iff.1 fun _ => ⟨nofun, rfl⟩

theorem Firm.rest (h : s.Firm policy recv) : s.Firm policy .starting :=
  .calm or_self_iff.1 h.primary

/-- The stream is given up for one on a later fallback. -/
theorem Firm.leave (on : s.tap ≠ none) (same : r.policy = policy) (e : ProviderError)
    (clock : Clock) :
    (s.startSwitch e clock r).2.1.Firm policy (s.startSwitch e clock r).1 where
  primary := nofun
  marked _ := nofun
  searching _ := on
  later := by
    rw [startSwitch_fst]
    rintro sweep ⟨⟩
    apply Sweeping.within_start
    intro p mem
    obtain ⟨above, known, -⟩ := Providers.mem_fallbacksFrom.1 mem
    exact ⟨above, same ▸ known⟩

/-- A return is due only when there is a mark for it. -/
theorem mark_of_due (due : s.returnDue clock r = true) :
    ∃ t, s.lastReturn = some t ∧ t + r.policy.reconnect ≤ clock.wall := by
  unfold returnDue at due
  split at due
  · cases due
  · rename_i t mark
    exact ⟨t, mark, of_decide_eq_true due⟩

theorem Firm.startReturn (h : s.Firm policy recv) (due : s.returnDue clock r = true) (quiet : Bool)
    (on : quiet = true → s.tap ≠ none) (r' : Providers ν) :
    s.Firm policy (s.startReturn quiet clock r').1 where
  primary := h.primary
  marked _ := by
    obtain ⟨t, mark, -⟩ := mark_of_due due
    rw [mark]
    exact nofun
  searching search := by
    cases quiet with
    | false => exact absurd trivial search
    | true => exact on rfl
  later := nofun

variable [Carrier ν ι]

theorem Firm.step (h : s.Firm policy recv) (same : r.policy = policy)
    (step : s.step recv clock r = some (turn, s', r')) : s'.Firm policy (Recv.next turn) := by
  cases step_goes step with
  | due due => exact h.startReturn due false nofun r
  | notDue => exact .calm or_self_iff.1 h.primary
  | armed => exact .calm or_self_iff.1 h.primary
  | off => exact .calm or_self_iff.1 h.primary
  | @trying round round' quiet =>
    refine ⟨h.primary, fun _ => h.marked (.inl trivial), fun search => ?_, nofun⟩
    cases quiet with
    | false => exact absurd trivial search
    | true => exact h.searching id
  | @returned round quiet => cases quiet <;> exact .calm or_self_iff.1 fun _ => ⟨nofun, rfl⟩
  | refused => exact .calm or_self_iff.1 nofun
  | refusedQuiet error =>
    have on : s.tap ≠ none := h.searching id
    have same := (Round.step_policy error).trans same
    refine .leave (s := { s with lastReturn := some clock.wall }) on ?_ _ _
    exact same
  | item => exact .calm or_self_iff.1 fun unmarked => ⟨nofun, (h.primary unmarked).2⟩
  | lagged => exact .calm or_self_iff.1 fun unmarked => ⟨nofun, (h.primary unmarked).2⟩
  | @worn t t' lost =>
    refine .leave (s := { s with tap := some t', lags := s.lags + 1 }) nofun ?_ _ _
    exact same
  | closed on =>
    refine .leave (s := s) (by simp [on]) ?_ _ _
    exact same
  | quietDue on _ _ _ due => exact h.startReturn due true (fun _ => by simp [on]) _
  | quiet on =>
    refine .leave (s := s) (by simp [on]) ?_ _ _
    exact same
  | sweeping going =>
    refine ⟨h.primary, fun _ => h.marked (.inr trivial), fun _ => h.searching id, ?_⟩
    rintro sweep ⟨⟩
    exact (h.later _ rfl).step going
  | switched => exact .calm or_self_iff.1 fun unmarked => absurd unmarked (h.marked (.inr trivial))
  | lost => exact .calm or_self_iff.1 fun unmarked => absurd unmarked (h.marked (.inr trivial))

/-- A stream in use has not lagged too often, unless another is being looked for already. -/
def Fit (s : Subscription ν ι) (recv : Recv ν ι) : Prop :=
  ¬ recv.Searches → s.tap ≠ none → s.lags < mostLags

theorem Fit.step (h : s.Fit recv) (step : s.step recv clock r = some (turn, s', r')) :
    s'.Fit (Recv.next turn) := by
  cases step_goes step with
  | due | notDue | armed | trying | refused | quietDue => exact fun _ => h id
  | off _ off => exact fun _ on => absurd off on
  | returned | item | switched => exact fun _ _ => Nat.zero_lt_succ _
  | lagged _ _ few => exact fun _ _ => few
  | refusedQuiet | worn | closed | quiet | sweeping => exact fun searches => absurd trivial searches
  | lost => exact fun _ on => absurd rfl on

/-- A switch leads to a later fallback. -/
theorem Firm.climbs (h : s.Firm policy recv) (switches : recv.Switches clock r)
    (step : s.step recv clock r = some (turn, s', r')) :
    s.floor < s'.floor ∧ s'.floor ≤ policy.fallbacks := by
  obtain ⟨sweep, found, r'', rfl, done⟩ := switches
  cases step_goes step with
  | off plain => simp at plain
  | sweeping going => simp [done] at going
  | switched done =>
    obtain ⟨⟨above, known⟩, -⟩ := (h.later _ rfl).done done
    simp only [floor, Option.elim_some] at above ⊢
    omega
  | lost error => simp [done] at error

theorem fallback_step (step : s.step recv clock r = some (turn, s', r')) :
    s'.fallback = s.fallback ∨ recv.Switches clock r ∨
      recv.Regains clock r ∧ s'.fallback = none := by
  cases step_goes step with
  | returned back => exact .inr (.inr ⟨⟨_, _, _, _, rfl, back⟩, rfl⟩)
  | switched done => exact .inr (.inl ⟨_, _, _, rfl, done⟩)
  | due | notDue | armed | off | trying | refused | refusedQuiet => exact .inl rfl
  | item | lagged | worn | closed | quietDue | quiet | sweeping | lost => exact .inl rfl

/-- After an error there is no stream. -/
theorem off_of_error {e : ProviderError}
    (step : s.step recv clock r = some (.done (.error e), s', r')) : s'.tap = none := by
  cases step_goes step with
  | off _ off => exact off
  | lost => rfl

/-- Without a stream only the primary can give one back. -/
theorem Firm.off_step (h : s.Firm policy recv) (off : s.tap = none)
    (step : s.step recv clock r = some (turn, s', r')) :
    s'.tap = none ∨ recv.Regains clock r := by
  cases step_goes step with
  | returned back => exact .inr ⟨_, _, _, _, rfl, back⟩
  | switched => exact absurd off (h.searching id)
  | item on | lagged on | worn on => simp [off] at on
  | due | notDue | armed | off | trying | refused | refusedQuiet => exact .inl off
  | closed | quietDue | quiet | sweeping => exact .inl off
  | lost => exact .inl rfl

/-- A return begins only when one is due. -/
theorem due_of_returns (idle : ¬ recv.Returns) (returns : (Recv.next turn).Returns)
    (step : s.step recv clock r = some (turn, s', r')) : s.returnDue clock r = true := by
  cases step_goes step with
  | due due => exact due
  | quietDue _ _ _ _ due => exact due
  | trying | returned | refused | refusedQuiet => exact absurd trivial idle
  | notDue | armed | off | item | lagged => exact returns.elim
  | worn | closed | quiet | sweeping | switched | lost => exact returns.elim

/-- When the primary has answered, the mark for the next return is gone or is of now. -/
theorem returning_step (asking : recv.Returns) (step : s.step recv clock r = some (turn, s', r')) :
    (Recv.next turn).Returns ∨ s'.lastReturn = none ∨ s'.lastReturn = some clock.wall := by
  cases step_goes step with
  | off plain => rcases plain with rfl | ⟨deadline, rfl⟩ <;> exact asking.elim
  | trying => exact .inl trivial
  | returned => exact .inr (.inl rfl)
  | refused | refusedQuiet => exact .inr (.inr rfl)
  | due | notDue | armed | item | lagged => exact asking.elim
  | worn | closed | quietDue | quiet | sweeping | switched | lost => exact asking.elim

theorem mark_moves (step : s.step recv clock r = some (turn, s', r')) :
    s'.lastReturn = s.lastReturn ∨ s'.lastReturn = none ∨ s'.lastReturn = some clock.wall := by
  have moved : (⟨s, recv, 0, 0⟩ : Standing ν ι).step clock r = some (_, r') :=
    Option.map_eq_some_iff.2 ⟨_, step, rfl⟩
  rcases Standing.mark_step moved with same | ⟨none, -⟩ | ⟨now, -⟩
  · exact .inl same
  · exact .inr (.inl none)
  · exact .inr (.inr now)

/-- Only a first search for a fallback leaves a mark where there was none. -/
theorem Firm.first_mark (h : s.Firm policy recv) (unmarked : s.lastReturn = none)
    (marked : s'.lastReturn ≠ none) (step : s.step recv clock r = some (turn, s', r')) :
    ¬ recv.Searches ∧ (Recv.next turn).Searches := by
  have asks : ¬ (recv.Returns ∨ recv.Searches) := fun asks => h.marked asks unmarked
  have searches : ¬ recv.Searches := fun searches => asks (.inr searches)
  refine ⟨searches, ?_⟩
  cases step_goes step with
  | returned | refused | refusedQuiet => exact absurd (.inl trivial) asks
  | worn | closed | quiet => trivial
  | due | notDue | armed | off | trying | item | lagged => exact absurd unmarked marked
  | quietDue | sweeping | switched | lost => exact absurd unmarked marked

end Subscription

/-! ## Moment by moment -/

namespace Course

variable [Carrier ν ι] {c : Course ν ι} {n m : Nat} {w w' : Standing ν ι}

/-- What a moment makes of a subscription and its `recv`, wherever the stream is opened. -/
inductive Next (c : Course ν ι) (n : Nat) (w : Standing ν ι) :
    Subscription ν ι → Recv ν ι → Prop where
  | idle (idle : (c.moments n).idle = true) : Next c n w w.subscription .starting
  | waits (awake : (c.moments n).idle = false)
      (waits : w.subscription.step w.recv (c.clock n) (c.found n) = none) :
      Next c n w w.subscription w.recv
  | moved {turn : Turn (Recv ν ι) (Except ProviderError ι)} {s : Subscription ν ι}
      {r : Providers ν} (awake : (c.moments n).idle = false)
      (step : w.subscription.step w.recv (c.clock n) (c.found n) = some (turn, s, r)) :
      Next c n w s (Recv.next turn)

theorem next_of_on (on : c.subscriber n = .on w) :
    ∃ w', c.subscriber (n + 1) = .on w' ∧ c.Next n w w'.subscription w'.recv := by
  obtain ⟨w', on', listens⟩ := subscriber_of_on on
  refine ⟨w', on', ?_⟩
  cases listens with
  | idle idle => exact .idle idle
  | waits awake waits => exact .waits awake (Option.map_eq_none_iff.1 waits)
  | moved awake step =>
    obtain ⟨⟨turn, s, r⟩, moved, eq⟩ := Option.map_eq_some_iff.1 step
    cases eq
    exact .moved awake moved

/-- What holds of a subscription as it is opened, and from each moment to the next, always holds. -/
theorem always {P : Nat → Standing ν ι → Prop}
    (opened : ∀ n t p, P n ⟨.new c.op t, .starting, p, 0⟩)
    (next : ∀ n w w', c.subscriber n = .on w → c.subscriber (n + 1) = .on w' →
      c.Next n w w'.subscription w'.recv → P n w → P (n + 1) w')
    (on : c.subscriber n = .on w) : P n w := by
  induction n generalizing w with
  | zero =>
    rw [subscriber_zero] at on
    cases on
  | succ n ih =>
    cases before : c.subscriber n with
    | opening s =>
      have calls := subscriber_of_opening before
      rw [on] at calls
      cases calls with
      | opened => exact opened _ _ _
    | on v =>
      obtain ⟨v', after, moves⟩ := next_of_on before
      cases on.symm.trans after
      exact next n v w before on moves (ih before)
    | refused e =>
      rw [subscriber_of_refused before] at on
      cases on

theorem firm (on : c.subscriber n = .on w) : w.subscription.Firm c.policy w.recv := by
  refine always (P := fun _ w => w.subscription.Firm c.policy w.recv) ?_ ?_ on
  · exact fun _ t _ => Subscription.firm_new c.op t
  · intro n w w' _ _ next firm
    generalize w'.subscription = s', w'.recv = recv' at next
    cases next with
    | idle => exact firm.rest
    | waits => exact firm
    | moved _ step => exact firm.step rfl step

/-- No `recv` is given up while it asks a provider. One that is given up during a search leaves
behind a stream that has lagged too often, and one that is given up during a return leaves no mark
of it. -/
def Patient (c : Course ν ι) : Prop :=
  ∀ n w, c.subscriber n = .on w → (c.moments n).idle = true →
    ¬ (w.recv.Returns ∨ w.recv.Searches)

theorem Patient.fit (patient : c.Patient) (on : c.subscriber n = .on w) :
    w.subscription.Fit w.recv := by
  refine always (P := fun _ w => w.subscription.Fit w.recv) ?_ ?_ on
  · exact fun _ _ _ _ _ => Nat.zero_lt_succ _
  · intro n w w' on _ next fit
    generalize w'.subscription = s', w'.recv = recv' at next
    cases next with
    | idle idle => exact fun _ => fit fun searches => patient n w on idle (.inr searches)
    | waits => exact fit
    | moved _ step => exact fit.step step

/-! ## Switches and returns -/

/-- At this moment the primary gives the stream back. -/
def Regains (c : Course ν ι) (n : Nat) : Prop :=
  (c.moments n).idle = false ∧ ∃ w, c.subscriber n = .on w ∧
    w.recv.Regains (c.clock n) (c.found n)

/-- At this moment a fallback takes the stream. -/
def Switches (c : Course ν ι) (n : Nat) : Prop :=
  (c.moments n).idle = false ∧ ∃ w, c.subscriber n = .on w ∧
    w.recv.Switches (c.clock n) (c.found n)

/-- At this moment the primary begins to be asked for the stream. -/
def Returns (c : Course ν ι) (n : Nat) : Prop :=
  ∃ w w', c.subscriber n = .on w ∧ c.subscriber (n + 1) = .on w' ∧
    ¬ w.recv.Returns ∧ w'.recv.Returns

/-- At this moment a fallback begins to be looked for. -/
def Leaves (c : Course ν ι) (n : Nat) : Prop :=
  ∃ w w', c.subscriber n = .on w ∧ c.subscriber (n + 1) = .on w' ∧
    ¬ w.recv.Searches ∧ w'.recv.Searches

/-- A switch only leads to later fallbacks. -/
theorem Switches.climbs (switches : c.Switches n) : ∃ w w', c.subscriber n = .on w ∧
    c.subscriber (n + 1) = .on w' ∧ w.subscription.floor < w'.subscription.floor := by
  obtain ⟨awake, w, on, gains⟩ := switches
  obtain ⟨w', on', next⟩ := next_of_on on
  refine ⟨w, w', on, on', ?_⟩
  have ⟨sweep, found, r, here, done⟩ := gains
  generalize w'.subscription = s', w'.recv = recv' at next ⊢
  cases next with
  | idle idle => simp [idle] at awake
  | waits _ waits => simp [here, Subscription.step, Subscription.stepSwitching, done] at waits
  | moved _ step => exact ((firm on).climbs gains step).1

/-- Where the subscription believes to be changes with a switch, or a return that succeeds. -/
theorem fallback_changes (on : c.subscriber n = .on w) (on' : c.subscriber (n + 1) = .on w')
    (changes : w'.subscription.fallback ≠ w.subscription.fallback) :
    c.Switches n ∨ c.Regains n ∧ w'.subscription.fallback = none := by
  obtain ⟨v, after, next⟩ := next_of_on on
  cases on'.symm.trans after
  generalize w'.subscription = s', w'.recv = recv' at next changes ⊢
  cases next with
  | idle | waits => exact absurd rfl changes
  | moved awake step =>
    rcases Subscription.fallback_step step with same | switches | ⟨regains, primary⟩
    · exact absurd same changes
    · exact .inl ⟨awake, w, on, switches⟩
    · exact .inr ⟨⟨awake, w, on, regains⟩, primary⟩

/-- Wall time does not go back. -/
def Steady (c : Course ν ι) : Prop := ∀ n, (c.clock n).wall ≤ (c.clock (n + 1)).wall

omit [Carrier ν ι] in
theorem Steady.le (steady : c.Steady) (later : n ≤ m) : (c.clock n).wall ≤ (c.clock m).wall := by
  induction later with
  | refl => exact Nat.le_refl _
  | step _ ih => exact Nat.le_trans ih (steady _)

/-- After a return has begun it is still under way, or the mark for the next is no older. -/
theorem Patient.marked_since (patient : c.Patient) (steady : c.Steady) (began : c.Returns n)
    (later : n < m) : ∃ w, c.subscriber m = .on w ∧ (w.recv.Returns ∨
      ∀ t, w.subscription.lastReturn = some t → (c.clock n).wall ≤ t) := by
  induction later with
  | refl =>
    obtain ⟨-, w, -, on, -, asks⟩ := began
    exact ⟨w, on, .inl asks⟩
  | @step m later ih =>
    obtain ⟨w, on, since⟩ := ih
    obtain ⟨w', on', next⟩ := next_of_on on
    refine ⟨w', on', ?_⟩
    have now : (c.clock n).wall ≤ (c.clock m).wall := steady.le (Nat.le_of_lt later)
    have fresh {s : Subscription ν ι}
        (mark : s.lastReturn = none ∨ s.lastReturn = some (c.clock m).wall) :
        ∀ t, s.lastReturn = some t → (c.clock n).wall ≤ t := by
      intro t here
      rcases mark with mark | mark
      · simp [mark] at here
      · cases mark.symm.trans here
        exact now
    generalize w'.subscription = s', w'.recv = recv' at next ⊢
    cases next with
    | idle idle =>
      have quit := patient m w on idle
      exact .inr (since.resolve_left fun asks => quit (.inl asks))
    | waits => exact since
    | moved _ step =>
      rcases since with asks | marks
      · exact (Subscription.returning_step asks step).imp_right fresh
      · rcases Subscription.mark_moves step with same | mark
        · exact .inr fun t here => marks t (same.symm.trans here)
        · exact .inr (fresh mark)

/-- A return begins only when there is a mark that is old enough. -/
theorem Returns.mark (began : c.Returns n) : ∃ w t, c.subscriber n = .on w ∧
    w.subscription.lastReturn = some t ∧ t + c.policy.reconnect ≤ (c.clock n).wall ∧
    ¬ w.recv.Returns := by
  obtain ⟨w, w', on, on', before, asks⟩ := began
  obtain ⟨v, after, next⟩ := next_of_on on
  cases on'.symm.trans after
  generalize w'.subscription = s', w'.recv = recv' at next asks
  cases next with
  | idle => exact asks.elim
  | waits => exact absurd asks before
  | moved _ step =>
    obtain ⟨t, mark, due⟩ := Subscription.mark_of_due (Subscription.due_of_returns before asks step)
    exact ⟨w, t, on, mark, due, before⟩

/-- The primary is asked again only after the interval. -/
theorem Patient.returns_apart (patient : c.Patient) (steady : c.Steady) (one : c.Returns n)
    (other : c.Returns m) (later : n < m) :
    (c.clock n).wall + c.policy.reconnect ≤ (c.clock m).wall := by
  obtain ⟨w, t, on, mark, due, before⟩ := other.mark
  obtain ⟨v, on', since⟩ := patient.marked_since steady one later
  cases on.symm.trans on'
  have fresh : (c.clock n).wall ≤ t := since.resolve_left before t mark
  omega

theorem left_before (on : c.subscriber n = .on w) (marked : w.subscription.lastReturn ≠ none) :
    ∃ k, k < n ∧ c.Leaves k := by
  refine always (P := fun n w => w.subscription.lastReturn ≠ none → ∃ k, k < n ∧ c.Leaves k)
    ?_ ?_ on marked
  · exact fun _ _ _ marked => absurd rfl marked
  · intro n w w' on on' next left marked
    by_cases before : w.subscription.lastReturn = none
    · refine ⟨n, Nat.lt_succ_self n, w, w', on, on', ?_⟩
      generalize w'.subscription = s', w'.recv = recv' at next marked ⊢
      cases next with
      | idle | waits => exact absurd before marked
      | moved _ step => exact (firm on).first_mark before marked step
    · obtain ⟨k, earlier, leaves⟩ := left before
      exact ⟨k, Nat.lt_succ_of_lt earlier, leaves⟩

/-- The primary is not asked before a fallback has been looked for. -/
theorem Returns.after_leaving (began : c.Returns n) : ∃ k, k < n ∧ c.Leaves k := by
  obtain ⟨w, t, on, mark, -⟩ := began.mark
  exact left_before on (by simp [mark])

/-- After an error there is no stream until the primary gives it back. -/
theorem Fails.off {e : ProviderError} (fails : c.Fails n e) (later : n < m)
    (never : ∀ k, n < k → k < m → ¬ c.Regains k) :
    ∃ w, c.subscriber m = .on w ∧ w.subscription.tap = none := by
  induction later with
  | refl =>
    obtain ⟨awake, w, s, r, on, step⟩ := fails
    exact ⟨_, subscriber_of_step on awake step, Subscription.off_of_error step⟩
  | @step m later ih =>
    obtain ⟨w, on, off⟩ := ih fun k since before => never k since (Nat.lt_succ_of_lt before)
    obtain ⟨w', on', next⟩ := next_of_on on
    refine ⟨w', on', ?_⟩
    generalize w'.subscription = s', w'.recv = recv' at next ⊢
    cases next with
    | idle | waits => exact off
    | moved awake step =>
      have regains : ¬ c.Regains m := never m later (Nat.lt_succ_self m)
      exact ((firm on).off_step off step).resolve_right fun gains =>
        regains ⟨awake, w, on, gains⟩

end Course

end ChainHerald
