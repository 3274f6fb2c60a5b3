import ChainHerald.Proofs.Consistency

/-!
# How often a `recv` begins anew

Each time its stream lags or a fallback takes it, a `recv` begins another iteration, and has fewer
left (`Subscription.Firm.left_step`): a lag counts towards the most that a provider may have, and a
switch leads to a later fallback. Only when the primary gives the stream back does it all begin
again. Within an iteration one stage comes after the other, each with a deadline past which the
`recv` moves (`Subscription.moves_past`), so it does not go on for ever (`Course.Loops.ends`).
-/

namespace ChainHerald

open Fleet (Op)

variable {ν ι : Type} [Fleet ν]

namespace Recv

/-- The iterations that are about to begin. -/
def ahead : Recv ν ι → Nat
  | .starting => 1
  | _ => 0

/-- The stages of an iteration that come after this one. -/
def stages : Recv ν ι → Nat
  | .starting => 5
  | .returning _ false => 4
  | .arming => 3
  | .listening _ => 2
  | .returning _ true => 1
  | .switching _ => 0

/-- The fallbacks that are still to be asked. -/
def candidates : Recv ν ι → Nat
  | .switching (.active w) => w.rest.length
  | _ => 0

/-- When it no longer waits. -/
def deadline : Recv ν ι → Nat
  | .listening deadline => deadline
  | recv => recv.round?.elim 0 Round.deadline

end Recv

namespace Subscription

/-- The iterations that a `recv` can still begin unless the primary gives the stream back: on each
provider that is left one for every lag it may have, and on this one as many as it has not used
up. -/
def left (fallbacks : Nat) (s : Subscription ν ι) : Nat :=
  mostLags * (fallbacks - s.floor) + (mostLags - min s.lags (mostLags - 1))

theorem left_le (fallbacks : Nat) (s : Subscription ν ι) :
    s.left fallbacks ≤ mostLags * (fallbacks + 1) := by
  simp only [left, mostLags]
  omega

theorem left_pos (fallbacks : Nat) (s : Subscription ν ι) : 0 < s.left fallbacks := by
  simp only [left, mostLags]
  omega

/-- What a `recv` has before it, most of it first. -/
def outlook (fallbacks : Nat) (s : Subscription ν ι) (recv : Recv ν ι) : Nat × Nat × Nat :=
  (s.left fallbacks, recv.stages, recv.candidates)

/-- There is less before it. -/
def Shorter : Nat × Nat × Nat → Nat × Nat × Nat → Prop :=
  Prod.Lex Nat.lt (Prod.Lex Nat.lt Nat.lt)

theorem shorter_wf : WellFounded Shorter :=
  (Prod.lex Nat.lt_wfRel (Prod.lex Nat.lt_wfRel Nat.lt_wfRel)).wf

variable [Carrier ν ι] {s s' : Subscription ν ι} {recv recv' : Recv ν ι} {policy : Policy}
  {clock : Clock} {r r' : Providers ν}

/-- Past its deadline a `recv` does not wait. -/
theorem moves_past (past : recv.deadline ≤ clock.now) : s.step recv clock r ≠ none := by
  intro waits
  cases under : recv.round? with
  | some round =>
    have due : round.deadline ≤ clock.now := by
      cases recv with
      | listening => cases under
      | starting | arming | returning | switching => simpa [Recv.deadline, under] using past
    exact Round.step_ne_none due (round_waits under waits)
  | none =>
    cases recv with
    | starting =>
      simp only [step] at waits
      split at waits <;> cases waits
    | arming =>
      simp only [step] at waits
      split at waits <;> cases waits
    | returning => cases under
    | listening deadline =>
      have due : ¬ clock.now < deadline := Nat.not_lt.2 past
      simp only [step, stepListening, due, if_false] at waits
      split at waits
      · cases waits
      · split at waits
        · cases waits
        · split at waits <;> cases waits
        · cases waits
        · split at waits <;> cases waits
    | switching sweep => cases sweep with
      | idle => cases waits
      | active => cases under

/-- Each iteration after the one under way takes one of those that are left. -/
theorem Firm.left_step (h : s.Firm policy recv) (keeps : ¬ recv.Regains clock r)
    (step : s.step recv clock r = some (.going recv', s', r')) :
    s'.left policy.fallbacks + recv'.ahead ≤ s.left policy.fallbacks := by
  cases step_goes step with
  | due | notDue | armed | trying | refused | refusedQuiet | closed | quietDue | quiet | sweeping =>
    exact Nat.le_refl _
  | returned back => exact absurd ⟨_, _, _, _, rfl, back⟩ keeps
  | lagged _ _ few =>
    simp only [left, floor, Recv.ahead, mostLags] at few ⊢
    omega
  | worn =>
    have same : min (s.lags + 1) (mostLags - 1) = min s.lags (mostLags - 1) := by
      simp only [mostLags] at *
      omega
    exact Nat.le_of_eq (congrArg (fun used => _ + (mostLags - used)) same)
  | switched done =>
    obtain ⟨above, known⟩ := h.climbs ⟨_, _, _, rfl, done⟩ step
    simp only [left, Recv.ahead, mostLags] at above known ⊢
    omega

/-- With every move there is less before a `recv`, or its round goes on. -/
theorem Firm.outlook_step (h : s.Firm policy recv) (keeps : ¬ recv.Regains clock r)
    (step : s.step recv clock r = some (.going recv', s', r')) :
    Shorter (s'.outlook policy.fallbacks recv') (s.outlook policy.fallbacks recv) ∨
    s'.outlook policy.fallbacks recv' = s.outlook policy.fallbacks recv ∧
      recv'.deadline = recv.deadline := by
  have spends := h.left_step keeps step
  have later (again : recv'.ahead = 1) :
      Shorter (s'.outlook policy.fallbacks recv') (s.outlook policy.fallbacks recv) :=
    .left _ _ (Nat.lt_of_lt_of_le (by omega) spends)
  have onward (next : recv'.stages < recv.stages) :
      Shorter (s'.outlook policy.fallbacks recv') (s.outlook policy.fallbacks recv) :=
    Prod.Lex.right' _ (Nat.le_trans (Nat.le_add_right _ _) spends) (.left _ _ next)
  cases step_goes step with
  | lagged | switched => exact .inl (later rfl)
  | due => exact .inl (onward (show 4 < 5 by decide))
  | notDue => exact .inl (onward (show 3 < 5 by decide))
  | armed => exact .inl (onward (show 2 < 3 by decide))
  | refused => exact .inl (onward (show 3 < 4 by decide))
  | quietDue => exact .inl (onward (show 1 < 2 by decide))
  | refusedQuiet => exact .inl (onward (show 0 < 1 by decide))
  | worn | closed | quiet => exact .inl (onward (show 0 < 2 by decide))
  | @trying round round' quiet r' going =>
    refine .inr ⟨?_, Round.step_deadline going⟩
    cases quiet with
    | true => rfl
    | false => rfl
  | returned back => exact absurd ⟨_, _, _, _, rfl, back⟩ keeps
  | sweeping going =>
    cases Sweeping.step_moves going with
    | trying going => exact .inr ⟨rfl, Round.step_deadline going⟩
    | next _ left =>
      refine .inl (.right _ (.right _ ?_))
      simp [Recv.candidates, left]

end Subscription

namespace Course

variable [Carrier ν ι] {c : Course ν ι} {i k m n : Nat} {w : Standing ν ι}
  {result : Except ProviderError ι}

/-- The `recv` that began at one moment is still under way at another, and has begun so many
iterations. The primary has not given the stream back. -/
inductive Loops (c : Course ν ι) (i : Nat) : Nat → Nat → Prop where
  | begins {w : Standing ν ι} (on : c.subscriber i = .on w) (starting : w.recv = .starting) :
      Loops c i i 0
  | waits {n k : Nat} {w : Standing ν ι} (loops : Loops c i n k) (on : c.subscriber n = .on w)
      (awake : (c.moments n).idle = false)
      (waits : w.subscription.step w.recv (c.clock n) (c.found n) = none) : Loops c i (n + 1) k
  | goes {n k : Nat} {w : Standing ν ι} {recv : Recv ν ι} {s : Subscription ν ι} {r : Providers ν}
      (loops : Loops c i n k) (on : c.subscriber n = .on w) (awake : (c.moments n).idle = false)
      (step : w.subscription.step w.recv (c.clock n) (c.found n) = some (.going recv, s, r))
      (keeps : ¬ c.Regains n) : Loops c i (n + 1) (k + w.recv.ahead)

/-- At this moment the `recv` that is under way ends. -/
def Ends (c : Course ν ι) (n : Nat) (result : Except ProviderError ι) : Prop :=
  (c.moments n).idle = false ∧ ∃ w s r, c.subscriber n = .on w ∧
    w.subscription.step w.recv (c.clock n) (c.found n) = some (.done result, s, r)

theorem Loops.since (loops : c.Loops i n k) : i ≤ n := by
  induction loops with
  | begins => exact Nat.le_refl i
  | waits _ _ _ _ ih => exact Nat.le_succ_of_le ih
  | goes _ _ _ _ _ ih => exact Nat.le_succ_of_le ih

/-- When it has ended it is not under way any more. -/
theorem Loops.le_of_ends (loops : c.Loops i n k) (since : i ≤ m) (ends : c.Ends m result) :
    n ≤ m := by
  obtain ⟨-, w, s, r, here, done⟩ := ends
  induction loops with
  | begins => exact since
  | @waits n k w' _ on _ waits before =>
    refine Nat.lt_of_le_of_ne before ?_
    rintro rfl
    cases here.symm.trans on
    simp [done] at waits
  | @goes n k w' recv s' r' _ on _ step _ before =>
    refine Nat.lt_of_le_of_ne before ?_
    rintro rfl
    cases here.symm.trans on
    simp [done] at step

theorem Loops.spends (loops : c.Loops i n k) : ∃ w, c.subscriber n = .on w ∧
    k + w.recv.ahead + w.subscription.left c.policy.fallbacks ≤
      mostLags * (c.policy.fallbacks + 1) + 1 := by
  induction loops with
  | @begins w on starting =>
    have most := w.subscription.left_le c.policy.fallbacks
    refine ⟨w, on, ?_⟩
    simp only [starting, Recv.ahead]
    omega
  | waits _ on awake waits ih =>
    obtain ⟨w', on', spends⟩ := ih
    cases on.symm.trans on'
    exact ⟨_, subscriber_of_wait on awake waits, spends⟩
  | @goes n k w recv s r _ on awake step keeps ih =>
    obtain ⟨w', on', spends⟩ := ih
    cases on.symm.trans on'
    have left := (firm on).left_step (fun regains => keeps ⟨awake, w, on, regains⟩) step
    refine ⟨_, subscriber_of_step on awake step, ?_⟩
    simp only [Standing.after]
    omega

/-- A `recv` to which the primary gives no stream back has only so many iterations. -/
theorem Loops.bounded (loops : c.Loops i n k) : k ≤ mostLags * (c.policy.fallbacks + 1) := by
  obtain ⟨w, -, spends⟩ := loops.spends
  have some := w.subscription.left_pos c.policy.fallbacks
  omega

theorem Unhurried.instant_on (u : c.Unhurried) (on : c.subscriber n = .on w)
    (awake : (c.moments n).idle = false)
    (moves : w.subscription.step w.recv (c.clock n) (c.found n) ≠ none) :
    (c.clock (n + 1)).now = (c.clock n).now := by
  apply u.instant
  obtain ⟨o, step⟩ := Option.ne_none_iff_exists'.1 moves
  simp only [clock] at step
  simp [on, Subscriber.move, awake, Standing.step, step]

/-- From one moment to the next such a `recv` ends, gets on, or waits for the same time. -/
theorem Loops.onward (loops : c.Loops i n k) (on : c.subscriber n = .on w)
    (awake : (c.moments n).idle = false) (keeps : ¬ c.Regains n) :
    (∃ result, c.Ends n result) ∨ ∃ k' w', c.Loops i (n + 1) k' ∧
      c.subscriber (n + 1) = .on w' ∧
      (Subscription.Shorter (w'.subscription.outlook c.policy.fallbacks w'.recv)
        (w.subscription.outlook c.policy.fallbacks w.recv) ∨
      w'.subscription.outlook c.policy.fallbacks w'.recv =
        w.subscription.outlook c.policy.fallbacks w.recv ∧ w'.recv.deadline = w.recv.deadline) := by
  cases move : w.subscription.step w.recv (c.clock n) (c.found n) with
  | none =>
    have rests := subscriber_of_wait on awake move
    exact .inr ⟨k, w, loops.waits on awake move, rests, .inr ⟨rfl, rfl⟩⟩
  | some o =>
    obtain ⟨turn, s, r⟩ := o
    cases turn with
    | done result => exact .inl ⟨result, awake, w, s, r, on, move⟩
    | going recv =>
      have gains : ¬ w.recv.Regains (c.clock n) (c.found n) :=
        fun regains => keeps ⟨awake, w, on, regains⟩
      have after := subscriber_of_step on awake move
      exact .inr ⟨_, _, loops.goes on awake move keeps, after, (firm on).outlook_step gains move⟩

/-- As long as time goes on, such a `recv` ends. -/
theorem Loops.ends (u : c.Unhurried) (loops : c.Loops i n k)
    (kept : ∀ n k, c.Loops i n k → (c.moments n).idle = false ∧ ¬ c.Regains n) :
    ∃ n k result, c.Loops i n k ∧ c.Ends n result := by
  obtain ⟨w, on, -⟩ := loops.spends
  generalize before : w.subscription.outlook c.policy.fallbacks w.recv = outlook
  induction outlook using Subscription.shorter_wf.induction generalizing n k w with
  | h outlook ih =>
    by_contra never
    -- otherwise it would be at the same round, or wait for the same time, for ever
    have stays : ∀ m, n ≤ m → ∃ k w', c.Loops i m k ∧ c.subscriber m = .on w' ∧
        w'.subscription.outlook c.policy.fallbacks w'.recv = outlook ∧
        w'.recv.deadline = w.recv.deadline := by
      intro m later
      induction later with
      | refl => exact ⟨k, w, loops, on, before, rfl⟩
      | @step m _ stays =>
        obtain ⟨k, w', loops, on, same, deadline⟩ := stays
        obtain ⟨awake, keeps⟩ := kept m k loops
        rcases loops.onward on awake keeps with ⟨result, ends⟩ | ⟨k', v, next, after, moved⟩
        · exact absurd ⟨m, k, result, loops, ends⟩ never
        · rcases moved with shorter | ⟨still, round⟩
          · exact absurd (ih _ (same ▸ shorter) next v after rfl) never
          · exact ⟨k', v, next, after, still.trans same, round.trans deadline⟩
    have still : ∀ m, n ≤ m → w.recv.deadline ≤ (c.clock m).now →
        (c.clock (m + 1)).now = (c.clock m).now := by
      intro m later due
      obtain ⟨k, w', loops, on, -, deadline⟩ := stays m later
      apply u.instant_on on (kept m k loops).1
      exact Subscription.moves_past (deadline ▸ due)
    exact not_frozen u.forward u.endless still

/-- What a subscription keeps to, whatever the providers do. -/
structure Consistent (c : Course ν ι) : Prop where
  /-- Whenever a `recv` waits for an item, or has ended. -/
  lags : c.Patient → ∀ n w, c.subscriber n = .on w → ¬ w.recv.Searches →
    w.subscription.tap ≠ none → w.subscription.lags < mostLags
  unmarked : ∀ n w, c.subscriber n = .on w → w.subscription.lastReturn = none →
    w.subscription.tap ≠ none ∧ w.subscription.fallback = none
  climbs : ∀ n, c.Switches n → ∃ w w', c.subscriber n = .on w ∧ c.subscriber (n + 1) = .on w' ∧
    w.subscription.floor < w'.subscription.floor
  index : ∀ n w w', c.subscriber n = .on w → c.subscriber (n + 1) = .on w' →
    w'.subscription.fallback ≠ w.subscription.fallback →
    c.Switches n ∨ c.Regains n ∧ w'.subscription.fallback = none
  /-- The primary is asked again after the interval, and only when the stream has been left once. -/
  apart : c.Patient → c.Steady → ∀ a b, c.Returns a → c.Returns b → a < b →
    (c.clock a).wall + c.policy.reconnect ≤ (c.clock b).wall
  away : ∀ b, c.Returns b → ∃ a, a < b ∧ c.Leaves a
  /-- Without the primary there are so many iterations, and then an end. -/
  bounded : ∀ i n k, c.Loops i n k → k ≤ mostLags * (c.policy.fallbacks + 1)
  ends : c.Unhurried → ∀ i w, c.subscriber i = .on w → w.recv = .starting →
    (∀ n k, c.Loops i n k → (c.moments n).idle = false ∧ ¬ c.Regains n) →
    ∃ n k result, c.Loops i n k ∧ c.Ends n result
  off : ∀ n e, c.Fails n e → ∀ m, n < m → (∀ k, n < k → k < m → ¬ c.Regains k) →
    ∃ w, c.subscriber m = .on w ∧ w.subscription.tap = none

/-- A subscription never contradicts itself, and no `recv` goes on for ever unless the primary
gives the stream back. -/
theorem always_consistent (c : Course ν ι) : c.Consistent where
  lags patient _ _ on := patient.fit on
  unmarked _ _ on := (firm on).primary
  climbs _ switches := switches.climbs
  index _ _ _ on on' := fallback_changes on on'
  apart patient steady _ _ one other later := patient.returns_apart steady one other later
  away _ began := began.after_leaving
  bounded _ _ _ loops := loops.bounded
  ends u _ _ on starting kept := (Loops.begins on starting).ends u kept
  off _ _ fails _ later never := fails.off later never

end Course

/-! ## Away from the primary -/

namespace Example

/-- The primary takes the first subscription and refuses two more. -/
def aloof : Actors Nat :=
  .new [⟨true, [.succeed 0 0, .fail (some "down") 0, .fail (some "down") 0], none⟩,
    ⟨true, [], none⟩] 4

/-- The primary's stream closes, and later the fallback sends an item. -/
def deserted : Nat → Actors Nat → Actors Nat
  | 3 => fun a => a.closeRing 0
  | 8 => fun a => (a.send 1 [7]).2
  | _ => id

theorem pubsub_deserted (n : Nat) (a : Actors Nat) : Actors.pubsub (deserted n a) = a.pubsub := by
  unfold deserted
  split
  · exact Actors.pubsub_closeRing a 0
  · exact Actors.pubsub_send a 1 [7]
  · rfl

/-- Wall time runs ahead, so that a return is due when a `recv` begins anew. -/
def banished : Course (Actors Nat) Nat where
  policy := policy
  op := Actors.subscribe
  fleet := aloof
  moments n := ⟨⟨n - 11, 30000 * ((n - 1) / 4)⟩, deserted n, pubsub_deserted n, decide (11 ≤ n)⟩

theorem banished_rests {n : Nat} (late : 11 ≤ n) : ∃ w, banished.subscriber n = .on w ∧
    ¬ (w.recv.Returns ∨ w.recv.Searches) := by
  induction late with
  | refl => exact ⟨_, rfl, or_self_iff.1⟩
  | @step n late ih =>
    obtain ⟨w, here, -⟩ := ih
    have rests := Course.state_of_idle here (decide_eq_true late)
    exact ⟨_, congrArg Prod.fst rests, or_self_iff.1⟩

theorem banished_patient : banished.Patient := by
  intro n w on idle
  obtain ⟨w', on', calm⟩ := banished_rests (of_decide_eq_true idle)
  cases on.symm.trans on'
  exact calm

theorem banished_steady : banished.Steady := by
  intro n
  change 30000 * ((n - 1) / 4) ≤ 30000 * ((n + 1 - 1) / 4)
  omega

theorem banished_unhurried : banished.Unhurried :=
  .of_idle (m := 11) rfl (fun _ late => decide_eq_true late) fun _ => rfl

theorem banished_ends : banished.Ends 8 (.ok 7) := ⟨rfl, _, _, _, rfl, rfl⟩

/-- The primary is asked during the first `recv`, and refuses. -/
theorem banished_stays {n : Nat} (since : 1 ≤ n) (before : n ≤ 8) : ∃ w,
    banished.subscriber n = .on w ∧ ¬ w.recv.Regains (banished.clock n) (banished.found n) := by
  obtain rfl | rfl | rfl | rfl | rfl | rfl | rfl | rfl :
    n = 1 ∨ n = 2 ∨ n = 3 ∨ n = 4 ∨ n = 5 ∨ n = 6 ∨ n = 7 ∨ n = 8 := by omega
  all_goals
    refine ⟨_, rfl, ?_⟩
    rintro ⟨round, quiet, t, r, asks, gives⟩
    cases asks
  -- what is left is the moment of the refusal
  cases gives

theorem banished_kept (n k : Nat) (loops : banished.Loops 1 n k) :
    (banished.moments n).idle = false ∧ ¬ banished.Regains n := by
  have since : 1 ≤ n := loops.since
  have before : n ≤ 8 := loops.le_of_ends (by decide) banished_ends
  refine ⟨decide_eq_false (by omega), ?_⟩
  rintro ⟨-, w, on, gains⟩
  obtain ⟨w', on', stays⟩ := banished_stays since before
  cases on.symm.trans on'
  exact stays gains

end Example

open Example

/-- The stream moves to the fallback, from where the primary is asked twice. The `recv` of the
switch begins two iterations, with a return that fails, and gets its item. -/
theorem banished_consistent : banished.Patient ∧ banished.Steady ∧ banished.Unhurried ∧
    banished.Consistent ∧ banished.Leaves 3 ∧ banished.Switches 4 ∧ banished.Returns 5 ∧
    banished.Returns 9 ∧ (banished.clock 5).wall + 30000 ≤ (banished.clock 9).wall ∧
    ∃ n k result, banished.Loops 1 n k ∧ k ≤ 6 ∧ banished.Ends n result := by
  have consistent := Course.always_consistent banished
  have first : banished.Returns 5 := ⟨_, _, rfl, rfl, id, trivial⟩
  have second : banished.Returns 9 := ⟨_, _, rfl, rfl, id, trivial⟩
  have apart := consistent.apart banished_patient banished_steady 5 9 first second (by decide)
  obtain ⟨n, k, result, loops, ends⟩ :=
    consistent.ends banished_unhurried 1 _ rfl rfl banished_kept
  exact ⟨banished_patient, banished_steady, banished_unhurried, consistent,
    ⟨_, _, rfl, rfl, id, trivial⟩, ⟨rfl, _, rfl, _, _, _, rfl, rfl⟩, first, second, apart,
    n, k, result, loops, consistent.bounded 1 n k loops, ends⟩

end ChainHerald
