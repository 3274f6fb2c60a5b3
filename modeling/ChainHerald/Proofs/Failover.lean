import ChainHerald.Provider.Await

/-!
# Providers under trial

What a round of retries, a sweep over providers and a `recv` of a subscription can do with one
move. A try is followed back to the provider on which it was begun.
-/

namespace ChainHerald

open Fleet (Op Try)

variable {ν : Type} [Fleet ν] {α : Type}

/-- A try that was begun on this provider, as far as it has got. -/
inductive Asked (p : Nat) (op : Op ν α) : Try ν α → Prop where
  | begun (clock : Clock) (f : ν) : Asked p op (Fleet.begin p op clock f).1
  | going {t t' : Try ν α} {clock : Clock} {f f' : ν} (asked : Asked p op t)
      (step : Fleet.step t clock f = some (.going t', f')) : Asked p op t'

/-- The provider was asked and this is what it gave. -/
def Gave (p : Nat) (op : Op ν α) (a : α) : Prop :=
  ∃ t clock f f', Asked p op t ∧ Fleet.step t clock f = some (.done (.ok a), f')

/-! ## Rounds -/

namespace Round

variable {k k' : Round ν α} {clock : Clock} {r r' : Providers ν} {p : Nat} {op : Op ν α} {a : α}

/-- The try that is under way was begun on the round's own provider. -/
def Honest (k : Round ν α) : Prop := ∀ t, k.attempt = .trying t → Asked k.provider k.op t

theorem honest_start (p : Nat) (op : Op ν α) (clock : Clock) (r : Providers ν) :
    (start p op clock r).1.Honest := by
  intro t trying
  cases trying
  exact .begun clock r.fleet

/-- The round cannot move of itself: its pause is not over, or its try has to wait. -/
def Stuck (k : Round ν α) (clock : Clock) (r : Providers ν) : Prop :=
  match k.attempt with
  | .pausing ready => clock.now < ready
  | .trying t => Fleet.step t clock r.fleet = none

/-- What a move of a round can be. -/
inductive Moves (k : Round ν α) (clock : Clock) (r : Providers ν) :
    Turn (Round ν α) (Except ProviderError α) × Providers ν → Prop where
  | asks {ready : Nat} (pausing : k.attempt = .pausing ready) (ended : ready ≤ clock.now) :
      Moves k clock r (.going
        { k with attempt := .trying (Fleet.begin k.provider k.op clock r.fleet).1 },
        { r with fleet := (Fleet.begin k.provider k.op clock r.fleet).2 })
  | trying {t t' : Try ν α} {fleet : ν} (trying : k.attempt = .trying t)
      (step : Fleet.step t clock r.fleet = some (.going t', fleet)) :
      Moves k clock r (.going { k with attempt := .trying t' }, { r with fleet })
  | answered {t : Try ν α} {a : α} {fleet : ν} (trying : k.attempt = .trying t)
      (step : Fleet.step t clock r.fleet = some (.done (.ok a), fleet)) :
      Moves k clock r (.done (.ok a), { r with fleet })
  | spent {t : Try ν α} {e : RpcFault} {fleet : ν} (trying : k.attempt = .trying t)
      (step : Fleet.step t clock r.fleet = some (.done (.error e), fleet)) (none : k.left = 0) :
      Moves k clock r (.done (.error (.rpc e)), { r with fleet })
  | refused {t : Try ν α} {e : RpcFault} {fleet : ν} {left : Nat} (trying : k.attempt = .trying t)
      (step : Fleet.step t clock r.fleet = some (.done (.error e), fleet))
      (more : k.left = left + 1) :
      Moves k clock r (.going
        { k with
          left
          backoff := k.backoff.next.2
          attempt := .pausing (clock.now + k.backoff.pause) }, { r with fleet })
  | expired (stuck : k.Stuck clock r) (past : k.deadline ≤ clock.now) :
      Moves k clock r (.done (.error .timeout), r)

theorem step_moves {o : Turn (Round ν α) (Except ProviderError α) × Providers ν}
    (step : k.step clock r = some o) : k.Moves clock r o := by
  unfold Round.step expire at step
  split at step
  · rename_i ready pausing
    split at step
    · rename_i ended
      cases step
      exact .asks pausing ended
    · rename_i early
      split at step
      · rename_i past
        cases step
        refine .expired ?_ past
        simpa only [Stuck, pausing] using Nat.lt_of_not_le early
      · cases step
  · rename_i t trying
    split at step
    · rename_i waits
      split at step
      · rename_i past
        cases step
        refine .expired ?_ past
        simpa only [Stuck, trying] using waits
      · cases step
    · rename_i moved
      cases step
      exact .trying trying moved
    · rename_i gave
      cases step
      exact .answered trying gave
    · rename_i refused
      split at step
      · rename_i none
        cases step
        exact .spent trying refused none
      · rename_i more
        cases step
        exact .refused trying refused more

/-- A round stays with its provider and its operation. -/
theorem step_going (step : k.step clock r = some (.going k', r')) :
    k'.provider = k.provider ∧ k'.op = k.op ∧ (k.Honest → k'.Honest) := by
  cases step_moves step with
  | asks =>
    refine ⟨rfl, rfl, ?_⟩
    rintro - t here
    cases here
    exact .begun clock r.fleet
  | trying trying moved =>
    refine ⟨rfl, rfl, ?_⟩
    rintro honest t' here
    cases here
    exact (honest _ trying).going moved
  | refused =>
    refine ⟨rfl, rfl, ?_⟩
    rintro - t' here
    cases here

theorem step_ok (step : k.step clock r = some (.done (.ok a), r')) (honest : k.Honest) :
    Gave k.provider k.op a := by
  cases step_moves step with
  | answered trying gave => exact ⟨_, clock, r.fleet, _, honest _ trying, gave⟩

end Round

/-! ## Sweeps -/

namespace Sweeping

variable {s s' : Sweeping ν α} {w : Sweep ν α} {clock : Clock} {r r' : Providers ν} {p : Nat}
  {op : Op ν α} {P Q : Nat → Prop} {a : α}

/-- A sweep with this operation over providers of this kind. -/
structure Over (P : Nat → Prop) (op : Op ν α) (w : Sweep ν α) : Prop where
  honest : w.round.Honest
  asks : w.round.op = op
  among : ∀ p ∈ w.round.provider :: w.rest, P p

def Within (P : Nat → Prop) (op : Op ν α) (s : Sweeping ν α) : Prop :=
  ∀ w, s = .active w → Over P op w

theorem within_start {candidates : List Nat} (among : ∀ p ∈ candidates, P p) (op : Op ν α)
    (e : ProviderError) (clock : Clock) (r : Providers ν) :
    (Sweep.start op candidates e clock r).1.Within P op := by
  intro w active
  cases candidates with
  | nil => cases active
  | cons p rest =>
    cases active
    exact ⟨Round.honest_start p op clock r, rfl, among⟩

theorem Within.mono (within : s.Within P op) (weaker : ∀ p, P p → Q p) : s.Within Q op := by
  intro w active
  obtain ⟨honest, asks, among⟩ := within w active
  exact ⟨honest, asks, fun p mem => weaker p (among p mem)⟩

theorem Within.step (within : s.Within P op) (step : s.step clock r = some (.going s', r')) :
    s'.Within P op := by
  cases s with
  | idle e => cases step
  | active w =>
    obtain ⟨honest, asks, among⟩ := within w rfl
    simp only [Sweeping.step] at step
    split at step
    · cases step
    · rename_i going
      cases step
      obtain ⟨provider, op', stays⟩ := Round.step_going going
      rintro w' ⟨⟩
      refine ⟨stays honest, op'.trans asks, ?_⟩
      simpa only [provider] using among
    · cases step
    · split at step
      · cases step
      · rename_i p rest left
        cases step
        rintro w' ⟨⟩
        refine ⟨Round.honest_start _ _ _ _, asks, ?_⟩
        intro q mem
        exact among q (List.mem_cons_of_mem _ (left ▸ mem))

theorem Within.done (within : s.Within P op)
    (step : s.step clock r = some (.done (.ok (a, p)), r')) : P p ∧ Gave p op a := by
  cases s with
  | idle e => cases step
  | active w =>
    obtain ⟨honest, asks, among⟩ := within w rfl
    simp only [Sweeping.step] at step
    split at step
    · cases step
    · cases step
    · rename_i gave
      cases step
      exact ⟨among _ List.mem_cons_self, asks ▸ Round.step_ok gave honest⟩
    · split at step <;> cases step

/-- Where a sweep can get to. -/
inductive Came (s : Sweeping ν α) : Sweeping ν α → Prop where
  | here : Came s s
  | going {s' s'' : Sweeping ν α} {clock : Clock} {r r' : Providers ν} (came : Came s s')
      (step : s'.step clock r = some (.going s'', r')) : Came s s''

theorem Came.after {s'' : Sweeping ν α} (step : s.step clock r = some (.going s', r'))
    (came : s'.Came s'') : s.Came s'' := by
  induction came with
  | here => exact .going .here step
  | going _ last ih => exact .going ih last

theorem came_of_await {result : Except ProviderError (α × Nat)} {clock' : Clock}
    (ends : s.await clock r = some (result, clock', r')) :
    ∃ s' r₁, s.Came s' ∧ s'.step clock' r₁ = some (.done result, r') := by
  unfold Sweeping.await at ends
  generalize s.bound r.policy.retries = fuel at ends
  induction fuel generalizing s clock r with
  | zero => cases ends
  | succ fuel ih =>
    simp only [ChainHerald.await] at ends
    split at ends
    · rename_i done
      cases ends
      exact ⟨s, r, .here, done⟩
    · rename_i going
      obtain ⟨s', r₁, came, done⟩ := ih ends
      exact ⟨s', r₁, came.after going, done⟩
    · obtain ⟨now, -, ends⟩ := Option.bind_eq_some_iff.1 ends
      exact ih ends

theorem Within.came (within : s.Within P op) (came : s.Came s') : s'.Within P op := by
  induction came with
  | here => exact within
  | going _ step ih => exact ih.step step

end Sweeping

theorem Providers.index_lt_of_mem {r : Providers ν} {pubsub : Bool} {index p : Nat}
    (mem : p ∈ r.fallbacksFrom pubsub index) : index < p := by
  obtain ⟨mem, -⟩ := List.mem_filter.1 mem
  obtain ⟨i, later, rfl⟩ := List.mem_map.1 mem
  obtain ⟨n, -, rfl⟩ := List.mem_drop_iff_getElem.1 later
  rw [List.getElem_range]
  omega

/-! ## Subscriptions -/

namespace Subscription

variable {ι : Type}

/-- The providers on which a switch may open the stream have a number above this one. -/
def floor (s : Subscription ν ι) : Nat := s.fallback.elim 0 (· + 1)

variable {s s' : Subscription ν ι} {recv recv' : Recv ν ι} {clock : Clock} {r r' : Providers ν}
  {e : ProviderError}

@[simp]
theorem returnDue_notice (s : Subscription ν ι) (clock : Clock) (r : Providers ν) (n : Notice) :
    s.returnDue clock (r.notice n) = s.returnDue clock r := rfl

/-- A switch sets out, with the mark that it leaves for the return. -/
theorem startSwitch_eq (s : Subscription ν ι) (e : ProviderError) (clock : Clock)
    (r : Providers ν) : ∃ sweep r', s.startSwitch e clock r =
      (.switching sweep, { s with lastReturn := some (s.lastReturn.getD clock.wall) }, r') ∧
      sweep.Within (s.floor < ·) s.op := by
  refine ⟨_, _, rfl, ?_⟩
  apply Sweeping.within_start
  intro p mem
  have above := Providers.index_lt_of_mem mem
  cases h : s.fallback with
  | none => simpa [floor, h] using above
  | some i => simpa [floor, h] using above

/-- The stream is given up for one on a later fallback. -/
def leave (s : Subscription ν ι) (e : ProviderError) (clock : Clock) (r : Providers ν) :
    Outcome ν ι :=
  (.going (s.startSwitch e clock r).1, (s.startSwitch e clock r).2)

variable [Carrier ν ι]

/-- What a move of a `recv` can be. -/
inductive Goes (s : Subscription ν ι) (clock : Clock) (r : Providers ν) :
    Recv ν ι → Outcome ν ι → Prop where
  | due (due : s.returnDue clock r = true) :
      Goes s clock r .starting (.going (s.startReturn false clock r).1, s,
        (s.startReturn false clock r).2)
  | notDue (undue : s.returnDue clock r = false) : Goes s clock r .starting (.going .arming, s, r)
  | armed {t : Tap ι} (on : s.tap = some t) :
      Goes s clock r .arming (.going (.listening (clock.now + r.policy.silence)), s, r)
  | off {recv : Recv ν ι} (plain : recv = .arming ∨ ∃ deadline, recv = .listening deadline)
      (off : s.tap = none) : Goes s clock r recv (.done (.error (.rpc .backendGone)), s, r)
  | trying {round round' : Round ν (Tap ι)} {quiet : Bool} {r' : Providers ν}
      (step : round.step clock r = some (.going round', r')) :
      Goes s clock r (.returning round quiet) (.going (.returning round' quiet), s, r')
  | returned {round : Round ν (Tap ι)} {quiet : Bool} {t : Tap ι} {r' : Providers ν}
      (step : round.step clock r = some (.done (.ok t), r')) :
      Goes s clock r (.returning round quiet) (.going (if quiet then .starting else .arming),
        { s with tap := some t, lastReturn := none, lags := 0, fallback := none }, s.drop r')
  | refused {round : Round ν (Tap ι)} {e : ProviderError} {r' : Providers ν}
      (step : round.step clock r = some (.done (.error e), r')) :
      Goes s clock r (.returning round false) (.going .arming,
        { s with lastReturn := some clock.wall }, r'.notice (.reconnectFailed e))
  | refusedQuiet {round : Round ν (Tap ι)} {e : ProviderError} {r' : Providers ν}
      (step : round.step clock r = some (.done (.error e), r')) :
      Goes s clock r (.returning round true) (({ s with lastReturn := some clock.wall }).leave
        .timeout clock (r'.notice (.reconnectFailed e)))
  | item {t t' : Tap ι} {i : ι} {deadline : Nat} (on : s.tap = some t)
      (read : (Carrier.rings r.fleet).read t = (.item i, t')) :
      Goes s clock r (.listening deadline) (.done (.ok i), { s with tap := some t', lags := 0 }, r)
  | lagged {t t' : Tap ι} {lost deadline : Nat} (on : s.tap = some t)
      (read : (Carrier.rings (ι := ι) r.fleet).read t = (.lagged lost, t'))
      (few : s.lags + 1 < mostLags) :
      Goes s clock r (.listening deadline) (.going .starting,
        { s with tap := some t', lags := s.lags + 1 }, r.notice (.lagged lost (s.lags + 1)))
  | worn {t t' : Tap ι} {lost deadline : Nat} (on : s.tap = some t)
      (read : (Carrier.rings (ι := ι) r.fleet).read t = (.lagged lost, t'))
      (many : ¬ s.lags + 1 < mostLags) :
      Goes s clock r (.listening deadline)
        (({ s with tap := some t', lags := s.lags + 1 }).leave (.rpc .backendGone) clock
          ((r.notice (.lagged lost (s.lags + 1))).notice .tooManyLags))
  | closed {t t' : Tap ι} {deadline : Nat} (on : s.tap = some t)
      (read : (Carrier.rings (ι := ι) r.fleet).read t = (.closed, t')) :
      Goes s clock r (.listening deadline)
        (s.leave (.rpc .backendGone) clock (r.notice .channelClosed))
  | quietDue {t t' : Tap ι} {deadline : Nat} (on : s.tap = some t)
      (read : (Carrier.rings (ι := ι) r.fleet).read t = (.quiet, t')) (past : deadline ≤ clock.now)
      (away : s.fallback.isSome = true) (due : s.returnDue clock r = true) {r₁ : Providers ν}
      (told : r₁ = r.notice (.quiet (r.policy.silence / 1000))) :
      Goes s clock r (.listening deadline)
        (.going (s.startReturn true clock r₁).1, s, (s.startReturn true clock r₁).2)
  | quiet {t t' : Tap ι} {deadline : Nat} (on : s.tap = some t)
      (read : (Carrier.rings (ι := ι) r.fleet).read t = (.quiet, t')) (past : deadline ≤ clock.now)
      (stay : (s.fallback.isSome && s.returnDue clock r) = false) :
      Goes s clock r (.listening deadline)
        (s.leave .timeout clock (r.notice (.quiet (r.policy.silence / 1000))))
  | sweeping {sweep sweep' : Sweeping ν (Tap ι)} {r' : Providers ν}
      (step : sweep.step clock r = some (.going sweep', r')) :
      Goes s clock r (.switching sweep) (.going (.switching sweep'), s, r')
  | switched {sweep : Sweeping ν (Tap ι)} {t : Tap ι} {p : Nat} {r' : Providers ν}
      (step : sweep.step clock r = some (.done (.ok (t, p)), r')) :
      Goes s clock r (.switching sweep) (.going .starting,
        { s with tap := some t, lags := 0, fallback := some (p - 1) }, s.drop r')
  | lost {sweep : Sweeping ν (Tap ι)} {e : ProviderError} {r' : Providers ν}
      (step : sweep.step clock r = some (.done (.error e), r')) :
      Goes s clock r (.switching sweep)
        (.done (.error e), { s with tap := none }, (s.drop r').notice (.noFallback e))

theorem step_listening_goes {deadline : Nat} {o : Outcome ν ι}
    (step : s.stepListening deadline clock r = some o) :
    s.Goes clock r (.listening deadline) o := by
  unfold stepListening at step
  split at step
  · rename_i off
    cases step
    exact .off (.inr ⟨deadline, rfl⟩) off
  · rename_i t on
    split at step
    · rename_i read
      cases step
      exact .item on read
    · rename_i read
      simp only at step
      split at step
      · rename_i few
        cases step
        exact .lagged on read few
      · rename_i many
        cases step
        exact .worn on read many
    · rename_i read
      cases step
      exact .closed on read
    · rename_i read
      split at step
      · cases step
      · rename_i late
        have past : deadline ≤ clock.now := Nat.le_of_not_lt late
        simp only at step
        split at step
        · rename_i back
          obtain ⟨away, due⟩ := Bool.and_eq_true_iff.1 back
          cases step
          exact .quietDue on read past away due rfl
        · rename_i stay
          cases step
          exact .quiet on read past (Bool.eq_false_iff.2 stay)

theorem step_goes {o : Outcome ν ι} (step : s.step recv clock r = some o) :
    s.Goes clock r recv o := by
  cases recv with
  | starting =>
    simp only [Subscription.step] at step
    split at step
    · rename_i due
      cases step
      exact .due due
    · rename_i undue
      cases step
      exact .notDue (Bool.eq_false_iff.2 undue)
  | arming =>
    simp only [Subscription.step] at step
    split at step
    · rename_i off
      cases step
      exact .off (.inl rfl) off
    · rename_i on
      cases step
      exact .armed on
  | returning round quiet =>
    simp only [Subscription.step, stepReturning] at step
    split at step
    · cases step
    · rename_i going
      cases step
      exact .trying going
    · rename_i back
      cases step
      exact .returned back
    · rename_i refused
      cases quiet with
      | false =>
        cases step
        exact .refused refused
      | true =>
        cases step
        exact .refusedQuiet refused
  | listening deadline => exact step_listening_goes step
  | switching sweep =>
    simp only [Subscription.step, stepSwitching] at step
    split at step
    · cases step
    · rename_i going
      cases step
      exact .sweeping going
    · rename_i done
      cases step
      exact .switched done
    · rename_i lost
      cases step
      exact .lost lost

end Subscription

end ChainHerald
