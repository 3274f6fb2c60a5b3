import ChainHerald.Proofs.Backoff
import ChainHerald.Proofs.Course

/-!
# Rounds of retries

A provider is asked at once, and again after each failure and its pause, until it answers, it has
failed as often as the policy allows, or the time for a call is over. `Round.Ran` lists these ends.
A round in virtual time comes to one of them (`round_within_bounds`), whatever becomes of the
provider meanwhile.
-/

namespace ChainHerald

open Fleet (Op Try)

/-- The providers at a time. -/
structure Scene (ν : Type) where
  clock : Clock
  providers : Providers ν

/-- What nobody who waits has a say in: the time of each moment, and what others have done to the
providers by then. -/
structure Surroundings (ν : Type) where
  clock : Nat → Clock
  others : Nat → ν → ν

def Surroundings.pass {ν : Type} (e : Surroundings ν) (n : Nat) (w : Scene ν) : Scene ν :=
  ⟨e.clock n, { w.providers with fleet := e.others n w.providers.fleet }⟩

/-- The pause after the failure with this number, the first of which is number 0. -/
def Policy.delay (policy : Policy) : Nat → Nat := Backoff.delay policy.leastPause Policy.mostPause

variable {ν : Type} [Fleet ν] {α : Type}

namespace Round

/-- What comes to pass with the next move. -/
def incidents (k : Round ν α) (clock : Clock) (r : Providers ν) : List (Incident RpcFault α) :=
  match k.attempt with
  | .pausing ready => if ready ≤ clock.now then [.asked] else []
  | .trying t =>
    match Fleet.step t clock r.fleet with
    | some (.done (.ok a), _) => [.answered a]
    | some (.done (.error e), _) => [.refused e]
    | _ => []

instance : Awaitable (Round ν α) (Scene ν) (Except ProviderError α) (Incident RpcFault α) where
  step k w := (k.step w.clock w.providers).map fun (turn, providers) => (turn, { w with providers })
  wakes := wakes
  now w := w.clock.now
  incidents k w := k.incidents w.clock w.providers

/-- A round from its beginning on. -/
def awaited (p : Nat) (op : Op ν α) (w : Scene ν) (around : Surroundings ν) :
    Awaited (Round ν α) where
  first := (start p op w.clock w.providers).1
  opening := [.asked]
  world := { w with providers := (start p op w.clock w.providers).2 }
  others := around.pass

/-- How a round that began at this time can have ended, after these incidents and at that time. -/
inductive Ran (policy : Policy) (start : Nat) :
    List (Nat × Incident RpcFault α) → Nat → Except ProviderError α → Prop where
  | answered (failures : List (Nat × RpcFault)) {time : Nat} (a : α)
      (few : failures.length ≤ policy.retries) (kept : time ≤ start + policy.callTimeout) :
      Ran policy start (attempts policy.delay start failures ++ [(time, .answered a)]) time (.ok a)
  | spent (failures : List (Nat × RpcFault)) {time : Nat} (e : RpcFault)
      (all : failures.length = policy.retries) (kept : time ≤ start + policy.callTimeout) :
      Ran policy start (attempts policy.delay start failures ++ [(time, .refused e)]) time
        (.error (.rpc e))
  | unanswered (failures : List (Nat × RpcFault)) (few : failures.length ≤ policy.retries) :
      Ran policy start (attempts policy.delay start failures) (start + policy.callTimeout)
        (.error .timeout)
  | unasked (failures : List (Nat × RpcFault)) {time : Nat} (e : RpcFault)
      (few : failures.length < policy.retries)
      (late : start + policy.callTimeout < time + policy.delay failures.length) :
      Ran policy start (attempts policy.delay start failures ++ [(time, .refused e)])
        (start + policy.callTimeout) (.error .timeout)

/-- How a round that began at this time stands, after these incidents. -/
inductive Stands (policy : Policy) (start : Nat) :
    Round ν α → List (Nat × Incident RpcFault α) → Prop where
  | trying {p left : Nat} {op : Op ν α} (failures : List (Nat × RpcFault)) (t : Try ν α)
      (budget : failures.length + left = policy.retries) :
      Stands policy start ⟨p, op, start + policy.callTimeout, left,
          .after policy.leastPause Policy.mostPause failures.length, .trying t⟩
        (attempts policy.delay start failures)
  | pausing {p left time : Nat} {op : Op ν α} (failures : List (Nat × RpcFault)) (e : RpcFault)
      (budget : failures.length + 1 + left = policy.retries) :
      Stands policy start ⟨p, op, start + policy.callTimeout, left,
          .after policy.leastPause Policy.mostPause (failures.length + 1),
          .pausing (time + policy.delay failures.length)⟩
        (attempts policy.delay start failures ++ [(time, .refused e)])

/-- Neither its deadline nor the end of its pause has been missed. -/
structure OnTime (k : Round ν α) (now : Nat) : Prop where
  deadline : now ≤ k.deadline
  ready : ∀ ready, k.attempt = .pausing ready → now ≤ ready

variable {k k' : Round ν α} {policy : Policy} {start now later : Nat} {clock : Clock}
  {r r' : Providers ν} {diary : List (Nat × Incident RpcFault α)} {result : Except ProviderError α}
  {p : Nat} {op : Op ν α}

theorem Stands.deadline (h : k.Stands policy start diary) :
    k.deadline = start + policy.callTimeout := by
  cases h <;> rfl

/-- Whoever waits has no timer that is past. -/
theorem onTime_of_waits (waits : k.step clock r = none)
    (timely : ∀ w ∈ k.wakes, clock.now < w → later ≤ w) : k.OnTime later where
  deadline := by
    apply timely _ List.mem_cons_self
    by_contra past
    exact step_ne_none (Nat.le_of_not_lt past) waits
  ready := by
    intro ready pausing
    apply timely
    · simp [wakes, pausing]
    · by_contra ended
      simp [step, pausing, Nat.le_of_not_lt ended] at waits

/-- With a move that does not end it, the round stands as if it had begun with these incidents. -/
theorem Stands.going (h : k.Stands policy start diary) (onTime : k.OnTime clock.now)
    (step : k.step clock r = some (.going k', r')) :
    k'.Stands policy start (diary ++ (k.incidents clock r).map (clock.now, ·)) ∧
      k'.OnTime clock.now := by
  cases h with
  | @trying p left₀ op failures t budget =>
    cases step_moves step with
    | asks pausing => cases pausing
    | trying trying moved =>
      cases trying
      simp only [incidents, moved, List.map_nil, List.append_nil]
      exact ⟨.trying failures _ budget, onTime.deadline, nofun⟩
    | @refused t e fleet left trying refused more =>
      cases trying
      have more : left₀ = left + 1 := more
      have pause : (Backoff.after policy.leastPause Policy.mostPause failures.length).pause =
          policy.delay failures.length := Backoff.pause_after _
      simp only [incidents, refused, List.map_cons, List.map_nil, pause]
      refine ⟨.pausing failures _ (by omega), onTime.deadline, ?_⟩
      rintro ready ⟨⟩
      exact Nat.le_add_right _ _
  | @pausing p left time op failures e budget =>
    cases step_moves step with
    | asks pausing ended =>
      cases pausing
      have now := Nat.le_antisymm (onTime.ready _ rfl) ended
      have asked : attempts policy.delay start failures ++ [(time, .refused e)] ++
          [(clock.now, .asked)] =
          (attempts policy.delay start (failures ++ [(time, e)]) :
            List (Nat × Incident RpcFault α)) := by
        rw [attempts_concat, now, List.append_assoc]
        rfl
      simp only [incidents, ended, if_true, List.map_cons, List.map_nil, asked]
      refine ⟨?_, onTime.deadline, nofun⟩
      have number : (failures ++ [(time, e)]).length = failures.length + 1 := List.length_append
      rw [← number]
      exact .trying _ _ (number ▸ budget)
    | trying trying | refused trying => cases trying

theorem Stands.done (h : k.Stands policy start diary) (onTime : k.OnTime clock.now)
    (step : k.step clock r = some (.done result, r')) :
    Ran policy start (diary ++ (k.incidents clock r).map (clock.now, ·)) clock.now result ∧
      (result = .error .timeout → k.Stuck clock r) := by
  have kept := onTime.deadline
  rw [h.deadline] at kept
  cases h with
  | trying failures t budget =>
    cases step_moves step with
    | answered trying gave =>
      cases trying
      simp only [incidents, gave, List.map_cons, List.map_nil]
      exact ⟨.answered failures _ (by omega) kept, nofun⟩
    | spent trying refused none =>
      cases trying
      cases none
      simp only [incidents, refused, List.map_cons, List.map_nil]
      exact ⟨.spent failures _ budget kept, nofun⟩
    | expired stuck past =>
      have waits : Fleet.step t clock r.fleet = none := stuck
      have now : clock.now = start + policy.callTimeout := Nat.le_antisymm kept past
      simp only [incidents, waits, List.map_nil, List.append_nil, now]
      exact ⟨.unanswered failures (by omega), fun _ => stuck⟩
  | @pausing p left time op failures e budget =>
    cases step_moves step with
    | answered trying | spent trying => cases trying
    | expired stuck past =>
      have early : clock.now < time + policy.delay failures.length := stuck
      have now : clock.now = start + policy.callTimeout := Nat.le_antisymm kept past
      simp only [incidents, Nat.not_le.2 early, if_false, List.map_nil, List.append_nil]
      rw [now] at early ⊢
      exact ⟨.unasked failures e (by omega) early, fun _ => stuck⟩

/-- A round with this operation on this provider that is under way and in time. -/
structure Underway (policy : Policy) (start p : Nat) (op : Op ν α)
    (diary : List (Nat × Incident RpcFault α)) (now : Nat) (k : Round ν α) : Prop where
  stands : k.Stands policy start diary
  onTime : k.OnTime now
  honest : k.Honest
  asks : k.provider = p ∧ k.op = op

theorem underway_start (p : Nat) (op : Op ν α) (clock : Clock) (r : Providers ν) :
    (Round.start p op clock r).1.Underway r.policy clock.now p op [(clock.now, .asked)]
      clock.now where
  stands := .trying [] _ (Nat.zero_add _)
  onTime := ⟨Nat.le_add_right _ _, nofun⟩
  honest := honest_start p op clock r
  asks := ⟨rfl, rfl⟩

theorem incidents_of_waits (waits : k.step clock r = none) : k.incidents clock r = [] := by
  cases here : k.attempt with
  | pausing ready =>
    simp only [step, here] at waits
    split at waits
    · cases waits
    · rename_i early
      simp only [incidents, here, early, if_false]
  | trying t =>
    simp only [step, here] at waits
    split at waits
    · rename_i nothing
      simp only [incidents, here, nothing]
    · cases waits
    · cases waits
    · split at waits <;> cases waits

namespace Underway

theorem waits (h : k.Underway policy start p op diary clock.now) (waits : k.step clock r = none)
    (timely : ∀ w ∈ k.wakes, clock.now < w → later ≤ w) :
    k.Underway policy start p op (diary ++ (k.incidents clock r).map (clock.now, ·)) later := by
  rw [incidents_of_waits waits, List.map_nil, List.append_nil]
  exact { h with onTime := onTime_of_waits waits timely }

theorem going (h : k.Underway policy start p op diary clock.now)
    (step : k.step clock r = some (.going k', r')) :
    k'.Underway policy start p op (diary ++ (k.incidents clock r).map (clock.now, ·))
      clock.now := by
  obtain ⟨provider, asks, honest⟩ := step_going step
  obtain ⟨stands, onTime⟩ := h.stands.going h.onTime step
  exact ⟨stands, onTime, honest h.honest, provider.trans h.asks.1, asks.trans h.asks.2⟩

theorem gave {a : α} (h : k.Underway policy start p op diary now)
    (step : k.step clock r = some (.done (.ok a), r')) : Gave p op a := by
  have gave := step_ok step h.honest
  rwa [h.asks.1, h.asks.2] at gave

end Underway

/-! ## A round from its beginning to its end -/

variable {a : Awaited (Round ν α)} {w : Scene ν} {around : Surroundings ν} {n : Nat}

theorem underway (begun : a = awaited p op w around) (u : a.InTime) (going : a.turn n = .going k) :
    k.Underway w.providers.policy w.clock.now p op (a.diary n) (a.time n) := by
  subst begun
  refine u.while_going (P := fun k diary now => k.Underway w.providers.policy w.clock.now p op diary
    now) ?_ ?_ ?_ going
  · exact underway_start p op w.clock w.providers
  · intro n k later h waits timely
    exact h.waits (Option.map_eq_none_iff.1 waits) timely
  · intro n k k' v h move
    obtain ⟨⟨turn, r⟩, step, eq⟩ := Option.map_eq_some_iff.1 move
    cases eq
    exact h.going step

theorem Ran.time_le {time : Nat} (ran : Ran policy start diary time result) :
    time ≤ start + policy.callTimeout := by
  cases ran with
  | answered _ _ _ kept => exact kept
  | spent _ _ _ kept => exact kept
  | unanswered => exact Nat.le_refl _
  | unasked => exact Nat.le_refl _

/-- There are no more attempts than one and the retries. -/
theorem Ran.countP_le {time : Nat} (ran : Ran policy start diary time result) :
    diary.countP (·.2.isAsked) ≤ policy.retries + 1 := by
  cases ran with
  | answered failures a few =>
    rw [List.countP_append, countP_attempts]
    exact Nat.succ_le_succ few
  | spent failures e all =>
    rw [List.countP_append, countP_attempts]
    exact Nat.succ_le_succ (Nat.le_of_eq all)
  | unanswered failures few =>
    rw [countP_attempts]
    exact Nat.succ_le_succ few
  | unasked failures e few =>
    rw [List.countP_append, countP_attempts]
    exact Nat.succ_le_succ (Nat.le_of_lt few)

/-- A round in virtual time comes to its end: with the first answer, if that is there in the time
for a call, with the last failure, if all of its attempts have failed by then, or with a timeout
exactly when that time is over, if it cannot move then. Nobody is asked after the end. -/
theorem round_within_bounds (begun : a = awaited p op w around) (u : a.InTime) :
    ∃ n k result, a.turn n = .going k ∧
      Ran w.providers.policy w.clock.now (a.diary (n + 1)) (a.time n) result ∧
      (∀ m, n < m → a.turn m = .done result ∧ a.diary m = a.diary (n + 1)) ∧
      (a.diary (n + 1)).countP (·.2.isAsked) ≤ w.providers.policy.retries + 1 ∧
      (∀ x ∈ a.diary (n + 1), x.1 ≤ a.time n) ∧
      (result = .error .timeout → k.Stuck (a.found n).clock (a.found n).providers) ∧
      ∀ v, result = .ok v → Gave p op v := by
  have moves (n : Nat) (k : Round ν α) (going : a.turn n = .going k)
      (past : w.clock.now + w.providers.policy.callTimeout ≤ a.time n) :
      Awaitable.step k (a.found n) ≠ none := by
    have deadline := (underway begun u going).stands.deadline
    intro waits
    exact step_ne_none (deadline ▸ past) (Option.map_eq_none_iff.1 waits)
  obtain ⟨n, k, result, w', going, ends⟩ := u.ends moves
  have h := underway begun u going
  have instant := u.instant n k going (Option.ne_none_iff_exists'.2 ⟨_, ends⟩)
  have done := Awaited.turn_of_step going ends
  have diary := Awaited.diary_of_going going
  obtain ⟨⟨turn, r⟩, step, eq⟩ := Option.map_eq_some_iff.1 ends
  cases eq
  obtain ⟨ran, stuck⟩ := h.stands.done h.onTime step
  have written : Ran w.providers.policy w.clock.now (a.diary (n + 1)) (a.time n) result := by
    rw [diary]
    exact ran
  refine ⟨n, k, result, going, written, ?_, written.countP_le, ?_, stuck, ?_⟩
  · intro m later
    exact Awaited.rests done later
  · intro x mem
    exact instant ▸ u.diary_le (n + 1) x mem
  · rintro v rfl
    exact h.gave step

end Round

/-! ## An answer at the last moment -/

namespace Example

/-- The primary fails after half a second. Asked again, it takes all the time that is left. -/
def lastMinute : Awaited (Round (Actors Nat) Nat) :=
  Round.awaited 0 Actors.perform
    ⟨⟨0, 0⟩, .new [⟨true, [.fail (some "down") 500, .succeed 7 1500], none⟩] 4,
      ⟨3000, 120000, 1, 1000, 30000, 0⟩, []⟩
    ⟨fun n => ⟨moment n, moment n⟩, fun _ => id⟩
where
  /-- The failure, the end of the pause, and the deadline. -/
  moment : Nat → Nat
    | 0 => 0
    | 1 | 2 => 500
    | 3 | 4 => 1500
    | n + 5 => 3000 + (n - 1)

theorem lastMinute_over : lastMinute.turn 6 = .done (.ok 7) := rfl

theorem lastMinute_inTime : lastMinute.InTime := by
  refine .of_done rfl lastMinute_over (by decide +kernel) ?_
  intro n late
  obtain ⟨k, rfl⟩ := Nat.exists_eq_add_of_le' late
  change 3000 + k < 3000 + (k + 1)
  omega

end Example

open Example in
/-- What `round_within_bounds` says of the last minute. -/
theorem lastMinute_within_bounds : lastMinute.InTime ∧ ∃ n k result,
    lastMinute.turn n = .going k ∧
    Round.Ran ⟨3000, 120000, 1, 1000, 30000, 0⟩ 0 (lastMinute.diary (n + 1)) (lastMinute.time n)
      result ∧
    (∀ m, n < m → lastMinute.turn m = .done result ∧
      lastMinute.diary m = lastMinute.diary (n + 1)) ∧
    (lastMinute.diary (n + 1)).countP (·.2.isAsked) ≤ 2 ∧
    (∀ x ∈ lastMinute.diary (n + 1), x.1 ≤ lastMinute.time n) ∧
    (result = .error .timeout →
      k.Stuck (lastMinute.found n).clock (lastMinute.found n).providers) ∧
    ∀ v, result = .ok v → Gave 0 Actors.perform v :=
  ⟨lastMinute_inTime, Round.round_within_bounds rfl lastMinute_inTime⟩

/-- The answer counts although it comes when the time for a call is over. -/
example : Example.lastMinute.diary 6 = [(0, .asked), (500, .refused (.other "down")),
    (1500, .asked), (3000, .answered 7)] := by rfl

end ChainHerald
