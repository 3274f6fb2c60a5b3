import ChainHerald.Proofs.Rounds

/-!
# Providers in turn

A sweep visits its candidates in their order. Each visit is one round, which begins when the one
before has failed, and the first answer is the last thing that happens. A sweep in virtual time
comes to its end (`candidates_in_turn`) after at most the time for a call with each provider that
was visited.
-/

namespace ChainHerald

open Fleet (Op Try)

variable {ν : Type} [Fleet ν] {α : Type}

/-- One provider's round, with what came to pass in it. -/
structure Visit (α : Type) where
  provider : Nat
  diary : List (Nat × Incident RpcFault α)
  result : Except ProviderError α

/-- Incidents with this provider. -/
def tagged (p : Nat) (diary : List (Nat × Incident RpcFault α)) :
    List (Nat × Nat × Incident RpcFault α) :=
  diary.map fun x => (x.1, p, x.2)

def Visit.told (visits : List (Visit α)) : List (Nat × Nat × Incident RpcFault α) :=
  visits.flatMap fun v => tagged v.provider v.diary

/-- Visits one after the other, each of them a round, from a time to a time. -/
inductive Visits (policy : Policy) (start : Nat) : List (Visit α) → Nat → Prop where
  | none : Visits policy start [] start
  | next {visits : List (Visit α)} {began ended : Nat} {v : Visit α}
      (before : Visits policy start visits began)
      (ran : Round.Ran policy began v.diary ended v.result) :
      Visits policy start (visits ++ [v]) ended

section

variable {policy : Policy} {start ended p : Nat} {visits : List (Visit α)}
  {own more : List (Nat × Incident RpcFault α)}

theorem tagged_append : tagged p (own ++ more) = tagged p own ++ tagged p more := List.map_append

theorem told_concat (result : Except ProviderError α) :
    Visit.told (visits ++ [⟨p, own ++ more, result⟩]) =
      Visit.told visits ++ tagged p own ++ tagged p more := by
  simp [Visit.told, tagged_append]

/-- A visit takes at most the time for a call. -/
theorem Visits.ended_le (h : Visits policy start visits ended) :
    ended ≤ start + visits.length * policy.callTimeout := by
  induction h with
  | none => exact Nat.le_add_right _ _
  | next before ran ih =>
    have kept := ran.time_le
    rw [List.length_append, List.length_singleton, Nat.succ_mul]
    omega

end

/-- What the visits come to. An error is the one of the last visit; without any it is the last
error from before. -/
inductive Outcome (op : Op ν α) (candidates : List Nat) (lastError : ProviderError) :
    List (Visit α) → Except ProviderError (α × Nat) → Prop where
  | found (failed : List (Visit α)) (last : Visit α) (a : α)
      (order : (failed ++ [last]).map Visit.provider <+: candidates)
      (fails : ∀ v ∈ failed, ∃ e, v.result = .error e) (answer : last.result = .ok a)
      (gave : Gave last.provider op a) :
      Outcome op candidates lastError (failed ++ [last]) (.ok (a, last.provider))
  | nobody (nobody : candidates = []) : Outcome op candidates lastError [] (.error lastError)
  | failed (failed : List (Visit α)) (last : Visit α) (e : ProviderError)
      (order : (failed ++ [last]).map Visit.provider = candidates)
      (fails : ∀ v ∈ failed, ∃ e, v.result = .error e) (error : last.result = .error e) :
      Outcome op candidates lastError (failed ++ [last]) (.error e)

/-- Who is to be tried: everyone, or the fallbacks from an index on, after an error. -/
inductive Reach where
  | everyone
  | fallbacks (lastError : ProviderError) (index : Nat)

namespace Reach

def candidates (reach : Reach) (pubsub : Bool) (r : Providers ν) : List Nat :=
  match reach with
  | everyone => r.everyone pubsub
  | fallbacks _ index => r.fallbacksFrom pubsub index

def lastError : Reach → ProviderError
  | everyone => .rpc .pubsubUnavailable
  | fallbacks e _ => e

def begin (reach : Reach) (op : Op ν α) (pubsub : Bool) (clock : Clock) (r : Providers ν) :
    Sweeping ν α × Providers ν :=
  match reach with
  | everyone => Sweep.failover op pubsub clock r
  | fallbacks e index => Sweep.fallbacks op pubsub e index clock r

/-- Providers in their order, each of them once. -/
theorem candidates_ascending (reach : Reach) (pubsub : Bool) (r : Providers ν) :
    (reach.candidates pubsub r).Pairwise (· < ·) := by
  cases reach with
  | everyone => exact r.everyone_ascending pubsub
  | fallbacks e index => exact r.fallbacksFrom_ascending pubsub index

/-- The primary is not among the fallbacks, and neither are those before the index. -/
def Includes (r : Providers ν) (pubsub : Bool) (reach : Reach) (p : Nat) : Prop :=
  p ≤ r.policy.fallbacks ∧ (pubsub = true → Fleet.pubsub r.fleet p = true) ∧
  match reach with
  | everyone => True
  | fallbacks _ index => index < p

theorem mem_candidates {reach : Reach} {pubsub : Bool} {r : Providers ν} {p : Nat} :
    p ∈ reach.candidates pubsub r ↔ reach.Includes r pubsub p := by
  have eligible : r.eligible pubsub p = true ↔
      (pubsub = true → Fleet.pubsub r.fleet p = true) := by
    cases pubsub <;> simp [Providers.eligible]
  cases reach with
  | everyone => simp only [candidates, Includes, Providers.mem_everyone, eligible, and_true]
  | fallbacks e index =>
    simp only [candidates, Includes, Providers.mem_fallbacksFrom, eligible]
    exact and_rotate

theorem begin_eq (reach : Reach) (op : Op ν α) (pubsub : Bool) (clock : Clock) (r : Providers ν) :
    reach.begin op pubsub clock r =
      Sweep.start op (reach.candidates pubsub r) reach.lastError clock r := by
  cases reach <;> rfl

end Reach

namespace Sweeping

/-- What comes to pass with the next move. When a round has failed, whoever is next is asked. -/
def incidents (s : Sweeping ν α) (clock : Clock) (r : Providers ν) :
    List (Nat × Incident RpcFault α) :=
  match s with
  | .idle _ => []
  | .active w =>
    (w.round.incidents clock r).map (w.round.provider, ·) ++
    match w.round.step clock r with
    | some (.done (.error _), _) => w.rest.head?.toList.map (·, .asked)
    | _ => []

instance : Awaitable (Sweeping ν α) (Scene ν) (Except ProviderError (α × Nat))
    (Nat × Incident RpcFault α) where
  step s w := (s.step w.clock w.providers).map fun (turn, providers) => (turn, { w with providers })
  wakes := wakes
  now w := w.clock.now
  incidents s w := s.incidents w.clock w.providers

/-- With the beginning of a sweep its first candidate is asked. -/
def opening : Sweeping ν α → List (Nat × Incident RpcFault α)
  | .idle _ => []
  | .active w => [(w.round.provider, .asked)]

def awaited (reach : Reach) (op : Op ν α) (pubsub : Bool) (w : Scene ν) (around : Surroundings ν) :
    Awaited (Sweeping ν α) where
  first := (reach.begin op pubsub w.clock w.providers).1
  opening := (reach.begin op pubsub w.clock w.providers).1.opening
  world := { w with providers := (reach.begin op pubsub w.clock w.providers).2 }
  others := around.pass

/-- How a sweep over these candidates stands that began at this time. -/
inductive Stands (policy : Policy) (start : Nat) (op : Op ν α) (candidates : List Nat)
    (lastError : ProviderError) :
    Sweeping ν α → List (Nat × Nat × Incident RpcFault α) → Nat → Prop where
  | idle (nobody : candidates = []) :
      Stands policy start op candidates lastError (.idle lastError) [] start
  | active {w : Sweep ν α} {began now p : Nat} {own : List (Nat × Incident RpcFault α)}
      (failed : List (Visit α)) (visits : Visits policy start failed began)
      (fails : ∀ v ∈ failed, ∃ e, v.result = .error e)
      (round : w.round.Underway policy began p op own now)
      (order : failed.map Visit.provider ++ p :: w.rest = candidates) :
      Stands policy start op candidates lastError (.active w)
        (Visit.told failed ++ tagged p own) now

variable {s s' : Sweeping ν α} {w : Sweep ν α} {policy : Policy} {start later p : Nat} {op : Op ν α}
  {candidates : List Nat} {lastError : ProviderError} {clock : Clock} {r r' : Providers ν}
  {diary : List (Nat × Nat × Incident RpcFault α)} {result : Except ProviderError (α × Nat)}

theorem stands_start (op : Op ν α) (candidates : List Nat) (lastError : ProviderError)
    (clock : Clock) (r : Providers ν) :
    (Sweep.start op candidates lastError clock r).1.Stands r.policy clock.now op candidates
      lastError ((Sweep.start op candidates lastError clock r).1.opening.map (clock.now, ·))
      clock.now := by
  cases candidates with
  | nil => exact .idle rfl
  | cons p rest =>
    exact .active (w := ⟨_, rest⟩) [] .none nofun (Round.underway_start p op clock r) rfl

/-- Unless the round fails, the incidents of a sweep are those of its round. -/
theorem incidents_active (unfailed : ∀ e r', w.round.step clock r ≠ some (.done (.error e), r')) :
    ((active w).incidents clock r).map (clock.now, ·) =
      tagged w.round.provider ((w.round.incidents clock r).map (clock.now, ·)) := by
  simp only [incidents, List.append_nil, tagged, List.map_map]
  rfl

theorem incidents_failed {e : ProviderError}
    (refused : w.round.step clock r = some (.done (.error e), r')) :
    ((active w).incidents clock r).map (clock.now, ·) =
      tagged w.round.provider ((w.round.incidents clock r).map (clock.now, ·)) ++
        w.rest.head?.toList.map (clock.now, ·, .asked) := by
  simp only [incidents, refused, tagged, List.map_append, List.map_map]
  rfl

namespace Stands

theorem waits (h : s.Stands policy start op candidates lastError diary clock.now)
    (waits : s.step clock r = none) (timely : ∀ w ∈ s.wakes, clock.now < w → later ≤ w) :
    s.Stands policy start op candidates lastError
      (diary ++ (s.incidents clock r).map (clock.now, ·)) later := by
  generalize eq : clock.now = now at h
  cases h with
  | idle => cases waits
  | @active w began now p own failed visits fails round order =>
    subst eq
    have waits := step_eq_none waits
    rw [incidents_active (by simp [waits]), round.asks.1, List.append_assoc, ← tagged_append]
    exact .active failed visits fails (round.waits waits timely) order

theorem going (h : s.Stands policy start op candidates lastError diary clock.now)
    (same : r.policy = policy) (step : s.step clock r = some (.going s', r')) :
    s'.Stands policy start op candidates lastError
      (diary ++ (s.incidents clock r).map (clock.now, ·)) clock.now := by
  generalize eq : clock.now = now at h
  cases h with
  | idle => cases step
  | @active w began now p own failed visits fails round order =>
    subst eq
    cases step_moves step with
    | trying going =>
      rw [incidents_active (by simp [going]), round.asks.1, List.append_assoc, ← tagged_append]
      exact .active failed visits fails (round.going going) order
    | @next _ e p' rest r' r₁ refused left kept policy' =>
      obtain ⟨ran, -⟩ := round.stands.done round.onTime refused
      have begun := Round.underway_start p' w.round.op clock r₁
      rw [policy', Round.step_policy refused, same, round.asks.2] at begun
      rw [incidents_failed refused, round.asks.1, round.asks.2, left, ← List.append_assoc,
        ← told_concat (.error e), List.head?_cons, Option.toList_some, List.map_singleton]
      have visits' := Visits.next (v := ⟨p, _, .error e⟩) visits ran
      refine .active (w := ⟨_, rest⟩) _ visits' ?_ begun ?_
      · intro v mem
        rcases List.mem_append.1 mem with before | now
        · exact fails v before
        · cases List.mem_singleton.1 now
          exact ⟨e, rfl⟩
      · rw [List.map_append, List.append_assoc, ← order, left]
        rfl

theorem done (h : s.Stands policy start op candidates lastError diary clock.now)
    (step : s.step clock r = some (.done result, r')) :
    ∃ visits, Visits policy start visits clock.now ∧
      diary ++ (s.incidents clock r).map (clock.now, ·) = Visit.told visits ∧
      Outcome op candidates lastError visits result := by
  generalize eq : clock.now = now at h
  cases h with
  | idle nobody =>
    cases step
    subst eq
    exact ⟨[], .none, rfl, .nobody nobody⟩
  | @active w began now p own failed visits fails round order =>
    subst eq
    cases step_moves step with
    | @gave _ a r' gave =>
      obtain ⟨ran, -⟩ := round.stands.done round.onTime gave
      rw [incidents_active (by simp [gave]), round.asks.1, ← told_concat (.ok a)]
      have visits' := Visits.next (v := ⟨p, _, .ok a⟩) visits ran
      refine ⟨_, visits', rfl, .found failed _ a ?_ fails rfl (round.gave gave)⟩
      rw [List.map_append, ← order]
      exact ⟨w.rest, List.append_assoc _ _ _⟩
    | @spent _ e r' r₁ refused left =>
      obtain ⟨ran, -⟩ := round.stands.done round.onTime refused
      rw [incidents_failed refused, round.asks.1, left, ← List.append_assoc,
        ← told_concat (.error e)]
      have visits' := Visits.next (v := ⟨p, _, .error e⟩) visits ran
      refine ⟨_, visits', List.append_nil _, .failed failed _ e ?_ fails rfl⟩
      rw [List.map_append, ← order, left]
      rfl

end Stands

/-! ## A sweep from its beginning to its end -/

variable {a : Awaited (Sweeping ν α)} {w : Scene ν} {around : Surroundings ν} {reach : Reach}
  {pubsub : Bool} {n : Nat}

theorem policy_found (begun : a = awaited reach op pubsub w around) (n : Nat) :
    (a.found n).providers.policy = w.providers.policy := by
  subst begun
  refine Awaited.found_of_moves
    (P := fun v : Scene ν => v.providers.policy = w.providers.policy) ?_ ?_ ?_ n
  · change (reach.begin op pubsub w.clock w.providers).2.policy = w.providers.policy
    rw [Reach.begin_eq]
    cases reach.candidates pubsub w.providers <;> rfl
  · intro n v same
    exact same
  · intro s v turn v' same moves
    obtain ⟨⟨turn, r⟩, step, eq⟩ := Option.map_eq_some_iff.1 moves
    cases eq
    exact (step_policy step).trans same

theorem stands (begun : a = awaited reach op pubsub w around) (u : a.InTime)
    (going : a.turn n = .going s) : s.Stands w.providers.policy w.clock.now op
      (reach.candidates pubsub w.providers) reach.lastError (a.diary n) (a.time n) := by
  have policy := policy_found begun
  subst begun
  refine u.while_going (P := fun s diary now => s.Stands w.providers.policy w.clock.now op
    (reach.candidates pubsub w.providers) reach.lastError diary now) ?_ ?_ ?_ going
  · have start := stands_start op (reach.candidates pubsub w.providers) reach.lastError w.clock
      w.providers
    rw [← Reach.begin_eq] at start
    exact start
  · intro n s later h waits timely
    exact h.waits (Option.map_eq_none_iff.1 waits) timely
  · intro n s s' v h move
    obtain ⟨⟨turn, r⟩, step, eq⟩ := Option.map_eq_some_iff.1 move
    cases eq
    exact h.going (policy n) step

/-- No round is left when each candidate has had the time for a call. -/
theorem Stands.moves (h : s.Stands policy start op candidates lastError diary clock.now)
    (past : start + candidates.length * policy.callTimeout ≤ clock.now) :
    s.step clock r ≠ none := by
  generalize eq : clock.now = now at h
  cases h with
  | idle => nofun
  | @active w began now p own failed visits fails round order =>
    intro waits
    refine Round.step_ne_none ?_ (step_eq_none waits)
    have ended := visits.ended_le
    have few : failed.length + 1 ≤ candidates.length := by
      rw [← order, List.length_append, List.length_map, List.length_cons]
      omega
    have room := Nat.mul_le_mul_right policy.callTimeout few
    rw [Nat.succ_mul] at room
    rw [round.stands.deadline]
    omega

/-- A sweep in virtual time comes to its end. It has visited the first of its candidates in their
order, one round each, and ends with the first answer, or else with the error of the last visit
after a visit to all of them; if nobody was there to be visited, with the error from before. It
takes at most the time for a call with each provider that was visited. -/
theorem candidates_in_turn (begun : a = awaited reach op pubsub w around) (u : a.InTime) :
    ∃ n result visits,
      (∀ m, n < m → a.turn m = .done result ∧ a.diary m = Visit.told visits) ∧
      Visits w.providers.policy w.clock.now visits (a.time n) ∧
      a.time n ≤ w.clock.now + visits.length * w.providers.policy.callTimeout ∧
      Outcome op (reach.candidates pubsub w.providers) reach.lastError visits result ∧
      (reach.candidates pubsub w.providers).Pairwise (· < ·) ∧
      (∀ p, p ∈ reach.candidates pubsub w.providers ↔ reach.Includes w.providers pubsub p) ∧
      ∀ v p e index, result = .ok (v, p) → reach = .fallbacks e index →
        ∃ i, p = i + 1 ∧ index ≤ i := by
  have moves (n : Nat) (s : Sweeping ν α) (going : a.turn n = .going s)
      (past : w.clock.now + (reach.candidates pubsub w.providers).length *
        w.providers.policy.callTimeout ≤ a.time n) : Awaitable.step s (a.found n) ≠ none := by
    intro waits
    exact (stands begun u going).moves past (Option.map_eq_none_iff.1 waits)
  obtain ⟨n, s, result, w', going, ends⟩ := u.ends moves
  have done := Awaited.turn_of_step going ends
  have diary := Awaited.diary_of_going going
  obtain ⟨⟨turn, r⟩, step, eq⟩ := Option.map_eq_some_iff.1 ends
  cases eq
  obtain ⟨visits, ran, told, outcome⟩ := (stands begun u going).done step
  refine ⟨n, result, visits, ?_, ran, ran.ended_le, outcome, reach.candidates_ascending _ _,
    fun p => Reach.mem_candidates, ?_⟩
  · intro m later
    obtain ⟨ended, same⟩ := Awaited.rests done later
    exact ⟨ended, same.trans (diary.trans told)⟩
  · rintro v p e index rfl rfl
    have mem : p ∈ (Reach.fallbacks e index).candidates pubsub w.providers := by
      cases outcome with
      | found failed last a order =>
        refine order.subset ?_
        rw [List.map_append]
        exact List.mem_append_right _ List.mem_cons_self
    have above := Providers.index_lt_of_mem mem
    exact ⟨p - 1, by omega, by omega⟩

end Sweeping

/-! ## A failure, a timeout and an answer -/

namespace Example

/-- The primary carries no subscriptions, the first fallback fails, the second does not answer, and
the third does. -/
def quartet : Scene (Actors Nat) :=
  ⟨⟨0, 0⟩, .new [⟨false, [], none⟩, ⟨true, [.fail (some "down") 500], none⟩, ⟨true, [.hang], none⟩,
    ⟨true, [.succeed 7 200], none⟩] 4, ⟨3000, 120000, 0, 1000, 30000, 3⟩, []⟩

def thirdTime : Awaited (Sweeping (Actors Nat) Nat) :=
  Sweeping.awaited .everyone Actors.perform true quartet
    ⟨fun n => ⟨moment n, moment n⟩, fun _ => id⟩
where
  /-- The failure, the deadline of the second fallback, and the answer. -/
  moment : Nat → Nat
    | 0 => 0
    | 1 | 2 => 500
    | 3 | 4 => 3500
    | n + 5 => 3700 + (n - 1)

theorem thirdTime_over : thirdTime.turn 6 = .done (.ok (7, 3)) := rfl

theorem thirdTime_inTime : thirdTime.InTime := by
  refine .of_done rfl thirdTime_over (by decide +kernel) ?_
  intro n late
  obtain ⟨k, rfl⟩ := Nat.exists_eq_add_of_le' late
  change 3700 + k < 3700 + (k + 1)
  omega

end Example

open Example in
/-- What `candidates_in_turn` says of the third fallback's answer. -/
theorem thirdTime_in_turn : thirdTime.InTime ∧ ∃ n result visits,
    (∀ m, n < m → thirdTime.turn m = .done result ∧ thirdTime.diary m = Visit.told visits) ∧
    Visits quartet.providers.policy 0 visits (thirdTime.time n) ∧
    thirdTime.time n ≤ 0 + visits.length * 3000 ∧
    Outcome Actors.perform [1, 2, 3] (.rpc .pubsubUnavailable) visits result ∧
    [1, 2, 3].Pairwise (· < ·) ∧
    (∀ p, p ∈ [1, 2, 3] ↔ Reach.everyone.Includes quartet.providers true p) ∧
    ∀ v p e index, result = .ok (v, p) → Reach.everyone = .fallbacks e index →
      ∃ i, p = i + 1 ∧ index ≤ i :=
  ⟨thirdTime_inTime, Sweeping.candidates_in_turn rfl thirdTime_inTime⟩

end ChainHerald
