import ChainHerald.Proofs.Awaited
import ChainHerald.Proofs.Standing
import ChainHerald.Proofs.Table
import ChainHerald.Provider.Nodes
import Mathlib.Tactic.ByContra

/-!
# The course of a subscription

A subscription is followed from the call that asks for it on, moment by moment. By each moment
others may have done anything to the providers, and the caller may have given up its `recv`. The
call itself ends as long as time goes on (`Course.call_ends`): no round outlives its deadline, and a
sweep has no more rounds than providers.
-/

namespace ChainHerald

open Fleet (Op Try)

/-- Who carries subscriptions stays as it is, whatever the providers are asked. -/
class Fleet.Settled (ν : Type) [Fleet ν] : Prop where
  begin {α : Type} (p : Nat) (op : Op ν α) (clock : Clock) (f : ν) :
    Fleet.pubsub (Fleet.begin p op clock f).2 = Fleet.pubsub f
  step {α : Type} {t : Try ν α} {clock : Clock} {f f' : ν}
    {turn : Turn (Try ν α) (Except RpcFault α)} (step : Fleet.step t clock f = some (turn, f')) :
    Fleet.pubsub f' = Fleet.pubsub f

/-- And so it does whoever reads or leaves a channel. -/
class Carrier.Settled (ν ι : Type) [Fleet ν] [Carrier ν ι] : Prop extends Fleet.Settled ν where
  setRings (rs : Rings ι) (f : ν) : Fleet.pubsub (Carrier.setRings rs f) = Fleet.pubsub f

/-- What has come to pass by a moment. The caller is idle when it has no `recv` under way; one that
was under way it has given up. -/
structure Moment (ν : Type) [Fleet ν] where
  clock : Clock
  others : ν → ν
  same : ∀ f, Fleet.pubsub (others f) = Fleet.pubsub f
  idle : Bool

/-- The call for a subscription is under way, or has been answered. -/
inductive Subscriber (ν ι : Type) [Fleet ν] where
  | opening (sweep : Sweeping ν (Tap ι))
  | on (w : Standing ν ι)
  | refused (e : ProviderError)

structure Course (ν ι : Type) [Fleet ν] where
  policy : Policy
  op : Op ν (Tap ι)
  fleet : ν
  moments : Nat → Moment ν

variable {ν ι : Type} [Fleet ν] {α : Type}

/-! ## Rounds and sweeps, move by move -/

namespace Round

variable {k k' : Round ν α} {clock : Clock} {r r' : Providers ν}

theorem step_deadline (step : k.step clock r = some (.going k', r')) :
    k'.deadline = k.deadline := by
  cases step_moves step <;> rfl

theorem step_policy {turn : Turn (Round ν α) (Except ProviderError α)}
    (step : k.step clock r = some (turn, r')) : r'.policy = r.policy := by
  cases step_moves step <;> rfl

/-- Past its deadline a round does not wait. -/
theorem step_ne_none (past : k.deadline ≤ clock.now) : k.step clock r ≠ none := by
  unfold Round.step expire
  simp only [past, if_true]
  split
  · split <;> simp
  · split
    · simp
    · simp
    · simp
    · split <;> simp

end Round

namespace Sweeping

variable {s : Sweeping ν α} {clock : Clock} {r : Providers ν}

/-- What a move of a sweep can be. Between two rounds there may be a notice. -/
inductive Moves (clock : Clock) (r : Providers ν) :
    Sweeping ν α → Turn (Sweeping ν α) (Except ProviderError (α × Nat)) × Providers ν → Prop where
  | nobody (e : ProviderError) : Moves clock r (.idle e) (.done (.error e), r)
  | trying {w : Sweep ν α} {k : Round ν α} {r' : Providers ν}
      (step : w.round.step clock r = some (.going k, r')) :
      Moves clock r (.active w) (.going (.active { w with round := k }), r')
  | gave {w : Sweep ν α} {a : α} {r' : Providers ν}
      (step : w.round.step clock r = some (.done (.ok a), r')) :
      Moves clock r (.active w) (.done (.ok (a, w.round.provider)), r')
  | next {w : Sweep ν α} {e : ProviderError} {p : Nat} {rest : List Nat} {r' r₁ : Providers ν}
      (step : w.round.step clock r = some (.done (.error e), r')) (left : w.rest = p :: rest)
      (same : r₁.fleet = r'.fleet) (policy : r₁.policy = r'.policy) :
      Moves clock r (.active w) (.going (.active ⟨(Round.start p w.round.op clock r₁).1, rest⟩),
        (Round.start p w.round.op clock r₁).2)
  | spent {w : Sweep ν α} {e : ProviderError} {r' r₁ : Providers ν}
      (step : w.round.step clock r = some (.done (.error e), r')) (left : w.rest = [])
      (same : r₁.fleet = r'.fleet) (policy : r₁.policy = r'.policy) :
      Moves clock r (.active w) (.done (.error e), r₁)

theorem step_moves {o : Turn (Sweeping ν α) (Except ProviderError (α × Nat)) × Providers ν}
    (step : s.step clock r = some o) : s.Moves clock r o := by
  cases s with
  | idle e =>
    cases step
    exact .nobody e
  | active w =>
    simp only [Sweeping.step] at step
    split at step
    · cases step
    · rename_i going
      cases step
      exact .trying going
    · rename_i gave
      cases step
      exact .gave gave
    · rename_i e r' refused
      generalize told : (if w.round.provider = 0 then r'
        else r'.notice (.fallbackFailed w.round.provider e)) = r₁ at step
      have same : r₁.fleet = r'.fleet ∧ r₁.policy = r'.policy := by
        subst told
        split <;> exact ⟨rfl, rfl⟩
      split at step
      · rename_i left
        cases step
        exact .spent refused left same.1 same.2
      · rename_i p rest left
        cases step
        exact .next refused left same.1 same.2

theorem step_policy {turn : Turn (Sweeping ν α) (Except ProviderError (α × Nat))}
    {r' : Providers ν} (step : s.step clock r = some (turn, r')) : r'.policy = r.policy := by
  cases step_moves step with
  | nobody => rfl
  | trying going => exact Round.step_policy going
  | gave gave => exact Round.step_policy gave
  | next refused _ _ policy => exact policy.trans (Round.step_policy refused)
  | spent refused _ _ policy => exact policy.trans (Round.step_policy refused)

/-- A sweep waits only if its round does. -/
theorem step_eq_none {w : Sweep ν α} (waits : (Sweeping.active w).step clock r = none) :
    w.round.step clock r = none := by
  simp only [Sweeping.step] at waits
  split at waits
  · assumption
  · cases waits
  · cases waits
  · split at waits <;> cases waits

end Sweeping

/-! ## Candidates -/

namespace Providers

variable {r : Providers ν} {pubsub : Bool} {index p : Nat}

theorem mem_everyone :
    p ∈ r.everyone pubsub ↔ p ≤ r.policy.fallbacks ∧ r.eligible pubsub p = true := by
  rw [everyone, List.mem_filter, List.mem_range, Nat.lt_succ_iff]

theorem mem_fallbacksFrom : p ∈ r.fallbacksFrom pubsub index ↔
    index < p ∧ p ≤ r.policy.fallbacks ∧ r.eligible pubsub p = true := by
  simp only [fallbacksFrom, List.mem_filter, List.mem_map, List.mem_drop_iff_getElem,
    List.getElem_range, List.length_range]
  constructor
  · rintro ⟨⟨_, ⟨i, within, rfl⟩, rfl⟩, eligible⟩
    exact ⟨by omega, by omega, eligible⟩
  · rintro ⟨above, within, eligible⟩
    exact ⟨⟨p - 1, ⟨p - 1 - index, by omega, by omega⟩, by omega⟩, eligible⟩

/-- Providers are tried in their order. -/
theorem everyone_ascending (r : Providers ν) (pubsub : Bool) :
    (r.everyone pubsub).Pairwise (· < ·) :=
  List.pairwise_lt_range.filter _

theorem fallbacksFrom_ascending (r : Providers ν) (pubsub : Bool) (index : Nat) :
    (r.fallbacksFrom pubsub index).Pairwise (· < ·) := by
  refine List.Pairwise.filter _ (List.pairwise_map.2 ?_)
  refine List.pairwise_lt_range.drop.imp ?_
  intro a b below
  omega

end Providers

/-- A switch goes over the fallbacks beyond the floor. -/
theorem Subscription.startSwitch_fst (s : Subscription ν ι) (e : ProviderError) (clock : Clock)
    (r : Providers ν) : (s.startSwitch e clock r).1 =
      .switching (Sweep.start s.op (r.fallbacksFrom true s.floor) e clock r).1 := by
  unfold startSwitch floor
  cases s.fallback <;> rfl

/-- A switch does not leave out anybody after the provider that opened the stream. -/
theorem Standing.Sound.floor_le {w : Standing ν ι} {op : Op ν (Tap ι)} (h : w.Sound op) :
    w.subscription.floor ≤ w.home := by
  by_cases known : w.Known
  · exact Nat.le_of_eq (floor_eq (h.index known))
  · have unmoved : w.moves = 0 := Nat.eq_zero_of_not_pos fun moved => known (.inr moved)
    simp [Subscription.floor, h.first unmoved]

/-- The round that is under way. -/
def Recv.round? : Recv ν ι → Option (Round ν (Tap ι))
  | .returning round _ => some round
  | .switching (.active w) => some w.round
  | _ => none

/-! ## Who carries subscriptions -/

section Settled

variable [Fleet.Settled ν]

theorem Round.pubsub_start (p : Nat) (op : Op ν α) (clock : Clock) (r : Providers ν) :
    Fleet.pubsub (Round.start p op clock r).2.fleet = Fleet.pubsub r.fleet :=
  Fleet.Settled.begin p op clock r.fleet

theorem Round.pubsub_step {k : Round ν α} {clock : Clock} {r r' : Providers ν}
    {turn : Turn (Round ν α) (Except ProviderError α)}
    (step : k.step clock r = some (turn, r')) : Fleet.pubsub r'.fleet = Fleet.pubsub r.fleet := by
  cases step_moves step with
  | asks => exact Fleet.Settled.begin _ _ _ _
  | trying _ moved => exact Fleet.Settled.step moved
  | answered _ gave => exact Fleet.Settled.step gave
  | spent _ failed => exact Fleet.Settled.step failed
  | refused _ failed => exact Fleet.Settled.step failed
  | expired => rfl

theorem Sweep.pubsub_start (op : Op ν α) (candidates : List Nat) (e : ProviderError)
    (clock : Clock) (r : Providers ν) :
    Fleet.pubsub (Sweep.start op candidates e clock r).2.fleet = Fleet.pubsub r.fleet := by
  cases candidates with
  | nil => rfl
  | cons p rest => exact Round.pubsub_start p op clock r

theorem Sweeping.pubsub_step {s : Sweeping ν α} {clock : Clock} {r r' : Providers ν}
    {turn : Turn (Sweeping ν α) (Except ProviderError (α × Nat))}
    (step : s.step clock r = some (turn, r')) : Fleet.pubsub r'.fleet = Fleet.pubsub r.fleet := by
  cases step_moves step with
  | nobody => rfl
  | trying going => exact Round.pubsub_step going
  | gave gave => exact Round.pubsub_step gave
  | next refused _ same => rw [Round.pubsub_start, same, Round.pubsub_step refused]
  | spent refused _ same => rw [same, Round.pubsub_step refused]

end Settled

section Carried

variable [Carrier ν ι] [Carrier.Settled ν ι]

theorem Subscription.pubsub_drop (s : Subscription ν ι) (r : Providers ν) :
    Fleet.pubsub (s.drop r).fleet = Fleet.pubsub r.fleet := by
  unfold drop
  split
  · rfl
  · exact Carrier.Settled.setRings _ _

theorem Subscription.pubsub_step {s s' : Subscription ν ι} {recv : Recv ν ι} {clock : Clock}
    {r r' : Providers ν} {turn : Turn (Recv ν ι) (Except ProviderError ι)}
    (step : s.step recv clock r = some (turn, s', r')) :
    Fleet.pubsub r'.fleet = Fleet.pubsub r.fleet := by
  cases step_goes step with
  | notDue | armed | off | item | lagged => rfl
  | due => exact Round.pubsub_start _ _ _ _
  | trying going => exact Round.pubsub_step going
  | returned back => exact (pubsub_drop _ _).trans (Round.pubsub_step back)
  | refused error =>
    have same := Round.pubsub_step error
    exact same
  | refusedQuiet error =>
    have same := Round.pubsub_step error
    exact (Sweep.pubsub_start _ _ _ _ _).trans same
  | worn | closed | quiet => exact Sweep.pubsub_start _ _ _ _ _
  | quietDue _ _ _ _ _ told => exact told ▸ Round.pubsub_start _ _ _ _
  | sweeping going => exact Sweeping.pubsub_step going
  | switched done => exact (pubsub_drop _ _).trans (Sweeping.pubsub_step done)
  | lost error => exact (pubsub_drop _ _).trans (Sweeping.pubsub_step error)

theorem Standing.pubsub_step {w w' : Standing ν ι} {clock : Clock} {r r' : Providers ν}
    (step : w.step clock r = some (w', r')) : Fleet.pubsub r'.fleet = Fleet.pubsub r.fleet := by
  obtain ⟨⟨turn, s, r''⟩, moved, eq⟩ := Option.map_eq_some_iff.1 step
  obtain ⟨-, rfl⟩ := Prod.mk.inj eq
  exact Subscription.pubsub_step moved

end Carried

instance : Fleet.Settled Nodes := ⟨fun _ _ _ _ => rfl, fun _ => rfl⟩

instance : Carrier.Settled Nodes Log := ⟨fun _ _ => rfl⟩

instance : Carrier.Settled Nodes Head := ⟨fun _ _ => rfl⟩

namespace Actors

variable {ι : Type} {α : Type} {p : Nat} {a : Actors ι}

/-- An actor that plays on can be subscribed to as before. -/
theorem pubsub_insert {rings : Rings ι} {attempts : List (Nat × Nat)} {actor actor' : Actor ι}
    (here : a.cast.get? p = some actor) (same : actor'.pubsub = actor.pubsub) :
    pubsub ⟨a.cast.insert p actor', a.capacity, rings, attempts⟩ = pubsub a := by
  funext q
  by_cases eq : q = p
  · subst eq
    simp only [pubsub, Table.get?_insert_self, here, Option.map_some, same]
  · simp only [pubsub, Table.get?_insert_of_ne eq]

theorem pubsub_begin (q : Nat) (op : Op ι α) (clock : Clock) (a : Actors ι) :
    pubsub (begin q op clock a).2 = pubsub a := by
  unfold begin
  cases here : a.cast.get? q with
  | none => rfl
  | some actor => exact pubsub_insert here rfl

theorem pubsub_closeRing (a : Actors ι) (q : Nat) : pubsub (a.closeRing q) = pubsub a := by
  unfold closeRing
  split
  · rename_i here
    exact pubsub_insert here rfl
  · rfl

theorem pubsub_openRing (a : Actors ι) (q : Nat) : pubsub (a.openRing q).2 = pubsub a := by
  refine Eq.trans ?_ (pubsub_closeRing a q)
  unfold openRing
  simp only
  split
  · rfl
  · rename_i here
    exact pubsub_insert here rfl

theorem pubsub_finish (t : Try ι α) (a : Actors ι) : pubsub (finish t a).2 = pubsub a := by
  obtain ⟨op, q, cue, started⟩ := t
  cases op with
  | perform => cases cue with
    | none => rfl
    | some cue => cases cue <;> rfl
  | subscribe => cases cue with
    | none => exact pubsub_openRing a q
    | some cue => cases cue with
      | succeed => exact pubsub_openRing a q
      | fail => rfl
      | hang => rfl

theorem pubsub_setScript (a : Actors ι) (q : Nat) (script : List (Cue ι)) :
    pubsub (a.setScript q script) = pubsub a := by
  unfold setScript
  split
  · rfl
  · rename_i here
    exact pubsub_insert here rfl

theorem pubsub_send (a : Actors ι) (q : Nat) (items : List ι) :
    pubsub (a.send q items).2 = pubsub a := by
  induction items generalizing a with
  | nil => rfl
  | cons i rest ih =>
    unfold send
    split
    · exact ih a
    · exact ih _

instance : Fleet.Settled (Actors ι) where
  begin := pubsub_begin
  step := by
    intro α t clock a a' turn step
    change Actors.step t clock a = some (turn, a') at step
    unfold Actors.step at step
    split at step
    · cases step
      exact pubsub_finish t a
    · cases step

instance : Carrier.Settled (Actors ι) ι := ⟨fun _ _ => rfl⟩

end Actors

/-! ## Moments -/

namespace Subscriber

variable [Carrier ν ι]

/-- The move of a subscriber, unless it has to wait or makes none. -/
def move (op : Op ν (Tap ι)) (m : Moment ν) (r : Providers ν) :
    Subscriber ν ι → Option (Subscriber ν ι × Providers ν)
  | .opening s => (s.step m.clock r).map fun
    | (.going s, r) => (.opening s, r)
    | (.done (.ok (t, p)), r) => (.on ⟨.new op t, .starting, p, 0⟩, r)
    | (.done (.error e), r) => (.refused e, r)
  | .on w => if m.idle then none else (w.step m.clock r).map fun (w, r) => (.on w, r)
  | .refused _ => none

def round? : Subscriber ν ι → Option (Round ν (Tap ι))
  | .opening (.active w) => some w.round
  | .on w => w.recv.round?
  | _ => none

/-- What is left when there is no move. -/
def rest (m : Moment ν) : Subscriber ν ι → Subscriber ν ι
  | .on w => if m.idle then .on { w with recv := .starting } else .on w
  | subscriber => subscriber

end Subscriber

namespace Course

variable [Carrier ν ι]

/-- The subscriber and the providers before the moment. -/
def state (c : Course ν ι) : Nat → Subscriber ν ι × ν
  | 0 =>
    let (sweep, r) := Sweep.failover c.op true (c.moments 0).clock ⟨c.fleet, c.policy, []⟩
    (.opening sweep, r.fleet)
  | n + 1 =>
    let (subscriber, fleet) := c.state n
    let r : Providers ν := ⟨(c.moments n).others fleet, c.policy, []⟩
    match subscriber.move c.op (c.moments n) r with
    | none => (subscriber.rest (c.moments n), r.fleet)
    | some (subscriber, r) => (subscriber, r.fleet)

def subscriber (c : Course ν ι) (n : Nat) : Subscriber ν ι := (c.state n).1

def clock (c : Course ν ι) (n : Nat) : Clock := (c.moments n).clock

/-- The providers as the subscriber finds them. -/
def found (c : Course ν ι) (n : Nat) : Providers ν :=
  ⟨(c.moments n).others (c.state n).2, c.policy, []⟩

/-- Time goes on without end, but moves take none of it. -/
structure Unhurried (c : Course ν ι) : Prop where
  forward : ∀ n, (c.clock n).now ≤ (c.clock (n + 1)).now
  instant : ∀ n, (c.subscriber n).move c.op (c.moments n) (c.found n) ≠ none →
    (c.clock (n + 1)).now = (c.clock n).now
  endless : ∀ time, ∃ n, time ≤ (c.clock n).now

variable {c : Course ν ι} {n m : Nat} {s : Sweeping ν (Tap ι)} {w : Standing ν ι}

theorem subscriber_zero : c.subscriber 0 =
    .opening (Sweep.failover c.op true (c.clock 0) ⟨c.fleet, c.policy, []⟩).1 := rfl

theorem state_of_waits (waits : (c.subscriber n).move c.op (c.moments n) (c.found n) = none) :
    c.state (n + 1) = ((c.subscriber n).rest (c.moments n), (c.found n).fleet) := by
  simp only [subscriber, found] at waits ⊢
  simp only [state, waits]

theorem state_of_moves {k : Subscriber ν ι} {r : Providers ν}
    (moves : (c.subscriber n).move c.op (c.moments n) (c.found n) = some (k, r)) :
    c.state (n + 1) = (k, r.fleet) := by
  simp only [subscriber, found] at moves
  simp only [state, moves]

theorem state_of_idle (here : c.subscriber n = .on w) (idle : (c.moments n).idle = true) :
    c.state (n + 1) = (.on { w with recv := .starting }, (c.found n).fleet) := by
  have waits : (c.subscriber n).move c.op (c.moments n) (c.found n) = none := by
    simp only [here, Subscriber.move, idle, if_true]
  rw [state_of_waits waits, here]
  simp only [Subscriber.rest, idle, if_true]

/-- What becomes of the call is what becomes of its sweep. -/
inductive Calls (c : Course ν ι) (n : Nat) (s : Sweeping ν (Tap ι)) : Subscriber ν ι → Prop where
  | waits (waits : s.step (c.clock n) (c.found n) = none) : Calls c n s (.opening s)
  | going {s' : Sweeping ν (Tap ι)} {r : Providers ν}
      (step : s.step (c.clock n) (c.found n) = some (.going s', r)) : Calls c n s (.opening s')
  | opened {t : Tap ι} {p : Nat} {r : Providers ν}
      (step : s.step (c.clock n) (c.found n) = some (.done (.ok (t, p)), r)) :
      Calls c n s (.on ⟨.new c.op t, .starting, p, 0⟩)
  | refused {e : ProviderError} {r : Providers ν}
      (step : s.step (c.clock n) (c.found n) = some (.done (.error e), r)) :
      Calls c n s (.refused e)

theorem subscriber_of_opening (here : c.subscriber n = .opening s) :
    c.Calls n s (c.subscriber (n + 1)) := by
  have move : (c.subscriber n).move c.op (c.moments n) (c.found n) =
      (s.step (c.clock n) (c.found n)).map fun
        | (.going s, r) => (.opening s, r)
        | (.done (.ok (t, p)), r) => (.on ⟨.new c.op t, .starting, p, 0⟩, r)
        | (.done (.error e), r) => (.refused e, r) := by
    rw [here]
    rfl
  cases step : s.step (c.clock n) (c.found n) with
  | none =>
    rw [step] at move
    have rests : c.subscriber (n + 1) = .opening s := by
      rw [subscriber, state_of_waits move, here]
      rfl
    exact rests ▸ .waits step
  | some o =>
    rw [step] at move
    have moved := congrArg Prod.fst (state_of_moves move)
    change c.subscriber (n + 1) = _ at moved
    rw [moved]
    obtain ⟨s' | (e | ⟨t, p⟩), r⟩ := o
    · exact .going step
    · exact .refused step
    · exact .opened step

/-- Once it is open, a subscription waits, goes on, or has its `recv` given up. -/
inductive Listens (c : Course ν ι) (n : Nat) (w : Standing ν ι) : Standing ν ι → Prop where
  | idle (idle : (c.moments n).idle = true) : Listens c n w { w with recv := .starting }
  | waits (awake : (c.moments n).idle = false) (waits : w.step (c.clock n) (c.found n) = none) :
      Listens c n w w
  | moved {w' : Standing ν ι} {r : Providers ν} (awake : (c.moments n).idle = false)
      (step : w.step (c.clock n) (c.found n) = some (w', r)) : Listens c n w w'

theorem subscriber_of_on (here : c.subscriber n = .on w) :
    ∃ w', c.subscriber (n + 1) = .on w' ∧ c.Listens n w w' := by
  cases idle : (c.moments n).idle with
  | true => exact ⟨_, congrArg Prod.fst (state_of_idle here idle), .idle idle⟩
  | false =>
    have move : (c.subscriber n).move c.op (c.moments n) (c.found n) =
        (w.step (c.clock n) (c.found n)).map fun (w, r) => (.on w, r) := by
      simp only [here, Subscriber.move, idle, Bool.false_eq_true, if_false, clock]
    cases step : w.step (c.clock n) (c.found n) with
    | none =>
      rw [step] at move
      refine ⟨w, ?_, .waits idle step⟩
      rw [subscriber, state_of_waits move, here]
      simp only [Subscriber.rest, idle, Bool.false_eq_true, if_false]
    | some o =>
      rw [step] at move
      exact ⟨o.1, congrArg Prod.fst (state_of_moves move), .moved idle step⟩

theorem subscriber_of_refused {e : ProviderError} (here : c.subscriber n = .refused e) :
    c.subscriber (n + 1) = .refused e := by
  have waits : (c.subscriber n).move c.op (c.moments n) (c.found n) = none := by
    rw [here]
    rfl
  rw [subscriber, state_of_waits waits, here]
  rfl

/-- A subscription that is open stays so, with a stream or without. -/
theorem on_since (on : c.subscriber n = .on w) (later : n ≤ m) : ∃ w', c.subscriber m = .on w' := by
  induction later with
  | refl => exact ⟨w, on⟩
  | step _ ih =>
    obtain ⟨v, here⟩ := ih
    obtain ⟨w', after, -⟩ := subscriber_of_on here
    exact ⟨w', after⟩

/-- A course that takes no time until there are no more `recv`s, and then goes on. -/
theorem Unhurried.of_idle (on : c.subscriber m = .on w)
    (idle : ∀ n, m ≤ n → (c.moments n).idle = true) (time : ∀ n, (c.clock n).now = n - m) :
    c.Unhurried where
  forward n := by
    rw [time, time]
    omega
  instant n moves := by
    have early : n < m := by
      by_contra late
      have late : m ≤ n := Nat.le_of_not_lt late
      obtain ⟨w', here⟩ := on_since on late
      refine moves ?_
      simp only [here, Subscriber.move, idle n late, if_true]
    rw [time, time]
    omega
  endless t := ⟨t + m, Nat.le_of_eq (by rw [time, Nat.add_sub_cancel])⟩

/-- Whatever the course, the subscription is where one can get to. -/
theorem reached (n : Nat) :
    (∀ s, c.subscriber n = .opening s → ∃ r : Providers ν, r.policy = c.policy ∧
      (Sweep.failover c.op true (c.clock 0) r).1.Came s) ∧
    ∀ w, c.subscriber n = .on w → w.Reached c.policy c.op := by
  induction n with
  | zero =>
    refine ⟨?_, nofun⟩
    intro s here
    rw [subscriber_zero] at here
    cases here
    exact ⟨_, rfl, .here⟩
  | succ n ih =>
    obtain ⟨calls, on⟩ := ih
    cases before : c.subscriber n with
    | opening s =>
      obtain ⟨r, same, came⟩ := calls s before
      have next := subscriber_of_opening before
      generalize c.subscriber (n + 1) = k at next
      cases next with
      | waits =>
        refine ⟨?_, nofun⟩
        rintro _ ⟨⟩
        exact ⟨r, same, came⟩
      | going step =>
        refine ⟨?_, nofun⟩
        rintro _ ⟨⟩
        exact ⟨r, same, came.going step⟩
      | opened step =>
        refine ⟨nofun, ?_⟩
        rintro _ ⟨⟩
        exact .opened same came step
      | refused => exact ⟨nofun, nofun⟩
    | on w =>
      obtain ⟨w', after, listens⟩ := subscriber_of_on before
      rw [after]
      refine ⟨nofun, ?_⟩
      rintro _ ⟨⟩
      cases listens with
      | idle => exact (on w before).restarted
      | waits => exact on w before
      | moved _ step => exact (on w before).moved rfl step
    | refused e =>
      rw [subscriber_of_refused before]
      exact ⟨nofun, nofun⟩

theorem pubsub_move [Carrier.Settled ν ι] {k : Subscriber ν ι} {r : Providers ν}
    (moves : (c.subscriber n).move c.op (c.moments n) (c.found n) = some (k, r)) :
    Fleet.pubsub r.fleet = Fleet.pubsub (c.found n).fleet := by
  cases here : c.subscriber n with
  | opening s =>
    rw [here] at moves
    obtain ⟨⟨turn, r'⟩, step, eq⟩ := Option.map_eq_some_iff.1 moves
    have same := Sweeping.pubsub_step step
    obtain s' | (e | ⟨t, p⟩) := turn <;> cases eq <;> exact same
  | on w =>
    rw [here] at moves
    simp only [Subscriber.move] at moves
    split at moves
    · cases moves
    · obtain ⟨⟨w', r'⟩, step, eq⟩ := Option.map_eq_some_iff.1 moves
      cases eq
      exact Standing.pubsub_step step
  | refused e =>
    rw [here] at moves
    cases moves

/-- The same providers carry subscriptions all along. -/
theorem pubsub_found [Carrier.Settled ν ι] (c : Course ν ι) (n : Nat) :
    Fleet.pubsub (c.found n).fleet = Fleet.pubsub c.fleet := by
  refine ((c.moments n).same _).trans ?_
  induction n with
  | zero => exact Sweep.pubsub_start _ _ _ _ _
  | succ n ih =>
    have found : Fleet.pubsub (c.found n).fleet = Fleet.pubsub c.fleet :=
      ((c.moments n).same _).trans ih
    cases moves : (c.subscriber n).move c.op (c.moments n) (c.found n) with
    | none => rwa [state_of_waits moves]
    | some o => rwa [state_of_moves (k := o.1) (r := o.2) moves, pubsub_move moves]

theorem sound (here : c.subscriber n = .on w) : w.Sound c.op := ((c.reached n).2 w here).sound

/-! ## The call ends -/

/-- Past its deadline a round moves, and moves take no time: it cannot go on for ever. -/
theorem Unhurried.round_ends (u : c.Unhurried) {w : Sweep ν (Tap ι)}
    (here : c.subscriber n = .opening (.active w)) : ∃ m k a r,
      c.subscriber m = .opening (.active ⟨k, w.rest⟩) ∧
      k.step (c.clock m) (c.found m) = some (.done a, r) := by
  by_contra never
  have stays : ∀ m, n ≤ m → ∃ k, c.subscriber m = .opening (.active ⟨k, w.rest⟩) ∧
      k.deadline = w.round.deadline := by
    intro m later
    induction later with
    | refl => exact ⟨w.round, here, rfl⟩
    | @step m _ ih =>
      obtain ⟨k, now, same⟩ := ih
      have unended : ∀ a r, k.step (c.clock m) (c.found m) ≠ some (.done a, r) := by
        intro a r done
        exact never ⟨m, k, a, r, now, done⟩
      have next := subscriber_of_opening now
      generalize c.subscriber (m + 1) = after at next ⊢
      cases next with
      | waits => exact ⟨k, rfl, same⟩
      | going step =>
        cases Sweeping.step_moves step with
        | trying going => exact ⟨_, rfl, (Round.step_deadline going).trans same⟩
        | next refused => exact absurd refused (unended _ _)
      | opened step =>
        cases Sweeping.step_moves step with
        | gave gave => exact absurd gave (unended _ _)
      | refused step =>
        cases Sweeping.step_moves step with
        | spent refused => exact absurd refused (unended _ _)
  have still : ∀ m, n ≤ m → w.round.deadline ≤ (c.clock m).now →
      (c.clock (m + 1)).now = (c.clock m).now := by
    intro m later due
    obtain ⟨k, now, same⟩ := stays m later
    refine u.instant m ?_
    rw [now]
    intro waits
    have waits := Sweeping.step_eq_none (Option.map_eq_none_iff.1 waits)
    exact Round.step_ne_none (same ▸ due) waits
  exact not_frozen u.forward u.endless still

theorem Unhurried.sweep_ends (u : c.Unhurried) {w : Sweep ν (Tap ι)}
    (here : c.subscriber n = .opening (.active w)) : ∃ m, ∀ s, c.subscriber m ≠ .opening s := by
  generalize size : w.rest.length = rounds
  induction rounds using Nat.strongRecOn generalizing n w with
  | ind rounds ih =>
    obtain ⟨m, k, a, r, now, done⟩ := u.round_ends here
    have next := subscriber_of_opening now
    generalize same : c.subscriber (m + 1) = after at next
    cases next with
    | waits waits => simp [Sweeping.step_eq_none waits] at done
    | going step =>
      cases Sweeping.step_moves step with
      | trying going => simp [going] at done
      | @next _ e p rest r' r₁ _ left =>
        have fewer : rest.length < rounds := by
          have left : w.rest = p :: rest := left
          simp only [left, List.length_cons] at size
          omega
        exact ih rest.length fewer same rfl
    | opened | refused => exact ⟨m + 1, fun s => by simp [same]⟩

/-- As long as time goes on, a call for a subscription is answered. -/
theorem Unhurried.call_ends (u : c.Unhurried) : ∃ n, ∀ s, c.subscriber n ≠ .opening s := by
  cases here : c.subscriber 0 with
  | opening s =>
    cases s with
    | active w => exact u.sweep_ends here
    | idle e =>
      refine ⟨1, ?_⟩
      have next := subscriber_of_opening here
      generalize c.subscriber (0 + 1) = after at next
      cases next with
      | waits waits => cases waits
      | going step => cases step
      | opened | refused => exact fun s => nofun
  | on | refused => exact ⟨0, fun s => by simp [here]⟩

end Course

end ChainHerald
