import ChainHerald.Proofs.Pool
import Mathlib.Logic.Function.Basic

/-!
# The pool as a flat map

A pool keeps its logs by height. Whatever is done to it, it reads as the flat map from positions to
the log added there last: an operation does to the pool what it does to the map
(`get?_perform`), and the answers of a pool follow from its lookups (`Sized.reads`).
-/

namespace ChainHerald

/-- What can be done with a pool. -/
inductive Pool.Op
  | add (l : Log)
  | remove (l : Log)
  | takeAll
  | ready (block : Nat)
  | since (block : Nat)

/-- A flat map of logs. -/
abbrev Chart := Position → Option Log

namespace Chart

def perform (m : Chart) : Pool.Op → Chart
  | .add l => l.position?.elim m fun pos => Function.update m pos (some l)
  | .remove l => l.position?.elim m fun pos => Function.update m pos none
  | .takeAll => fun _ => none
  | .ready _ => m
  | .since block => fun pos => if block ≤ pos.block then m pos else none

/-- The chart of a history, from an empty one. -/
def after (ops : List Pool.Op) : Chart := ops.foldl perform fun _ => none

/-- All that the chart has where `here` holds, in chain order. -/
structure Lists (m : Chart) (here : Position → Prop) (es : List (Position × Log)) : Prop where
  ordered : es.Pairwise fun a b => compare a.1 b.1 = .lt
  mem : ∀ pos l, (pos, l) ∈ es ↔ m pos = some l ∧ here pos

end Chart

namespace Pool

variable {p : Pool} {l : Log} {pos : Position} {n : Nat}

def perform (p : Pool) : Op → Pool
  | .add l => (p.add l).2
  | .remove l => p.remove l
  | .takeAll => p.takeAll.2
  | .ready _ => p
  | .since block => p.since block

def after (ops : List Op) : Pool := ops.foldl perform empty

/-- Block numbers have an upper end. -/
def Op.Sized : Op → Prop
  | .add l => ∀ block, l.block = some block → block ≤ maxNumber
  | _ => True

/-- All that a pool tells is what the chart says. -/
structure Reads (p : Pool) (m : Chart) : Prop where
  lookup : ∀ pos, p.get? pos = m pos
  refused : ∀ l, (p.add l).1 = false ↔ l.block = none ∨ l.hash = none ∨ l.index = none
  unchanged : ∀ l, (p.add l).1 = false → (p.add l).2 = p
  ready : ∀ n, ∃ es, m.Lists (·.block ≤ n) es ∧
    p.ready? n = es.head?.map fun e => (es.map (·.2), e.1.block)
  none_ready : ∀ n, p.ready? n = none ↔ ∀ pos l, m pos = some l → n < pos.block
  takeAll : p.takeAll.1.map (fun (ls, lowest, _) => (ls, lowest)) = p.ready? maxNumber
  highest : ∀ ls lowest highest, p.takeAll.1 = some (ls, lowest, highest) →
    (∃ pos l, m pos = some l ∧ pos.block = highest) ∧
      ∀ pos l, m pos = some l → pos.block ≤ highest
  emptied : p.takeAll.2 = empty
  since : ∀ n pos l, (p.since n).get? pos = some l ↔ m pos = some l ∧ n ≤ pos.block
  size : ∃ es, m.Lists (fun _ => True) es ∧ p.size = es.length
  isEmpty : p.isEmpty = true ↔ p.size = 0

/-! ## Step by step -/

theorem get?_add : (p.add l).2.get? =
    l.position?.elim p.get? fun pos => Function.update p.get? pos (some l) := by
  funext q
  cases h : l.position? with
  | none => exact get?_add_of_ne (by simp [h])
  | some pos =>
    by_cases here : q = pos
    · subst here
      simp [get?_add_self h]
    · rw [get?_add_of_ne (by simpa [h] using Ne.symm here)]
      simp [Function.update_of_ne here]

theorem get?_remove : (p.remove l).get? =
    l.position?.elim p.get? fun pos => Function.update p.get? pos none := by
  funext q
  cases h : l.position? with
  | none => exact get?_remove_of_ne (by simp [h])
  | some pos =>
    by_cases here : q = pos
    · subst here
      simp [get?_remove_self h]
    · rw [get?_remove_of_ne (by simpa [h] using Ne.symm here)]
      simp [Function.update_of_ne here]

/-- One operation does the same to a pool and to its chart. -/
theorem get?_perform (op : Op) : (p.perform op).get? = Chart.perform p.get? op := by
  cases op with
  | add l => exact get?_add
  | remove l => exact get?_remove
  | takeAll => rfl
  | ready n => rfl
  | since n =>
    refine funext fun pos => Option.ext fun l => ?_
    simp only [perform, Chart.perform, get?_since_eq_some]
    split
    next above => simp [above]
    next below => simp [below]

theorem get?_run (ops : List Op) (p : Pool) :
    (ops.foldl perform p).get? = ops.foldl Chart.perform p.get? := by
  induction ops generalizing p with
  | nil => rfl
  | cons op rest ih => rw [List.foldl_cons, List.foldl_cons, ih, get?_perform]

/-! ## Blocks stay in range -/

/-- No log is beyond the last block number. -/
def Sized (p : Pool) : Prop := ∀ pos l, p.get? pos = some l → pos.block ≤ maxNumber

theorem Sized.perform {op : Op} (s : p.Sized) (h : op.Sized) : (p.perform op).Sized := by
  intro pos l held
  cases op with
  | add r =>
    by_cases here : r.position? = some pos
    · exact h _ (Log.block_of_position? here)
    · exact s pos l (get?_add_of_ne here ▸ held)
  | remove r =>
    by_cases here : r.position? = some pos
    · simp [Pool.perform, get?_remove_self here] at held
    · exact s pos l (get?_remove_of_ne here ▸ held)
  | takeAll => cases held
  | ready n => exact s pos l held
  | since n => exact s pos l (get?_since_eq_some.1 held).1

theorem Sized.run {ops : List Op} (s : p.Sized) (h : ∀ op ∈ ops, op.Sized) :
    (ops.foldl Pool.perform p).Sized := by
  induction ops generalizing p with
  | nil => exact s
  | cons op rest ih =>
    obtain ⟨first, others⟩ := List.forall_mem_cons.1 h
    exact ih (s.perform first) others

/-! ## What a pool answers -/

theorem add_refused : (p.add l).1 = false ↔ l.position? = none := by
  unfold add
  split <;> simp_all

theorem entries_list (p : Pool) : Chart.Lists p.get? (fun _ => True) p.entries :=
  ⟨p.ascending, fun _ _ => by simp [mem_entries]⟩

theorem entries_upTo_list (p : Pool) (n : Nat) :
    Chart.Lists p.get? (·.block ≤ n) (p.upTo n).entries :=
  ⟨ascending, fun _ _ => mem_entries.trans get?_upTo_eq_some⟩

theorem ready?_eq : p.ready? n =
    (p.upTo n).entries.head?.map fun e => ((p.upTo n).entries.map (·.2), e.1.block) := by
  simp [ready?, lowest?_eq_head, logs, Function.comp_def]

theorem ready?_eq_none_iff :
    p.ready? n = none ↔ ∀ pos l, p.get? pos = some l → n < pos.block := by
  rw [ready?, Option.map_eq_none_iff, lowest?_eq_none_iff]
  simp only [Option.eq_none_iff_forall_ne_some, ne_eq, get?_upTo_eq_some, not_and, Nat.not_le]

theorem Sized.upTo_eq (s : p.Sized) : p.upTo maxNumber = p := by
  refine ext fun pos => Option.ext fun l => ?_
  rw [get?_upTo_eq_some]
  exact and_iff_left_of_imp (s pos l)

theorem highest?_of_lowest? {lowest : Nat} (h : p.lowest? = some lowest) :
    ∃ highest, p.highest? = some highest := by
  rw [lowest?_eq_head] at h
  rw [highest?_eq_last]
  cases held : p.entries with
  | nil => simp [held] at h
  | cons e rest => simp [List.getLast?_cons]

theorem Sized.takeAll (s : p.Sized) :
    p.takeAll.1.map (fun (ls, lowest, _) => (ls, lowest)) = p.ready? maxNumber := by
  rw [ready?, s.upTo_eq, Pool.takeAll]
  cases low : p.lowest? with
  | none => rfl
  | some lowest =>
    obtain ⟨highest, high⟩ := highest?_of_lowest? low
    simp [high]

/-- Chain order ends with the highest block. -/
theorem le_highest? {highest : Nat} (h : p.highest? = some highest) :
    (∃ pos l, p.get? pos = some l ∧ pos.block = highest) ∧
      ∀ pos l, p.get? pos = some l → pos.block ≤ highest := by
  rw [highest?_eq_last] at h
  obtain ⟨⟨last, r⟩, ends, rfl⟩ := Option.map_eq_some_iff.1 h
  refine ⟨⟨last, r, mem_entries.1 (List.mem_of_getLast? ends), rfl⟩, fun pos l held => ?_⟩
  obtain ⟨front, split⟩ := List.getLast?_eq_some_iff.1 ends
  have before := (List.pairwise_append.1 (split ▸ p.ascending)).2.2
  rcases List.mem_append.1 (split ▸ mem_entries.2 held) with early | late
  · exact Position.block_le_of_lt (before _ early _ (by simp))
  · simp_all

theorem highest?_of_takeAll {ls : List Log} {lowest highest : Nat}
    (h : p.takeAll.1 = some (ls, lowest, highest)) : p.highest? = some highest := by
  unfold Pool.takeAll at h
  split at h <;> simp_all

theorem size_sorted (ls : Table Slot Log) : (sorted n ls).entries.length = ls.size := by
  rw [sorted, (Table.ofList_perm (positions_nodup n ls)).length_eq, List.length_map, Table.size]

theorem size_eq : p.size = p.entries.length := by
  unfold size entries Table.values
  induction p.heights.entries with
  | nil => rfl
  | cons e es ih => simpa [size_sorted] using ih

/-- No height is empty, so a pool without logs has no heights either. -/
theorem isEmpty_iff : p.isEmpty = true ↔ p.size = 0 := by
  have same : p.isEmpty = true ↔ p.lowest? = none := by
    simp [isEmpty, Table.isEmpty, lowest?, Table.first?]
  rw [same, size_eq, lowest?_eq_head]
  simp

theorem Sized.reads (s : p.Sized) : p.Reads p.get? where
  lookup _ := rfl
  refused l := add_refused.trans Log.position?_eq_none
  unchanged l h := by simp [add, add_refused.1 h]
  ready n := ⟨_, entries_upTo_list p n, ready?_eq⟩
  none_ready n := ready?_eq_none_iff
  takeAll := s.takeAll
  highest _ _ _ h := le_highest? (highest?_of_takeAll h)
  emptied := rfl
  since _ _ _ := get?_since_eq_some
  size := ⟨_, p.entries_list, size_eq⟩
  isEmpty := isEmpty_iff

/-- Whatever was done to it, a pool is the flat map of what was added last. -/
theorem reads_as_flat_map (ops : List Op) (sized : ∀ op ∈ ops, op.Sized) :
    (after ops).Reads (Chart.after ops) := by
  have start : empty.Sized := fun _ _ held => nomatch held
  have same : (after ops).get? = Chart.after ops := get?_run ops empty
  exact same ▸ (start.run sized).reads

namespace Example

def mined (block : Nat) (hash : Hash) (index : Nat) : Log :=
  ⟨0, [], [], some block, some hash, some index, false⟩

/-- Two blocks compete at height 7, a log comes twice, another one is pending, and the only one of
height 5 is removed again. -/
def rivalry : List Op :=
  [.add (mined 7 2 0), .add (mined 7 1 1), .add (mined 5 3 0), .add (mined 7 1 0),
    .add { mined 7 1 0 with data := [1] }, .add { mined 7 1 2 with hash := none },
    .ready 7, .remove (mined 5 3 0), .since 6]

end Example

theorem rivalry_flat : (∀ op ∈ Example.rivalry, op.Sized) ∧
    (after Example.rivalry).Reads (Chart.after Example.rivalry) := by
  have sized : ∀ op ∈ Example.rivalry, op.Sized := by
    simp [Example.rivalry, Example.mined, Op.Sized, maxNumber]
  exact ⟨sized, reads_as_flat_map _ sized⟩

open Example in
example : (after rivalry).ready? 7 =
    some ([{ mined 7 1 0 with data := [1] }, mined 7 2 0, mined 7 1 1], 7) := by decide +kernel

end Pool

end ChainHerald
