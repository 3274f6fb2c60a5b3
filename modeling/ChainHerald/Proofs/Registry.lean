import ChainHerald.Herald
import ChainHerald.Proofs.Table
import Mathlib.Data.List.Induction

/-!
# What changes make of a registry

`Registry.after` is the registry that a sequence of changes leaves. Whoever is live in it was added
and not removed since (`live_enrolled`), and nobody live waits for more confirmations than the
depth (`confirmations_le_depth`). Ids may come again here: a registration with a known id takes the
place of the other, and the tally of depths then counts too many but never too few.
-/

namespace ChainHerald

namespace Tally

variable {κ : Type} [Ord κ] {t : Tally κ} {k j : κ}

theorem count_of_get? {n : Nat} (h : Table.get? t k = some n) : t.count k = n := by
  rw [count, h, Option.getD_some]

theorem count_of_get?_none (h : Table.get? t k = none) : t.count k = 0 := by
  rw [count, h, Option.getD_none]

variable [Std.TransOrd κ] [Std.LawfulEqOrd κ]

theorem count_up_self : (t.up k).count k = t.count k + 1 :=
  count_of_get? Table.get?_insert_self

theorem count_up_of_ne (h : j ≠ k) : (t.up k).count j = t.count j := by
  simp [up, count, Table.get?_insert_of_ne h]

theorem count_down_self : (t.down k).count k = t.count k - 1 := by
  unfold down
  split
  next h => rw [count_of_get?_none Table.get?_erase_self, h]
  next h => rw [count_of_get?_none Table.get?_erase_self, h]
  next n h =>
    rw [count_of_get? Table.get?_insert_self, h]
    rfl

theorem count_down_of_ne (h : j ≠ k) : (t.down k).count j = t.count j := by
  unfold down
  split
  · simp [count, Table.get?_erase_of_ne h]
  · simp [count, Table.get?_erase_of_ne h]
  · simp [count, Table.get?_insert_of_ne h]

end Tally

namespace Registry

def change (r : Registry) : Change → Registry
  | .add g => (r.add g).2
  | .remove id => (r.remove id).2

/-- The registry that the changes leave. -/
def after (cs : List Change) : Registry := cs.foldl change empty

theorem after_concat (cs : List Change) (c : Change) : after (cs ++ [c]) = (after cs).change c := by
  simp [after]

/-- Added and not removed since. -/
def Enrolled (cs : List Change) (g : Registration) : Prop :=
  ∃ earlier later, cs = earlier ++ .add g :: later ∧ .remove g.id ∉ later

theorem Enrolled.concat {cs : List Change} {g : Registration} (h : Enrolled cs g) {c : Change}
    (hc : c ≠ .remove g.id) : Enrolled (cs ++ [c]) g := by
  obtain ⟨earlier, later, rfl, hl⟩ := h
  exact ⟨earlier, later ++ [c], by simp, by simp [hl, hc.symm]⟩

variable {r : Registry} {g : Registration} {id : Nat} {cs : List Change}

theorem live_add : (r.change (.add g)).live = r.live.insert g.id g := rfl

theorem live_remove : (r.change (.remove id)).live = r.live.erase id := by
  simp only [change, remove]
  split
  next h =>
    refine Table.ext fun j => ?_
    by_cases hj : j = id
    · rw [hj, h, Table.get?_erase_self]
    · rw [Table.get?_erase_of_ne hj]
  · rfl

theorem get?_live (h : (after cs).live.get? id = some g) : g.id = id ∧ Enrolled cs g := by
  induction cs using List.reverseRecOn generalizing id with
  | nil => cases h
  | append_singleton cs c ih =>
    rw [after_concat] at h
    cases c with
    | add a =>
      rw [live_add] at h
      by_cases ha : id = a.id
      · rw [ha, Table.get?_insert_self] at h
        obtain rfl := Option.some.inj h
        exact ⟨ha.symm, cs, [], rfl, List.not_mem_nil⟩
      · rw [Table.get?_insert_of_ne ha] at h
        exact ⟨(ih h).1, (ih h).2.concat (by simp)⟩
    | remove i =>
      rw [live_remove] at h
      by_cases hi : id = i
      · rw [hi, Table.get?_erase_self] at h
        cases h
      · rw [Table.get?_erase_of_ne hi] at h
        obtain ⟨rfl, enrolled⟩ := ih h
        exact ⟨rfl, enrolled.concat fun e => hi (by cases e; rfl)⟩

theorem live_enrolled (h : g ∈ (after cs).live.values) : Enrolled cs g := by
  obtain ⟨id, hg⟩ := Table.mem_values.1 h
  exact (get?_live hg).2

/-- Nobody else takes its number, and nobody removes it. -/
theorem get?_live_added {earlier later : List Change} (kept : .remove g.id ∉ later)
    (own : ∀ a, .add a ∈ later → a.id ≠ g.id) :
    (after (earlier ++ .add g :: later)).live.get? g.id = some g := by
  induction later using List.reverseRecOn with
  | nil =>
    rw [after_concat, live_add]
    exact Table.get?_insert_self
  | append_singleton later c ih =>
    have before := ih (fun mem => kept (List.mem_append_left _ mem))
      fun a mem => own a (List.mem_append_left _ mem)
    rw [← List.cons_append, ← List.append_assoc, after_concat]
    cases c with
    | add a =>
      have other : g.id ≠ a.id := (own a (by simp)).symm
      rw [live_add, Table.get?_insert_of_ne other]
      exact before
    | remove id =>
      have other : g.id ≠ id := by
        rintro rfl
        exact kept (by simp)
      rw [live_remove, Table.get?_erase_of_ne other]
      exact before

/-! ## Nothing but registrations -/

variable {gs : List Registration}

theorem get?_live_adds (ids : (gs.map (·.id)).Nodup) (mem : g ∈ gs) :
    (after (gs.map .add)).live.get? g.id = some g := by
  induction gs using List.reverseRecOn with
  | nil => cases mem
  | append_singleton gs a ih =>
    rw [List.map_append, List.nodup_append] at ids
    rw [List.map_append, List.map_singleton, after_concat, live_add]
    rcases List.mem_append.1 mem with mem | mem
    · have ne : g.id ≠ a.id := ids.2.2 g.id (List.mem_map_of_mem mem) a.id (by simp)
      rw [Table.get?_insert_of_ne ne]
      exact ih ids.1 mem
    · obtain rfl := List.mem_singleton.1 mem
      exact Table.get?_insert_self

theorem mem_live_adds (ids : (gs.map (·.id)).Nodup) :
    g ∈ (after (gs.map .add)).live.values ↔ g ∈ gs := by
  constructor
  · intro live
    obtain ⟨earlier, later, split, -⟩ := live_enrolled live
    have added : Change.add g ∈ gs.map .add := by simp [split]
    obtain ⟨a, mem, eq⟩ := List.mem_map.1 added
    cases eq
    exact mem
  · intro mem
    exact Table.mem_values.2 ⟨g.id, get?_live_adds ids mem⟩

theorem covers_adds (mem : g ∈ gs) :
    (after (gs.map .add)).covers g.options.contract = true := by
  induction gs using List.reverseRecOn with
  | nil => cases mem
  | append_singleton gs a ih =>
    rw [List.map_append, List.map_singleton, after_concat]
    simp only [covers, Table.contains, change, add]
    by_cases same : g.options.contract = a.options.contract
    · simp [same]
    · rw [Table.get?_insert_of_ne same]
      rcases List.mem_append.1 mem with mem | mem
      · exact ih mem
      · exact absurd (by rw [List.mem_singleton.1 mem]) same

/-! ## The deepest requirement -/

def requires (n : Nat) (g : Registration) : Bool := g.options.confirmations == n

/-- How many live registrations require just so many confirmations. -/
def demand (r : Registry) (n : Nat) : Nat := r.live.values.countP (requires n)

def Counted (r : Registry) : Prop := ∀ n, r.demand n ≤ r.depths.count n

variable {p : Registration → Bool}

theorem countP_values_insert (t : Table Nat Registration) (g : Registration) :
    (t.insert g.id g).values.countP p = (t.erase g.id).values.countP p + if p g then 1 else 0 := by
  have perm := (Table.insert_perm t g.id g).map (·.2)
  exact (perm.countP_eq _).trans (List.countP_cons ..)

theorem countP_values_erase {t : Table Nat Registration} (h : t.get? id = some g) :
    t.values.countP p = (t.erase id).values.countP p + if p g then 1 else 0 := by
  have perm := (Table.erase_perm h).map (·.2)
  exact (perm.countP_eq _).trans (List.countP_cons ..)

theorem countP_values_erase_le (t : Table Nat Registration) (id : Nat) :
    (t.erase id).values.countP p ≤ t.values.countP p :=
  (List.filter_sublist.map _).countP_le

theorem Counted.add (h : r.Counted) (g : Registration) : (r.add g).2.Counted := by
  intro n
  have before := h n
  have replaced := countP_values_erase_le (p := requires n) r.live g.id
  simp only [demand, Registry.add] at before ⊢
  rw [countP_values_insert]
  by_cases hn : n = g.options.confirmations
  · subst hn
    rw [Tally.count_up_self]
    simp only [requires, beq_self_eq_true, if_true] at before replaced ⊢
    omega
  · rw [Tally.count_up_of_ne hn]
    have other : requires n g = false := by simpa [requires] using Ne.symm hn
    simp only [other, Bool.false_eq_true, if_false] at before replaced ⊢
    omega

theorem Counted.remove (h : r.Counted) (id : Nat) : (r.remove id).2.Counted := by
  unfold Registry.remove
  split
  · exact h
  next g hg =>
    intro n
    have before := h n
    simp only [demand] at before ⊢
    rw [countP_values_erase hg] at before
    by_cases hn : n = g.options.confirmations
    · subst hn
      rw [Tally.count_down_self]
      simp only [requires, beq_self_eq_true, if_true] at before ⊢
      omega
    · rw [Tally.count_down_of_ne hn]
      have other : requires n g = false := by simpa [requires] using Ne.symm hn
      simpa [other] using before

theorem counted_after (cs : List Change) : (after cs).Counted := by
  induction cs using List.reverseRecOn with
  | nil => exact fun n => Nat.zero_le _
  | append_singleton cs c ih =>
    rw [after_concat]
    cases c with
    | add g => exact ih.add g
    | remove id => exact ih.remove id

theorem Counted.confirmations_le_depth (h : r.Counted) (hg : g ∈ r.live.values) :
    g.options.confirmations ≤ r.depth := by
  have wanted : 0 < r.demand g.options.confirmations :=
    List.countP_pos_iff.2 ⟨g, hg, by simp [requires]⟩
  have counted := h g.options.confirmations
  obtain ⟨n, hn⟩ : ∃ n, r.depths.get? g.options.confirmations = some n := by
    cases hd : r.depths.get? g.options.confirmations with
    | some n => exact ⟨n, rfl⟩
    | none =>
      rw [Tally.count_of_get?_none hd] at counted
      omega
  obtain ⟨e, he, le⟩ := Table.le_last hn
  simp only [depth, he, Option.map_some, Option.getD_some]
  rcases le with le | le
  · exact Nat.le_of_eq le
  · exact Nat.le_of_lt (Nat.compare_eq_lt.1 le)

theorem confirmations_le_depth (h : g ∈ (after cs).live.values) :
    g.options.confirmations ≤ (after cs).depth :=
  (counted_after cs).confirmations_le_depth h

end Registry

end ChainHerald
