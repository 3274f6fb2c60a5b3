import ChainHerald.Proofs.Table

/-!
# The ledger as a set of markers

A lookup, a range and a mark, each said of the markers that are there.
-/

namespace ChainHerald

namespace Members

variable {κ : Type} [Ord κ] [Std.TransOrd κ] [Std.LawfulEqOrd κ] {s : Members κ} {k j : κ}

theorem mem_add : j ∈ (s.add k).keys ↔ j = k ∨ j ∈ s.keys := by
  simp only [Table.mem_keys, Table.contains, add]
  by_cases h : j = k
  · simp [h]
  · simp [Table.get?_insert_of_ne h, h]

theorem mem_foldl_add {ks : List κ} : j ∈ (ks.foldl add s).keys ↔ j ∈ ks ∨ j ∈ s.keys := by
  induction ks generalizing s with
  | nil => simp
  | cons k ks ih =>
    rw [List.foldl_cons, ih, mem_add, List.mem_cons]
    tauto

theorem mem_ofList {ks : List κ} : j ∈ (ofList ks).keys ↔ j ∈ ks :=
  mem_foldl_add.trans (or_iff_left List.not_mem_nil)

end Members

namespace Ledger

variable {g : Ledger} {k : Key} {m : Marker} {block lo hi : Nat}

theorem holds_iff : g.holds k = true ↔ ∃ m ∈ g.markers.keys, m.key = k := by
  simp [holds]

theorem contains_within : (g.within lo hi).contains k = true ↔
    ∃ m ∈ g.markers.keys, m.key = k ∧ lo ≤ m.block ∧ m.block ≤ hi := by
  rw [← Table.mem_keys, within, Members.mem_ofList]
  simp only [List.mem_map, List.mem_filter, decide_eq_true_eq]
  constructor
  · rintro ⟨m, ⟨hm, range⟩, key⟩
    exact ⟨m, hm, key, range⟩
  · rintro ⟨m, hm, key, range⟩
    exact ⟨m, ⟨hm, range⟩, key⟩

theorem mem_put : m ∈ (g.put k block).markers.keys ↔ m = ⟨block, k⟩ ∨ m ∈ g.markers.keys :=
  Members.mem_add

theorem find_eq_ok {consumed : Members Key} (h : (g.find lo hi).1 = .ok consumed) :
    consumed = g.within lo hi := by
  unfold find at h
  split at h
  · exact (Except.ok.inj h).symm
  · cases h

end Ledger

end ChainHerald
