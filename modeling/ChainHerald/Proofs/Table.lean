import ChainHerald.Ledger
import ChainHerald.Pool
import Mathlib.Data.List.Basic

/-!
# Lookups in tables

A table is known by its lookups: `mem_entries` ties an entry to the lookup that finds it, each
operation is one equation about lookups, and `Table.ext` says that nothing else tells two tables
apart.
-/

namespace ChainHerald

theorem compareOn_eq {α β : Type} [Ord β] [Std.LawfulEqOrd β] {f : α → β} {a b : α} :
    compareOn f a b = .eq ↔ f a = f b := by
  simp [compareOn]

theorem Position.compare_eq {a b : Position} : compare a b = .eq ↔ a = b := by
  cases a; cases b
  simp [compare, compareOn_eq]

theorem Key.compare_eq {a b : Key} : compare a b = .eq ↔ a = b := by
  cases a; cases b
  simp [compare, compareOn_eq]

instance : Std.LawfulEqOrd Position where
  compare_self := Position.compare_eq.2 rfl
  eq_of_compare := Position.compare_eq.1

instance : Std.LawfulEqOrd Key where
  compare_self := Key.compare_eq.2 rfl
  eq_of_compare := Key.compare_eq.1

theorem Marker.compare_eq {a b : Marker} : compare a b = .eq ↔ a = b := by
  cases a; cases b
  simp [compare, compareOn_eq]

instance : Std.LawfulEqOrd Marker where
  compare_self := Marker.compare_eq.2 rfl
  eq_of_compare := Marker.compare_eq.1

namespace Table

variable {κ α : Type} [Ord κ] {t s : Table κ α} {k j : κ} {a : α}

@[simp]
theorem get?_empty : (empty : Table κ α).get? k = none := rfl

theorem mem_of_get? [Std.LawfulEqOrd κ] (h : t.get? k = some a) : (k, a) ∈ t.entries := by
  obtain ⟨e, he, rfl⟩ := Option.map_eq_some_iff.1 h
  have hk := List.find?_some he
  obtain rfl : k = e.1 := by simpa using hk
  exact List.mem_of_find?_eq_some he

theorem keys_ascending (t : Table κ α) : t.keys.Pairwise (compare · · = .lt) :=
  List.pairwise_map.2 t.ascending

variable [Std.TransOrd κ]

theorem not_lt_of_lt (h : compare j k = .lt) : compare k j ≠ .lt := by
  rw [Std.OrientedCmp.gt_of_lt h]
  decide

theorem nodup_of_ascending {es : List (κ × α)}
    (asc : es.Pairwise fun x y => compare x.1 y.1 = .lt) : es.Nodup := by
  refine asc.imp fun {x y} lt => ?_
  rintro rfl
  exact not_lt_of_lt lt lt

/-- Both lists ascend, so the lesser head of the two would be missing in the other. -/
theorem eq_of_ascending {es fs : List (κ × α)}
    (he : es.Pairwise fun x y => compare x.1 y.1 = .lt)
    (hf : fs.Pairwise fun x y => compare x.1 y.1 = .lt)
    (same : ∀ e, e ∈ es ↔ e ∈ fs) : es = fs := by
  refine List.Perm.eq_of_pairwise (fun x y _ _ h h' => absurd h' (not_lt_of_lt h)) he hf ?_
  exact (List.perm_ext_iff_of_nodup (nodup_of_ascending he) (nodup_of_ascending hf)).2 same

theorem nodup_entries (t : Table κ α) : t.entries.Nodup :=
  nodup_of_ascending t.ascending

variable [Std.LawfulEqOrd κ]

omit [Std.TransOrd κ] in
theorem nodup_keys (t : Table κ α) : t.keys.Nodup := by
  refine List.pairwise_map.2 (t.ascending.imp fun {x y} lt => ?_)
  intro same
  simp [same] at lt

theorem find_of_mem {es : List (κ × α)} (asc : es.Pairwise fun x y => compare x.1 y.1 = .lt)
    (h : (k, a) ∈ es) : es.find? (fun e => compare k e.1 == .eq) = some (k, a) := by
  induction es with
  | nil => cases h
  | cons d rest ih =>
    obtain ⟨below, asc⟩ := List.pairwise_cons.1 asc
    rcases List.mem_cons.1 h with rfl | h
    · simp
    · have gt : compare k d.1 = .gt := Std.OrientedCmp.gt_iff_lt.2 (below _ h)
      rw [List.find?_cons_of_neg (by simp [gt])]
      exact ih asc h

theorem mem_entries : (k, a) ∈ t.entries ↔ t.get? k = some a := by
  constructor
  · intro h
    simp [get?, find_of_mem t.ascending h]
  · exact mem_of_get?

theorem mem_values : a ∈ t.values ↔ ∃ k, t.get? k = some a := by
  simp [values, ← mem_entries]

theorem mem_keys : k ∈ t.keys ↔ t.contains k = true := by
  simp [keys, contains, Option.isSome_iff_exists, ← mem_entries]

/-- Tables with the same lookups are equal. -/
theorem ext (h : ∀ k, t.get? k = s.get? k) : t = s := by
  obtain ⟨es, he⟩ := t
  obtain ⟨fs, hf⟩ := s
  have same : es = fs := by
    refine eq_of_ascending he hf fun ⟨k, a⟩ => ?_
    have mem_es : (k, a) ∈ es ↔ _ := mem_entries (t := ⟨es, he⟩)
    have mem_fs : (k, a) ∈ fs ↔ _ := mem_entries (t := ⟨fs, hf⟩)
    rw [mem_es, mem_fs, h k]
  subst same
  rfl

theorem mem_place_iff {es : List (κ × α)} (asc : es.Pairwise fun x y => compare x.1 y.1 = .lt)
    {e : κ × α} : e ∈ place k a es ↔ e = (k, a) ∨ e ∈ es ∧ e.1 ≠ k := by
  induction es with
  | nil => simp [place]
  | cons d rest ih =>
    obtain ⟨below, asc⟩ := List.pairwise_cons.1 asc
    have ne_of_lt {x y : κ} (h : compare x y = .lt) : x ≠ y := by
      rintro rfl
      simp at h
    simp only [place]
    split
    next lt =>
      have far : ∀ e ∈ d :: rest, e.1 ≠ k := by
        intro e he
        rcases List.mem_cons.1 he with rfl | he
        · exact (ne_of_lt lt).symm
        · exact (ne_of_lt (Std.TransCmp.lt_trans lt (below e he))).symm
      grind
    next eq =>
      obtain rfl := Std.LawfulEqOrd.eq_of_compare eq
      have far : ∀ e ∈ rest, e.1 ≠ d.1 := by
        intro e he
        exact (ne_of_lt (below e he)).symm
      grind
    next gt =>
      have far : d.1 ≠ k := ne_of_lt (Std.OrientedCmp.gt_iff_lt.1 gt)
      have others := ih asc
      grind

@[simp]
theorem get?_insert_self : (t.insert k a).get? k = some a := by
  rw [← mem_entries]
  exact (mem_place_iff t.ascending).2 (.inl rfl)

theorem get?_insert_of_ne (h : j ≠ k) : (t.insert k a).get? j = t.get? j := by
  ext b
  rw [← mem_entries, ← mem_entries]
  exact (mem_place_iff t.ascending).trans (by simp [h])

/-- Inserting what is there already changes nothing. -/
theorem insert_of_get? (h : t.get? k = some a) : t.insert k a = t := by
  refine ext fun j => ?_
  by_cases here : j = k
  · rw [here, get?_insert_self, h]
  · exact get?_insert_of_ne here

theorem get?_filter {p : κ → α → Bool} : (t.filter p).get? k = (t.get? k).filter (p k) := by
  ext b
  rw [← mem_entries, Option.filter_eq_some_iff, ← mem_entries]
  simp [filter]

@[simp]
theorem get?_erase_self : (t.erase k).get? k = none := by
  simp [erase, get?_filter]

theorem get?_erase_of_ne (h : j ≠ k) : (t.erase k).get? j = t.get? j := by
  have ne : (compare k j != .eq) = true := by
    apply bne_iff_ne.2
    intro same
    exact h (Std.LawfulEqOrd.eq_of_compare same).symm
  rw [erase, get?_filter, ne]
  cases t.get? j <;> rfl

theorem get?_foldl_insert {es : List (κ × α)} (distinct : (es.map (·.1)).Nodup) :
    (es.foldl (fun t e => t.insert e.1 e.2) t).get? k = some a ↔
      (k, a) ∈ es ∨ t.get? k = some a ∧ k ∉ es.map (·.1) := by
  induction es generalizing t with
  | nil => simp
  | cons e rest ih =>
    obtain ⟨new, distinct⟩ := List.nodup_cons.1 distinct
    rw [List.foldl_cons, ih distinct, List.mem_cons, List.map_cons, List.mem_cons]
    by_cases here : k = e.1
    · subst here
      have alone : (e.1, a) ∉ rest := fun mem => new (List.mem_map.2 ⟨_, mem, rfl⟩)
      rw [get?_insert_self]
      grind
    · rw [get?_insert_of_ne here]
      grind

theorem get?_ofList {es : List (κ × α)} (distinct : (es.map (·.1)).Nodup) :
    (ofList es).get? k = some a ↔ (k, a) ∈ es := by
  simp [ofList, get?_foldl_insert distinct]

theorem ofList_perm {es : List (κ × α)} (distinct : (es.map (·.1)).Nodup) :
    (ofList es).entries.Perm es := by
  have nodup : es.Nodup := (List.pairwise_map.1 distinct).imp fun ne same => ne (congrArg _ same)
  refine (List.perm_ext_iff_of_nodup (nodup_entries _) nodup).2 ?_
  intro e
  exact mem_entries.trans (get?_ofList distinct)

/-! ## Which keys there are -/

/-- Keys ascend, so only which ones there are matters. -/
theorem keys_eq {β : Type} {u : Table κ β} (same : ∀ k, k ∈ t.keys ↔ k ∈ u.keys) :
    t.keys = u.keys := by
  refine List.Perm.eq_of_pairwise (fun j k _ _ h h' => absurd h' (not_lt_of_lt h))
    t.keys_ascending u.keys_ascending ?_
  exact (List.perm_ext_iff_of_nodup t.nodup_keys u.nodup_keys).2 same

theorem isEmpty_iff : t.isEmpty = true ↔ ∀ k, t.get? k = none := by
  constructor
  · intro empty k
    have entries : t.entries = [] := by simpa [isEmpty] using empty
    simp [get?, entries]
  · intro nothing
    cases entries : t.entries with
    | nil => simp [isEmpty, entries]
    | cons e rest =>
      have first : t.get? e.1 = some e.2 := mem_entries.1 (by simp [entries])
      simp [nothing] at first

theorem exists_key (some : t.isEmpty = false) : ∃ k, t.contains k = true := by
  by_contra none
  have nothing : ∀ k, t.get? k = Option.none := by
    simpa [contains] using none
  simp [isEmpty_iff.2 nothing] at some

theorem eq_empty (h : t.isEmpty = true) : t = empty :=
  ext fun k => isEmpty_iff.1 h k

/-! ## One entry and the others -/

theorem mem_erase {e : κ × α} : e ∈ (t.erase k).entries ↔ e ∈ t.entries ∧ e.1 ≠ k := by
  by_cases he : e.1 = k
  · subst he
    simp [mem_entries (k := e.1)]
  · rw [mem_entries (k := e.1), mem_entries (k := e.1), get?_erase_of_ne he]
    simp [he]

theorem cons_erase_nodup (t : Table κ α) (k : κ) (a : α) :
    ((k, a) :: (t.erase k).entries).Nodup := by
  refine List.nodup_cons.2 ⟨?_, nodup_entries _⟩
  intro h
  exact (mem_erase.1 h).2 rfl

theorem insert_perm (t : Table κ α) (k : κ) (a : α) :
    (t.insert k a).entries.Perm ((k, a) :: (t.erase k).entries) := by
  apply (List.perm_ext_iff_of_nodup (nodup_entries _) (cons_erase_nodup t k a)).2
  intro e
  rw [List.mem_cons, mem_erase]
  exact mem_place_iff t.ascending

theorem erase_perm (h : t.get? k = some a) : t.entries.Perm ((k, a) :: (t.erase k).entries) := by
  apply (List.perm_ext_iff_of_nodup (nodup_entries _) (cons_erase_nodup t k a)).2
  intro e
  rw [List.mem_cons, mem_erase]
  constructor
  · intro he
    by_cases hk : e.1 = k
    · subst hk
      exact .inl (Prod.ext rfl (Option.some.inj ((mem_entries.1 he).symm.trans h)))
    · exact .inr ⟨he, hk⟩
  · rintro (rfl | he)
    · exact mem_entries.2 h
    · exact he.1

/-- No key is beyond that of the last entry. -/
theorem le_last (h : t.get? k = some a) :
    ∃ e, t.last? = some e ∧ (k = e.1 ∨ compare k e.1 = .lt) := by
  have mem := mem_entries.2 h
  obtain ⟨front, e, he⟩ := (List.eq_nil_or_concat' t.entries).resolve_left (List.ne_nil_of_mem mem)
  refine ⟨e, by simp [last?, he], ?_⟩
  have before := (List.pairwise_append.1 (he ▸ t.ascending)).2.2
  rcases List.mem_append.1 (he ▸ mem) with front_mem | last_mem
  · exact .inr (before _ front_mem e (by simp))
  · exact .inl (congrArg Prod.fst (List.mem_singleton.1 last_mem))

end Table

end ChainHerald
