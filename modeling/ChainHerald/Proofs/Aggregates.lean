import ChainHerald.Proofs.Demand

/-!
# What a registry adds up to

As long as every registration has a number of its own and names some signature, the counts of a
registry are those of its live registrations, neither more nor less (`Exact`). So the registry is
determined by who is live (`Exact.ext`), and what adding and removing report is whether some pair of
contract and signature gains its first registration or loses its last.
-/

namespace ChainHerald

namespace Tally

variable {κ : Type} [Ord κ] {t s : Tally κ} {k : κ}

theorem Positive.get?_eq (p : t.Positive) :
    Table.get? t k = if t.count k = 0 then none else some (t.count k) := by
  cases held : Table.get? t k with
  | none => simp [count_of_get?_none held]
  | some n => simp [count_of_get? held, Nat.ne_of_gt (p k n held)]

/-- Without zeros, counting is all there is to a tally. -/
theorem Positive.ext [Std.TransOrd κ] [Std.LawfulEqOrd κ] (p : t.Positive) (q : s.Positive)
    (same : ∀ k, t.count k = s.count k) : t = s :=
  Table.ext fun k => by rw [p.get?_eq, q.get?_eq, same k]

end Tally

namespace Registry

variable {r r' : Registry} {g a : Registration} {id : Nat} {c : Address} {t : Hash}
  {cs : List Change}

/-- The number that a change gives out. -/
def given? : Change → Option Nat
  | .add g => some g.id
  | .remove _ => none

/-- Every registration has a number of its own, and names some signature. -/
structure Proper (cs : List Change) : Prop where
  ids : (cs.filterMap given?).Nodup
  filters : ∀ g, .add g ∈ cs → g.options.filters.isEmpty = false

/-- The counts are those of the live registrations. -/
structure Exact (r : Registry) : Prop where
  tidy : r.Tidy
  own : ∀ id g, r.live.get? id = some g → g.id = id
  filters : ∀ g ∈ r.live.values, g.options.filters.isEmpty = false
  tally : ∀ c t, r.tally c t = r.live.values.countP (names c t)
  depths : ∀ n, r.depths.count n = r.demand n
  waited : r.depths.Positive

/-! ## Step by step -/

theorem exact_empty : empty.Exact where
  tidy := tidy_empty
  own _ _ h := by cases h
  filters _ h := by cases h
  tally _ _ := rfl
  depths _ := rfl
  waited := Tally.positive_empty

theorem erase_of_none {t : Table Nat Registration} (new : t.get? id = none) : t.erase id = t := by
  refine Table.ext fun j => ?_
  by_cases here : j = id
  · rw [here, new, Table.get?_erase_self]
  · exact Table.get?_erase_of_ne here

theorem countP_live_add (new : r.live.get? g.id = none) {p : Registration → Bool} :
    (r.add g).2.live.values.countP p = r.live.values.countP p + if p g then 1 else 0 := by
  have same := countP_values_insert (p := p) r.live g
  rwa [erase_of_none new] at same

theorem Exact.add (e : r.Exact) (new : r.live.get? g.id = none)
    (filters : g.options.filters.isEmpty = false) : (r.add g).2.Exact where
  tidy := e.tidy.add g filters
  own id a held := by
    by_cases here : id = g.id
    · subst here
      exact congrArg _ (Option.some.inj (Table.get?_insert_self.symm.trans held)).symm
    · exact e.own id a ((Table.get?_insert_of_ne here).symm.trans held)
  filters a live := by
    obtain ⟨id, held⟩ := Table.mem_values.1 live
    by_cases here : id = g.id
    · subst here
      exact Option.some.inj (Table.get?_insert_self.symm.trans held) ▸ filters
    · exact e.filters a (Table.mem_values.2 ⟨id, (Table.get?_insert_of_ne here).symm.trans held⟩)
  tally c t := by rw [tally_add, e.tally, countP_live_add new]
  depths n := by
    rw [demand, countP_live_add new]
    have before := e.depths n
    by_cases here : n = g.options.confirmations
    · subst here
      simp [Registry.add, Tally.count_up_self, requires, before, demand]
    · simp [Registry.add, Tally.count_up_of_ne here, requires, Ne.symm here, before, demand]
  waited := e.waited.up

theorem countP_live_remove (here : r.live.get? id = some g) {p : Registration → Bool} :
    r.live.values.countP p =
      (r.remove id).2.live.values.countP p + if p g then 1 else 0 := by
  have live : (r.remove id).2.live = r.live.erase id := live_remove
  rw [live]
  exact countP_values_erase here

theorem depths_remove (here : r.live.get? id = some g) :
    (r.remove id).2.depths = r.depths.down g.options.confirmations := by
  simp [Registry.remove, here]

theorem Exact.remove (e : r.Exact) (id : Nat) : (r.remove id).2.Exact := by
  have live : (r.remove id).2.live = r.live.erase id := live_remove
  cases here : r.live.get? id with
  | none => simpa [Registry.remove, here] using e
  | some g =>
    refine ⟨e.tidy.remove id, ?_, ?_, ?_, ?_, ?_⟩
    · intro j a held
      rw [live] at held
      by_cases same : j = id
      · simp [same] at held
      · exact e.own j a (Table.get?_erase_of_ne same ▸ held)
    · intro a mem
      rw [live] at mem
      exact e.filters a ((List.filter_sublist.map _).subset mem)
    · intro c t
      have before := e.tally c t
      rw [countP_live_remove here] at before
      rw [tally_remove here]
      omega
    · intro n
      have before := e.depths n
      rw [demand, countP_live_remove here] at before
      rw [depths_remove here, demand]
      by_cases same : n = g.options.confirmations
      · subst same
        rw [Tally.count_down_self]
        simp only [requires, beq_self_eq_true, if_true] at before ⊢
        omega
      · rw [Tally.count_down_of_ne same]
        simpa [requires, Ne.symm same] using before
    · exact depths_remove here ▸ e.waited.down

/-! ## Along a history -/

theorem Proper.init {x : Change} (proper : Proper (cs ++ [x])) : Proper cs where
  ids := (List.nodup_append.1 (List.filterMap_append ▸ proper.ids)).1
  filters g mem := proper.filters g (List.mem_append_left _ mem)

theorem Proper.fresh {earlier later : List Change} (proper : Proper (earlier ++ .add g :: later)) :
    (∀ a, .add a ∈ earlier → a.id ≠ g.id) ∧ ∀ a, .add a ∈ later → a.id ≠ g.id := by
  have ids := proper.ids
  have gives : given? (.add g) = some g.id := rfl
  rw [List.filterMap_append, List.filterMap_cons_some gives] at ids
  obtain ⟨-, after, apart⟩ := List.nodup_append.1 ids
  constructor
  · intro a mem
    exact apart _ (List.mem_filterMap.2 ⟨_, mem, rfl⟩) _ List.mem_cons_self
  · intro a mem same
    exact (List.nodup_cons.1 after).1 (List.mem_filterMap.2 ⟨_, mem, congrArg some same⟩)

theorem Proper.new (proper : Proper (cs ++ [.add g])) : (after cs).live.get? g.id = none := by
  by_contra known
  obtain ⟨a, held⟩ := Option.ne_none_iff_exists'.1 known
  obtain ⟨same, earlier, later, rfl, -⟩ := get?_live held
  exact proper.fresh.1 a (by simp) same

theorem exact_after (proper : Proper cs) : (after cs).Exact := by
  induction cs using List.reverseRecOn with
  | nil => exact exact_empty
  | append_singleton cs x ih =>
    rw [after_concat]
    cases x with
    | add g => exact (ih proper.init).add proper.new (proper.filters g (by simp))
    | remove id => exact (ih proper.init).remove id

theorem Proper.live_iff (proper : Proper cs) : g ∈ (after cs).live.values ↔ Enrolled cs g := by
  constructor
  · exact live_enrolled
  · rintro ⟨earlier, later, rfl, kept⟩
    exact Table.mem_values.2 ⟨g.id, get?_live_added kept proper.fresh.2⟩

/-! ## The registry as a function of who is live -/

theorem Exact.get?_topics (e : r.Exact) :
    r.topics.get? c = if (r.topicsOf c).isEmpty then none else some (r.topicsOf c) := by
  cases held : r.topics.get? c with
  | none => simp [topicsOf, held, Table.isEmpty, Table.empty]
  | some ts =>
    obtain ⟨t, counted⟩ := e.tidy.inhabited c ts held
    have some : ts.isEmpty = false := by
      by_contra none
      have gone : ts.get? t = Option.none := Table.isEmpty_iff.1 (by simpa using none) t
      rw [Registry.tally, topicsOf_of_get? held, Tally.count_of_get?_none gone] at counted
      omega
    simp [topicsOf_of_get? held, some]

theorem Exact.ext (e : r.Exact) (e' : r'.Exact) (same : r.live = r'.live) : r = r' := by
  have topicsOf (c : Address) : r.topicsOf c = r'.topicsOf c := by
    refine (e.tidy.positive c).ext (e'.tidy.positive c) fun t => ?_
    exact (e.tally c t).trans (same ▸ (e'.tally c t).symm)
  have topics : r.topics = r'.topics := by
    refine Table.ext fun c => ?_
    rw [e.get?_topics, e'.get?_topics, topicsOf c]
  have depths : r.depths = r'.depths := by
    refine e.waited.ext e'.waited fun n => ?_
    rw [e.depths, e'.depths, demand, demand, same]
  obtain ⟨_, _, _⟩ := r
  obtain ⟨_, _, _⟩ := r'
  simp_all

theorem Exact.get?_live (e : r.Exact) :
    r.live.get? id = some g ↔ g ∈ r.live.values ∧ g.id = id := by
  constructor
  · intro held
    exact ⟨Table.mem_values.2 ⟨id, held⟩, e.own id g held⟩
  · rintro ⟨mem, rfl⟩
    obtain ⟨id, held⟩ := Table.mem_values.1 mem
    exact e.own id g held ▸ held

theorem Exact.eq_of_live (e : r.Exact) (e' : r'.Exact)
    (same : ∀ g, g ∈ r.live.values ↔ g ∈ r'.live.values) : r = r' := by
  refine e.ext e' (Table.ext fun id => Option.ext fun g => ?_)
  rw [e.get?_live, e'.get?_live, same]

/-! ## What is asked of a registry -/

theorem Exact.tally_pos (e : r.Exact) :
    0 < r.tally c t ↔ ∃ g ∈ r.live.values, names c t g = true := by
  rw [e.tally, List.countP_pos_iff]

theorem Exact.tally_zero (e : r.Exact) :
    r.tally c t = 0 ↔ ∀ g ∈ r.live.values, names c t g = false := by
  simp [e.tally, List.countP_eq_zero]

theorem Exact.mem_addresses (e : r.Exact) :
    c ∈ r.addresses ↔ ∃ g ∈ r.live.values, g.options.contract = c := by
  rw [e.tidy.mem_addresses]
  constructor
  · rintro ⟨t, counted⟩
    obtain ⟨g, live, named⟩ := e.tally_pos.1 counted
    exact ⟨g, live, by simp_all [names]⟩
  · rintro ⟨g, live, rfl⟩
    obtain ⟨t, named⟩ := Table.exists_key (e.filters g live)
    exact ⟨t, e.tidy.tally_pos live named⟩

theorem Exact.mem_signatures (e : r.Exact) :
    t ∈ r.signatures ↔ ∃ g ∈ r.live.values, g.options.filters.contains t = true := by
  rw [e.tidy.mem_signatures]
  constructor
  · rintro ⟨c, counted⟩
    obtain ⟨g, live, named⟩ := e.tally_pos.1 counted
    exact ⟨g, live, by simp_all [names]⟩
  · rintro ⟨g, live, named⟩
    exact ⟨_, e.tidy.tally_pos live named⟩

theorem Exact.depth_eq (e : r.Exact) :
    r.depth = (r.live.values.map (·.options.confirmations)).max?.getD 0 := by
  have counted : r.Counted := fun n => Nat.le_of_eq (e.depths n).symm
  cases last : r.depths.last? with
  | none =>
    have nobody : r.live.values = [] := by
      refine List.eq_nil_iff_forall_not_mem.2 fun g live => ?_
      have wanted : 0 < r.demand g.options.confirmations :=
        List.countP_pos_iff.2 ⟨g, live, by simp [requires]⟩
      have nothing : r.depths.entries = [] := by simpa [Table.last?] using last
      rw [← e.depths, Tally.count, Table.get?, nothing] at wanted
      exact absurd wanted (Nat.lt_irrefl 0)
    simp [depth, last, nobody]
  | some d =>
    have held : r.depths.get? d.1 = some d.2 := Table.mem_entries.1 (List.mem_of_getLast? last)
    have wanted : 0 < r.demand d.1 := by
      rw [← e.depths, Tally.count_of_get? held]
      exact e.waited _ _ held
    obtain ⟨g, live, required⟩ := List.countP_pos_iff.1 wanted
    have at_depth : r.depth = d.1 := by simp [depth, last]
    have most : (r.live.values.map (·.options.confirmations)).max? = some r.depth := by
      refine List.max?_eq_some_iff.2 ⟨List.mem_map.2 ⟨g, live, ?_⟩, ?_⟩
      · simpa [requires, at_depth] using required
      · intro n mem
        obtain ⟨a, live, rfl⟩ := List.mem_map.1 mem
        exact counted.confirmations_le_depth live
    simp [most]

theorem Exact.add_grows (e : r.Exact) : (r.add g).1 = true ↔
    ∃ t, g.options.filters.contains t = true ∧
      ∀ a ∈ r.live.values, names g.options.contract t a = false := by
  simp only [Registry.add, List.any_eq_true, beq_iff_eq, Table.mem_keys]
  exact exists_congr fun t => and_congr_right fun _ => e.tally_zero

theorem Exact.remove_shrinks (e : r.Exact) : (r.remove id).1 = true ↔
    ∃ g, r.live.get? id = some g ∧ ∃ t, g.options.filters.contains t = true ∧
      ∀ a ∈ (r.remove id).2.live.values, names g.options.contract t a = false := by
  cases here : r.live.get? id with
  | none => simp [Registry.remove, here]
  | some g =>
    have reported : (r.remove id).1 =
        g.options.filters.keys.any fun t => r.tally g.options.contract t == 1 := by
      simp [Registry.remove, here, Registry.tally]
    rw [reported]
    simp only [List.any_eq_true, beq_iff_eq, Table.mem_keys, Option.some.injEq, exists_eq_left']
    refine exists_congr fun t => and_congr_right fun named => ?_
    have self : names g.options.contract t g = true := by simp [names, named]
    have left := (e.remove id).tally g.options.contract t
    have before := e.tally g.options.contract t
    rw [countP_live_remove here, self] at before
    rw [← (e.remove id).tally_zero, left]
    simp only [if_true] at before
    omega

/-- What a removal takes back was there, signature after signature and in any order. -/
theorem Exact.solvent (e : r.Exact) (here : r.live.get? id = some g) {done rest : List Hash}
    (order : g.options.filters.keys.Perm (done ++ t :: rest)) :
    0 < (done.foldl Tally.down (r.topicsOf g.options.contract)).count t := by
  have each : (done ++ t :: rest).Nodup := order.nodup_iff.1 (Table.nodup_keys _)
  have named : g.options.filters.contains t = true :=
    Table.mem_keys.1 (order.mem_iff.2 (by simp))
  have counted := e.tidy.tally_pos (Table.mem_values.2 ⟨id, here⟩) named
  obtain ⟨once, -, apart⟩ := List.nodup_append.1 each
  have new : t ∉ done := fun mem => apart t mem t List.mem_cons_self rfl
  rw [Tally.count_downs once, if_neg new]
  exact counted

/-- What a registry tells, in terms of who is live. -/
structure Aggregates (r : Registry) : Prop where
  tally : ∀ c t, r.tally c t = r.live.values.countP (names c t)
  inhabited : ∀ c ts, r.topics.get? c = some ts → ts.isEmpty = false ∧ ∀ t, ts.get? t ≠ some 0
  depths : ∀ n, r.depths.count n = r.live.values.countP (requires n) ∧ r.depths.get? n ≠ some 0
  solvent : ∀ id g, r.live.get? id = some g → 0 < r.depths.count g.options.confirmations ∧
    ∀ done t rest, g.options.filters.keys.Perm (done ++ t :: rest) →
      0 < (done.foldl Tally.down (r.topicsOf g.options.contract)).count t
  addresses : r.addresses.Pairwise (compare · · = .lt) ∧
    ∀ c, c ∈ r.addresses ↔ ∃ g ∈ r.live.values, g.options.contract = c
  signatures : r.signatures.Pairwise (compare · · = .lt) ∧
    ∀ t, t ∈ r.signatures ↔ ∃ g ∈ r.live.values, g.options.filters.contains t = true
  covers : ∀ c, r.covers c = true ↔ ∃ g ∈ r.live.values, g.options.contract = c
  depth : r.depth = (r.live.values.map (·.options.confirmations)).max?.getD 0
  grows : ∀ g, (r.add g).1 = true ↔ ∃ t, g.options.filters.contains t = true ∧
    ∀ a ∈ r.live.values, names g.options.contract t a = false
  grown : ∀ g, g.options.filters.isEmpty = false → (r.add g).1 = false →
    (r.add g).2.addresses = r.addresses ∧ (r.add g).2.signatures = r.signatures
  shrinks : ∀ id, (r.remove id).1 = true ↔ ∃ g, r.live.get? id = some g ∧
    ∃ t, g.options.filters.contains t = true ∧
      ∀ a ∈ (r.remove id).2.live.values, names g.options.contract t a = false
  shrunk : ∀ id, (r.remove id).1 = false →
    (r.remove id).2.addresses = r.addresses ∧ (r.remove id).2.signatures = r.signatures

theorem Exact.aggregates (e : r.Exact) : r.Aggregates where
  tally := e.tally
  inhabited c ts held := by
    have topics := e.get?_topics (c := c)
    rw [held, topicsOf_of_get? held] at topics
    refine ⟨?_, fun t zero => ?_⟩
    · by_contra nothing
      simp [nothing] at topics
    · have positive := e.tidy.positive c t 0
      rw [topicsOf_of_get? held] at positive
      exact Nat.lt_irrefl 0 (positive zero)
  depths n := ⟨e.depths n, fun zero => Nat.lt_irrefl 0 (e.waited n 0 zero)⟩
  solvent id g here := by
    refine ⟨?_, fun _ _ _ order => e.solvent here order⟩
    rw [e.depths]
    exact List.countP_pos_iff.2 ⟨g, Table.mem_values.2 ⟨id, here⟩, by simp [requires]⟩
  addresses := ⟨Table.keys_ascending _, fun _ => e.mem_addresses⟩
  signatures := ⟨Table.keys_ascending _, fun _ => e.mem_signatures⟩
  covers c := Table.mem_keys.symm.trans e.mem_addresses
  depth := e.depth_eq
  grows _ := e.add_grows
  grown _ filters := e.tidy.filter_add filters
  shrinks _ := e.remove_shrinks
  shrunk _ := e.tidy.filter_remove

/-- Whatever was added and removed, the registry is a function of who is live, and adds up to it. -/
theorem adds_up_to_live (proper : Proper cs) :
    (∀ g, g ∈ (after cs).live.values ↔ Enrolled cs g) ∧
      (∀ ds, Proper ds → (∀ g, Enrolled ds g ↔ Enrolled cs g) → after ds = after cs) ∧
      (after cs).Aggregates := by
  refine ⟨fun g => proper.live_iff, fun ds proper' same => ?_, (exact_after proper).aggregates⟩
  refine (exact_after proper').eq_of_live (exact_after proper) fun g => ?_
  rw [proper'.live_iff, proper.live_iff, same]

namespace Example

def listener : Listener := ⟨"overlap", 0, 1, false, false, 0⟩

def asking (id : Nat) (contract : Address) (signatures : List Hash) (confirmations : Nat) :
    Registration where
  id
  listener
  options :=
    let filters := .ofList (signatures.map (·, []))
    { Options.new contract .unit with filters, confirmations }

/-- Three registrations share contracts, signatures and depths; somebody unknown is removed, and
somebody known twice. -/
def overlapping : List Change :=
  [.remove 7, .add (asking 0 5 [1, 2] 3), .add (asking 1 5 [2] 6), .add (asking 2 9 [2] 6),
    .remove 1, .remove 1]

end Example

theorem overlapping_adds_up : Proper Example.overlapping ∧
    (∀ g, g ∈ (after Example.overlapping).live.values ↔ Enrolled Example.overlapping g) ∧
      (∀ ds, Proper ds → (∀ g, Enrolled ds g ↔ Enrolled Example.overlapping g) →
        after ds = after Example.overlapping) ∧
      (after Example.overlapping).Aggregates := by
  have ids : (Example.overlapping.filterMap given?).Nodup := by decide
  have filters : ∀ g, .add g ∈ Example.overlapping → g.options.filters.isEmpty = false := by
    intro g mem
    simp only [Example.overlapping, List.mem_cons, Change.add.injEq, reduceCtorEq, false_or,
      List.not_mem_nil, or_false] at mem
    rcases mem with rfl | rfl | rfl <;> rfl
  exact ⟨⟨ids, filters⟩, adds_up_to_live ⟨ids, filters⟩⟩

open Example in
example : (after overlapping).addresses = [5, 9] ∧ (after overlapping).depth = 6 ∧
    ((after overlapping).remove 2).1 = true ∧
    ((after overlapping).add (asking 3 5 [1] 0)).1 = false := by decide +kernel

end Registry

end ChainHerald
