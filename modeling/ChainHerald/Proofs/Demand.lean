import ChainHerald.Proofs.Dispatch
import ChainHerald.Proofs.Ledger

/-!
# The node filter as what registrations name

A registry counts for each contract and signature who names them. The filter consists of what is
counted at all (`mem_addresses`, `mem_signatures`), so it changes only when a count leaves zero or
gets there, which is what adding and removing report. `Tidy` keeps the counts honest: whatever a
live registration names is counted, so its logs pass the filter.
-/

namespace ChainHerald

namespace Tally

variable {κ : Type} [Ord κ] {t : Tally κ} {k : κ} {ks : List κ}

/-- Nothing is held by nobody. -/
def Positive (t : Tally κ) : Prop := ∀ k n, Table.get? t k = some n → 0 < n

theorem Positive.contains_iff (p : t.Positive) : Table.contains t k = true ↔ 0 < t.count k := by
  unfold Table.contains
  cases held : Table.get? t k with
  | none => simp [count_of_get?_none held]
  | some n => simp [count_of_get? held, p k n held]

theorem positive_empty : Positive (.empty : Tally κ) := fun _ _ h => by simp at h

variable [Std.TransOrd κ] [Std.LawfulEqOrd κ]

theorem Positive.insert (p : t.Positive) {n : Nat} (pos : 0 < n) :
    Positive (Table.insert t k n : Tally κ) := by
  intro j m held
  by_cases here : j = k
  · rw [here, Table.get?_insert_self] at held
    exact Option.some.inj held ▸ pos
  · exact p j m (Table.get?_insert_of_ne here ▸ held)

theorem Positive.up (p : t.Positive) : (t.up k).Positive := p.insert (Nat.succ_pos _)

theorem Positive.down (p : t.Positive) : (t.down k).Positive := by
  have erased : Positive (Table.erase t k : Tally κ) := by
    intro j m held
    by_cases here : j = k
    · simp [here] at held
    · exact p j m (Table.get?_erase_of_ne here ▸ held)
  unfold Tally.down
  split
  · exact erased
  · exact erased
  · exact p.insert (Nat.succ_pos _)

theorem Positive.ups (p : t.Positive) (ks : List κ) : (ks.foldl Tally.up t).Positive := by
  induction ks generalizing t with
  | nil => exact p
  | cons k ks ih => exact ih p.up

theorem Positive.downs (p : t.Positive) (ks : List κ) : (ks.foldl Tally.down t).Positive := by
  induction ks generalizing t with
  | nil => exact p
  | cons k ks ih => exact ih p.down

variable [DecidableEq κ]

theorem count_ups (each : ks.Nodup) :
    (ks.foldl up t).count k = t.count k + if k ∈ ks then 1 else 0 := by
  induction ks generalizing t with
  | nil => rfl
  | cons j ks ih =>
    obtain ⟨new, each⟩ := List.nodup_cons.1 each
    rw [List.foldl_cons, ih each]
    by_cases here : k = j
    · simp [here, new, count_up_self]
    · simp [here, count_up_of_ne here]

theorem count_downs (each : ks.Nodup) :
    (ks.foldl down t).count k = t.count k - if k ∈ ks then 1 else 0 := by
  induction ks generalizing t with
  | nil => rfl
  | cons j ks ih =>
    obtain ⟨new, each⟩ := List.nodup_cons.1 each
    rw [List.foldl_cons, ih each]
    by_cases here : k = j
    · simp [here, new, count_down_self]
    · simp [here, count_down_of_ne here]

end Tally

namespace Registry

/-- The registration listens for the signature at the contract. -/
def names (c : Address) (t : Hash) (g : Registration) : Bool :=
  g.options.contract == c && g.options.filters.contains t

def tally (r : Registry) (c : Address) (t : Hash) : Nat := (r.topicsOf c).count t

/-- Whatever is named is counted, nothing is counted that nobody names, and no contract is there
without a signature. -/
structure Tidy (r : Registry) : Prop where
  positive : ∀ c, (r.topicsOf c).Positive
  inhabited : ∀ c ts, r.topics.get? c = some ts → ∃ t, 0 < r.tally c t
  named : ∀ c t, r.live.values.countP (names c t) ≤ r.tally c t

variable {r r' : Registry} {g : Registration} {id : Nat} {c : Address} {t : Hash}

theorem tidy_empty : empty.Tidy where
  positive _ := Tally.positive_empty
  inhabited _ _ h := by simp [empty] at h
  named _ _ := Nat.zero_le _

/-! ## The filter -/

theorem topicsOf_of_get? {ts : Tally Hash} (h : r.topics.get? c = some ts) : r.topicsOf c = ts := by
  rw [topicsOf, h, Option.getD_some]

theorem get?_of_tally (h : 0 < r.tally c t) : r.topics.get? c = some (r.topicsOf c) := by
  cases held : r.topics.get? c with
  | some ts => rw [topicsOf_of_get? held]
  | none => simp [tally, topicsOf, held, Tally.count] at h

theorem Tidy.mem_addresses (tidy : r.Tidy) : c ∈ r.addresses ↔ ∃ t, 0 < r.tally c t := by
  rw [addresses, Table.mem_keys, Table.contains, Option.isSome_iff_exists]
  constructor
  · rintro ⟨ts, held⟩
    exact tidy.inhabited c ts held
  · rintro ⟨t, counted⟩
    exact ⟨_, get?_of_tally counted⟩

theorem Tidy.mem_signatures (tidy : r.Tidy) : t ∈ r.signatures ↔ ∃ c, 0 < r.tally c t := by
  rw [signatures, Members.mem_ofList]
  simp only [List.mem_flatMap, Table.mem_values, Table.mem_keys]
  constructor
  · rintro ⟨ts, ⟨c, held⟩, mem⟩
    refine ⟨c, ?_⟩
    rw [← topicsOf_of_get? held] at mem
    exact (tidy.positive c).contains_iff.1 mem
  · rintro ⟨c, counted⟩
    exact ⟨_, ⟨c, get?_of_tally counted⟩, (tidy.positive c).contains_iff.2 counted⟩

/-- The filter depends on nothing but what is counted at all. -/
theorem Tidy.filter_eq (tidy : r.Tidy) (tidy' : r'.Tidy)
    (same : ∀ c t, 0 < r'.tally c t ↔ 0 < r.tally c t) :
    r'.addresses = r.addresses ∧ r'.signatures = r.signatures := by
  constructor
  · refine Table.keys_eq fun c => ?_
    exact tidy'.mem_addresses.trans ((exists_congr fun t => same c t).trans tidy.mem_addresses.symm)
  · refine Table.keys_eq fun t => ?_
    exact tidy'.mem_signatures.trans
      ((exists_congr fun c => same c t).trans tidy.mem_signatures.symm)

theorem Tidy.signatures_ne_nil (tidy : r.Tidy) (some : r.addresses ≠ []) : r.signatures ≠ [] := by
  obtain ⟨c, mem⟩ := List.exists_mem_of_ne_nil _ some
  obtain ⟨t, counted⟩ := tidy.mem_addresses.1 mem
  exact List.ne_nil_of_mem (tidy.mem_signatures.2 ⟨c, counted⟩)

theorem Tidy.tally_pos (tidy : r.Tidy) (live : g ∈ r.live.values)
    (named : g.options.filters.contains t = true) : 0 < r.tally g.options.contract t := by
  have one : 0 < r.live.values.countP (names g.options.contract t) :=
    List.countP_pos_iff.2 ⟨g, live, by simp [names, named]⟩
  exact Nat.lt_of_lt_of_le one (tidy.named _ t)

/-- The filter has the contract of a live registration, and all its signatures. -/
theorem Tidy.listens (tidy : r.Tidy) (live : g ∈ r.live.values)
    (filters : g.options.filters.isEmpty = false) : g.options.contract ∈ r.addresses ∧
      ∀ t, g.options.filters.contains t = true → t ∈ r.signatures := by
  constructor
  · obtain ⟨t, named⟩ := Table.exists_key filters
    exact tidy.mem_addresses.2 ⟨t, tidy.tally_pos live named⟩
  · intro t named
    exact tidy.mem_signatures.2 ⟨_, tidy.tally_pos live named⟩

/-- What a live registration accepts passes the filter. -/
theorem Tidy.passes (tidy : r.Tidy) (live : g ∈ r.live.values) {l : Log}
    (contract : g.options.contract = l.address) (topics : g.options.matchesTopics l.topics = true) :
    Filter.passes ⟨r.addresses, r.signatures⟩ l = true := by
  unfold Options.matchesTopics at topics
  split at topics
  · cases topics
  next first rest at_l =>
    split at topics
    · cases topics
    next accepted held =>
      have counted := tidy.tally_pos live (t := first) (by simp [Table.contains, held])
      have address := tidy.mem_addresses.2 ⟨first, counted⟩
      have signature := tidy.mem_signatures.2 ⟨_, counted⟩
      simp [Filter.passes, at_l, ← contract, address, signature]

/-! ## Adding -/

theorem tally_add (r : Registry) (g : Registration) (c : Address) (t : Hash) :
    (r.add g).2.tally c t = r.tally c t + if names c t g then 1 else 0 := by
  unfold tally
  by_cases here : c = g.options.contract
  · subst here
    have topics : (r.add g).2.topicsOf g.options.contract =
        g.options.filters.keys.foldl Tally.up (r.topicsOf g.options.contract) :=
      topicsOf_of_get? Table.get?_insert_self
    rw [topics, Tally.count_ups (Table.nodup_keys _)]
    simp [names, Table.mem_keys]
  · have other : names c t g = false := by simp [names, Ne.symm here]
    have topics : (r.add g).2.topicsOf c = r.topicsOf c := by
      simp [topicsOf, add, Table.get?_insert_of_ne here]
    simp [topics, other]

theorem Tidy.add (tidy : r.Tidy) (g : Registration) (filters : g.options.filters.isEmpty = false) :
    (r.add g).2.Tidy where
  positive c := by
    by_cases here : c = g.options.contract
    · rw [here, topicsOf_of_get? Table.get?_insert_self]
      exact (tidy.positive _).ups _
    · simpa [topicsOf, Registry.add, Table.get?_insert_of_ne here] using tidy.positive c
  inhabited c ts held := by
    by_cases here : c = g.options.contract
    · obtain ⟨t, named⟩ := Table.exists_key filters
      refine ⟨t, ?_⟩
      have counted : names c t g = true := by simp [names, here, named]
      rw [tally_add, counted]
      exact Nat.succ_pos _
    · have same : (r.add g).2.topics.get? c = r.topics.get? c := Table.get?_insert_of_ne here
      rw [same] at held
      obtain ⟨t, counted⟩ := tidy.inhabited c ts held
      exact ⟨t, by rw [tally_add]; omega⟩
  named c t := by
    have replaced := countP_values_erase_le (p := names c t) r.live g.id
    have before := tidy.named c t
    rw [tally_add]
    simp only [Registry.add, countP_values_insert]
    omega

/-- Adding says so when the filter grows. -/
theorem Tidy.filter_add (tidy : r.Tidy) (filters : g.options.filters.isEmpty = false)
    (kept : (r.add g).1 = false) :
    (r.add g).2.addresses = r.addresses ∧ (r.add g).2.signatures = r.signatures := by
  refine tidy.filter_eq (tidy.add g filters) fun c t => ?_
  rw [tally_add]
  cases named : names c t g with
  | false => simp
  | true =>
    simp only [names, Bool.and_eq_true, beq_iff_eq] at named
    obtain ⟨rfl, named⟩ := named
    have held := List.any_eq_false.1 kept t (Table.mem_keys.2 named)
    have counted : 0 < r.tally g.options.contract t := Nat.pos_of_ne_zero fun zero => by
      simp [show (r.topicsOf g.options.contract).count t = 0 from zero] at held
    simp [counted]

/-! ## Removing -/

theorem topicsOf_remove_self (here : r.live.get? id = some g) :
    (r.remove id).2.topicsOf g.options.contract =
      g.options.filters.keys.foldl Tally.down (r.topicsOf g.options.contract) := by
  generalize left : g.options.filters.keys.foldl Tally.down (r.topicsOf g.options.contract) = ts
  cases gone : ts.isEmpty with
  | true =>
    simp only [remove, here, left, gone, if_true]
    rw [topicsOf, Table.get?_erase_self, Option.getD_none]
    exact Table.ext fun k => (Table.isEmpty_iff.1 gone k).symm
  | false =>
    simp only [remove, here, left, gone, Bool.false_eq_true, if_false]
    exact topicsOf_of_get? Table.get?_insert_self

theorem isEmpty_of_topics_remove (here : r.live.get? id = some g) {ts : Tally Hash}
    (held : (r.remove id).2.topics.get? g.options.contract = some ts) : ts.isEmpty = false := by
  simp only [remove, here] at held
  split at held
  · simp at held
  next some =>
    rw [Table.get?_insert_self] at held
    exact Option.some.inj held ▸ Bool.eq_false_iff.2 some

theorem get?_topics_remove (here : r.live.get? id = some g) (other : c ≠ g.options.contract) :
    (r.remove id).2.topics.get? c = r.topics.get? c := by
  simp only [remove, here]
  split
  · exact Table.get?_erase_of_ne other
  · exact Table.get?_insert_of_ne other

theorem tally_remove (here : r.live.get? id = some g) (c : Address) (t : Hash) :
    (r.remove id).2.tally c t = r.tally c t - if names c t g then 1 else 0 := by
  by_cases same : c = g.options.contract
  · subst same
    rw [tally, topicsOf_remove_self here, Tally.count_downs (Table.nodup_keys _)]
    simp [names, Table.mem_keys, tally]
  · have other : names c t g = false := by simp [names, Ne.symm same]
    simp [tally, topicsOf, get?_topics_remove here same, other]

theorem Tidy.remove (tidy : r.Tidy) (id : Nat) : (r.remove id).2.Tidy := by
  cases here : r.live.get? id with
  | none => simpa [Registry.remove, here] using tidy
  | some g =>
    have positive (c : Address) : ((r.remove id).2.topicsOf c).Positive := by
      by_cases same : c = g.options.contract
      · rw [same, topicsOf_remove_self here]
        exact (tidy.positive _).downs _
      · rw [topicsOf, get?_topics_remove here same]
        exact tidy.positive c
    refine ⟨positive, ?_, ?_⟩
    · intro c ts held
      by_cases same : c = g.options.contract
      · subst same
        obtain ⟨t, mem⟩ := Table.exists_key (isEmpty_of_topics_remove here held)
        rw [← topicsOf_of_get? held] at mem
        exact ⟨t, (positive _).contains_iff.1 mem⟩
      · rw [get?_topics_remove here same] at held
        obtain ⟨t, counted⟩ := tidy.inhabited c ts held
        refine ⟨t, ?_⟩
        have other : names c t g = false := by simp [names, Ne.symm same]
        simpa [tally_remove here, other] using counted
    · intro c t
      have before := tidy.named c t
      rw [countP_values_erase here] at before
      rw [tally_remove here]
      have live : (r.remove id).2.live = r.live.erase id := by simp [Registry.remove, here]
      rw [live]
      omega

/-- Removing says so when the filter shrinks. -/
theorem Tidy.filter_remove (tidy : r.Tidy) (kept : (r.remove id).1 = false) :
    (r.remove id).2.addresses = r.addresses ∧ (r.remove id).2.signatures = r.signatures := by
  refine tidy.filter_eq (tidy.remove id) fun c t => ?_
  cases here : r.live.get? id with
  | none => simp [Registry.remove, here]
  | some g =>
    rw [tally_remove here]
    cases named : names c t g with
    | false => simp
    | true =>
      simp only [names, Bool.and_eq_true, beq_iff_eq] at named
      obtain ⟨rfl, named⟩ := named
      simp only [Registry.remove, here] at kept
      have counted := tidy.tally_pos (Table.mem_values.2 ⟨id, here⟩) named
      have others := List.any_eq_false.1 kept t (Table.mem_keys.2 named)
      have more : r.tally g.options.contract t ≠ 1 := fun one => by
        simp [show (r.topicsOf g.options.contract).count t = 1 from one] at others
      simp only [if_true]
      omega

end Registry

end ChainHerald
