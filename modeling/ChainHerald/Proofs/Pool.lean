import ChainHerald.Proofs.Table

/-!
# The pool as a map from positions to logs

Each operation is one equation about the logs of a height, and from it one about `Pool.get?`. Since
no height is empty, the lowest and the highest one are those of the first and the last log in chain
order. In a `Placed` pool every log stands under its own position; there, taking everything out and
putting back what is ahead of a block comes to the same as cutting the pool at that block.
-/

namespace ChainHerald

theorem Log.position?_eq_some {l : Log} {pos : Position} :
    l.position? = some pos ↔
      l.block = some pos.block ∧ l.hash = some pos.hash ∧ l.index = some pos.index := by
  obtain ⟨block, index, hash⟩ := pos
  unfold Log.position?
  split
  next b i x hb hx hi => simp [hb, hx, hi, and_comm]
  next missing =>
    simp only [reduceCtorEq, false_iff, not_and]
    intro hb hx hi
    exact missing _ _ _ hb hx hi

theorem Log.position?_eq_none {l : Log} :
    l.position? = none ↔ l.block = none ∨ l.hash = none ∨ l.index = none := by
  unfold Log.position?
  cases l.block <;> cases l.hash <;> cases l.index <;> simp

theorem Log.block_of_position? {l : Log} {pos : Position} (h : l.position? = some pos) :
    l.block = some pos.block :=
  (Log.position?_eq_some.1 h).1

theorem Slot.compare_eq {a b : Slot} : compare a b = .eq ↔ a = b := by
  cases a; cases b
  simp [compare, compareOn_eq]

instance : Std.LawfulEqOrd Slot where
  compare_self := Slot.compare_eq.2 rfl
  eq_of_compare := Slot.compare_eq.1

theorem Position.eq_iff {a b : Position} : a = b ↔ a.block = b.block ∧ a.slot = b.slot := by
  cases a; cases b
  simp [slot, and_comm]

theorem Position.block_le_of_lt {a b : Position} (h : compare a b = .lt) : a.block ≤ b.block := by
  cases a; cases b
  simp only [compare, compareLex, compareOn, Ordering.then_eq_lt] at h
  rcases h with h | ⟨h, -⟩
  · exact Nat.le_of_lt (Nat.compare_eq_lt.1 h)
  · exact Nat.le_of_eq (Nat.compare_eq_eq.1 h)

theorem Position.lt_of_block_lt {a b : Position} (h : a.block < b.block) : compare a b = .lt := by
  cases a; cases b
  simp only [compare, compareLex, compareOn, Ordering.then_eq_lt]
  exact .inl (Nat.compare_eq_lt.2 h)

namespace Pool

variable {p s : Pool} {l : Log} {pos q : Position} {n : Nat}

/-! ## By height -/

theorem logsAt_of_get? {ls : Table Slot Log} (h : p.heights.get? n = some ls) :
    p.logsAt n = ls := by
  simp [logsAt, h]

theorem get?_heights :
    p.heights.get? n = if (p.logsAt n).isEmpty then none else some (p.logsAt n) := by
  cases h : p.heights.get? n with
  | none => simp [logsAt, h, Table.empty, Table.isEmpty]
  | some ls =>
    have some : ls.isEmpty = false := p.filled _ (Table.mem_entries.2 h)
    simp [logsAt_of_get? h, some]

theorem logsAt_put :
    (p.put pos l).logsAt n =
      if n = pos.block then (p.logsAt n).insert pos.slot l else p.logsAt n := by
  unfold put logsAt
  split
  next here => subst here; simp
  next elsewhere => simp [Table.get?_insert_of_ne elsewhere]

theorem logsAt_only {keep : Nat → Bool} :
    (p.only keep).logsAt n = if keep n then p.logsAt n else .empty := by
  simp only [only, logsAt, Table.get?_filter]
  cases p.heights.get? n <;> cases keep n <;> rfl

theorem logsAt_clear :
    (p.clear pos).logsAt n = if n = pos.block then (p.logsAt n).erase pos.slot else p.logsAt n := by
  unfold clear
  split
  next nothing =>
    split
    · subst_vars; simp [logsAt, nothing, Table.erase, Table.filter, Table.empty]
    · rfl
  next logs found =>
    dsimp only
    split
    next some =>
      unfold logsAt
      split
      next here => subst here; simp [found]
      next elsewhere => simp [Table.get?_insert_of_ne elsewhere]
    next gone =>
      rw [logsAt_only]
      by_cases here : n = pos.block
      · subst here
        have left : logs.erase pos.slot = .empty := Table.eq_empty (by simpa using gone)
        simp [logsAt_of_get? found, left]
      · simp [here]

theorem ext (h : ∀ pos, p.get? pos = s.get? pos) : p = s := by
  have alike : ∀ n, p.logsAt n = s.logsAt n := by
    intro n
    exact Table.ext fun slot => h ⟨n, slot.index, slot.hash⟩
  obtain ⟨t, ht⟩ := p
  obtain ⟨u, hu⟩ := s
  obtain rfl : t = u := by
    refine Table.ext fun n => ?_
    rw [get?_heights (p := ⟨t, ht⟩), get?_heights (p := ⟨u, hu⟩), alike n]
  rfl

/-! ## By position -/

@[simp]
theorem get?_empty : empty.get? pos = none := rfl

theorem get?_put_self : (p.put pos l).get? pos = some l := by
  simp [get?, logsAt_put]

theorem get?_put_of_ne (h : q ≠ pos) : (p.put pos l).get? q = p.get? q := by
  rw [get?, logsAt_put]
  split
  next here =>
    refine Table.get?_insert_of_ne fun same => ?_
    exact h (Position.eq_iff.2 ⟨here, same⟩)
  · rfl

theorem get?_clear_self : (p.clear pos).get? pos = none := by
  simp [get?, logsAt_clear]

theorem get?_clear_of_ne (h : q ≠ pos) : (p.clear pos).get? q = p.get? q := by
  rw [get?, logsAt_clear]
  split
  next here =>
    refine Table.get?_erase_of_ne fun same => ?_
    exact h (Position.eq_iff.2 ⟨here, same⟩)
  · rfl

theorem get?_only {keep : Nat → Bool} :
    (p.only keep).get? pos = (p.get? pos).filter fun _ => keep pos.block := by
  rw [get?, logsAt_only, get?]
  cases keep pos.block with
  | true => rw [if_pos rfl]; cases (p.logsAt pos.block).get? pos.slot <;> rfl
  | false => simp

theorem get?_add_self (h : l.position? = some pos) : (p.add l).2.get? pos = some l := by
  simp [add, h, get?_put_self]

theorem get?_add_of_ne (h : l.position? ≠ some pos) : (p.add l).2.get? pos = p.get? pos := by
  unfold add
  split
  · rfl
  next q hq => exact get?_put_of_ne fun e => h (e ▸ hq)

theorem get?_remove_self (h : l.position? = some pos) : (p.remove l).get? pos = none := by
  simp [remove, h, get?_clear_self]

theorem get?_remove_of_ne (h : l.position? ≠ some pos) : (p.remove l).get? pos = p.get? pos := by
  unfold remove
  split
  · rfl
  next q hq => exact get?_clear_of_ne fun e => h (e ▸ hq)

theorem get?_upTo : (p.upTo n).get? pos = (p.get? pos).filter fun _ => pos.block ≤ n :=
  get?_only

theorem get?_since : (p.since n).get? pos = (p.get? pos).filter fun _ => n ≤ pos.block :=
  get?_only

theorem get?_upTo_eq_some :
    (p.upTo n).get? pos = some l ↔ p.get? pos = some l ∧ pos.block ≤ n := by
  simp [get?_upTo, Option.filter_eq_some_iff]

theorem get?_since_eq_some :
    (p.since n).get? pos = some l ↔ p.get? pos = some l ∧ n ≤ pos.block := by
  simp [get?_since, Option.filter_eq_some_iff]

/-! ## In chain order -/

theorem positions_nodup (n : Nat) (ls : Table Slot Log) :
    ((ls.entries.map fun (slot, l) => ((⟨n, slot.index, slot.hash⟩ : Position), l)).map
      (·.1)).Nodup := by
  rw [List.map_map]
  refine List.pairwise_map.2 (ls.ascending.imp fun {a b} below same => ?_)
  have alike : a.1 = b.1 := (Position.eq_iff.1 same).2
  simp [alike] at below

theorem get?_sorted {ls : Table Slot Log} :
    (sorted n ls).get? pos = some l ↔ pos.block = n ∧ ls.get? pos.slot = some l := by
  rw [sorted, Table.get?_ofList (positions_nodup n ls), ← Table.mem_entries, List.mem_map]
  constructor
  · rintro ⟨⟨slot, l⟩, mem, same⟩
    obtain ⟨rfl, rfl⟩ := Prod.ext_iff.1 same
    exact ⟨rfl, mem⟩
  · rintro ⟨rfl, mem⟩
    exact ⟨_, mem, rfl⟩

theorem mem_entries : (pos, l) ∈ p.entries ↔ p.get? pos = some l := by
  simp only [entries, List.mem_flatMap, Prod.exists, Table.mem_entries, get?_sorted]
  constructor
  · rintro ⟨n, ls, found, rfl, held⟩
    rwa [get?, logsAt_of_get? found]
  · intro held
    cases found : p.heights.get? pos.block with
    | none => simp [get?, logsAt, found] at held
    | some ls => exact ⟨_, ls, found, rfl, by rwa [get?, logsAt_of_get? found] at held⟩

theorem ascending : p.entries.Pairwise fun a b => compare a.1 b.1 = .lt := by
  refine List.pairwise_flatMap.2 ⟨fun e _ => (sorted ..).ascending, ?_⟩
  refine p.heights.ascending.imp fun {a b} below x hx y hy => Position.lt_of_block_lt ?_
  obtain ⟨hx, -⟩ := get?_sorted.1 (Table.mem_entries.1 hx)
  obtain ⟨hy, -⟩ := get?_sorted.1 (Table.mem_entries.1 hy)
  exact hx ▸ hy ▸ Nat.compare_eq_lt.1 below

theorem entries_only {keep : Nat → Bool} :
    (p.only keep).entries = p.entries.filter fun e => keep e.1.block := by
  refine Table.eq_of_ascending ascending (p.ascending.filter _) fun ⟨pos, l⟩ => ?_
  rw [mem_entries, get?_only, Option.filter_eq_some_iff, List.mem_filter, mem_entries]

theorem entries_upTo : (p.upTo n).entries = p.entries.filter fun e => decide (e.1.block ≤ n) :=
  entries_only

theorem sorted_ne_nil {ls : Table Slot Log} (some : ls.isEmpty = false) :
    (sorted n ls).entries ≠ [] := by
  intro nothing
  obtain ⟨slot, known⟩ := Table.exists_key some
  obtain ⟨l, held⟩ := Option.isSome_iff_exists.1 known
  have there : (sorted n ls).get? ⟨n, slot.index, slot.hash⟩ = Option.some l :=
    get?_sorted.2 ⟨rfl, held⟩
  simp [← Table.mem_entries, nothing] at there

theorem block_of_mem_sorted {ls : Table Slot Log} {d : Position × Log}
    (mem : d ∈ (sorted n ls).entries) : d.1.block = n :=
  (get?_sorted.1 (Table.mem_entries.1 mem)).1

theorem lowest?_eq_head : p.lowest? = p.entries.head?.map (·.1.block) := by
  rw [lowest?, Table.first?, entries]
  cases held : p.heights.entries with
  | nil => rfl
  | cons e rest =>
    have some := p.filled e (held ▸ List.mem_cons_self)
    obtain ⟨d, others, first⟩ := List.exists_cons_of_ne_nil (sorted_ne_nil (n := e.1) some)
    have mem : d ∈ (sorted e.1 e.2).entries := first ▸ List.mem_cons_self
    have block := block_of_mem_sorted mem
    simp [first, block]

theorem highest?_eq_last : p.highest? = p.entries.getLast?.map (·.1.block) := by
  rw [highest?, Table.last?, entries]
  rcases List.eq_nil_or_concat' p.heights.entries with held | ⟨rest, e, held⟩
  · simp [held]
  · have some := p.filled e (by simp [held])
    obtain ⟨others, d, last⟩ :=
      (List.eq_nil_or_concat' (sorted e.1 e.2).entries).resolve_left (sorted_ne_nil some)
    have mem : d ∈ (sorted e.1 e.2).entries := by simp [last]
    have block := block_of_mem_sorted mem
    simp [held, last, block]

theorem mem_logs : l ∈ p.logs ↔ ∃ pos, p.get? pos = some l := by
  simp [logs, ← mem_entries]

/-- Every log stands under its own position. -/
def Placed (p : Pool) : Prop := ∀ pos l, p.get? pos = some l → l.position? = some pos

theorem placed_empty : empty.Placed := by
  intro pos l h
  cases h

theorem Placed.add (h : p.Placed) (l : Log) : (p.add l).2.Placed := by
  intro pos r hr
  by_cases hp : l.position? = some pos
  · rw [get?_add_self hp] at hr
    exact Option.some.inj hr ▸ hp
  · exact h pos r (get?_add_of_ne hp ▸ hr)

theorem Placed.addAll (h : p.Placed) (ls : List Log) : (p.addAll ls).Placed := by
  induction ls generalizing p with
  | nil => exact h
  | cons l rest ih => exact ih (h.add l)

theorem Placed.remove (h : p.Placed) (l : Log) : (p.remove l).Placed := by
  intro pos r hr
  by_cases hp : l.position? = some pos
  · rw [get?_remove_self hp] at hr
    cases hr
  · exact h pos r (get?_remove_of_ne hp ▸ hr)

theorem Placed.upTo (h : p.Placed) (n : Nat) : (p.upTo n).Placed := by
  intro pos l hl
  exact h pos l (get?_upTo_eq_some.1 hl).1

theorem Placed.since (h : p.Placed) (n : Nat) : (p.since n).Placed := by
  intro pos l hl
  exact h pos l (get?_since_eq_some.1 hl).1

theorem Placed.get?_eq_some (h : p.Placed) :
    p.get? pos = some l ↔ l ∈ p.logs ∧ l.position? = some pos := by
  constructor
  · intro hl
    exact ⟨mem_logs.2 ⟨pos, hl⟩, h pos l hl⟩
  · rintro ⟨hl, hp⟩
    obtain ⟨q, hq⟩ := mem_logs.1 hl
    obtain rfl : q = pos := Option.some.inj ((h q l hq).symm.trans hp)
    exact hq

/-! ## Putting logs back -/

theorem get?_addAll_of_not_mem {ls : List Log} (h : ∀ r ∈ ls, r.position? ≠ some pos) :
    (p.addAll ls).get? pos = p.get? pos := by
  induction ls generalizing p with
  | nil => rfl
  | cons r rest ih =>
    obtain ⟨hr, hrest⟩ := List.forall_mem_cons.1 h
    exact (ih hrest).trans (get?_add_of_ne hr)

theorem get?_addAll_of_mem {ls : List Log} (mem : l ∈ ls) (hp : l.position? = some pos)
    (only : ∀ r ∈ ls, r.position? = some pos → r = l) : (p.addAll ls).get? pos = some l := by
  induction ls generalizing p with
  | nil => cases mem
  | cons r rest ih =>
    obtain ⟨hr, hrest⟩ := List.forall_mem_cons.1 only
    by_cases later : l ∈ rest
    · exact ih later hrest
    · obtain rfl : l = r := by simpa [later] using mem
      have gone : ∀ s ∈ rest, s.position? ≠ some pos := by
        intro s hs e
        exact later (hrest s hs e ▸ hs)
      exact (get?_addAll_of_not_mem gone).trans (get?_add_self hp)

/-- Some of a pool's logs, put into another pool, take their old places there. -/
theorem Placed.get?_addAll (h : p.Placed) {f : Log → Bool} :
    (s.addAll (p.logs.filter f)).get? pos = ((p.get? pos).filter f).or (s.get? pos) := by
  cases hl : (p.get? pos).filter f with
  | some l =>
    obtain ⟨hl, hf⟩ := Option.filter_eq_some_iff.1 hl
    obtain ⟨mem, hp⟩ := h.get?_eq_some.1 hl
    have only : ∀ r ∈ p.logs.filter f, r.position? = some pos → r = l := by
      intro r hr e
      have found := h.get?_eq_some.2 ⟨(List.mem_filter.1 hr).1, e⟩
      exact Option.some.inj (found.symm.trans hl)
    exact get?_addAll_of_mem (List.mem_filter.2 ⟨mem, hf⟩) hp only
  | none =>
    apply get?_addAll_of_not_mem
    intro r hr e
    obtain ⟨mem, hf⟩ := List.mem_filter.1 hr
    have found := h.get?_eq_some.2 ⟨mem, e⟩
    simp [found, hf] at hl

def reaches (n : Nat) (l : Log) : Bool := l.block.any (· ≤ n)

theorem Placed.reaches_iff (h : p.Placed) (hl : p.get? pos = some l) :
    reaches n l = decide (pos.block ≤ n) := by
  simp [reaches, Log.block_of_position? (h pos l hl)]

/-- What is ahead of a block, put into an empty pool. -/
theorem Placed.addAll_ahead (h : p.Placed) (n : Nat) :
    empty.addAll (p.logs.filter (!reaches n ·)) = p.since (n + 1) := by
  refine ext fun pos => Option.ext fun l => ?_
  rw [h.get?_addAll, get?_empty, Option.or_none, get?_since_eq_some, Option.filter_eq_some_iff]
  refine and_congr_right fun hl => ?_
  rw [h.reaches_iff hl, Bool.not_eq_true', decide_eq_false_iff_not]
  omega

theorem Placed.addAll_due (h : p.Placed) (n : Nat) :
    (p.since (n + 1)).addAll (p.logs.filter (reaches n)) = p := by
  refine ext fun pos => ?_
  rw [h.get?_addAll, get?_since]
  cases hl : p.get? pos with
  | none => rfl
  | some l =>
    have due := h.reaches_iff (n := n) hl
    by_cases hn : pos.block ≤ n
    · simp [Option.filter, due, hn]
    · have above : n + 1 ≤ pos.block := by omega
      simp only [Option.filter, due, hn, above, decide_true, decide_false, if_true, Option.none_or,
        Bool.false_eq_true, if_false]

/-! ## Chain order -/

theorem Placed.filter_reaches (h : p.Placed) (n : Nat) :
    p.logs.filter (reaches n) = (p.upTo n).logs := by
  have same : ∀ e ∈ p.entries, reaches n e.2 = decide (e.1.block ≤ n) := by
    intro e he
    exact h.reaches_iff (mem_entries.1 he)
  rw [logs, logs, entries_upTo, List.filter_map]
  exact congrArg _ (List.filter_congr same)

theorem Placed.filterMap_block (h : p.Placed) :
    p.logs.filterMap Log.block = p.entries.map (·.1.block) := by
  rw [logs, List.filterMap_map, ← List.filterMap_eq_map]
  apply List.filterMap_congr
  intro e he
  exact Log.block_of_position? (h e.1 e.2 (mem_entries.1 he))

/-- Chain order begins with the lowest block. -/
theorem Placed.min_block (h : p.Placed) : (p.logs.filterMap Log.block).min? = p.lowest? := by
  rw [h.filterMap_block, lowest?_eq_head]
  cases he : p.entries with
  | nil => rfl
  | cons e rest =>
    have above := (List.pairwise_cons.1 (he ▸ p.ascending)).1
    simp only [List.map_cons, List.head?_cons, Option.map_some]
    refine List.min?_eq_some_iff.2 ⟨List.mem_cons_self, fun b hb => ?_⟩
    rcases List.mem_cons.1 hb with rfl | hb
    · exact Nat.le_refl _
    · obtain ⟨d, hd, rfl⟩ := List.mem_map.1 hb
      exact Position.block_le_of_lt (above d hd)

theorem lowest?_eq_none_iff : p.lowest? = none ↔ ∀ pos, p.get? pos = none := by
  rw [lowest?_eq_head, Option.map_eq_none_iff, List.head?_eq_none_iff,
    List.eq_nil_iff_forall_not_mem]
  simp [mem_entries, Option.eq_none_iff_forall_ne_some]

theorem lowest?_eq_none (h : p.lowest? = none) : p.get? pos = none :=
  lowest?_eq_none_iff.1 h pos

theorem since_of_none (h : (p.upTo n).lowest? = none) : p.since (n + 1) = p := by
  refine ext fun pos => Option.ext fun l => ?_
  rw [get?_since_eq_some]
  apply and_iff_left_of_imp
  intro hl
  by_contra above
  have due := get?_upTo_eq_some.2 ⟨hl, (by omega : pos.block ≤ n)⟩
  rw [lowest?_eq_none h] at due
  cases due

theorem takeAll_eq_none (h : p.takeAll.1 = none) : p = empty := by
  refine ext fun pos => lowest?_eq_none ?_
  rw [takeAll, lowest?_eq_head, highest?_eq_last] at h
  rw [lowest?_eq_head]
  cases held : p.entries with
  | nil => rfl
  | cons e rest =>
    have nonempty : ((e :: rest).getLast?).isSome := by simp
    obtain ⟨d, last⟩ := Option.isSome_iff_exists.1 nonempty
    simp [held, last] at h

theorem takeAll_eq_some {ls : List Log} {lo hi : Nat} (h : p.takeAll.1 = some (ls, lo, hi)) :
    ls = p.logs := by
  unfold takeAll at h
  split at h <;> simp_all

end Pool

end ChainHerald
