import ChainHerald.Proofs.Ledger
import Mathlib.Algebra.Ring.Nat
import Mathlib.Data.List.Dedup
import Mathlib.Data.List.Induction

/-!
# A ledger over its whole life

Keys are marked for blocks, looked up and read by range, and reads are made to fail, in any order
(`Ledger.after`). What a ledger tells depends on nothing but the set of what was marked
(`Ledger.Tells`), and a read fails just when a failure is outstanding (`Ledger.Failing`). `Shelves`
are the same markers filed by block, and every walk along them finds the same (`set_of_markers`).
-/

namespace ChainHerald

namespace Members

variable {κ : Type} [Ord κ] [Std.TransOrd κ] [Std.LawfulEqOrd κ] {s t : Members κ}

/-- A set is known by its members. -/
theorem ext (same : ∀ k, Table.contains s k = true ↔ Table.contains t k = true) : s = t := by
  refine Table.ext fun k => Option.ext fun u => ?_
  have iff := same k
  simp only [Table.contains, Option.isSome_iff_exists] at iff
  constructor
  · exact fun held => (iff.1 ⟨u, held⟩).elim fun _ h => h
  · exact fun held => (iff.2 ⟨u, held⟩).elim fun _ h => h

theorem contains_add {k j : κ} :
    Table.contains (s.add k) j = true ↔ j = k ∨ Table.contains s j = true := by
  simp only [← Table.mem_keys, mem_add]

theorem contains_ofList {ks : List κ} {k : κ} : Table.contains (ofList ks) k = true ↔ k ∈ ks := by
  rw [← Table.mem_keys, mem_ofList]

omit [Std.TransOrd κ] in
/-- The members, each of them once. -/
theorem size_eq [DecidableEq κ] {ks : List κ} (same : ∀ k, k ∈ s.keys ↔ k ∈ ks) :
    Table.size s = ks.dedup.length := by
  have perm : s.keys.Perm ks.dedup :=
    (List.perm_ext_iff_of_nodup (Table.nodup_keys s) ks.nodup_dedup).2 fun k => by
      rw [same, List.mem_dedup]
  rw [Table.size, ← perm.length_eq, Table.keys, List.length_map]

end Members

namespace Ledger

/-- What may be asked of a ledger. Kept in memory, it has no use for the scope of a transaction. -/
inductive Call where
  | mark (scope : Option Unit) (k : Key) (block : Nat)
  | was (scope : Option Unit) (k : Key)
  | find (lo hi : Nat)
  /-- So many of the coming reads are to fail, whatever was outstanding. -/
  | failReads (count : Nat)

def Call.marker? : Call → Option Marker
  | .mark _ k block => some ⟨block, k⟩
  | _ => none

def Call.isRead : Call → Bool
  | .find .. => true
  | _ => false

def Call.isInjection : Call → Bool
  | .failReads _ => true
  | _ => false

def call (g : Ledger) : Call → Ledger
  | .mark _ k block => (g.mark k block).2
  | .was _ k => (g.was k).2
  | .find lo hi => (g.find lo hi).2
  | .failReads count => { g with failingReads := count }

def after (calls : List Call) : Ledger := calls.foldl call empty

/-- Everything that was marked, again and again if it was. -/
def marked (calls : List Call) : List Marker := calls.filterMap Call.marker?

/-- The last injection outnumbers the reads since. -/
def Failing (calls : List Call) : Prop :=
  ∃ earlier count later, calls = earlier ++ .failReads count :: later ∧
    (∀ c ∈ later, c.isInjection = false) ∧ later.countP Call.isRead < count

variable {g : Ledger} {calls : List Call} {c : Call} {k : Key} {m : Marker} {lo hi : Nat}

theorem after_concat (calls : List Call) (c : Call) :
    after (calls ++ [c]) = (after calls).call c := by
  simp [after]

/-! ## One call -/

/-- Marks and lookups are taken. -/
structure Sound (g : Ledger) : Prop where
  marks : g.failingMarks = 0
  lookups : g.failingLookups = 0

theorem Sound.call (s : g.Sound) (c : Call) : (g.call c).Sound := by
  cases c with
  | mark scope k block =>
    simp only [Ledger.call, mark, s.marks]
    exact ⟨s.marks, s.lookups⟩
  | was scope k => simpa [Ledger.call, was, s.lookups] using s
  | find lo hi =>
    simp only [Ledger.call, find]
    split
    · exact s
    · exact ⟨s.marks, s.lookups⟩
  | failReads count => exact ⟨s.marks, s.lookups⟩

theorem Sound.mem_call (s : g.Sound) :
    m ∈ (g.call c).markers.keys ↔ c.marker? = some m ∨ m ∈ g.markers.keys := by
  cases c with
  | mark scope k block =>
    simp only [Ledger.call, mark, s.marks, mem_put, Call.marker?, Option.some.injEq]
    rw [eq_comm]
  | was scope k => simp [Ledger.call, was, s.lookups, Call.marker?]
  | find lo hi =>
    simp only [Ledger.call, find, Call.marker?]
    split <;> simp
  | failReads count => simp [Ledger.call, Call.marker?]

theorem call_failingReads (s : g.Sound) (other : c.isInjection = false) :
    (g.call c).failingReads = g.failingReads - if c.isRead then 1 else 0 := by
  cases c with
  | mark scope k block => simp [Ledger.call, mark, s.marks, put, Call.isRead]
  | was scope k => simp [Ledger.call, was, s.lookups, Call.isRead]
  | find lo hi =>
    simp only [Ledger.call, find, Call.isRead, if_true]
    split
    next none => rw [none]
    next n more =>
      rw [more]
      rfl
  | failReads count => cases other

/-! ## All calls -/

theorem sound_after (calls : List Call) : (after calls).Sound := by
  induction calls using List.reverseRecOn with
  | nil => exact ⟨rfl, rfl⟩
  | append_singleton calls c ih =>
    rw [after_concat]
    exact ih.call c

theorem mem_after : m ∈ (after calls).markers.keys ↔ m ∈ marked calls := by
  induction calls using List.reverseRecOn with
  | nil => exact Iff.rfl
  | append_singleton calls c ih =>
    have more : m ∈ marked (calls ++ [c]) ↔ m ∈ marked calls ∨ c.marker? = some m := by
      simp [marked]
    rw [after_concat, (sound_after calls).mem_call, ih, more, or_comm]

theorem failingReads_after (earlier : List Call) (count : Nat) {later : List Call}
    (last : ∀ c ∈ later, c.isInjection = false) :
    (after (earlier ++ .failReads count :: later)).failingReads =
      count - later.countP Call.isRead := by
  induction later using List.reverseRecOn with
  | nil =>
    rw [after_concat]
    rfl
  | append_singleton later c ih =>
    rw [List.forall_mem_append] at last
    rw [← List.cons_append, ← List.append_assoc, after_concat,
      call_failingReads (sound_after _) (last.2 c (by simp)), ih last.1, List.countP_append]
    cases read : c.isRead <;> simp [read]
    omega

/-- Failures that are outstanding were injected. -/
theorem failing_of_failingReads (some : 0 < (after calls).failingReads) : Failing calls := by
  induction calls using List.reverseRecOn with
  | nil => cases some
  | append_singleton calls c ih =>
    rw [after_concat] at some
    cases injection : c.isInjection with
    | true =>
      cases c with
      | failReads count => exact ⟨calls, count, [], rfl, nofun, some⟩
      | _ => cases injection
    | false =>
      have before := call_failingReads (sound_after calls) injection
      obtain ⟨earlier, count, later, rfl, last, -⟩ := ih (by omega)
      have last' : ∀ d ∈ later ++ [c], d.isInjection = false := by
        rw [List.forall_mem_append]
        exact ⟨last, by simpa using injection⟩
      have left := failingReads_after earlier count last'
      rw [← List.cons_append, ← List.append_assoc, after_concat] at left
      refine ⟨earlier, count, later ++ [c], by simp, last', ?_⟩
      omega

theorem failing_iff : Failing calls ↔ 0 < (after calls).failingReads := by
  constructor
  · rintro ⟨earlier, count, later, rfl, last, few⟩
    rw [failingReads_after earlier _ last]
    omega
  · exact failing_of_failingReads

/-- What a ledger tells after the calls. -/
structure Tells (g : Ledger) (calls : List Call) : Prop where
  was : ∀ k, ∃ consumed, g.was k = (.ok consumed, g) ∧
    (consumed = true ↔ ∃ block, ⟨block, k⟩ ∈ marked calls)
  find : ¬ Failing calls → ∀ lo hi, ∃ keys, g.find lo hi = (.ok keys, g) ∧
    (∀ k, keys.contains k = true ↔ ∃ block, lo ≤ block ∧ block ≤ hi ∧ ⟨block, k⟩ ∈ marked calls) ∧
    (hi < lo → keys = .empty)
  /-- A read that fails costs one failure and no marker. -/
  fails : Failing calls → ∀ lo hi, ∃ g', g.find lo hi = (.error readError, g') ∧
    g'.markers = g.markers ∧ g'.failedReads = g.failedReads + 1
  wider : ∀ lo hi lo' hi' keys keys', lo' ≤ lo → hi ≤ hi' → (g.find lo hi).1 = .ok keys →
    (g.find lo' hi').1 = .ok keys' → ∀ k, keys.contains k = true → keys'.contains k = true
  size : g.markers.size = (marked calls).dedup.length
  /-- Neither order nor repetition shows. -/
  same : ∀ calls', (∀ m, m ∈ marked calls' ↔ m ∈ marked calls) →
    (after calls').markers = g.markers

theorem contains_within_after : ((after calls).within lo hi).contains k = true ↔
    ∃ block, lo ≤ block ∧ block ≤ hi ∧ ⟨block, k⟩ ∈ marked calls := by
  rw [contains_within]
  constructor
  · rintro ⟨m, mem, rfl, above, below⟩
    exact ⟨m.block, above, below, mem_after.1 mem⟩
  · rintro ⟨block, above, below, mem⟩
    exact ⟨_, mem_after.2 mem, rfl, above, below⟩

theorem holds_after : (after calls).holds k = true ↔ ∃ block, ⟨block, k⟩ ∈ marked calls := by
  rw [holds_iff]
  constructor
  · rintro ⟨m, mem, rfl⟩
    exact ⟨m.block, mem_after.1 mem⟩
  · rintro ⟨block, mem⟩
    exact ⟨_, mem_after.2 mem, rfl⟩

theorem markers_after {calls' : List Call} (same : ∀ m, m ∈ marked calls' ↔ m ∈ marked calls) :
    (after calls').markers = (after calls).markers :=
  Members.ext fun m => by rw [← Table.mem_keys, ← Table.mem_keys, mem_after, mem_after, same]

theorem tells (calls : List Call) : (after calls).Tells calls where
  was k := by
    refine ⟨(after calls).holds k, ?_, holds_after⟩
    simp [Ledger.was, (sound_after calls).lookups]
  find sound lo hi := by
    have none : (after calls).failingReads = 0 :=
      Nat.eq_zero_of_not_pos fun some => sound (failing_iff.2 some)
    have found : (after calls).find lo hi = (.ok ((after calls).within lo hi), after calls) := by
      simp [Ledger.find, none]
    refine ⟨(after calls).within lo hi, found, fun k => contains_within_after, ?_⟩
    intro inverted
    refine Members.ext fun k => ?_
    rw [contains_within_after]
    constructor
    · rintro ⟨block, above, below, -⟩
      omega
    · rintro ⟨⟩
  fails failing lo hi := by
    obtain ⟨n, more⟩ := Nat.exists_eq_succ_of_ne_zero (Nat.ne_of_gt (failing_iff.1 failing))
    refine ⟨{ after calls with failingReads := n, failedReads := (after calls).failedReads + 1 },
      ?_, rfl, rfl⟩
    simp only [Ledger.find, more]
  wider lo hi lo' hi' keys keys' above below found found' k held := by
    rw [find_eq_ok found, contains_within_after] at held
    rw [find_eq_ok found', contains_within_after]
    obtain ⟨block, first, last, mem⟩ := held
    exact ⟨block, by omega, by omega, mem⟩
  size := Members.size_eq fun m => mem_after
  same _ same := markers_after same

end Ledger

/-! ## Filed by block -/

/-- The keys that are marked for each block. -/
abbrev Shelves := Table Nat (Members Key)

namespace Shelves

def file (s : Shelves) (m : Marker) : Shelves :=
  Table.insert s m.block (((Table.get? s m.block).getD .empty).add m.key)

def filed (ms : List Marker) : Shelves := ms.foldl file .empty

def holds (s : Shelves) (k : Key) : Bool := (Table.values s).any (·.contains k)

/-- The shelves from one block to another. There is no answer if the second one is before the
first. -/
def range? (s : Shelves) (lo hi : Nat) : Option Shelves :=
  if lo ≤ hi then some (Table.filter s fun block _ => decide (lo ≤ block ∧ block ≤ hi)) else none

def within? (s : Shelves) (lo hi : Nat) : Option (Members Key) :=
  if hi < lo then some .empty
  else (s.range? lo hi).map fun shelves => .ofList ((Table.values shelves).flatMap Table.keys)

def count (s : Shelves) : Nat := ((Table.values s).map Table.size).sum

/-- The key is on the shelf of the block. -/
def Has (s : Shelves) (m : Marker) : Prop :=
  ∃ keys, Table.get? s m.block = some keys ∧ keys.contains m.key = true

variable {s t : Shelves} {ms : List Marker} {m n : Marker} {k : Key} {lo hi : Nat}

theorem has_file : (s.file m).Has n ↔ n = m ∨ s.Has n := by
  unfold Has file
  by_cases here : n.block = m.block
  · rw [here, Table.get?_insert_self]
    simp only [Option.some.injEq, exists_eq_left', Members.contains_add]
    refine or_congr ⟨fun key => ?_, fun same => same ▸ rfl⟩ ?_
    · cases m; cases n
      simp_all
    · cases Table.get? s m.block with
      | none => simp [Table.contains]
      | some keys => simp
  · rw [Table.get?_insert_of_ne here]
    have other : n ≠ m := fun same => here (same ▸ rfl)
    simp [other]

theorem has_filed : (filed ms).Has m ↔ m ∈ ms := by
  induction ms using List.reverseRecOn with
  | nil => simp [filed, Has]
  | append_singleton ms n ih =>
    have last : filed (ms ++ [n]) = (filed ms).file n := by simp [filed]
    rw [last, has_file, ih, List.mem_append, List.mem_singleton, or_comm]

theorem holds_iff : s.holds k = true ↔ ∃ block, s.Has ⟨block, k⟩ := by
  simp only [holds, List.any_eq_true, Table.mem_values, Has]
  constructor
  · rintro ⟨keys, ⟨block, held⟩, mem⟩
    exact ⟨block, keys, held, mem⟩
  · rintro ⟨block, keys, held, mem⟩
    exact ⟨keys, ⟨block, held⟩, mem⟩

/-- Bounds that are the wrong way round are never asked for. -/
theorem within?_eq (s : Shelves) (lo hi : Nat) : ∃ keys, s.within? lo hi = some keys ∧
    ∀ k, keys.contains k = true ↔ ∃ block, lo ≤ block ∧ block ≤ hi ∧ s.Has ⟨block, k⟩ := by
  unfold within?
  split
  next inverted =>
    refine ⟨_, rfl, fun k => ⟨nofun, ?_⟩⟩
    rintro ⟨block, above, below, -⟩
    omega
  next order =>
    rw [range?, if_pos (Nat.not_lt.1 order), Option.map_some]
    refine ⟨_, rfl, fun k => ?_⟩
    simp only [Members.contains_ofList, List.mem_flatMap, Table.mem_values, Table.get?_filter,
      Option.filter_eq_some_iff, decide_eq_true_eq, Table.mem_keys, Has]
    constructor
    · rintro ⟨keys, ⟨block, held, above, below⟩, mem⟩
      exact ⟨block, above, below, keys, held, mem⟩
    · rintro ⟨block, above, below, keys, held, mem⟩
      exact ⟨keys, ⟨block, held, above, below⟩, mem⟩

/-! ## How many there are -/

def markers (s : Shelves) : List Marker :=
  s.entries.flatMap fun e => (Table.keys e.2).map (⟨e.1, ·⟩)

theorem mem_markers : m ∈ s.markers ↔ s.Has m := by
  simp only [markers, List.mem_flatMap, List.mem_map, Prod.exists, Table.mem_entries,
    Table.mem_keys]
  constructor
  · rintro ⟨block, keys, held, k, mem, rfl⟩
    exact ⟨keys, held, mem⟩
  · rintro ⟨keys, held, mem⟩
    exact ⟨m.block, keys, held, m.key, mem, rfl⟩

/-- A block has one shelf, and a shelf has each key once. -/
theorem nodup_markers (s : Shelves) : s.markers.Nodup := by
  refine List.nodup_flatMap.2 ⟨fun e _ => ?_, ?_⟩
  · exact (Table.nodup_keys e.2).map fun j k same => (Marker.mk.inj same).2
  · refine s.ascending.imp fun {e d} before m mem mem' => ?_
    obtain ⟨j, -, rfl⟩ := List.mem_map.1 mem
    obtain ⟨k, -, same⟩ := List.mem_map.1 mem'
    have block : d.1 = e.1 := (Marker.mk.inj same).1
    simp [block] at before

theorem count_eq (s : Shelves) : s.count = s.markers.length := by
  unfold count markers Table.values
  rw [List.length_flatMap, List.map_map]
  congr 2
  funext e
  simp [Table.size, Table.keys]

/-! ## The same shelves -/

/-- No shelf is empty. -/
def Stocked (s : Shelves) : Prop :=
  ∀ block keys, Table.get? s block = some keys → ∃ k, keys.contains k = true

theorem Stocked.file (h : s.Stocked) (m : Marker) : (s.file m).Stocked := by
  intro block keys held
  unfold Shelves.file at held
  by_cases here : block = m.block
  · rw [here, Table.get?_insert_self] at held
    exact ⟨m.key, Option.some.inj held ▸ Members.contains_add.2 (.inl rfl)⟩
  · exact h block keys (Table.get?_insert_of_ne here ▸ held)

theorem stocked_filed (ms : List Marker) : (filed ms).Stocked := by
  induction ms using List.reverseRecOn with
  | nil => exact nofun
  | append_singleton ms m ih =>
    have last : filed (ms ++ [m]) = (filed ms).file m := by simp [filed]
    exact last ▸ ih.file m

theorem Stocked.get?_of_has (h : s.Stocked) (same : ∀ m, s.Has m → t.Has m) {block : Nat}
    {keys : Members Key} (held : Table.get? s block = some keys) :
    ∃ keys', Table.get? t block = some keys' ∧
      ∀ k, keys.contains k = true → keys'.contains k = true := by
  obtain ⟨k, mem⟩ := h block keys held
  obtain ⟨keys', held', -⟩ := same ⟨block, k⟩ ⟨keys, held, mem⟩
  refine ⟨keys', held', fun j mem => ?_⟩
  obtain ⟨keys'', held'', mem'⟩ := same ⟨block, j⟩ ⟨keys, held, mem⟩
  obtain rfl := Option.some.inj (held'.symm.trans held'')
  exact mem'

theorem Stocked.get?_of_same (h : s.Stocked) (h' : t.Stocked) (same : ∀ m, s.Has m ↔ t.Has m)
    {block : Nat} {keys : Members Key} (held : Table.get? s block = some keys) :
    Table.get? t block = some keys := by
  obtain ⟨keys', held', sub⟩ := h.get?_of_has (fun m => (same m).1) held
  obtain ⟨keys'', held'', sub'⟩ := h'.get?_of_has (fun m => (same m).2) held'
  obtain rfl := Option.some.inj (held.symm.trans held'')
  rw [held', Members.ext fun k => ⟨sub' k, sub k⟩]

theorem Stocked.ext (h : s.Stocked) (h' : t.Stocked) (same : ∀ m, s.Has m ↔ t.Has m) : s = t := by
  refine Table.ext fun block => Option.ext fun keys => ?_
  constructor
  · exact h.get?_of_same h' same
  · exact h'.get?_of_same h fun m => (same m).symm

end Shelves

namespace Ledger

/-- Whether in one set or filed by block, the markers answer alike. -/
structure Alike (g : Ledger) (s : Shelves) : Prop where
  holds : ∀ k, s.holds k = g.holds k
  within : ∀ lo hi, s.within? lo hi = some (g.within lo hi)
  count : s.count = g.markers.size

theorem alike_filed (calls : List Call) : (after calls).Alike (.filed (marked calls)) where
  holds k := by
    rw [Bool.eq_iff_iff, Shelves.holds_iff, holds_after]
    simp only [Shelves.has_filed]
  within lo hi := by
    obtain ⟨keys, found, all⟩ := (Shelves.filed (marked calls)).within?_eq lo hi
    rw [found, Members.ext fun k => (all k).trans ?_]
    simp only [Shelves.has_filed, contains_within_after]
  count := by
    have perm : (Shelves.filed (marked calls)).markers.Perm (after calls).markers.keys :=
      (List.perm_ext_iff_of_nodup (Shelves.nodup_markers _) (Table.nodup_keys _)).2 fun m => by
        rw [Shelves.mem_markers, Shelves.has_filed, mem_after]
    rw [Shelves.count_eq, perm.length_eq, Table.keys, List.length_map, Table.size]

/-- Whatever is asked of it, a ledger is the set of what was marked and answers from that, except
that a read fails while a failure is outstanding. Filed by block the markers answer just so, and the
shelves are a matter of that set alone as well. -/
theorem set_of_markers (calls : List Call) :
    (after calls).Tells calls ∧ (after calls).Alike (.filed (marked calls)) ∧
      ∀ calls', (∀ m, m ∈ marked calls' ↔ m ∈ marked calls) →
        Shelves.filed (marked calls') = .filed (marked calls) := by
  refine ⟨tells calls, alike_filed calls, fun calls' same => ?_⟩
  refine (Shelves.stocked_filed _).ext (Shelves.stocked_filed _) fun m => ?_
  rw [Shelves.has_filed, Shelves.has_filed, same]

namespace Example

def key : Key := ⟨1, 0, 7⟩

/-- One key under two blocks, the lower one marked twice, and a failure for the second read. -/
def repeated : List Call :=
  [.mark none key 10, .failReads 2, .mark (some ()) key maxNumber, .find 0 9, .mark none key 10]

def once : List Call := [.mark none key maxNumber, .was none key, .mark (some ()) key 10]

end Example

open Example in
theorem repeated_alike :
    (∀ m, m ∈ marked once ↔ m ∈ marked repeated) ∧ Failing repeated ∧
      (after once).markers = (after repeated).markers ∧ (after repeated).markers.size = 2 ∧
      (∃ g, (after repeated).find 11 maxNumber = (.error readError, g) ∧
        g.markers = (after repeated).markers) ∧
      (Shelves.filed (marked once)).within? 11 maxNumber =
        some ((after repeated).within 11 maxNumber) ∧
      Shelves.filed (marked once) = .filed (marked repeated) := by
  have same : ∀ m, m ∈ marked once ↔ m ∈ marked repeated := by
    intro m
    simp only [once, repeated, marked, Call.marker?, List.filterMap, List.mem_cons,
      List.not_mem_nil, or_false]
    tauto
  have failing : Failing repeated :=
    ⟨[.mark none key 10], 2, [.mark (some ()) key maxNumber, .find 0 9, .mark none key 10], rfl,
      by decide, by decide⟩
  obtain ⟨tells, alike, shelves⟩ := set_of_markers repeated
  obtain ⟨g, failed, kept, -⟩ := tells.fails failing 11 maxNumber
  refine ⟨same, failing, tells.same once same, ?_, ⟨g, failed, kept⟩, ?_, shelves once same⟩
  · exact tells.size.trans (by decide)
  · rw [shelves once same]
    exact alike.within 11 maxNumber

end Ledger

end ChainHerald
