import ChainHerald.Intake
import ChainHerald.Proofs.Ranges
import Mathlib.Data.List.Sort

/-!
# Sorted batches, one after another

A backfill asks for one range after another and sorts each answer. `Arranged` says what a stable
sort by block and index makes of logs, and there is only one such list (`Arranged.unique`). The
sorted batches of ascending ranges, one after another, are all the logs sorted at once, however the
ranges are cut (`Ranges.Sound.arranged`).
-/

namespace ChainHerald

/-! ## Stable sorting -/

/-- A coordinate that is missing comes first. -/
def rank : Option Nat → Nat
  | none => 0
  | some n => n + 1

@[simp]
theorem rank_none : rank none = 0 := rfl

@[simp]
theorem rank_some (n : Nat) : rank (some n) = n + 1 := rfl

theorem rank_inj {a b : Option Nat} : rank a = rank b ↔ a = b := by
  cases a <;> cases b <;> simp

namespace Log

variable {a b c : Log}

/-- By block, then by index. -/
def Upto (a b : Log) : Prop :=
  rank a.block < rank b.block ∨ a.block = b.block ∧ rank a.index ≤ rank b.index

theorem Upto.trans (h : a.Upto b) (h' : b.Upto c) : a.Upto c := by
  unfold Upto at *
  rw [← rank_inj] at *
  omega

theorem upto_total (a b : Log) : a.Upto b ∨ b.Upto a := by
  unfold Upto
  rw [← rank_inj, ← rank_inj]
  omega

/-- Logs that come both before and after each other have the same place. -/
theorem Upto.same (h : a.Upto b) (h' : b.Upto a) : a.block = b.block ∧ a.index = b.index := by
  unfold Upto at h h'
  rw [← rank_inj] at *
  rw [← rank_inj]
  omega

/-- Whether the log has this place. -/
def isAt (block index : Option Nat) (l : Log) : Bool := l.block = block ∧ l.index = index

theorem isAt_iff {block index : Option Nat} {l : Log} :
    l.isAt block index = true ↔ l.block = block ∧ l.index = index :=
  decide_eq_true_iff

end Log

theorem inBatchOrder_iff {a b : Log} : inBatchOrder a b = true ↔ a.Upto b := by
  have index : inBatchOrder.index a b = true ↔ rank a.index ≤ rank b.index := by
    unfold inBatchOrder.index
    split
    next none => simp [none]
    next some none => simp [some, none]
    next some some' => simp [some, some']
  unfold inBatchOrder Log.Upto
  split
  next none some => simp [none, some]
  next some none => simp [some, none]
  next x y some some' =>
    simp only [some, some', rank_some, Option.some.injEq]
    split
    next same => simp [same, index]
    next other =>
      rw [decide_eq_true_iff]
      omega
  next none none' => simp [none, none', index]

/-- What a stable sort by block and index makes of the logs: logs of one place keep their order. -/
structure Arranged (logs out : List Log) : Prop where
  order : out.Pairwise Log.Upto
  stable : ∀ block index, out.filter (Log.isAt block index) = logs.filter (Log.isAt block index)

namespace Arranged

variable {logs out out' : List Log}

theorem mem_iff (a : Arranged logs out) {l : Log} : l ∈ out ↔ l ∈ logs := by
  have here : l.isAt l.block l.index = true := Log.isAt_iff.2 ⟨rfl, rfl⟩
  have same := a.stable l.block l.index
  constructor
  · intro mem
    have kept := List.mem_filter.2 ⟨mem, here⟩
    rw [same] at kept
    exact (List.mem_filter.1 kept).1
  · intro mem
    have kept := List.mem_filter.2 ⟨mem, here⟩
    rw [← same] at kept
    exact (List.mem_filter.1 kept).1

theorem mergeSort (logs : List Log) : Arranged logs (logs.mergeSort inBatchOrder) := by
  have trans (a b c : Log) (h : inBatchOrder a b = true) (h' : inBatchOrder b c = true) :
      inBatchOrder a c = true :=
    inBatchOrder_iff.2 ((inBatchOrder_iff.1 h).trans (inBatchOrder_iff.1 h'))
  have total (a b : Log) : (inBatchOrder a b || inBatchOrder b a) = true := by
    rw [Bool.or_eq_true, inBatchOrder_iff, inBatchOrder_iff]
    exact a.upto_total b
  constructor
  · exact (List.pairwise_mergeSort trans total logs).imp inBatchOrder_iff.1
  · intro block index
    -- logs of one place are in order as they stand, so they are a sublist of what comes out
    have ordered : (logs.filter (Log.isAt block index)).Pairwise
        fun a b => inBatchOrder a b = true := by
      refine List.pairwise_of_forall_mem_list fun a mem b mem' => inBatchOrder_iff.2 ?_
      obtain ⟨block_a, index_a⟩ := Log.isAt_iff.1 (List.mem_filter.1 mem).2
      obtain ⟨block_b, index_b⟩ := Log.isAt_iff.1 (List.mem_filter.1 mem').2
      exact .inr ⟨block_a.trans block_b.symm, by rw [index_a, index_b]⟩
    have kept := (List.sublist_mergeSort trans total ordered List.filter_sublist).filter
      (Log.isAt block index)
    rw [List.filter_filter] at kept
    simp only [Bool.and_self] at kept
    refine (kept.eq_of_length ?_).symm
    exact (((List.mergeSort_perm logs inBatchOrder).filter _).length_eq).symm

/-- The first log of either list comes first in the other one as well. -/
theorem unique (a : Arranged logs out) (a' : Arranged logs out') : out = out' := by
  induction out generalizing logs out' with
  | nil =>
    cases out' with
    | nil => rfl
    | cons y ys => cases a.mem_iff.2 (a'.mem_iff.1 (List.mem_cons_self (a := y)))
  | cons x xs ih =>
    cases out' with
    | nil => cases a'.mem_iff.2 (a.mem_iff.1 (List.mem_cons_self (a := x)))
    | cons y ys =>
      have there : y ∈ x :: xs := a.mem_iff.2 (a'.mem_iff.1 List.mem_cons_self)
      have back : x ∈ y :: ys := a'.mem_iff.2 (a.mem_iff.1 List.mem_cons_self)
      obtain ⟨first, order⟩ := List.pairwise_cons.1 a.order
      obtain ⟨first', order'⟩ := List.pairwise_cons.1 a'.order
      have x_le_y : x.Upto y := by
        rcases List.mem_cons.1 there with rfl | mem
        · exact .inr ⟨rfl, Nat.le_refl _⟩
        · exact first y mem
      have y_le_x : y.Upto x := by
        rcases List.mem_cons.1 back with rfl | mem
        · exact .inr ⟨rfl, Nat.le_refl _⟩
        · exact first' x mem
      obtain ⟨block, index⟩ := x_le_y.same y_le_x
      have heads := (a.stable x.block x.index).trans (a'.stable x.block x.index).symm
      rw [List.filter_cons_of_pos (Log.isAt_iff.2 ⟨rfl, rfl⟩),
        List.filter_cons_of_pos (Log.isAt_iff.2 ⟨block.symm, index.symm⟩)] at heads
      obtain ⟨rfl, -⟩ := List.cons.inj heads
      have as_it_is : Arranged xs xs := ⟨order, fun _ _ => rfl⟩
      refine congrArg (x :: ·) (ih as_it_is ⟨order', fun b i => ?_⟩)
      have tails := (a'.stable b i).trans (a.stable b i).symm
      rw [List.filter_cons, List.filter_cons] at tails
      split at tails
      · exact (List.cons.inj tails).2
      · exact tails

theorem perm (a : Arranged logs out) : out.Perm logs :=
  a.unique (mergeSort logs) ▸ List.mergeSort_perm logs inBatchOrder

end Arranged

/-! ## Ranges of blocks -/

/-- The logs from the blocks `lo` to `hi`. -/
def minedWithin (lo hi : Nat) (logs : List Log) : List Log :=
  logs.filter fun l => l.block.any fun b => decide (lo ≤ b ∧ b ≤ hi)

theorem mem_minedWithin {lo hi : Nat} {logs : List Log} {l : Log} :
    l ∈ minedWithin lo hi logs ↔ l ∈ logs ∧ ∃ b, l.block = some b ∧ lo ≤ b ∧ b ≤ hi := by
  simp [minedWithin, Option.any_eq_true]

/-- A node that looks at addresses and topics as well has the logs that pass for its history. -/
theorem Filter.select_eq (f : Filter) (lo hi : Nat) (logs : List Log) :
    f.select lo hi logs = minedWithin lo hi (logs.filter f.passes) := by
  rw [select, minedWithin, List.filter_filter]
  refine List.filter_congr fun l _ => ?_
  cases l.block <;> rfl

/-- The logs of one place are all within the blocks, or none of them is. -/
theorem filter_isAt_minedWithin (block index : Option Nat) (lo hi : Nat) (logs : List Log) :
    (minedWithin lo hi logs).filter (Log.isAt block index) =
      if block.any fun b => decide (lo ≤ b ∧ b ≤ hi) then logs.filter (Log.isAt block index)
      else [] := by
  rw [minedWithin, List.filter_filter]
  split
  next within =>
    refine List.filter_congr fun l _ => ?_
    cases here : l.isAt block index with
    | false => rfl
    | true => rw [(Log.isAt_iff.1 here).1, within, Bool.and_true]
  next outside =>
    refine List.filter_eq_nil_iff.2 fun l _ kept => outside ?_
    obtain ⟨here, within⟩ := Bool.and_eq_true_iff.1 kept
    rwa [(Log.isAt_iff.1 here).1] at within

/-- What is sorted for the blocks up to `mid`, followed by what is sorted for those above. -/
theorem Arranged.append {lo mid hi : Nat} {logs xs ys : List Log} (above : lo ≤ mid + 1)
    (below : mid ≤ hi) (a : Arranged (minedWithin lo mid logs) xs)
    (a' : Arranged (minedWithin (mid + 1) hi logs) ys) :
    Arranged (minedWithin lo hi logs) (xs ++ ys) := by
  constructor
  · refine List.pairwise_append.2 ⟨a.order, a'.order, fun x mem y mem' => .inl ?_⟩
    obtain ⟨-, b, block, -, to_mid⟩ := mem_minedWithin.1 (a.mem_iff.1 mem)
    obtain ⟨-, b', block', from_mid, -⟩ := mem_minedWithin.1 (a'.mem_iff.1 mem')
    rw [block, block', rank_some, rank_some]
    omega
  · intro block index
    rw [List.filter_append, a.stable, a'.stable, filter_isAt_minedWithin,
      filter_isAt_minedWithin, filter_isAt_minedWithin]
    cases block with
    | none => rfl
    | some b =>
      -- a place is in one of the two parts
      simp only [Option.any_some, decide_eq_true_eq]
      rcases Nat.lt_or_ge mid b with high | low
      · rw [if_neg (by omega), List.nil_append]
        exact if_congr (by omega) rfl rfl
      · rw [if_neg (c := mid + 1 ≤ b ∧ b ≤ hi) (by omega), List.append_nil]
        exact if_congr (by omega) rfl rfl

namespace Ranges

variable {r r' : Ranges} {lo hi start last batch : Nat}

/-- The sorted answers to the requests for the ranges that are left. -/
def batches (r : Ranges) (logs : List Log) : List Log :=
  r.all.flatMap fun range => (minedWithin range.1 range.2 logs).mergeSort inBatchOrder

theorem batches_of_next (s : r.Sound) (next : r.next = some ((lo, hi), r')) (logs : List Log) :
    r.batches logs = (minedWithin lo hi logs).mergeSort inBatchOrder ++ r'.batches logs := by
  rw [batches, all_of_next s next, List.flatMap_cons]
  rfl

theorem batches_of_done (done : r.next = none) (logs : List Log) : r.batches logs = [] := by
  rw [batches, all_of_done done]
  rfl

/-- Nothing is left after the range that ends with the last block. -/
theorem Takes.ends (t : r.Takes lo hi r') (next : r.next = some ((lo, hi), r'))
    (finished : r'.exhausted = true) : hi = r.last := by
  have left : r.Left r.last := ⟨t.going, t.first ▸ t.above.trans t.below, Nat.le_refl _⟩
  rcases left.next next with within | ⟨going, -⟩
  · exact Nat.le_antisymm t.below within.2
  · cases finished.symm.trans going

theorem Sound.arranged (s : r.Sound) (logs : List Log) : r.exhausted = false →
    Arranged (minedWithin r.start r.last logs) (r.batches logs) := by
  induction s using Sound.induct with
  | done r s done =>
    intro going
    cases (exhausted_of_next done).symm.trans going
  | step r lo hi r' s s' next ih =>
    intro _
    have taken := s.takes next
    have first := Arranged.mergeSort (minedWithin lo hi logs)
    rw [batches_of_next s next, ← taken.first]
    rcases taken.rest with finished | ⟨going, start⟩
    · rw [batches, all_of_exhausted finished, List.flatMap_nil, List.append_nil,
        ← taken.ends next finished]
      exact first
    · have rest := ih going
      rw [start, taken.last] at rest
      exact first.append (Nat.le_succ_of_le taken.above) taken.below rest

/-- The ranges of a backfill are sorted as a whole, whatever their size is. -/
theorem batches_between (ordered : start ≤ last) (number : last ≤ maxNumber) (logs : List Log) :
    (between start last batch).batches logs =
      (minedWithin start last logs).mergeSort inBatchOrder :=
  ((sound_between number).arranged logs (decide_eq_false (Nat.not_lt.2 ordered))).unique
    (.mergeSort _)

/-- The ranges are `batch` blocks each, the last one what is left. -/
theorem Sound.all_eq (s : r.Sound) : r.all = (List.range r.remaining).map fun k =>
    (r.start + k * r.batch, min (r.start + k * r.batch + (r.batch - 1)) r.last) := by
  induction s using Sound.induct with
  | done r s done => simp [all_of_done done, remaining, exhausted_of_next done]
  | step r lo hi r' s s' next ih =>
    have taken := s.takes next
    have ends := taken.ends next
    have positive := s.batch
    have number := s.last
    have below := taken.below
    have shape : hi = min (r.start + (r.batch - 1)) r.last ∧ r'.batch = r.batch := by
      have going := taken.going
      simp only [Ranges.next, going, Bool.false_eq_true, if_false] at next
      obtain ⟨range, rest⟩ := Prod.mk.inj (Option.some.inj next)
      obtain ⟨-, stop⟩ := Prod.mk.inj range
      refine ⟨by omega, ?_⟩
      rw [← rest]
      split <;> rfl
    rw [all_of_next s next, taken.remaining, List.range_succ_eq_map, List.map_cons, List.map_map,
      ih, taken.first, shape.1, Nat.zero_mul, Nat.add_zero]
    refine congrArg _ (List.map_congr_left fun k mem => ?_)
    rcases taken.rest with finished | ⟨going, start⟩
    · simp [remaining, finished] at mem
    · have start : r'.start = r.start + r.batch := by
        have more := s'.start going
        rw [taken.last] at more
        omega
      have along : r.start + r.batch + k * r.batch = r.start + (k + 1) * r.batch := by
        rw [Nat.succ_mul]
        omega
      simp only [Function.comp, start, shape.2, taken.last, along]

end Ranges

end ChainHerald
