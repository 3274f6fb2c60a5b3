import ChainHerald.Proofs.Ranges

/-!
# An interval cut into ranges

Taken one after another, the ranges tile their interval: they begin at its start, each begins where
the one before ends, and the last one ends where the interval does (`Tiles`). On the way nothing is
computed that is no block number, and what is said to be left is what there is to come (`Counts`),
whatever was taken by then (`tile_interval`).
-/

namespace ChainHerald.Ranges

variable {r r' : Ranges} {lo hi start last batch : Nat} {range : Nat × Nat}
  {ranges taken left : List (Nat × Nat)}

/-! ## Checked arithmetic -/

/-- No answer if the sum is no block number. -/
def plus? (a b : Nat) : Option Nat := if a + b ≤ maxNumber then some (a + b) else none

/-- No answer if more is taken than there is. -/
def minus? (a b : Nat) : Option Nat := if b ≤ a then some (a - b) else none

def over? (a b : Nat) : Option Nat := if b = 0 then none else some (a / b)

/-- `remaining`, as long as nothing in it goes wrong. -/
def remaining? (r : Ranges) : Option Nat :=
  if r.exhausted then some 0
  else (minus? r.last r.start).bind fun span => (over? span r.batch).bind fun n => plus? n 1

/-- `next`, as long as nothing in it goes wrong. Where a batch ends is capped and cannot. -/
def next? (r : Ranges) : Option (Option ((Nat × Nat) × Ranges)) :=
  if r.exhausted then some none
  else
    (minus? r.batch 1).bind fun more =>
      let stop := min (min (r.start + more) maxNumber) r.last
      if stop = r.last then some (some ((r.start, stop), { r with exhausted := true }))
      else (plus? stop 1).map fun start => some ((r.start, stop), { r with start })

theorem plus?_eq {a b : Nat} (fits : a + b ≤ maxNumber) : plus? a b = some (a + b) := if_pos fits

theorem minus?_eq {a b : Nat} (enough : b ≤ a) : minus? a b = some (a - b) := if_pos enough

theorem over?_eq {a b : Nat} (some : 0 < b) : over? a b = Option.some (a / b) :=
  if_neg (Nat.ne_of_gt some)

theorem Sound.remaining?_eq (s : r.Sound) (few : r.remaining ≤ maxNumber) :
    r.remaining? = some r.remaining := by
  cases finished : r.exhausted with
  | true => simp [remaining?, remaining, finished]
  | false =>
    have left : r.remaining = (r.last - r.start) / r.batch + 1 := by simp [remaining, finished]
    have fits : (r.last - r.start) / r.batch + 1 ≤ maxNumber := left ▸ few
    simp [remaining?, finished, minus?_eq (s.start finished), over?_eq s.batch, plus?_eq fits, left]

/-- The number after a range is only asked for below the last block. -/
theorem Sound.next?_eq (s : r.Sound) : r.next? = some r.next := by
  cases finished : r.exhausted with
  | true => simp [next?, next, finished]
  | false =>
    have number := s.last
    simp only [next?, next, finished, Bool.false_eq_true, if_false, minus?_eq s.batch,
      Option.bind_some]
    split
    · rfl
    next more =>
      rw [plus?_eq (by omega)]
      rfl

theorem remaining_between (number : last ≤ maxNumber)
    (room : ¬(start = 0 ∧ last = maxNumber ∧ batch ≤ 1)) :
    (between start last batch).remaining ≤ maxNumber := by
  by_cases none : last < start
  · simp [remaining, between, none]
  simp only [remaining, between, none, decide_false, Bool.false_eq_true, if_false]
  by_cases single : batch ≤ 1
  · rw [Nat.max_eq_right single, Nat.div_one]
    omega
  · have half : (last - start) / max batch 1 ≤ (last - start) / 2 :=
      Nat.div_le_div_left (by omega) (by decide)
    have some : 1 < maxNumber := by decide
    omega

/-! ## Taking ranges -/

/-- The ranges were taken one after another, and this is left. -/
inductive Leaves : Ranges → List (Nat × Nat) → Ranges → Prop where
  | nothing (r : Ranges) : Leaves r [] r
  | take {r r' r'' : Ranges} {range : Nat × Nat} {taken : List (Nat × Nat)}
      (next : r.next = some (range, r')) (rest : Leaves r' taken r'') :
      Leaves r (range :: taken) r''

/-- These are the ranges, and then there is none. -/
def Yields (r : Ranges) (ranges : List (Nat × Nat)) : Prop :=
  ∃ r', r.Leaves ranges r' ∧ r'.next = none

theorem Leaves.sound (l : r.Leaves taken r') (s : r.Sound) : r'.Sound := by
  induction l with
  | nothing => exact s
  | take next _ ih => exact ih (s.takes next).sound

theorem Leaves.all_eq (l : r.Leaves taken r') (s : r.Sound) : r.all = taken ++ r'.all := by
  induction l with
  | nothing => rfl
  | take next _ ih =>
    rw [all_of_next s next, ih (s.takes next).sound]
    rfl

theorem Sound.yields (s : r.Sound) : r.Yields r.all := by
  induction s using Sound.induct with
  | done r s done => exact ⟨r, all_of_done done ▸ .nothing r, done⟩
  | step r lo hi r' s s' next ih =>
    obtain ⟨end', taken, done⟩ := ih
    exact ⟨end', all_of_next s next ▸ .take next taken, done⟩

/-! ## What they are -/

/-- Each of the ranges begins where the one before ends, and all but the last are full. -/
structure Tiles (start last batch : Nat) (ranges : List (Nat × Nat)) : Prop where
  first : ranges.head?.map (·.1) = some start
  last : ranges.getLast?.map (·.2) = some last
  adjoin : ranges.IsChain fun range next => next.1 = range.2 + 1
  inhabited : ∀ range ∈ ranges, range.1 ≤ range.2
  full : ∀ range ∈ ranges.dropLast, range.2 + 1 - range.1 = batch
  fits : ∀ range ∈ ranges, range.2 + 1 - range.1 ≤ batch

theorem tiles_singleton (some : start ≤ last) (fits : last + 1 - start ≤ batch) :
    Tiles start last batch [(start, last)] where
  first := rfl
  last := rfl
  adjoin := .singleton _
  inhabited := by simpa using some
  full := nofun
  fits := by simpa using fits

theorem Tiles.cons (t : Tiles (hi + 1) last batch ranges) (some : lo ≤ hi)
    (full : hi + 1 - lo = batch) : Tiles lo last batch ((lo, hi) :: ranges) := by
  obtain ⟨next, rest, rfl⟩ : ∃ next rest, ranges = next :: rest :=
    List.exists_cons_of_ne_nil fun none => by simpa [none] using t.first
  refine ⟨rfl, t.last, ?_, ?_, ?_, ?_⟩
  · exact .cons_cons (Option.some.inj t.first) t.adjoin
  · exact List.forall_mem_cons.2 ⟨some, t.inhabited⟩
  · exact List.forall_mem_cons.2 ⟨full, t.full⟩
  · exact List.forall_mem_cons.2 ⟨Nat.le_of_eq full, t.fits⟩

/-- A range is a full batch, or it is the last one. -/
theorem Sound.cut (s : r.Sound) (next : r.next = some ((lo, hi), r')) :
    r'.batch = r.batch ∧ (r'.exhausted = true ∧ hi = r.last ∧ hi + 1 - lo ≤ r.batch ∨
      r'.exhausted = false ∧ hi + 1 - lo = r.batch) := by
  have taken := s.takes next
  have batch := s.batch
  have number := s.last
  simp only [Ranges.next, taken.going, Bool.false_eq_true, if_false] at next
  obtain ⟨range, rest⟩ := Prod.mk.inj (Option.some.inj next)
  obtain ⟨rfl, stop⟩ := Prod.mk.inj range
  rw [stop] at rest
  split at rest
  next top =>
    subst rest
    exact ⟨rfl, .inl ⟨rfl, top, by omega⟩⟩
  next more =>
    subst rest
    exact ⟨rfl, .inr ⟨rfl, by omega⟩⟩

theorem Sound.tiles (s : r.Sound) (going : r.exhausted = false) :
    Tiles r.start r.last r.batch r.all := by
  induction s using Sound.induct with
  | done r s done => cases going.symm.trans (exhausted_of_next done)
  | step r lo hi r' s s' next ih =>
    have taken := s.takes next
    obtain ⟨batch, ⟨finished, rfl, fits⟩ | ⟨more, full⟩⟩ := s.cut next
    · rw [all_of_next s next, all_of_exhausted finished, ← taken.first]
      exact tiles_singleton taken.above fits
    · obtain ⟨-, start⟩ := taken.rest.resolve_left (by simp [more])
      have rest := ih more
      rw [start, taken.last, batch] at rest
      rw [all_of_next s next, ← taken.first]
      exact rest.cons taken.above full

/-! ## At every step -/

/-- What is left to come is what is said to be left, and no step to it leaves the block numbers. -/
structure Counts (r : Ranges) (left : List (Nat × Nat)) : Prop where
  yields : r.Yields left
  remaining : r.remaining = left.length
  sizeHint : r.sizeHint = (left.length, some left.length)
  counted : r.remaining? = some r.remaining
  stepped : r.next? = some r.next

theorem Sound.counts (s : r.Sound) (few : r.remaining ≤ maxNumber) : r.Counts r.all where
  yields := s.yields
  remaining := s.length_all.symm
  sizeHint := by rw [Ranges.sizeHint, Nat.min_eq_left few, s.length_all]
  counted := s.remaining?_eq few
  stepped := s.next?_eq

/-- Every interval of block numbers but the whole of them block by block, which are more than can
be counted, is cut into ranges that tile it, and taking them comes to an end. Whatever was taken by
then, the rest is still to come and is counted right. -/
theorem tile_interval (number : last ≤ maxNumber)
    (room : ¬(start = 0 ∧ last = maxNumber ∧ batch ≤ 1)) :
    ∃ ranges, (between start last batch).Yields ranges ∧
      (last < start → ranges = []) ∧
      (start ≤ last → Tiles start last (max batch 1) ranges) ∧
      (∀ k, start ≤ k → k ≤ last → ∃! range, range ∈ ranges ∧ Within k range) ∧
      ∀ taken r, (between start last batch).Leaves taken r →
        ∃ left, ranges = taken ++ left ∧ r.Counts left := by
  have sound : (between start last batch).Sound := sound_between number
  refine ⟨_, sound.yields, ?_, ?_, ?_, ?_⟩
  · intro none
    exact all_of_exhausted (decide_eq_true none)
  · intro some
    exact sound.tiles (decide_eq_false (Nat.not_lt.2 some))
  · intro k above below
    exact sound.exists_unique (left_between above below)
  · intro taken r leaves
    have all := leaves.all_eq sound
    refine ⟨r.all, all, (leaves.sound sound).counts ?_⟩
    have total := remaining_between number room
    rw [← sound.length_all, all, List.length_append, (leaves.sound sound).length_all] at total
    omega

/-- The ranges up to the greatest block number there is, of which the last one is short. -/
theorem topmost_tiled : ∃ ranges,
    (between (maxNumber - 2) maxNumber 2).Yields ranges ∧
      Tiles (maxNumber - 2) maxNumber 2 ranges ∧ ranges.length = 2 ∧
      (between (maxNumber - 2) maxNumber 2).next? =
        some (between (maxNumber - 2) maxNumber 2).next := by
  have room : ¬(maxNumber - 2 = 0 ∧ maxNumber = maxNumber ∧ 2 ≤ 1) := by decide
  obtain ⟨ranges, yields, -, tiles, -, counts⟩ := tile_interval (Nat.le_refl maxNumber) room
  obtain ⟨left, all, counted⟩ := counts [] _ (.nothing _)
  have two : (between (maxNumber - 2) maxNumber 2).remaining = 2 := by decide +kernel
  refine ⟨ranges, yields, tiles (by decide), ?_, counted.stepped⟩
  rw [all, List.nil_append, ← counted.remaining, two]

example : (between 100 250 50).all = [(100, 149), (150, 199), (200, 249), (250, 250)] := by decide

end ChainHerald.Ranges
