import ChainHerald.Proofs.Backfill

/-!
# The ranges of a backfill

Taken to the end, the ranges lie between the start and the last block (`Sound.within`), and each
block there lies in exactly one of them (`Sound.exists_unique`). There are as many as `remaining`
says (`Sound.length_all`).
-/

namespace ChainHerald.Ranges

variable {r r' : Ranges} {lo hi start last batch k : Nat}

/-- The next `count` ranges, or all if there are fewer. -/
def pull : Nat → Ranges → List (Nat × Nat)
  | 0, _ => []
  | count + 1, r =>
    match r.next with
    | none => []
    | some (range, r) => range :: r.pull count

def all (r : Ranges) : List (Nat × Nat) := r.pull r.remaining

/-- The block is in the range. -/
def Within (k : Nat) (range : Nat × Nat) : Prop := range.1 ≤ k ∧ k ≤ range.2

/-- Ranges of block numbers that are not empty. -/
structure Sound (r : Ranges) : Prop where
  batch : 0 < r.batch
  last : r.last ≤ maxNumber
  start : r.exhausted = false → r.start ≤ r.last

theorem sound_between (number : last ≤ maxNumber) : (between start last batch).Sound where
  batch := Nat.lt_of_lt_of_le Nat.one_pos (Nat.le_max_right _ _)
  last := number
  start going := Nat.le_of_not_lt (of_decide_eq_false going)

/-- One range is taken, and the others begin where it ends, or it was the last one. -/
structure Takes (r : Ranges) (lo hi : Nat) (r' : Ranges) : Prop where
  going : r.exhausted = false
  first : lo = r.start
  above : lo ≤ hi
  below : hi ≤ r.last
  last : r'.last = r.last
  sound : r'.Sound
  rest : r'.exhausted = true ∨ r'.exhausted = false ∧ r'.start = hi + 1
  remaining : r.remaining = r'.remaining + 1

theorem Sound.takes (s : r.Sound) (next : r.next = some ((lo, hi), r')) : r.Takes lo hi r' := by
  have going : r.exhausted = false := by
    cases finished : r.exhausted with
    | false => rfl
    | true => simp [Ranges.next, finished] at next
  have start := s.start going
  have batch := s.batch
  have number := s.last
  simp only [Ranges.next, going, Bool.false_eq_true, if_false] at next
  obtain ⟨range, rest⟩ := Prod.mk.inj (Option.some.inj next)
  obtain ⟨rfl, stop⟩ := Prod.mk.inj range
  rw [stop] at rest
  have here : min (r.start + (r.batch - 1)) r.last = hi := by omega
  have left : r.remaining = (r.last - r.start) / r.batch + 1 := by simp [remaining, going]
  split at rest
  next top =>
    -- the last range has what a single batch holds
    subst rest
    refine ⟨going, rfl, by omega, by omega, rfl, ⟨batch, number, by simp⟩, .inl rfl, ?_⟩
    have rest : (r.last - r.start) / r.batch = 0 := Nat.div_eq_of_lt (by omega)
    rw [left, rest]
    rfl
  next more =>
    subst rest
    have start : hi + 1 ≤ r.last := by omega
    refine ⟨going, rfl, by omega, by omega, rfl, ⟨batch, number, fun _ => start⟩,
      .inr ⟨rfl, rfl⟩, ?_⟩
    have next : (r.last - r.start) / r.batch = (r.last - (hi + 1)) / r.batch + 1 := by
      rw [Nat.div_eq_sub_div batch (by omega)]
      congr 2
      omega
    rw [left, next]
    simp [remaining]

theorem all_of_next (s : r.Sound) (next : r.next = some ((lo, hi), r')) :
    r.all = (lo, hi) :: r'.all := by
  rw [all, (s.takes next).remaining, pull, next]
  rfl

theorem all_of_exhausted (finished : r.exhausted = true) : r.all = [] := by
  simp [all, remaining, finished, pull]

theorem exhausted_of_next (done : r.next = none) : r.exhausted = true := by
  by_contra going
  simp [Ranges.next, going] at done

theorem all_of_done (done : r.next = none) : r.all = [] :=
  all_of_exhausted (exhausted_of_next done)

/-- What holds when no range is left, and with one more range in front, holds. -/
theorem Sound.induct {motive : (r : Ranges) → r.Sound → Prop}
    (done : ∀ r (s : r.Sound), r.next = none → motive r s)
    (step : ∀ r lo hi r' (s : r.Sound) (s' : r'.Sound), r.next = some ((lo, hi), r') →
      motive r' s' → motive r s) {r : Ranges} (s : r.Sound) : motive r s := by
  induction count : r.remaining generalizing r with
  | zero =>
    refine done r s ?_
    cases next : r.next with
    | none => rfl
    | some taken =>
      have left := (s.takes next).remaining
      omega
  | succ count ih =>
    cases next : r.next with
    | none => exact done r s next
    | some taken =>
      have takes := s.takes next
      have left := takes.remaining
      exact step r _ _ _ s takes.sound next (ih takes.sound (by omega))

theorem Sound.length_all (s : r.Sound) : r.all.length = r.remaining := by
  induction s using Sound.induct with
  | done r s done => simp [all_of_done done, remaining, exhausted_of_next done]
  | step r lo hi r' s s' next ih =>
    rw [all_of_next s next, List.length_cons, ih, (s.takes next).remaining]

/-- What is left after a range lies above it. -/
theorem Takes.after (t : r.Takes lo hi r')
    (within : ∀ range ∈ r'.all, r'.start ≤ range.1 ∧ range.1 ≤ range.2 ∧ range.2 ≤ r'.last) :
    ∀ range ∈ r'.all, hi < range.1 ∧ range.1 ≤ range.2 ∧ range.2 ≤ r.last := by
  intro range mem
  obtain ⟨start, above, below⟩ := within range mem
  rcases t.rest with finished | ⟨-, next⟩
  · rw [all_of_exhausted finished] at mem
    cases mem
  · exact ⟨by omega, above, t.last ▸ below⟩

theorem Sound.within (s : r.Sound) :
    ∀ range ∈ r.all, r.start ≤ range.1 ∧ range.1 ≤ range.2 ∧ range.2 ≤ r.last := by
  induction s using Sound.induct with
  | done r s done =>
    rw [all_of_done done]
    exact List.forall_mem_nil _
  | step r lo hi r' s s' next ih =>
    have taken := s.takes next
    have first := taken.first
    have above := taken.above
    rw [all_of_next s next]
    rintro range mem
    rcases List.mem_cons.1 mem with rfl | mem
    · exact ⟨Nat.le_of_eq first.symm, above, taken.below⟩
    · obtain ⟨later, rest⟩ := taken.after ih range mem
      exact ⟨by omega, rest⟩

/-- Every block that is left lies in exactly one of the ranges. -/
theorem Sound.exists_unique (s : r.Sound) (left : r.Left k) :
    ∃! range, range ∈ r.all ∧ Within k range := by
  induction s using Sound.induct with
  | done r s done => exact absurd done left.next_ne_none
  | step r lo hi r' s s' next ih =>
    have taken := s.takes next
    rw [all_of_next s next]
    by_cases here : k ≤ hi
    · refine ⟨(lo, hi), ⟨List.mem_cons_self, taken.first ▸ left.2.1, here⟩, ?_⟩
      rintro range ⟨mem, above, -⟩
      refine (List.mem_cons.1 mem).resolve_right fun mem => ?_
      have later := (taken.after s'.within range mem).1
      omega
    · have left' : r'.Left k := (left.next next).resolve_left fun within => here within.2
      obtain ⟨range, ⟨mem, within⟩, only⟩ := ih left'
      refine ⟨range, ⟨List.mem_cons_of_mem _ mem, within⟩, ?_⟩
      rintro other ⟨mem', within'⟩
      rcases List.mem_cons.1 mem' with rfl | mem'
      · exact absurd within'.2 here
      · exact only other ⟨mem', within'⟩

end ChainHerald.Ranges
