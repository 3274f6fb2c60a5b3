import ChainHerald.Proofs.LaneOrder

/-!
# What others do to a lane

A writer and its lane are left alone by everybody else: at most, items are taken out of the lane
(`Intake.Around`). In a broadcaster this is so for a lane that was not opened for a stream, whatever
moves (`Reached.around`).
-/

namespace ChainHerald

variable {σ : Type} [Source σ]

/-- From the channel at most items were taken, in order. -/
structure Channel.Drains {α : Type} (c c' : Channel α) : Prop where
  capacity : c'.capacity = c.capacity
  writable : c'.writable = c.writable
  readable : c'.readable = c.readable
  buffer : c'.buffer <:+ c.buffer

theorem Channel.Drains.refl {α : Type} (c : Channel α) : c.Drains c :=
  ⟨rfl, rfl, rfl, List.suffix_refl _⟩

/-- Into the lane nothing is put, and it goes only after its end. -/
structure Lanes.Leaves {α : Type} (channels channels' : Table Nat (Channel α)) (n : Nat) :
    Prop where
  channel : ∀ c', channels'.get? n = some c' → ∃ c, channels.get? n = some c ∧ c.Drains c'
  kept : ∀ c, channels.get? n = some c → c.writable = true → ∃ c', channels'.get? n = some c'

namespace Lanes

variable {α : Type} {channels channels' : Table Nat (Channel α)} {queue queue' : List Nat}
  {r : Reading α} {c c' : Channel α} {n lane : Nat}

theorem Leaves.of_eq (same : channels'.get? n = channels.get? n) : Leaves channels channels' n where
  channel c' here := ⟨c', same.symm.trans here, .refl c'⟩
  kept c here _ := ⟨c, same.trans here⟩

theorem leaves_insert (here : channels.get? lane = some c) (drains : c.Drains c') :
    Leaves channels (channels.insert lane c') n := by
  by_cases at_lane : n = lane
  · subst at_lane
    refine ⟨fun c'' here' => ?_, fun _ _ _ => ⟨c', Table.get?_insert_self⟩⟩
    obtain rfl := Option.some.inj (Table.get?_insert_self.symm.trans here')
    exact ⟨c, here, drains⟩
  · exact .of_eq (Table.get?_insert_of_ne at_lane)

theorem leaves_nextIn (h : nextIn channels queue = (r, channels', queue')) :
    Leaves channels channels' n := by
  induction queue generalizing channels with
  | nil =>
    cases h
    exact .of_eq rfl
  | cons lane queue ih =>
    unfold nextIn at h
    split at h
    next taken =>
      cases h
      obtain ⟨c, here, taken⟩ := Option.map_eq_some_iff.1 taken
      obtain ⟨rest, buffer, rfl⟩ := take_item taken
      exact leaves_insert here ⟨rfl, rfl, rfl, buffer ▸ List.suffix_cons _ _⟩
    · cases h
      exact .of_eq rfl
    next taken =>
      obtain ⟨c, here, taken⟩ := Option.map_eq_some_iff.1 taken
      have closed : c.writable = false := (take_ended taken).2
      have left := ih h
      by_cases at_lane : n = lane
      · subst at_lane
        refine ⟨fun c' here' => ?_, fun c' here' writable => ?_⟩
        · obtain ⟨c, here, -⟩ := left.channel c' here'
          cases Table.get?_erase_self.symm.trans here
        · obtain rfl := Option.some.inj (here.symm.trans here')
          cases closed.symm.trans writable
      · have same := Table.get?_erase_of_ne (t := channels) at_lane
        exact ⟨fun c' here' => same ▸ left.channel c' here',
          fun c here => left.kept c (same.trans here)⟩
    · exact ih h

theorem leaves_next {s s' : Lanes α} (h : s.next = (r, s')) :
    Leaves s.channels s'.channels n := by
  unfold next at h
  split at h
  next found =>
    cases h
    exact leaves_nextIn found

end Lanes

namespace Intake

/-- What everybody else does: the writer of the lane is left alone, and from its channel at most
items are taken. -/
structure Around (i : Intake σ) (lane : Nat) (i' : Intake σ) : Prop where
  writer : i'.writers.get? lane = i.writers.get? lane
  lane : Lanes.Leaves i.lanes.channels i'.lanes.channels lane

variable {i i' : Intake σ} {n lane : Nat}

theorem Fills.around (f : i.Fills lane i') (other : n ≠ lane) : i.Around n i' := by
  obtain ⟨channels, lanes, others⟩ := f.lanes
  refine ⟨f.elsewhere other, .of_eq ?_⟩
  rw [lanes]
  exact others n other

theorem Retains.spared (r : i.Retains i' n) (plain : ∀ cycle, ¬ i.StreamOf n cycle) :
    i'.writers.get? n = i.writers.get? n := by
  cases r with
  | same writer => exact writer
  | cancels before => exact absurd ⟨_, before, rfl⟩ (plain _)

end Intake

namespace Broadcaster

variable {b b' : Broadcaster σ} {hs heard : List Input} {n : Nat} {m : Move σ}
  {moves : Nat → Move σ}

/-- The lane was opened, and for no stream. -/
structure Plain (b : Broadcaster σ) (n : Nat) : Prop where
  old : n < b.intake.lanes.fresh
  unfed : ∀ cycle, ¬ b.intake.StreamOf n cycle

theorem Steers.around (s : b.Steers b' heard) (plain : b.Plain n) :
    b.intake.Around n b'.intake := by
  have other : n ≠ b.intake.lanes.fresh := Nat.ne_of_lt plain.old
  cases s with
  | holds _ _ _ intake =>
    rw [intake]
    exact ⟨rfl, .of_eq rfl⟩
  | reads next _ _ _ intake =>
    rw [intake]
    exact ⟨rfl, Lanes.leaves_next next⟩
  | begins _ _ _ _ intake retains =>
    refine ⟨(retains n).spared plain.unfed, .of_eq ?_⟩
    rw [intake]
  | opens _ _ _ _ _ intake =>
    rw [intake]
    exact ⟨Table.get?_insert_of_ne other, .of_eq (Table.get?_insert_of_ne other)⟩
  | connects _ _ _ _ _ intake _ retains =>
    refine ⟨(retains n other).spared plain.unfed, .of_eq ?_⟩
    rw [intake]
    exact Table.get?_insert_of_ne other

theorem Steers.plain (s : b.Steers b' heard) (plain : b.Plain n) : b'.Plain n := by
  refine ⟨Nat.lt_of_lt_of_le plain.old s.fresh_le, fun cycle feeds => ?_⟩
  rcases s.streamOf feeds with fed | ⟨new, -⟩
  · exact plain.unfed cycle fed
  · exact Nat.ne_of_lt plain.old new

theorem Reached.plain (r : b.Reached hs) (free : b.desk.cancelled = false) (m : Move σ)
    (plain : b.Plain n) : (b.move m).Plain n := by
  rcases r.turns free m with ⟨lane, i, -, fills, moved⟩ | ⟨-, steers⟩
  · rw [moved]
    exact ⟨fills.fresh ▸ plain.old, fun cycle feeds => plain.unfed cycle (fills.streamOf feeds)⟩
  · exact steers.plain plain

/-- Where an endless run is at a time. -/
def after (b : Broadcaster σ) (moves : Nat → Move σ) (t : Nat) : Broadcaster σ :=
  b.run ((List.range t).map moves)

theorem after_succ (b : Broadcaster σ) (moves : Nat → Move σ) (t : Nat) :
    b.after moves (t + 1) = (b.after moves t).move (moves t) := by
  rw [after, after, List.range_succ, List.map_append, List.map_singleton, run_concat]

theorem Reached.after (r : b.Reached hs) (moves : Nat → Move σ) (t : Nat) :
    ∃ hs, (b.after moves t).Reached hs :=
  ⟨_, r.run _⟩

theorem Plain.after (plain : b.Plain n) (r : b.Reached hs)
    (free : ∀ t, (b.after moves t).desk.cancelled = false) (t : Nat) :
    (b.after moves t).Plain n := by
  induction t with
  | zero => exact plain
  | succ t ih =>
    obtain ⟨hs, reached⟩ := r.after moves t
    rw [after_succ]
    exact reached.plain (free t) (moves t) ih

/-- The lane whose writer has its turn. -/
def turn? : Move σ → Option Nat
  | .task (.lane n) => some n
  | _ => none

theorem Reached.around (r : b.Reached hs) (free : b.desk.cancelled = false) (plain : b.Plain n)
    (other : turn? m ≠ some n) : b.intake.Around n (b.move m).intake := by
  rcases r.turns free m with ⟨lane, i, rfl, fills, moved⟩ | ⟨-, steers⟩
  · rw [moved]
    exact fills.around fun same => other (congrArg some same.symm)
  · exact steers.around plain

theorem move_of_turn (own : turn? m = some n) :
    (b.move m).intake = (b.intake.step n).getD b.intake := by
  unfold turn? at own
  split at own
  · cases own
    simp only [Broadcaster.move, step, stepLane]
    cases b.intake.step n <;> rfl
  · cases own

end Broadcaster

end ChainHerald
