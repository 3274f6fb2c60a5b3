import ChainHerald.Proofs.Writers

/-!
# Lanes are read in turn

What a lane and the hands of its writer hold is read in order: whatever the service does, what it
reads from the lane and what is left there make up what was there before (`Steers.conserves`). A
lane with something in it is in the queue or about to get there (`Broadcaster.Filed`), and lanes
that open later are read later (`Broadcaster.Behind`).
-/

namespace ChainHerald

def Input.logs (hs : List Input) : List Log :=
  hs.filterMap fun
    | .log l => some l
    | _ => none

theorem Input.logs_eq_nil {hs : List Input} (deaf : ∀ l, .log l ∉ hs) : logs hs = [] := by
  rw [logs, List.filterMap_eq_nil_iff]
  intro i mem
  cases i with
  | log l => exact absurd mem (deaf l)
  | change | head => rfl

namespace Lanes

variable {α : Type} {channels channels' : Table Nat (Channel α)} {queue queue' : List Nat} {a : α}
  {c : Channel α} {n lane : Nat}

/-- What is in the lane. -/
def items (channels : Table Nat (Channel α)) (n : Nat) : List α :=
  ((channels.get? n).map Channel.buffer).getD []

theorem items_of_get? (held : channels.get? n = some c) : items channels n = c.buffer := by
  simp [items, held]

theorem items_eq_nil (absent : channels.get? n = none) : items channels n = [] := by
  simp [items, absent]

@[simp]
theorem items_insert_self : items (channels.insert n c) n = c.buffer :=
  items_of_get? Table.get?_insert_self

theorem items_insert_of_ne (other : n ≠ lane) :
    items (channels.insert lane c) n = items channels n := by
  rw [items, items, Table.get?_insert_of_ne other]

/-- A lane with nothing in it can go. -/
theorem items_erase (empty : items channels lane = []) :
    items (channels.erase lane) n = items channels n := by
  by_cases here : n = lane
  · rw [here, empty, items_eq_nil Table.get?_erase_self]
  · rw [items, items, Table.get?_erase_of_ne here]

theorem items_hangUp (s : Lanes α) (lane n : Nat) :
    items (s.update lane Channel.hangUp).channels n = items s.channels n := by
  unfold update
  split
  · rfl
  next c here =>
    by_cases at_lane : n = lane
    · rw [at_lane, items_of_get? here]
      exact items_insert_self
    · exact items_insert_of_ne at_lane

/-- Reading takes the first item of the first lane with one, and the lanes before it are empty. -/
structure Takes (channels : Table Nat (Channel α)) (queue : List Nat) (a : α)
    (channels' : Table Nat (Channel α)) (lane : Nat) (rest : List Nat) : Prop where
  suffix : lane :: rest <:+ queue
  item : items channels lane = a :: items channels' lane
  others : ∀ n, n ≠ lane → items channels' n = items channels n
  passed : ∀ n ∈ queue, n ∈ lane :: rest ∨ items channels n = []

theorem nextIn_takes (h : nextIn channels queue = (.item a, channels', queue')) :
    ∃ lane rest, queue' = lane :: rest ∧ Takes channels queue a channels' lane rest := by
  induction queue generalizing channels with
  | nil => cases h
  | cons first queue ih =>
    unfold nextIn at h
    split at h
    next c' taken =>
      cases h
      obtain ⟨c, here, taken⟩ := Option.map_eq_some_iff.1 taken
      obtain ⟨items, buffer, rfl⟩ := take_item taken
      refine ⟨first, queue, rfl, List.suffix_refl _, ?_, fun n => items_insert_of_ne, ?_⟩
      · rw [items_of_get? here, items_insert_self, buffer]
      · exact fun n mem => .inl mem
    · cases h
    next taken =>
      obtain ⟨c, here, taken⟩ := Option.map_eq_some_iff.1 taken
      have empty : items channels first = [] :=
        (items_of_get? here).trans (take_ended taken).1
      obtain ⟨lane, rest, rfl, suffix, item, others, passed⟩ := ih h
      refine ⟨lane, rest, rfl, suffix.trans (List.suffix_cons _ _), ?_, fun n other => ?_, ?_⟩
      · rw [← items_erase empty, item]
      · rw [others n other, items_erase empty]
      · intro n mem
        rcases List.mem_cons.1 mem with rfl | mem
        · exact .inr empty
        · exact (passed n mem).imp_right fun none => by rwa [items_erase empty] at none
    next absent =>
      obtain ⟨lane, rest, rfl, suffix, item, others, passed⟩ := ih h
      refine ⟨lane, rest, rfl, suffix.trans (List.suffix_cons _ _), item, others, ?_⟩
      intro n mem
      rcases List.mem_cons.1 mem with rfl | mem
      · exact .inr (items_eq_nil (Option.map_eq_none_iff.1 absent))
      · exact passed n mem

theorem next_takes {s s' : Lanes α} (h : s.next = (.item a, s')) :
    ∃ lane rest, s'.queue = lane :: rest ∧ Takes s.channels s.queue a s'.channels lane rest := by
  unfold next at h
  split at h
  next r channels queue found =>
    cases h
    exact nextIn_takes found

end Lanes

variable {σ : Type} [Source σ]

namespace Intake

/-- What the writer of the lane has in its hands. -/
def inHand (i : Intake σ) (n : Nat) : List Log := ((i.writers.get? n).map Writer.stock).getD []

/-- What is in the lane or in the hands of its writer, in the order in which it is read. -/
def holds (i : Intake σ) (n : Nat) : List Log := Lanes.items i.lanes.channels n ++ i.inHand n

variable {i i' : Intake σ} {n : Nat} {w : Writer σ}

theorem inHand_of_get? (held : i.writers.get? n = some w) : i.inHand n = w.stock := by
  simp [inHand, held]

theorem inHand_eq_nil (gone : i.writers.get? n = none) : i.inHand n = [] := by
  simp [inHand, gone]

theorem Retains.inHand (h : i.Retains i' n) : i'.inHand n = i.inHand n := by
  cases h with
  | same writer => rw [Intake.inHand, Intake.inHand, writer]
  | cancels before after => rw [inHand_of_get? before, inHand_of_get? after]; rfl

theorem Laned.channel_fresh {os : List Nat} (h : i.Laned os) :
    i.lanes.channels.get? i.lanes.fresh = none := by
  cases held : i.lanes.channels.get? i.lanes.fresh with
  | none => rfl
  | some c => exact absurd (h.fresh _ c held) (Nat.lt_irrefl _)

theorem Laned.writer_fresh {os : List Nat} (h : i.Laned os) :
    i.writers.get? i.lanes.fresh = none := by
  cases held : i.writers.get? i.lanes.fresh with
  | none => rfl
  | some w =>
    obtain ⟨c, there, -⟩ := h.channel _ w held
    cases h.channel_fresh.symm.trans there

/-- A lane with something in it is read or will be, and only lanes that are open are. -/
structure Filed (i : Intake σ) (opening : List Nat) : Prop where
  stocked : ∀ n, Lanes.items i.lanes.channels n ≠ [] → i.Listed opening n
  numbered : ∀ n, i.Listed opening n → n < i.lanes.fresh

theorem Filed.fills {lane : Nat} {os : List Nat} (f : i.Filed os) (fills : i.Fills lane i')
    (h : i.Laned os) : i'.Filed os := by
  obtain ⟨channels, lanes, others⟩ := fills.lanes
  obtain ⟨w, writer⟩ := fills.writes
  have listed {n : Nat} : i'.Listed os n ↔ i.Listed os n := by rw [Listed, Listed, lanes]
  refine ⟨fun n some => listed.2 ?_, fun n on => ?_⟩
  · by_cases here : n = lane
    · exact here ▸ h.listed lane w writer
    · refine f.stocked n ?_
      rw [lanes] at some
      rwa [Lanes.items, others n here] at some
  · rw [lanes]
    exact f.numbered n (listed.1 on)

end Intake

namespace Broadcaster

variable {b b' : Broadcaster σ} {hs heard : List Input} {m : Move σ} {n lane later : Nat}

/-- What the service takes out of the lane, of what it hears. -/
def readFrom (b : Broadcaster σ) (n : Nat) (heard : List Input) : List Log :=
  if b.intake.lanes.next.2.queue.head? = some n then Input.logs heard else []

theorem readFrom_eq_nil (deaf : ∀ l, .log l ∉ heard) : b.readFrom n heard = [] := by
  rw [readFrom, Input.logs_eq_nil deaf, ite_self]

/-- What the service reads from the lane, and what is then left, is what was there. -/
theorem Steers.conserves (s : b.Steers b' heard) (h : b.Laned) (n : Nat) :
    b.intake.holds n = b.readFrom n heard ++ b'.intake.holds n := by
  have kept {i : Intake σ} (items : Lanes.items i.lanes.channels n =
      Lanes.items b.intake.lanes.channels n) (inHand : i.inHand n = b.intake.inHand n) :
      i.holds n = b.intake.holds n := by rw [Intake.holds, Intake.holds, items, inHand]
  -- a new lane has nothing in it, and there was none before
  have unheld : b.intake.holds b.intake.lanes.fresh = [] := by
    rw [Intake.holds, Lanes.items_eq_nil h.channel_fresh, Intake.inHand_eq_nil h.writer_fresh]
    rfl
  cases s with
  | holds _ _ _ intake deaf =>
    rw [readFrom_eq_nil deaf, intake]
    exact (kept rfl rfl).symm
  | @reads l lanes _ next _ _ _ intake hears =>
    obtain ⟨lane, rest, queue, takes⟩ := Lanes.next_takes next
    subst hears
    rw [readFrom, next, queue, intake]
    by_cases here : n = lane
    · subst here
      simp only [List.head?_cons, if_true, Intake.holds, takes.item]
      rfl
    · have other : some lane ≠ some n := fun same => here (Option.some.inj same).symm
      rw [List.head?_cons, if_neg other]
      exact Eq.symm (kept (takes.others n here) rfl)
  | begins _ _ _ _ intake retains deaf =>
    rw [readFrom_eq_nil deaf]
    exact (kept (by rw [intake]) (retains n).inHand).symm
  | opens _ _ _ _ _ intake deaf =>
    rw [readFrom_eq_nil deaf, intake]
    by_cases new : n = b.intake.lanes.fresh
    · rw [new, unheld, List.nil_append, Intake.holds,
        Intake.inHand_of_get? Table.get?_insert_self]
      exact Eq.symm (List.append_eq_nil_iff.2 ⟨Lanes.items_insert_self, rfl⟩)
    · refine (kept (Lanes.items_insert_of_ne new) ?_).symm
      rw [Intake.inHand, Intake.inHand, Table.get?_insert_of_ne new]
  | connects _ _ _ _ _ intake backfill retains _ deaf =>
    rw [readFrom_eq_nil deaf]
    by_cases new : n = b.intake.lanes.fresh
    · rw [new, unheld, List.nil_append, Intake.holds, Intake.inHand_of_get? backfill, intake]
      exact Eq.symm (List.append_eq_nil_iff.2 ⟨Lanes.items_insert_self, rfl⟩)
    · refine (kept ?_ (retains n new).inHand).symm
      rw [intake]
      exact Lanes.items_insert_of_ne new

def Filed (b : Broadcaster σ) : Prop := b.intake.Filed b.opening

theorem Steers.filed (s : b.Steers b' heard) (f : b.Filed) : b'.Filed := by
  have closed (none : b.opening = []) : b.intake.Filed [] := none ▸ f
  unfold Filed
  cases s with
  | holds _ _ opening intake =>
    rw [opening, intake]
    exact ⟨f.stocked, f.numbered⟩
  | begins _ _ before opening intake =>
    rw [opening, intake]
    exact ⟨(closed before).stocked, (closed before).numbered⟩
  | @reads l lanes _ next _ _ opening intake =>
    obtain ⟨lane, rest, queue, takes⟩ := Lanes.next_takes next
    have fresh : lanes.fresh = b.intake.lanes.fresh := by
      rw [← b.intake.lanes.next_fresh, next]
    rw [opening, intake]
    refine ⟨fun n some => ?_, fun n listed => ?_⟩
    · have before : Lanes.items b.intake.lanes.channels n ≠ [] := by
        by_cases here : n = lane
        · simp [here, takes.item]
        · rwa [← takes.others n here]
      refine (f.stocked n before).imp_left fun mem => ?_
      exact queue ▸ (takes.passed n mem).resolve_right before
    · refine Nat.lt_of_lt_of_eq (f.numbered n ?_) fresh.symm
      exact listed.imp_left fun mem => takes.suffix.subset (queue ▸ mem)
  | opens _ _ _ before opening intake =>
    rw [opening, intake]
    refine ⟨fun n some => ?_, fun n on => ?_⟩
    · by_cases new : n = b.intake.lanes.fresh
      · exact .inr (new ▸ List.mem_cons_self)
      · have stocked := (closed before).stocked n (by rwa [← Lanes.items_insert_of_ne new])
        exact stocked.imp_right fun none => absurd none List.not_mem_nil
    · rcases on with old | new
      · exact Nat.lt_succ_of_lt (f.numbered n (.inl old))
      · obtain rfl := List.mem_singleton.1 new
        exact Nat.lt_succ_self _
  | @connects next _ _ _ _ _ _ _ _ unlisted opening intake =>
    have f : b.intake.Filed [next] := unlisted ▸ f
    rw [opening, intake]
    refine ⟨fun n some => .inl (List.mem_append.2 ?_), fun n on => ?_⟩
    · by_cases new : n = b.intake.lanes.fresh
      · exact .inr (new ▸ List.mem_cons_self)
      · have old := f.stocked n (by rwa [← Lanes.items_insert_of_ne new])
        exact old.imp_right (List.mem_cons_of_mem _)
    · rcases List.mem_append.1 (on.resolve_right List.not_mem_nil) with old | new
      · exact Nat.lt_succ_of_lt (f.numbered n (.inl old))
      · rcases List.mem_cons.1 new with rfl | new
        · exact Nat.lt_succ_self _
        · exact Nat.lt_succ_of_lt (f.numbered n (.inr new))

theorem Goes.filed (free : b.desk.cancelled = false) (h : b.Laned) (g : b.Goes b' heard)
    (f : b.Filed) : b'.Filed := by
  cases g with
  | act acts => exact (acts.steers free).filed f
  | fill fills => exact f.fills fills h
  | beside beside => exact beside.steers.filed f

theorem Reached.filed (r : b.Reached hs) (free : b.desk.cancelled = false) : b.Filed := by
  induction r with
  | start => exact ⟨fun _ some => absurd rfl some, nofun⟩
  | move r m ih =>
    have before := r.free free
    exact (r.goes m).filed before (r.laned before) (ih before)

/-- Lanes from the number on are read after all others. -/
structure Behind (b : Broadcaster σ) (later : Nat) : Prop where
  fresh : later ≤ b.intake.lanes.fresh
  opening : ∀ n ∈ b.opening, later ≤ n
  order : b.intake.lanes.queue.Pairwise fun n n' => later ≤ n → later ≤ n'

theorem Filed.behind (f : b.Filed) (closed : b.opening = []) : b.Behind b.intake.lanes.fresh where
  fresh := Nat.le_refl _
  opening := by simp [closed]
  order := List.pairwise_of_forall_mem_list fun n mem _ _ above =>
    absurd (f.numbered n (.inl mem)) (Nat.not_lt.2 above)

theorem Steers.behind (s : b.Steers b' heard) (d : b.Behind later) : b'.Behind later := by
  have fresh := Nat.le_trans d.fresh s.fresh_le
  cases s with
  | holds _ _ opening intake =>
    refine ⟨fresh, opening ▸ d.opening, ?_⟩
    rw [intake]
    exact d.order
  | begins _ _ closed opening intake =>
    refine ⟨fresh, by simp [opening], ?_⟩
    rw [intake]
    exact d.order
  | reads next _ _ opening intake =>
    obtain ⟨lane, rest, queue, takes⟩ := Lanes.next_takes next
    refine ⟨fresh, opening ▸ d.opening, ?_⟩
    rw [intake]
    exact queue ▸ d.order.sublist takes.suffix.sublist
  | opens _ _ _ _ opening intake =>
    refine ⟨fresh, ?_, ?_⟩
    · simpa [opening] using d.fresh
    · rw [intake]
      exact d.order
  | @connects next _ _ _ _ _ _ _ _ unlisted opening intake =>
    have last : later ≤ next := d.opening next (by simp [unlisted])
    refine ⟨fresh, by simp [opening], ?_⟩
    rw [intake]
    refine List.pairwise_append.2 ⟨d.order, ?_, fun _ _ n mem _ => ?_⟩
    · simpa using fun _ => last
    · rcases List.mem_cons.1 mem with rfl | mem
      · exact d.fresh
      · exact List.mem_singleton.1 mem ▸ last

theorem Goes.behind (free : b.desk.cancelled = false) (g : b.Goes b' heard)
    (d : b.Behind later) : b'.Behind later := by
  cases g with
  | act acts => exact (acts.steers free).behind d
  | fill fills =>
    obtain ⟨channels, lanes, -⟩ := fills.lanes
    exact ⟨fills.fresh ▸ d.fresh, d.opening, by rw [lanes]; exact d.order⟩
  | beside beside => exact beside.steers.behind d

theorem Reached.behind (r : b.Reached hs) (d : b.Behind later) (ms : List (Move σ))
    (free : (b.run ms).desk.cancelled = false) : (b.run ms).Behind later := by
  exact r.preserves (P := (·.Behind later)) d ms free fun r before d m =>
    (r.goes m).behind before d

/-- Once a later lane is read, there is nothing left in the ones before it. -/
theorem Steers.read_last (s : b.Steers b' heard) (d : b.Behind later) (f : b.Filed)
    (read : b.readFrom lane heard ≠ []) (late : later ≤ lane) (early : n < later) :
    Lanes.items b.intake.lanes.channels n = [] := by
  cases s with
  | holds _ _ _ _ deaf | begins _ _ _ _ _ _ deaf | opens _ _ _ _ _ _ deaf
  | connects _ _ _ _ _ _ _ _ _ deaf => exact absurd (readFrom_eq_nil deaf) read
  | reads next =>
    obtain ⟨first, rest, queue, takes⟩ := Lanes.next_takes next
    have here : first = lane := by
      by_contra other
      simp [readFrom, next, queue, other] at read
    subst here
    by_contra some
    have queued : n ∈ b.intake.lanes.queue :=
      (f.stocked n some).resolve_right fun mem => Nat.not_le.2 early (d.opening n mem)
    have order := List.pairwise_cons.1 (d.order.sublist takes.suffix.sublist)
    rcases List.mem_cons.1 ((takes.passed n queued).resolve_right some) with rfl | mem
    · exact Nat.not_le.2 early late
    · exact Nat.not_le.2 early (order.1 n mem late)

end Broadcaster

end ChainHerald
