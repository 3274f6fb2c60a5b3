import ChainHerald.Proofs.LaneOrder

/-!
# A stream that fails

What a live stream yields is read, in its lane, or in the hands of its writer, in this order
(`Reached.accounted`), as long as nobody cancels the lane. A stream that fails ends with empty
hands, and its cycle gives the lane up only when the next one begins; so whatever it has yielded is
read before anything of a later cycle (`failed_stream_drained`). Each cycle is told of one failure
at most, that of its own stream (`Reported`).
-/

namespace ChainHerald

def FeedEvent.log? : FeedEvent → Option Log
  | .item l => some l
  | .failed _ | .ended => none

/-- A stream has failed or ended, and its cycle is told. -/
structure Breakdown where
  lane : Nat
  cycle : Nat
  error : ProviderError
  deriving DecidableEq

variable {σ : Type} [Source σ]

namespace Intake

variable {i i' : Intake σ} {lane n : Nat} {os : List Nat}

/-- What the writer of the lane gets from its stream when it is its turn, with the cycle of the
stream. -/
def receives (i : Intake σ) (lane : Nat) : Option (Nat × FeedEvent) :=
  match i.writers.get? lane with
  | some (.live feed none false cycle) =>
    if i.desk.cancelled then none
    else (Source.read feed i.desk.clock i.source).bind fun r => r.1.map (cycle, ·)
  | _ => none

/-- The log that the lane's stream yields. -/
def yield? (i : Intake σ) (lane : Nat) : Option Log := (i.receives lane).bind fun r => r.2.log?

/-- The failure that the lane's writer tells its cycle of. -/
def breakdown? (i : Intake σ) (lane : Nat) : Option Breakdown :=
  (i.receives lane).bind fun r => (feedError r.2).map (⟨lane, r.1, ·⟩)

theorem receives_of_waits (waits : i.step lane = none) : i.receives lane = none := by
  unfold receives
  split
  next feed cycle writer =>
    split
    · rfl
    next free =>
      simp only [step, writer, stepLive, Bool.eq_false_iff.2 free, Bool.or_self,
        Bool.false_eq_true, if_false] at waits
      split at waits
      next read => rw [read]; rfl
      · cases waits
  · rfl

/-- Whoever writes into the lane is a stream that nobody has cancelled. -/
def Carried (i : Intake σ) (n : Nat) : Prop :=
  ∀ w, i.writers.get? n = some w → w.cycle? ≠ none ∧ w.idle = false

theorem Steady.carried (steady : i.Steady n) : i.Carried n := by
  intro w held
  obtain ⟨cycle, busy⟩ := steady w held
  exact ⟨cycle ▸ Option.some_ne_none _, busy⟩

theorem carried_of_gone (gone : i.writers.get? n = none) : i.Carried n := by
  intro w held
  cases gone.symm.trans held

/-- What a stream yields is added to what its lane holds. -/
theorem Fills.conserves (f : i.Fills lane i') (h : i.Laned os) (free : i.desk.cancelled = false)
    (carried : i.Carried lane) : i'.holds lane = i.holds lane ++ (i.yield? lane).toList := by
  have finished {j : Intake σ}
      (items : Lanes.items j.lanes.channels lane = Lanes.items i.lanes.channels lane)
      (empty : i.inHand lane = []) (silent : i.yield? lane = none) :
      (j.finish lane).holds lane = i.holds lane ++ (i.yield? lane).toList := by
    have left : Lanes.items (j.finish lane).lanes.channels lane =
        Lanes.items i.lanes.channels lane := (Lanes.items_hangUp ..).trans items
    rw [silent, holds, holds, empty, inHand_eq_nil Table.get?_erase_self, left]
    simp
  cases f with
  | quit writer halted =>
    have busy := (carried _ writer).2
    simp [free, Writer.idle] at halted busy
    simp [halted] at busy
  | put writer sent =>
    obtain ⟨c, here, rfl⟩ := Lanes.send_accepted sent
    have silent : i.yield? lane = none := by simp [yield?, receives, writer]
    rw [silent, holds, holds, inHand_of_get? writer, Lanes.items_of_get? here,
      inHand_of_get? Table.get?_insert_self]
    simp [Writer.stock, Intake.put]
  | refused writer gone => exact absurd gone (h.not_unread writer)
  | @read feed held cycle feed' source writer read =>
    have yielded : i.yield? lane = held := by
      cases held <;> simp [yield?, receives, writer, free, read, FeedEvent.log?]
    rw [yielded, holds, holds, inHand_of_get? writer, inHand_of_get? Table.get?_insert_self]
    simp [Writer.stock, Intake.put]
  | @fail feed cycle event e feed' source writer read error =>
    have silent : i.yield? lane = none := by
      cases event <;> simp [feedError] at error <;>
        simp [yield?, receives, writer, free, read, FeedEvent.log?]
    refine finished ?_ (inHand_of_get? writer) silent
    exact congrArg (fun s : Lanes Log => Lanes.items s.channels lane) (report_lanes ..)
  | ask writer | fetch writer | send writer | range writer | exhaust writer =>
    exact absurd rfl (carried _ writer).1
  | cut writer backfill =>
    have live := (carried _ writer).1
    unfold Writer.cycle? at live
    split at live
    · exact absurd rfl (backfill _ _ _ _)
    · exact absurd rfl live

/-- A writer tells its cycle of a failure and goes, or nobody learns of anything. -/
theorem Fills.tells (f : i.Fills lane i') (free : i.desk.cancelled = false) :
    i.breakdown? lane = none ∧ i'.fault = i.fault ∨ ∃ cycle e,
      i.breakdown? lane = some ⟨lane, cycle, e⟩ ∧ i.StreamOf lane cycle ∧
      i'.writers.get? lane = none ∧
      (cycle = i.cycle ∧ i'.fault = some e ∨ i'.fault = i.fault) := by
  cases f with
  | quit writer halted =>
    obtain rfl := halted.resolve_left (by simp [free])
    exact .inl ⟨by simp [breakdown?, receives, writer], rfl⟩
  | put writer | refused writer | send writer | range writer | exhaust writer =>
    exact .inl ⟨by simp [breakdown?, receives, writer], rfl⟩
  | @read feed held cycle feed' source writer read =>
    refine .inl ⟨?_, rfl⟩
    cases held <;> simp [breakdown?, receives, writer, free, read, feedError]
  | @fail feed cycle event e feed' source writer read error =>
    refine .inr ⟨cycle, e, ?_, ⟨_, writer, rfl⟩, Table.get?_erase_self, ?_⟩
    · simp [breakdown?, receives, writer, free, read, error]
    · simp only [finish, release, report]
      split
      next first => exact .inl ⟨first.1, rfl⟩
      · exact .inr rfl
  | ask writer step | fetch writer step =>
    obtain ⟨⟨source, desk, rfl⟩, -, -⟩ := Retry.step_repeats step
    exact .inl ⟨by simp [breakdown?, receives, writer], rfl⟩
  | @cut w writer backfill =>
    refine .inl ⟨?_, rfl⟩
    cases w with
    | live => exact absurd rfl (backfill _ _ _ _)
    | fetching | sending => simp [breakdown?, receives, writer]

end Intake

namespace Broadcaster

variable {b b' : Broadcaster σ} {hs heard : List Input} {m : Move σ} {ms : List (Move σ)} {n : Nat}

/-- What the stream of the lane yields with the move. -/
def yields (n : Nat) (b : Broadcaster σ) : Move σ → List Log
  | .task (.lane lane) => if lane = n then (b.intake.yield? n).toList else []
  | _ => []

/-- What the service reads from the lane with the move. -/
def reads (n : Nat) (b : Broadcaster σ) (m : Move σ) : List Log := b.readFrom n (b.takes m)

/-- The failure that a cycle is told of with the move. -/
def breakdowns (b : Broadcaster σ) : Move σ → List Breakdown
  | .task (.lane lane) => (b.intake.breakdown? lane).toList
  | _ => []

def allYielded (b : Broadcaster σ) (n : Nat) (ms : List (Move σ)) : List Log :=
  b.trace (yields n) ms

def allRead (b : Broadcaster σ) (n : Nat) (ms : List (Move σ)) : List Log := b.trace (reads n) ms

def reports (b : Broadcaster σ) (ms : List (Move σ)) : List Breakdown := b.trace breakdowns ms

/-- Only a writer that moves hears of its stream. -/
theorem quiet_of_waits (waits : ∀ lane, m = .task (.lane lane) → b.intake.step lane = none) :
    (∀ n, b.yields n m = []) ∧ b.breakdowns m = [] := by
  refine ⟨fun n => ?_, ?_⟩
  · unfold yields
    split
    next lane =>
      rw [ite_eq_right_iff]
      rintro rfl
      simp [Intake.yield?, Intake.receives_of_waits (waits lane rfl)]
    · rfl
  · unfold breakdowns
    split
    next lane => simp [Intake.breakdown?, Intake.receives_of_waits (waits lane rfl)]
    · rfl

/-! ## What becomes of what a stream yields -/

theorem Reached.move_conserves (r : b.Reached hs) (free : b.desk.cancelled = false)
    (carried : b.intake.Carried n) (m : Move σ) :
    b.intake.holds n ++ b.yields n m = b.reads n m ++ (b.move m).intake.holds n := by
  have laned := r.laned free
  rcases r.turns free m with ⟨lane, i, rfl, fills, moved⟩ | ⟨waits, steers⟩
  · have deaf : b.reads n (.task (.lane lane)) = [] := readFrom_eq_nil fun _ => List.not_mem_nil
    rw [deaf, List.nil_append, moved]
    by_cases here : lane = n
    · subst here
      rw [yields, if_pos rfl]
      exact (fills.conserves laned free carried).symm
    · obtain ⟨channels, lanes, others⟩ := fills.lanes
      have other : n ≠ lane := Ne.symm here
      rw [yields, if_neg here, List.append_nil]
      simp only [Intake.holds, Intake.inHand, Lanes.items, lanes, others n other,
        fills.elsewhere other]
  · rw [(quiet_of_waits waits).1 n, List.append_nil]
    exact steers.conserves laned n

theorem Reached.conserves (r : b.Reached hs) (ms : List (Move σ))
    (free : (b.run ms).desk.cancelled = false)
    (carried : ∀ earlier later, ms = earlier ++ later → (b.run earlier).intake.Carried n) :
    b.intake.holds n ++ b.allYielded n ms = b.allRead n ms ++ (b.run ms).intake.holds n := by
  induction ms generalizing b hs with
  | nil => exact List.append_nil _
  | cons m ms ih =>
    have now := r.move_conserves (r.free_of_run free) (carried [] (m :: ms) rfl) m
    have rest := ih (r.move m) free fun earlier later split => by
      exact carried (m :: earlier) later (by rw [split]; rfl)
    calc b.intake.holds n ++ (b.yields n m ++ (b.move m).allYielded n ms)
      _ = b.reads n m ++ ((b.move m).intake.holds n ++ (b.move m).allYielded n ms) := by
        rw [← List.append_assoc, now, List.append_assoc]
      _ = b.reads n m ++ (b.move m).allRead n ms ++ (b.run (m :: ms)).intake.holds n := by
        rw [rest, List.append_assoc]
        rfl

/-- The lane is not there yet, or it is that of the cycle's own stream. -/
def Upcoming (b : Broadcaster σ) (n : Nat) : Prop :=
  b.intake.lanes.fresh ≤ n ∨ b.stream = some n

theorem Steers.upcoming (s : b.Steers b' heard) (up : b'.Upcoming n) : b.Upcoming n := by
  rcases up with late | on
  · exact .inl (Nat.le_trans s.fresh_le late)
  · cases s with
    | holds stream | reads _ stream => exact .inr (stream.symm.trans on)
    | begins stream => cases stream.symm.trans on
    | opens _ stream =>
      obtain rfl := Option.some.inj (stream.symm.trans on)
      exact .inl (Nat.le_refl _)
    | connects before stream => exact .inr (before.trans (stream.symm.trans on))

theorem Goes.upcoming (free : b.desk.cancelled = false) (g : b.Goes b' heard)
    (up : b'.Upcoming n) : b.Upcoming n := by
  cases g with
  | act acts => exact (acts.steers free).upcoming up
  | fill fills => exact up.imp_left fun late => fills.fresh ▸ late
  | beside beside => exact beside.steers.upcoming up

theorem Reached.upcoming (r : b.Reached hs) (ms : List (Move σ))
    (free : (b.run ms).desk.cancelled = false) (up : (b.run ms).Upcoming n) : b.Upcoming n := by
  induction ms generalizing b hs with
  | nil => exact up
  | cons m ms ih => exact (r.goes m).upcoming (r.free_of_run free) (ih (r.move m) free up)

theorem Upcoming.carried (up : b.Upcoming n) (h : b.Laned) (o : b.Owned) : b.intake.Carried n := by
  rcases up with late | on
  · intro w held
    obtain ⟨c, there, -⟩ := h.channel n w held
    exact absurd (h.fresh n c there) (Nat.not_lt.2 late)
  · exact (o.steady n on).carried

/-- Nobody writes into the lane any more. -/
structure Left (b : Broadcaster σ) (n : Nat) : Prop where
  old : n < b.intake.lanes.fresh
  gone : b.intake.writers.get? n = none

theorem Steers.left (s : b.Steers b' heard) (left : b.Left n) : b'.Left n := by
  refine ⟨Nat.lt_of_lt_of_le left.old s.fresh_le, ?_⟩
  have old := Nat.ne_of_lt left.old
  cases s with
  | holds _ _ _ intake | reads _ _ _ _ intake =>
    rw [intake]
    exact left.gone
  | begins _ _ _ _ _ retains => exact (retains n).gone left.gone
  | opens _ _ _ _ _ intake =>
    rw [intake]
    exact (Table.get?_insert_of_ne old).trans left.gone
  | connects _ _ _ _ _ _ _ retains => exact (retains n old).gone left.gone

theorem Left.fills {lane : Nat} {i : Intake σ} (left : b.Left n) (fills : b.intake.Fills lane i) :
    Left { b with intake := i } n := by
  refine ⟨fills.fresh ▸ left.old, ?_⟩
  have other : n ≠ lane := by
    rintro rfl
    obtain ⟨w, writer⟩ := fills.writes
    cases left.gone.symm.trans writer
  exact (fills.elsewhere other).trans left.gone

theorem Goes.left (free : b.desk.cancelled = false) (g : b.Goes b' heard) (left : b.Left n) :
    b'.Left n := by
  cases g with
  | act acts => exact (acts.steers free).left left
  | fill fills => exact left.fills fills
  | beside beside => exact beside.steers.left left

theorem Reached.left (r : b.Reached hs) (left : b.Left n) (ms : List (Move σ))
    (free : (b.run ms).desk.cancelled = false) : (b.run ms).Left n := by
  exact r.preserves (P := (·.Left n)) left ms free fun r before left m =>
    (r.goes m).left before left

/-! ## What a cycle is told of -/

/-- Each cycle is told of one failure at most, by its own stream, which is over then. What is known
is what the cycle was told of. -/
structure Reported (b : Broadcaster σ) (ds : List Breakdown) : Prop where
  past : ∀ d ∈ ds, d.cycle ≤ b.intake.cycle
  once : (ds.map (·.cycle)).Nodup
  finished : ∀ d ∈ ds, ∀ n, ¬ b.intake.StreamOf n d.cycle
  closed : b.stream = none → ∀ d ∈ ds, d.cycle ≠ b.intake.cycle
  known : ∀ e, b.intake.fault = some e → ∃ n, b.stream = some n ∧
    b.intake.writers.get? n = none ∧ ⟨n, b.intake.cycle, e⟩ ∈ ds

variable {ds : List Breakdown} {e : ProviderError}

theorem Steers.fault (s : b.Steers b' heard) (known : b'.intake.fault = some e) :
    b.intake.fault = some e ∧ b'.intake.cycle = b.intake.cycle := by
  cases s with
  | holds _ _ _ intake | reads _ _ _ _ intake | opens _ _ _ _ _ intake
  | connects _ _ _ _ _ intake =>
    rw [intake] at known ⊢
    exact ⟨known, rfl⟩
  | begins _ _ _ _ intake =>
    rw [intake] at known
    cases known

theorem Steers.reported (s : b.Steers b' heard) (o : b.Owned) (t : b.Reported ds) :
    b'.Reported ds where
  past d mem := by
    have now := t.past d mem
    rcases s.cycle with ⟨same, -⟩ | ⟨next, -⟩ <;> omega
  once := t.once
  finished d mem n feeds := by
    rcases s.streamOf feeds with old | ⟨-, now, none, -⟩
    · exact t.finished d mem n old
    · exact t.closed none d mem now
  closed none d mem now := by
    rcases s.cycle with ⟨same, before⟩ | ⟨next, -⟩
    · have nobody := before.elim id fun stream => stream.symm.trans none
      exact t.closed nobody d mem (now.trans same)
    · exact absurd (t.past d mem) (by omega)
  known e fault := by
    obtain ⟨before, same⟩ := s.fault fault
    obtain ⟨n, on, gone, mem⟩ := t.known e before
    have left : b.Left n := ⟨o.opened n on, gone⟩
    refine ⟨n, ?_, (s.left left).gone, same ▸ mem⟩
    rcases s.cycle with ⟨-, none | stream⟩ | ⟨next, -⟩
    · cases none.symm.trans on
    · exact stream.trans on
    · omega

theorem Reported.fills {lane : Nat} {i : Intake σ} (t : b.Reported ds) (o : b.Owned)
    (fills : b.intake.Fills lane i) (free : b.desk.cancelled = false) :
    Reported { b with intake := i } (ds ++ (b.intake.breakdown? lane).toList) := by
  have cycle : i.cycle = b.intake.cycle := fills.fault.1
  have known {ds' : List Breakdown} (same : i.fault = b.intake.fault) (all : ds ⊆ ds') (e)
      (fault : i.fault = some e) : ∃ n, b.stream = some n ∧ i.writers.get? n = none ∧
        ⟨n, i.cycle, e⟩ ∈ ds' := by
    obtain ⟨n, on, gone, mem⟩ := t.known e (same ▸ fault)
    have left : b.Left n := ⟨o.opened n on, gone⟩
    exact ⟨n, on, (left.fills fills).gone, cycle ▸ all mem⟩
  rcases fills.tells free with ⟨silent, same⟩ | ⟨c, e, told, streamOf, gone, fault⟩
  · rw [silent, Option.toList_none, List.append_nil]
    exact ⟨cycle ▸ t.past, t.once, fun d mem n feeds => t.finished d mem n (fills.streamOf feeds),
      cycle ▸ t.closed, known same (List.Subset.refl _)⟩
  · have new {d : Breakdown} : d ∈ ds ++ (b.intake.breakdown? lane).toList ↔
        d ∈ ds ∨ d = ⟨lane, c, e⟩ := by simp [told]
    refine ⟨fun d mem => ?_, ?_, fun d mem n feeds => ?_, fun none d mem => ?_, fun e' known' => ?_⟩
    · rw [cycle]
      rcases new.1 mem with old | rfl
      · exact t.past d old
      · exact o.past lane c streamOf
    · rw [told, Option.toList_some, List.map_append, List.nodup_append]
      refine ⟨t.once, by simp, ?_⟩
      rintro c' mem c'' here rfl
      obtain ⟨d, old, rfl⟩ := List.mem_map.1 mem
      obtain rfl : d.cycle = c := by simpa using here
      exact t.finished d old lane streamOf
    · rcases new.1 mem with old | rfl
      · exact t.finished d old n (fills.streamOf feeds)
      · obtain rfl := o.sole n lane c (fills.streamOf feeds) streamOf
        obtain ⟨w, held, -⟩ := feeds
        cases gone.symm.trans held
    · rw [cycle]
      rcases new.1 mem with old | rfl
      · exact t.closed none d old
      · rintro rfl
        exact o.unfed none streamOf
    · rcases fault with ⟨rfl, now⟩ | same
      · obtain rfl := Option.some.inj (now.symm.trans known')
        exact ⟨lane, o.own lane streamOf, gone, new.2 (.inr (cycle ▸ rfl))⟩
      · exact known same (List.subset_append_left _ _) e' known'

theorem Reached.reported (r : b.Reached hs) (t : b.Reported ds) (ms : List (Move σ))
    (free : (b.run ms).desk.cancelled = false) : (b.run ms).Reported (ds ++ b.reports ms) := by
  induction ms generalizing b hs ds with
  | nil =>
    rw [show b.reports [] = [] from rfl, List.append_nil]
    exact t
  | cons m ms ih =>
    have before := r.free_of_run free
    have owned := r.owned before
    have now : (b.move m).Reported (ds ++ b.breakdowns m) := by
      rcases r.turns before m with ⟨lane, i, rfl, fills, moved⟩ | ⟨waits, steers⟩
      · rw [moved]
        exact t.fills owned fills before
      · rw [(quiet_of_waits waits).2, List.append_nil]
        exact steers.reported owned t
    rw [show b.reports (m :: ms) = b.breakdowns m ++ (b.move m).reports ms from rfl,
      ← List.append_assoc]
    exact ih (r.move m) now free

/-! ## Runs -/

theorem Reached.silent (r : b.Reached hs) (left : b.Left n) (ms : List (Move σ))
    (free : (b.run ms).desk.cancelled = false) : b.allYielded n ms = [] := by
  induction ms generalizing b hs with
  | nil => rfl
  | cons m ms ih =>
    have before := r.free_of_run free
    have now : b.yields n m = [] := by
      unfold yields
      split
      · rw [ite_eq_right_iff]
        intro
        simp [Intake.yield?, Intake.receives, left.gone]
      · rfl
    exact List.append_eq_nil_iff.2 ⟨now, ih (r.move m) ((r.goes m).left before left) free⟩

theorem filter_key {l : List Breakdown} {d : Breakdown} (once : (l.map (·.cycle)).Nodup)
    (mem : d ∈ l) : l.filter (·.cycle == d.cycle) = [d] := by
  induction l with
  | nil => cases mem
  | cons x l ih =>
    obtain ⟨new, once⟩ := List.nodup_cons.1 once
    rcases List.mem_cons.1 mem with rfl | mem
    · have others : l.filter (·.cycle == d.cycle) = [] := by
        refine List.filter_eq_nil_iff.2 fun y old same => new ?_
        exact List.mem_map.2 ⟨y, old, eq_of_beq same⟩
      simp [others]
    · have other : x.cycle ≠ d.cycle := fun same => new (List.mem_map.2 ⟨d, mem, same.symm⟩)
      simp [other, ih once mem]

/-- Nobody cancels the lane of a stream before it is over. -/
theorem Reached.carried (r : b.Reached hs) {more : List (Move σ)} (up : (b.run ms).Upcoming n)
    (left : (b.run ms).Left n) (free : (b.run (ms ++ more)).desk.cancelled = false)
    (earlier later : List (Move σ)) (split : ms ++ more = earlier ++ later) :
    (b.run earlier).intake.Carried n := by
  rw [split, run_append] at free
  rcases List.append_eq_append_iff.1 split with ⟨since, rfl, rfl⟩ | ⟨yet, rfl, rfl⟩
  · rw [run_append] at free ⊢
    have free := ((r.run ms).run since).free_of_run free
    exact Intake.carried_of_gone ((r.run ms).left left since free).gone
  · rw [run_append] at up free
    have now := ((r.run earlier).run yet).free_of_run free
    have before := (r.run earlier).free_of_run now
    exact ((r.run earlier).upcoming yet now up).carried ((r.run earlier).laned before)
      ((r.run earlier).owned before)

/-- What a stream has yielded was read, or it is in the lane or in the writer's hands. -/
theorem Reached.accounted (r : b.Reached hs) (unheld : b.intake.holds n = [])
    {more : List (Move σ)} (up : (b.run ms).Upcoming n) (left : (b.run ms).Left n)
    (free : (b.run (ms ++ more)).desk.cancelled = false) (earlier later : List (Move σ))
    (split : ms ++ more = earlier ++ later) :
    b.allYielded n earlier = b.allRead n earlier ++ (b.run earlier).intake.holds n := by
  have carried := r.carried up left free
  rw [split, run_append] at free
  have conserved := r.conserves earlier ((r.run earlier).free_of_run free) fun first rest part =>
    carried first (rest ++ later) (by rw [split, part, List.append_assoc])
  rwa [unheld] at conserved

/-- A stream that is over yields nothing more, and what it has yielded was read or is in the
lane. -/
theorem Reached.kept (r : b.Reached hs) (unheld : b.intake.holds n = []) {more : List (Move σ)}
    (up : (b.run ms).Upcoming n) (left : (b.run ms).Left n)
    (free : (b.run (ms ++ more)).desk.cancelled = false) :
    b.allYielded n (ms ++ more) = b.allYielded n ms ∧
    b.allYielded n ms =
      b.allRead n (ms ++ more) ++ Lanes.items (b.run (ms ++ more)).intake.lanes.channels n := by
  have accounted := r.accounted unheld up left free (ms ++ more) [] (List.append_nil _).symm
  rw [run_append] at free accounted ⊢
  have silent : (b.run ms).allYielded n more = [] := (r.run ms).silent left more free
  have same : b.allYielded n (ms ++ more) = b.allYielded n ms := by
    rw [allYielded, trace_append]
    exact (congrArg _ silent).trans (List.append_nil _)
  have gone := Intake.inHand_eq_nil ((r.run ms).left left more free).gone
  rw [Intake.holds, gone, List.append_nil] at accounted
  exact ⟨same, same.symm.trans accounted⟩

/-- A failing stream of another cycle than the one that is on ends nothing. -/
theorem Reached.fault_elsewhere {d : Breakdown} (r : b.Reached hs)
    (free : b.desk.cancelled = false) (mem : d ∈ b.breakdowns m)
    (other : d.cycle ≠ b.intake.cycle) : (b.move m).intake.fault = b.intake.fault := by
  rcases r.turns free m with ⟨lane, i, rfl, fills, moved⟩ | ⟨waits, -⟩
  · rw [moved]
    rcases fills.tells free with ⟨silent, -⟩ | ⟨cycle, e, told, -, -, ⟨own, -⟩ | same⟩
    · simp [breakdowns, silent] at mem
    · obtain rfl : d = ⟨lane, cycle, e⟩ := by simpa [breakdowns, told] using mem
      exact absurd own other
    · exact same
  · simp [(quiet_of_waits waits).2] at mem

/-- When a lane that opened later is read, the ones from before are empty. -/
theorem Reached.emptied {later lane : Nat} (r : b.Reached hs) (behind : b.Behind later)
    (free : b.desk.cancelled = false) (read : b.reads lane m ≠ []) (late : later ≤ lane)
    (early : n < later) : Lanes.items b.intake.lanes.channels n = [] := by
  rcases r.turns free m with ⟨k, i, rfl, -, -⟩ | ⟨-, steers⟩
  · exact absurd (readFrom_eq_nil fun _ => List.not_mem_nil) read
  · exact steers.read_last behind (r.filed free) read late early

/-- What a stream has yielded before its failure ended the cycle, and what becomes of it. -/
structure Preserves (b : Broadcaster σ) (ms more : List (Move σ)) (n : Nat) (e : ProviderError) :
    Prop where
  ends : (b.run ms).Renews ((b.run ms).move (.task .service))
  told : (b.reports (ms ++ more)).filter (·.cycle == (b.run ms).intake.cycle) =
    [⟨n, (b.run ms).intake.cycle, e⟩]
  in_order : ∀ earlier later, ms ++ more = earlier ++ later →
    b.allRead n earlier <+: b.allYielded n earlier
  finished : b.allYielded n (ms ++ more) = b.allYielded n ms
  kept : b.allYielded n ms =
    b.allRead n (ms ++ more) ++ Lanes.items (b.run (ms ++ more)).intake.lanes.channels n
  queued : Lanes.items (b.run (ms ++ more)).intake.lanes.channels n ≠ [] →
    n ∈ (b.run (ms ++ more)).intake.lanes.queue
  /-- Lanes that open after the failure are those of later cycles. -/
  first : ∀ earlier m later lane, more = earlier ++ m :: later →
    (b.run ms).intake.lanes.fresh ≤ lane → (b.run (ms ++ earlier)).reads lane m ≠ [] →
    b.allRead n (ms ++ earlier) = b.allYielded n ms

/-- A stream that fails or ends loses nothing that it has yielded. Its cycle is told once, ends, and
goes on to read from the stream's lane what was put there, in order and to the last log, before it
reads from the lane of a later cycle. A stream of an earlier cycle that fails changes nothing. -/
theorem failed_stream_drained (settings : Settings) (source : σ) (ledger : Ledger)
    (ms : List (Move σ)) :
    let init : Broadcaster σ := new settings source ledger
    (∀ m d, (init.run ms).desk.cancelled = false → d ∈ (init.run ms).breakdowns m →
      d.cycle ≠ (init.run ms).intake.cycle →
      ((init.run ms).move m).intake.fault = (init.run ms).intake.fault) ∧
    ∀ tick e, (init.run ms).phase = .serving tick → (init.run ms).intake.fault = some e →
      ∀ more, (init.run (ms ++ more)).desk.cancelled = false →
      ∃ n, (init.run ms).current = some n ∧ init.Preserves ms more n e := by
  intro init
  have start : init.Reached [] := .start settings source ledger
  refine ⟨fun m d free => (start.run ms).fault_elsewhere free, ?_⟩
  intro tick e phase fault more free
  have onward : ((init.run ms).run more).desk.cancelled = false := run_append init ms more ▸ free
  have r := start.run ms
  have now := r.free_of_run onward
  have owned := r.owned now
  have unreported : init.Reported [] :=
    ⟨List.forall_mem_nil _, List.nodup_nil, List.forall_mem_nil _, fun _ => List.forall_mem_nil _,
      nofun⟩
  obtain ⟨n, on, gone, mem⟩ := (start.reported unreported ms now).known e fault
  have current : (init.run ms).current = some n := by simpa [stream, phase] using on
  have closed : (init.run ms).opening = [] := by simp [opening, phase]
  have left : (init.run ms).Left n := ⟨owned.opened n on, gone⟩
  have behind := (r.filed now).behind closed
  have upto {since later : List (Move σ)} (split : more = since ++ later) :
      ((init.run ms).run since).desk.cancelled = false := by
    rw [split, run_append] at onward
    exact (r.run since).free_of_run onward
  obtain ⟨finished, kept⟩ := start.kept rfl (.inr on) left free
  refine ⟨n, current, ?_, ?_, ?_, finished, kept, fun some => ?_, ?_⟩
  · exact Broken.served ⟨rfl, fault⟩ phase now
  · have once : ((init.reports (ms ++ more)).map (·.cycle)).Nodup :=
      (start.reported unreported (ms ++ more) free).once
    have told : ⟨n, (init.run ms).intake.cycle, e⟩ ∈ init.reports (ms ++ more) := by
      rw [reports, trace_append]
      exact List.mem_append_left _ mem
    exact filter_key once told
  · exact fun earlier later split =>
      ⟨_, (start.accounted rfl (.inr on) left free earlier later split).symm⟩
  · rw [run_append] at some ⊢
    refine (((r.run more).filed onward).stocked n some).resolve_right fun opening => ?_
    exact Nat.not_le.2 left.old ((r.behind behind more onward).opening n opening)
  · rintro since m later lane split late read
    have free := upto split
    rw [run_append] at read
    have empty := (r.run since).emptied (r.behind behind since free) free read late left.old
    have rest := (start.kept rfl (.inr on) left ((run_append init ms since).symm ▸ free)).2
    rw [run_append, empty, List.append_nil] at rest
    exact rest.symm

end Broadcaster

namespace Example

/-- Up to a subscription that has yielded two logs and failed, with a backfill still under way. -/
def breaking : List (Move ScriptedChain) :=
  [.register keeper options, .start] ++ List.replicate 3 (.task .service) ++
    [.node (·.emit log), .node (·.emit second), .node (·.failSubscriptions .timeout)] ++
    List.replicate 5 (.task (.lane 0))

/-- Until the backfill of the next cycle is read, too. -/
def recovering : List (Move ScriptedChain) :=
  List.replicate 3 (.task .service) ++ List.replicate 4 (.task (.lane 1)) ++
    List.replicate 4 (.task (.lane 3)) ++ List.replicate 8 (.task .service)

theorem broken_stream_drained :
    (∃ n, (start.run breaking).current = some n ∧
      start.Preserves breaking recovering n .timeout) ∧
    (start.run breaking).current = some 0 ∧
    start.allRead 0 breaking = [] ∧ start.allRead 0 (breaking ++ recovering) = [log, second] ∧
    start.allRead 3 (breaking ++ recovering) = [log] := by
  have drained := Broadcaster.failed_stream_drained .standard
    { ScriptedChain.new 5 with history := [log] } .empty breaking
  refine ⟨drained.2 1000 .timeout (by with_unfolding_all rfl) (by decide +kernel) recovering
    (by decide +kernel), ?_, ?_, ?_, ?_⟩
  all_goals decide +kernel

end Example

end ChainHerald
