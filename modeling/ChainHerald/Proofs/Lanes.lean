import ChainHerald.Proofs.Delivery
import ChainHerald.Proofs.Service

/-!
# What is on its way to the pool

A log that a writer has read or fetched is in its hands, then in the lane, and then the service
hears of it (`Broadcaster.stored_until_read`). Replacing a subscription leaves the lanes as they
are; but what the writer of the old one has in its hands at that moment, because the lane is full,
is forfeit.
-/

namespace ChainHerald

open Source (Feed)

namespace Lanes

variable {α : Type} {channels channels' : Table Nat (Channel α)} {queue queue' : List Nat} {a : α}

/-- Nothing is in the lane and nothing more will be. -/
def Drained (channels : Table Nat (Channel α)) (n : Nat) : Prop :=
  ∀ c, channels.get? n = some c → c.buffer = [] ∧ c.writable = false

/-- Reading takes one item out of one channel, and only drained lanes leave the queue. -/
structure Reads (channels : Table Nat (Channel α)) (queue : List Nat) (a : α)
    (channels' : Table Nat (Channel α)) (queue' : List Nat) : Prop where
  queued : ∀ n ∈ queue, Drained channels n ∨ n ∈ queue'
  kept : ∀ n c, channels.get? n = some c → Drained channels n ∨
    channels'.get? n = some c ∨
    ∃ rest, c.buffer = a :: rest ∧ channels'.get? n = some { c with buffer := rest }
  old : ∀ n c, channels'.get? n = some c → ∃ c', channels.get? n = some c'

theorem take_item {c c' : Channel α} (h : c.take = (.item a, c')) :
    ∃ rest, c.buffer = a :: rest ∧ c' = { c with buffer := rest } := by
  unfold Channel.take at h
  split at h
  next x rest buffer =>
    cases h
    exact ⟨rest, buffer, rfl⟩
  · split at h <;> cases h

theorem take_ended {c c' : Channel α} (h : c.take = (.ended, c')) :
    c.buffer = [] ∧ c.writable = false := by
  unfold Channel.take at h
  split at h
  · cases h
  next buffer =>
    split at h
    · cases h
    next closed => exact ⟨buffer, Bool.eq_false_iff.2 closed⟩

theorem nextIn_reads (h : nextIn channels queue = (.item a, channels', queue')) :
    Reads channels queue a channels' queue' := by
  -- lanes are erased on the way, so the induction is for any table
  induction queue generalizing channels with
  | nil => cases h
  | cons lane rest ih =>
    unfold nextIn at h
    split at h
    next c' taken =>
      cases h
      obtain ⟨c, here, taken⟩ := Option.map_eq_some_iff.1 taken
      obtain ⟨items, buffer, rfl⟩ := take_item taken
      refine ⟨fun n mem => .inr mem, fun n d held => .inr ?_, fun n d held => ?_⟩
      · by_cases at_lane : n = lane
        · subst at_lane
          obtain rfl := Option.some.inj (here.symm.trans held)
          exact .inr ⟨items, buffer, Table.get?_insert_self⟩
        · exact .inl ((Table.get?_insert_of_ne at_lane).trans held)
      · by_cases at_lane : n = lane
        · exact ⟨c, at_lane ▸ here⟩
        · exact ⟨d, Table.get?_insert_of_ne at_lane ▸ held⟩
    · cases h
    next taken =>
      obtain ⟨c, here, taken⟩ := Option.map_eq_some_iff.1 taken
      have gone : Drained channels lane := by
        intro d held
        obtain rfl := Option.some.inj (here.symm.trans held)
        exact take_ended taken
      obtain ⟨queued, kept, old⟩ := ih h
      have drained {n : Nat} (d : Drained (channels.erase lane) n) : Drained channels n := by
        by_cases at_lane : n = lane
        · exact at_lane ▸ gone
        · intro c held
          exact d c ((Table.get?_erase_of_ne at_lane).trans held)
      refine ⟨fun n mem => ?_, fun n c held => ?_, fun n c held => ?_⟩
      · rcases List.mem_cons.1 mem with rfl | mem
        · exact .inl gone
        · exact (queued n mem).imp_left drained
      · by_cases at_lane : n = lane
        · exact .inl (at_lane ▸ gone)
        · exact (kept n c ((Table.get?_erase_of_ne at_lane).trans held)).imp_left drained
      · obtain ⟨c', held'⟩ := old n c held
        by_cases at_lane : n = lane
        · exact ⟨_, at_lane ▸ here⟩
        · exact ⟨c', Table.get?_erase_of_ne at_lane ▸ held'⟩
    next absent =>
      obtain ⟨queued, kept, old⟩ := ih h
      refine ⟨fun n mem => ?_, kept, old⟩
      rcases List.mem_cons.1 mem with rfl | mem
      · refine .inl fun c held => ?_
        simp [held] at absent
      · exact queued n mem

theorem foldl_enqueue (s : Lanes α) (ns : List Nat) :
    ns.foldl enqueue s = { s with queue := s.queue ++ ns } := by
  induction ns generalizing s with
  | nil => simp
  | cons n ns ih => simp [ih, enqueue]

theorem send_accepted {s s' : Lanes α} {lane : Nat} (h : s.send lane a = some (.accepted, s')) :
    ∃ c, s.channels.get? lane = some c ∧
      s' = { s with channels := s.channels.insert lane { c with buffer := c.buffer ++ [a] } } := by
  obtain ⟨c, here, sent⟩ := Option.map_eq_some_iff.1 h
  obtain ⟨verdict, rfl⟩ := Prod.mk.inj sent
  refine ⟨c, here, ?_⟩
  unfold Channel.send at verdict ⊢
  split
  next closed => simp [closed] at verdict
  next opened =>
    split
    · rfl
    next full => simp [opened, full] at verdict

end Lanes

/-! ## In the hands of a writer -/

variable {σ : Type} [Source σ]

namespace Writer

/-- What it still has to put down. -/
def stock : Writer σ → List Log
  | .live _ held _ _ => held.toList
  | .fetching .. => []
  | .sending _ _ batch => batch

/-- Whether it will put nothing down any more. -/
def idle : Writer σ → Bool
  | .live _ _ cancelled _ => cancelled
  | _ => false

end Writer

namespace Intake

/-- A lane is read when it is in the queue, or will be when it gets there. -/
def Listed (i : Intake σ) (opening : List Nat) (n : Nat) : Prop :=
  n ∈ i.lanes.queue ∨ n ∈ opening

/-- Every writer has a lane with both ends open that is read or will be. `opening` are the lanes that
are not in the queue yet. -/
structure Laned (i : Intake σ) (opening : List Nat) : Prop where
  fresh : ∀ n c, i.lanes.channels.get? n = some c → n < i.lanes.fresh
  listed : ∀ n w, i.writers.get? n = some w → i.Listed opening n
  channel : ∀ n w, i.writers.get? n = some w →
    ∃ c, i.lanes.channels.get? n = some c ∧ c.readable = true ∧ c.writable = true

/-- In a lane. -/
def Buffered (i : Intake σ) (opening : List Nat) (l : Log) : Prop :=
  ∃ n c, i.Listed opening n ∧ i.lanes.channels.get? n = some c ∧ l ∈ c.buffer

/-- In the hands of a writer that is to put it down. -/
def Held (i : Intake σ) (l : Log) : Prop :=
  ∃ n w, i.writers.get? n = some w ∧ w.idle = false ∧ l ∈ w.stock

/-- In the hands of a writer that will not put it down. -/
def Forfeit (i : Intake σ) (l : Log) : Prop :=
  ∃ n w, i.writers.get? n = some w ∧ w.idle = true ∧ l ∈ w.stock

variable {i i' i'' : Intake σ} {os os' os'' : List Nat} {lane : Nat} {v w : Writer σ} {l : Log}

theorem buffered_iff : i.Buffered os l ↔
    ∃ n ∈ i.lanes.queue ++ os, ∃ c ∈ i.lanes.channels.get? n, l ∈ c.buffer := by
  simp only [Buffered, Listed, List.mem_append, Option.mem_def]
  constructor
  · rintro ⟨n, c, here, held, mem⟩
    exact ⟨n, here, c, held, mem⟩
  · rintro ⟨n, here, c, held, mem⟩
    exact ⟨n, c, here, held, mem⟩

theorem held_iff : i.Held l ↔ ∃ w ∈ i.writers.values, w.idle = false ∧ l ∈ w.stock := by
  simp only [Held, Table.mem_values]
  constructor
  · rintro ⟨n, w, held, busy, mem⟩
    exact ⟨w, ⟨n, held⟩, busy, mem⟩
  · rintro ⟨w, ⟨n, held⟩, busy, mem⟩
    exact ⟨n, w, held, busy, mem⟩

instance : Decidable (i.Buffered os l) := decidable_of_iff _ buffered_iff.symm

instance : Decidable (i.Held l) := decidable_of_iff _ held_iff.symm

/-- Nothing gets lost. -/
structure Keeps (i : Intake σ) (os : List Nat) (i' : Intake σ) (os' : List Nat) : Prop where
  laned : i'.Laned os'
  buffered : ∀ l, i.Buffered os l → i'.Buffered os' l
  held : ∀ l, i.Held l → i'.Held l ∨ i'.Buffered os' l

theorem Keeps.trans (h : i.Keeps os i' os') (h' : i'.Keeps os' i'' os'') :
    i.Keeps os i'' os'' where
  laned := h'.laned
  buffered l b := h'.buffered l (h.buffered l b)
  held l b := (h.held l b).elim (h'.held l) fun b => .inr (h'.buffered l b)

theorem Laned.keeps_same (h : i.Laned os) (lanes : i'.lanes = i.lanes)
    (writers : i'.writers = i.writers) : i.Keeps os i' os := by
  refine ⟨⟨?_, ?_, ?_⟩, ?_, ?_⟩
  · exact lanes ▸ h.fresh
  · rw [writers]
    unfold Listed
    exact lanes ▸ h.listed
  · rw [writers]
    exact lanes ▸ h.channel
  · unfold Buffered Listed
    rw [lanes]
    exact fun _ => id
  · unfold Held
    rw [writers]
    exact fun _ => .inl

/-- A writer's lane takes a log. -/
theorem Laned.send (h : i.Laned os) {lanes : Lanes Log}
    (sent : i.lanes.send lane l = some (.accepted, lanes)) :
    i.Keeps os { i with lanes } os ∧ (i.Listed os lane → Buffered { i with lanes } os l) := by
  obtain ⟨c, here, rfl⟩ := Lanes.send_accepted sent
  have more {n : Nat} {d : Channel Log} (held : i.lanes.channels.get? n = some d) :
      ∃ d', (i.lanes.channels.insert lane { c with buffer := c.buffer ++ [l] }).get? n = some d' ∧
        d'.readable = d.readable ∧ d'.writable = d.writable ∧ ∀ x ∈ d.buffer, x ∈ d'.buffer := by
    by_cases at_lane : n = lane
    · subst at_lane
      obtain rfl := Option.some.inj (here.symm.trans held)
      exact ⟨_, Table.get?_insert_self, rfl, rfl, fun x => List.mem_append_left [l]⟩
    · exact ⟨d, (Table.get?_insert_of_ne at_lane).trans held, rfl, rfl, fun _ => id⟩
  refine ⟨⟨⟨?_, h.listed, ?_⟩, ?_, fun _ => .inl⟩, ?_⟩
  · intro n d held
    by_cases at_lane : n = lane
    · exact at_lane ▸ h.fresh lane c here
    · exact h.fresh n d (Table.get?_insert_of_ne at_lane ▸ held)
  · intro n w held
    obtain ⟨d, there, readable, writable⟩ := h.channel n w held
    obtain ⟨d', there', readable', writable', -⟩ := more there
    exact ⟨d', there', readable'.trans readable, writable'.trans writable⟩
  · rintro x ⟨n, d, listed, held, mem⟩
    obtain ⟨d', there', -, -, more⟩ := more held
    exact ⟨n, d', listed, there', more x mem⟩
  · intro listed
    exact ⟨lane, _, listed, Table.get?_insert_self, List.mem_append_right c.buffer List.mem_cons_self⟩

/-- A writer goes on, with what it does not have in its hands any more put down. -/
theorem Laned.put (h : i.Laned os) (writer : i.writers.get? lane = some v)
    (active : w.idle = false)
    (stock : ∀ l ∈ v.stock, l ∈ w.stock ∨ i.Buffered os l) : i.Keeps os (i.put lane w) os := by
  have before {n : Nat} {u : Writer σ} (held : (i.put lane w).writers.get? n = some u) :
      ∃ u', i.writers.get? n = some u' := by
    rcases get?_put held with ⟨rfl, -⟩ | ⟨-, older⟩
    · exact ⟨v, writer⟩
    · exact ⟨u, older⟩
  refine ⟨⟨h.fresh, ?_, ?_⟩, fun _ => id, ?_⟩
  · intro n u held
    obtain ⟨u', older⟩ := before held
    exact h.listed n u' older
  · intro n u held
    obtain ⟨u', older⟩ := before held
    exact h.channel n u' older
  · rintro l ⟨n, u, held, busy, mem⟩
    by_cases at_lane : n = lane
    · subst at_lane
      obtain rfl := Option.some.inj (writer.symm.trans held)
      refine (stock l mem).imp_left fun mem => ?_
      exact ⟨n, w, Table.get?_insert_self, active, mem⟩
    · exact .inl ⟨n, u, (Table.get?_insert_of_ne at_lane).trans held, busy, mem⟩

/-- A writer with nothing to put down goes; what is in its lane stays there. -/
theorem Laned.finish (h : i.Laned os) (writer : i.writers.get? lane = some v)
    (done : v.idle = true ∨ v.stock = []) : i.Keeps os (i.finish lane) os := by
  have kept {n : Nat} {c : Channel Log} (held : i.lanes.channels.get? n = some c) :
      ∃ c', (i.finish lane).lanes.channels.get? n = some c' ∧ c'.buffer = c.buffer ∧
        (n ≠ lane → c' = c) := by
    unfold Intake.finish Lanes.update
    dsimp only
    cases here : i.lanes.channels.get? lane with
    | none => exact ⟨c, held, rfl, fun _ => rfl⟩
    | some d =>
      by_cases at_lane : n = lane
      · subst at_lane
        obtain rfl := Option.some.inj (here.symm.trans held)
        exact ⟨_, Table.get?_insert_self, rfl, fun other => absurd rfl other⟩
      · exact ⟨c, (Table.get?_insert_of_ne at_lane).trans held, rfl, fun _ => rfl⟩
  have queue : (i.finish lane).lanes.queue = i.lanes.queue ∧
      (i.finish lane).lanes.fresh = i.lanes.fresh := by
    unfold Intake.finish Lanes.update
    dsimp only
    split <;> exact ⟨rfl, rfl⟩
  have listed {n : Nat} : (i.finish lane).Listed os n ↔ i.Listed os n := by
    rw [Listed, Listed, queue.1]
  refine ⟨⟨?_, ?_, ?_⟩, ?_, ?_⟩
  · intro n c held
    rw [queue.2]
    unfold Intake.finish Lanes.update at held
    dsimp only at held
    split at held
    · exact h.fresh n c held
    next d here =>
      by_cases at_lane : n = lane
      · exact at_lane ▸ h.fresh lane d here
      · exact h.fresh n c (Table.get?_insert_of_ne at_lane ▸ held)
  · intro n u held
    exact listed.2 (h.listed n u (get?_finish held).2)
  · intro n u held
    obtain ⟨other, older⟩ := get?_finish held
    obtain ⟨c, there, open_ends⟩ := h.channel n u older
    obtain ⟨c', there', -, same⟩ := kept there
    exact ⟨c', there', same other ▸ open_ends⟩
  · rintro l ⟨n, c, here, held, mem⟩
    obtain ⟨c', held', buffer, -⟩ := kept held
    exact ⟨n, c', listed.2 here, held', buffer ▸ mem⟩
  · rintro l ⟨n, u, held, busy, mem⟩
    by_cases at_lane : n = lane
    · subst at_lane
      obtain rfl := Option.some.inj (writer.symm.trans held)
      rcases done with idle | none
      · simp [idle] at busy
      · simp [none] at mem
    · exact .inl ⟨n, u, (Table.get?_erase_of_ne at_lane).trans held, busy, mem⟩

theorem Laned.openLane (h : i.Laned os) (w : Writer σ) :
    i.Keeps os (i.openLane w).2 (i.lanes.fresh :: os) := by
  -- the new number is above all others, so no channel is overwritten
  have older {n : Nat} {c : Channel Log} (held : i.lanes.channels.get? n = some c) :
      (i.openLane w).2.lanes.channels.get? n = some c :=
    (Table.get?_insert_of_ne (Nat.ne_of_lt (h.fresh n c held))).trans held
  have listed {n : Nat} (before : i.Listed os n) :
      (i.openLane w).2.Listed (i.lanes.fresh :: os) n :=
    before.imp_right (List.mem_cons_of_mem _)
  refine ⟨⟨?_, ?_, ?_⟩, ?_, ?_⟩
  · intro n c held
    by_cases here : n = i.lanes.fresh
    · exact here ▸ Nat.lt_succ_self _
    · exact Nat.lt_succ_of_lt (h.fresh n c (Table.get?_insert_of_ne here ▸ held))
  · intro n u held
    rcases get?_openLane held with ⟨rfl, -⟩ | ⟨-, before⟩
    · exact .inr List.mem_cons_self
    · exact listed (h.listed n u before)
  · intro n u held
    rcases get?_openLane held with ⟨rfl, -⟩ | ⟨-, before⟩
    · exact ⟨_, Table.get?_insert_self, rfl, rfl⟩
    · obtain ⟨c, there, ends⟩ := h.channel n u before
      exact ⟨c, older there, ends⟩
  · rintro l ⟨n, c, before, held, mem⟩
    exact ⟨n, c, listed before, older held, mem⟩
  · rintro l ⟨n, u, held, busy, mem⟩
    obtain ⟨c, there, -⟩ := h.channel n u held
    have other : n ≠ i.lanes.fresh := Nat.ne_of_lt (h.fresh n c there)
    exact .inl ⟨n, u, (Table.get?_insert_of_ne other).trans held, busy, mem⟩

theorem Laned.not_unread (h : i.Laned os) (writer : i.writers.get? lane = some w) :
    ¬ i.Unread lane := by
  intro unread
  obtain ⟨c, here, readable, -⟩ := h.channel lane w writer
  simp [unread c here] at readable

theorem Fills.keeps (f : i.Fills lane i') (h : i.Laned os) (free : i.desk.cancelled = false) :
    i.Keeps os i' os := by
  have stepped {α : Type} {r : Retry σ α} {t : Turn (Retry σ α) α} {j : Intake σ}
      (step : r.step i = some (t, j)) : i.Keeps os j os ∧
      ∀ {u : Writer σ}, i.writers.get? lane = some u → j.writers.get? lane = some u := by
    obtain ⟨⟨source, desk, rfl⟩, -, -⟩ := Retry.step_repeats step
    exact ⟨h.keeps_same rfl rfl, id⟩
  -- with nobody cancelled and every lane read, a writer only ends with empty hands
  cases f with
  | @quit feed held cancelled cycle writer halted =>
    have idle := halted.resolve_left (by simp [free])
    have released : i.Keeps os (i.release feed) os := h.keeps_same rfl rfl
    exact released.trans (released.laned.finish writer (.inl idle))
  | put writer sent =>
    obtain ⟨kept, put⟩ := h.send sent
    refine kept.trans (kept.laned.put writer rfl ?_)
    intro x mem
    obtain rfl := Option.mem_some.1 (Option.mem_toList.1 mem)
    exact .inr (put (h.listed lane _ writer))
  | refused writer gone => exact absurd gone (h.not_unread writer)
  | @read feed held cycle feed' source writer =>
    have kept : i.Keeps os { i with source } os := h.keeps_same rfl rfl
    exact kept.trans (kept.laned.put writer rfl nofun)
  | @fail feed cycle event e feed' source writer =>
    have same : (({ i with source }.report cycle e).release feed').writers = i.writers :=
      report_writers ..
    have lanes : (({ i with source }.report cycle e).release feed').lanes = i.lanes :=
      report_lanes ..
    have kept := h.keeps_same lanes same
    rw [← same] at writer
    exact kept.trans (kept.laned.finish writer (.inr rfl))
  | ask writer step =>
    obtain ⟨kept, same⟩ := stepped step
    exact kept.trans (kept.laned.put (same writer) rfl nofun)
  | fetch writer step =>
    obtain ⟨kept, same⟩ := stepped step
    exact kept.trans (kept.laned.put (same writer) rfl nofun)
  | send writer sent =>
    obtain ⟨kept, put⟩ := h.send sent
    refine kept.trans (kept.laned.put writer rfl ?_)
    intro x mem
    rcases List.mem_cons.1 mem with rfl | mem
    · exact .inr (put (h.listed lane _ writer))
    · exact .inl mem
  | @range f rest lo hi rest' writer =>
    have kept : i.Keeps os (Retry.start (.logs f lo hi) i).2 os := h.keeps_same rfl rfl
    exact kept.trans (kept.laned.put writer rfl nofun)
  | exhaust writer => exact h.finish writer (.inr rfl)
  | cut writer _ halted => exact absurd (halted.resolve_left (by simp [free])) (h.not_unread writer)

/-- Nothing gets lost but what is in the hands of a writer when its lane is cancelled. -/
structure Yields (i : Intake σ) (os : List Nat) (i' : Intake σ) (os' : List Nat) : Prop where
  laned : i'.Laned os'
  buffered : ∀ l, i.Buffered os l → i'.Buffered os' l
  held : ∀ l, i.Held l → i'.Held l ∨ i'.Buffered os' l ∨ i'.Forfeit l

theorem Keeps.yields (k : i.Keeps os i' os') : i.Yields os i' os' :=
  ⟨k.laned, k.buffered, fun l held => (k.held l held).imp_right .inl⟩

theorem Keeps.trans_yields (k : i.Keeps os i' os') (y : i'.Yields os' i'' os'') :
    i.Yields os i'' os'' where
  laned := y.laned
  buffered l b := y.buffered l (k.buffered l b)
  held l b := (k.held l b).elim (y.held l) fun b => .inr (.inl (y.buffered l b))

theorem Laned.cancelLane (h : i.Laned os) (n : Nat) : i.Yields os (i.cancelLane n) os := by
  unfold Intake.cancelLane
  split
  next feed stock cancelled cycle writer =>
    refine ⟨⟨h.fresh, fun m u held => ?_, fun m u held => ?_⟩, fun _ => id, ?_⟩
    · rcases get?_put held with ⟨rfl, -⟩ | ⟨-, older⟩
      · exact h.listed _ _ writer
      · exact h.listed m u older
    · rcases get?_put held with ⟨rfl, -⟩ | ⟨-, older⟩
      · exact h.channel _ _ writer
      · exact h.channel m u older
    · rintro l ⟨m, u, held, busy, mem⟩
      by_cases here : m = n
      · subst here
        obtain rfl := Option.some.inj (writer.symm.trans held)
        exact .inr (.inr ⟨m, _, Table.get?_insert_self, rfl, mem⟩)
      · exact .inl ⟨m, u, (Table.get?_insert_of_ne here).trans held, busy, mem⟩
  · exact (h.keeps_same rfl rfl).yields

/-- The open lanes get into the queue. -/
theorem Yields.enqueue {j : Intake σ} {ns : List Nat} (y : i.Yields os j os') (all : os' ⊆ ns) :
    i.Yields os { j with lanes := ns.foldl Lanes.enqueue j.lanes } [] := by
  rw [Lanes.foldl_enqueue]
  have listed {n : Nat} (before : j.Listed os' n) :
      Listed { j with lanes := { j.lanes with queue := j.lanes.queue ++ ns } } [] n := by
    exact .inl (List.mem_append.2 (before.imp_right fun mem => all mem))
  have buffered {l : Log} (before : j.Buffered os' l) :
      Buffered { j with lanes := { j.lanes with queue := j.lanes.queue ++ ns } } [] l := by
    obtain ⟨n, c, here, held, mem⟩ := before
    exact ⟨n, c, listed here, held, mem⟩
  refine ⟨⟨y.laned.fresh, fun n w held => listed (y.laned.listed n w held), y.laned.channel⟩,
    fun l b => buffered (y.buffered l b), fun l held => ?_⟩
  exact (y.held l held).imp_right (Or.imp_left buffered)

/-- What the service hears of has left its lane, and everything else is where it was. -/
theorem Laned.read (h : i.Laned []) {a : Log} {lanes : Lanes Log}
    (next : i.lanes.next = (.item a, lanes)) :
    Laned { i with lanes } [] ∧ ∀ l, i.Buffered [] l → l = a ∨ Buffered { i with lanes } [] l := by
  obtain ⟨reads, fresh⟩ : Lanes.Reads i.lanes.channels i.lanes.queue a lanes.channels lanes.queue ∧
      lanes.fresh = i.lanes.fresh := by
    unfold Lanes.next at next
    split at next
    next r channels queue found =>
      cases next
      exact ⟨Lanes.nextIn_reads found, rfl⟩
  have stays {n : Nat} (before : i.Listed [] n) (full : ¬ Lanes.Drained i.lanes.channels n) :
      Listed { i with lanes } [] n :=
    before.imp_left fun mem => (reads.queued n mem).resolve_left full
  have filled {n : Nat} {c : Channel Log} (held : i.lanes.channels.get? n = some c)
      (some : c.buffer ≠ [] ∨ c.writable = true) : ¬ Lanes.Drained i.lanes.channels n := by
    intro drained
    obtain ⟨empty, closed⟩ := drained c held
    rcases some with some | some
    · exact some empty
    · simp [closed] at some
  refine ⟨⟨?_, ?_, ?_⟩, ?_⟩
  · intro n c held
    obtain ⟨c', before⟩ := reads.old n c held
    exact fresh ▸ h.fresh n c' before
  · intro n w held
    obtain ⟨c, there, -, writable⟩ := h.channel n w held
    exact stays (h.listed n w held) (filled there (.inr writable))
  · intro n w held
    obtain ⟨c, there, readable, writable⟩ := h.channel n w held
    rcases reads.kept n c there with drained | same | ⟨rest, -, popped⟩
    · exact absurd drained (filled there (.inr writable))
    · exact ⟨c, same, readable, writable⟩
    · exact ⟨_, popped, readable, writable⟩
  · rintro l ⟨n, c, here, there, mem⟩
    have full := filled there (.inl (List.ne_nil_of_mem mem))
    rcases reads.kept n c there with drained | same | ⟨rest, buffer, popped⟩
    · exact absurd drained full
    · exact .inr ⟨n, c, stays here full, same, mem⟩
    · rw [buffer] at mem
      exact (List.mem_cons.1 mem).imp_right fun mem => ⟨n, _, stays here full, popped, mem⟩

end Intake

namespace Broadcaster

/-- The lane that is open and not yet in the queue. -/
def opening (b : Broadcaster σ) : List Nat :=
  match b.phase with
  | .sizing _ next => [next]
  | _ => []

def Laned (b : Broadcaster σ) : Prop := b.intake.Laned b.opening

/-- The log waits in a lane. -/
def Buffered (b : Broadcaster σ) (l : Log) : Prop := b.intake.Buffered b.opening l

instance {b : Broadcaster σ} {l : Log} : Decidable (b.Buffered l) :=
  inferInstanceAs (Decidable (b.intake.Buffered b.opening l))

/-- What is in a lane stays there until the service hears of it, and what a writer has in its hands
gets into the lane unless the lane is cancelled. -/
structure Keeps (b b' : Broadcaster σ) (heard : List Input) : Prop where
  laned : b'.Laned
  buffered : ∀ l, b.Buffered l → .log l ∈ heard ∨ b'.Buffered l
  held : ∀ l, b.intake.Held l → b'.intake.Held l ∨ b'.Buffered l ∨ b'.intake.Forfeit l

variable {b b' : Broadcaster σ} {hs heard : List Input} {m : Move σ}

theorem Keeps.of_yields (y : b.intake.Yields b.opening b'.intake b'.opening) : b.Keeps b' heard :=
  ⟨y.laned, fun l before => .inr (y.buffered l before), y.held⟩

theorem Laned.same (h : b.Laned) (opening : b'.opening = b.opening)
    (lanes : b'.intake.lanes = b.intake.lanes) (writers : b'.intake.writers = b.intake.writers) :
    b.Keeps b' heard :=
  .of_yields (opening ▸ (h.keeps_same lanes writers).yields)

theorem connect_yields {i : Intake σ} {os os' : List Nat} (k : i.Keeps os b.intake os')
    {lanes : List Nat} (all : os' ⊆ lanes) (live : Option Nat) :
    i.Yields os (b.connect lanes live).intake [] := by
  unfold connect
  cases b.current with
  | none => exact k.yields.enqueue all
  | some lane => exact (k.trans_yields (k.laned.cancelLane lane)).enqueue all

theorem beginCycle_opening (b : Broadcaster σ) : b.beginCycle.opening = [] := by
  rcases b.beginCycle_cases with ⟨-, eq⟩ | ⟨-, eq⟩ <;> rw [eq] <;> rfl

theorem beginCycle_yields (h : b.intake.Laned []) :
    b.intake.Yields [] b.beginCycle.intake [] := by
  have next : b.intake.Keeps [] b.intake.nextCycle [] := h.keeps_same rfl rfl
  rcases b.beginCycle_cases with ⟨-, eq⟩ | ⟨-, eq⟩ <;> rw [eq]
  · exact connect_yields next (List.nil_subset []) none
  · have asked : b.intake.nextCycle.Keeps []
        (Retry.start (.subscribe b.herald.filter) b.intake.nextCycle).2 [] :=
      next.laned.keeps_same rfl rfl
    exact (next.trans asked).yields

theorem Laned.follow (h : b.Laned) (none : b.opening = []) {c : Broadcaster σ}
    (lanes : c.intake.lanes = b.intake.lanes) (writers : c.intake.writers = b.intake.writers)
    (tick : Nat) (r : Option Pass × Herald × Desk) : b.Keeps (c.follow tick r) heard := by
  obtain ⟨_ | p, e, d⟩ := r <;> exact h.same none.symm lanes writers

/-- A cycle begins when no lane is open. -/
theorem Laned.beginCycle (h : b.Laned) (none : b.opening = []) {c : Broadcaster σ}
    (lanes : c.intake.lanes = b.intake.lanes) (writers : c.intake.writers = b.intake.writers) :
    b.Keeps c.beginCycle heard := by
  have kept := (none ▸ h : b.intake.Laned []).keeps_same lanes writers
  have yields := kept.trans_yields (beginCycle_yields kept.laned)
  exact .of_yields (by rwa [none, beginCycle_opening])

theorem Acts.keeps (h : b.Laned) (free : b.desk.cancelled = false) (a : b.Acts b' heard) :
    b.Keeps b' heard := by
  have gathering {ready : Wait} (phase : b.phase = .gathering ready) : b.opening = [] := by
    simp [opening, phase]
  have serving {tick : Nat} (phase : b.phase = .serving tick) : b.opening = [] := by
    simp [opening, phase]
  have handing {p : Pass} {tick : Nat} (phase : b.phase = .handing p tick) : b.opening = [] := by
    simp [opening, phase]
  cases a with
  | wait => exact h.same rfl rfl rfl
  | stop cancelled | abandon _ cancelled => simp [free] at cancelled
  | look phase => exact h.same (gathering phase).symm rfl rfl
  | first phase =>
    obtain ⟨d, -, eq⟩ := b.firstCycle_eq
    exact eq ▸ h.beginCycle (gathering phase) rfl rfl
  | apply => exact h.same rfl rfl rfl
  | @resubscribe request request' i phase step =>
    obtain ⟨⟨source, desk, rfl⟩, -, -⟩ := Retry.step_repeats step
    exact h.same (by simp [opening, phase]) rfl rfl
  | @subscribed request feed i phase step =>
    obtain ⟨⟨source, desk, rfl⟩, -, -⟩ := Retry.step_repeats step
    have closed : b.opening = [] := by simp [opening, phase]
    have kept : b.intake.Keeps [] { b.intake with source, desk } [] :=
      (closed ▸ h : b.intake.Laned []).keeps_same rfl rfl
    have opened := kept.trans (kept.laned.openLane (.live feed none false b.intake.cycle))
    have asked : b.intake.Keeps []
        (Retry.start .latest (Intake.openLive { b.intake with source, desk } feed).2).2
        [b.intake.lanes.fresh] :=
      opened.trans (opened.laned.keeps_same rfl rfl)
    exact .of_yields (closed ▸ asked.yields)
  | @resize request request' next i phase step =>
    obtain ⟨⟨source, desk, rfl⟩, -, -⟩ := Retry.step_repeats step
    exact h.same (by simp [opening, phase]) rfl rfl
  | @connect request next latest i phase step =>
    obtain ⟨⟨source, desk, rfl⟩, -, -⟩ := Retry.step_repeats step
    have one : b.opening = [next] := by simp [opening, phase]
    have kept : b.intake.Keeps [next] { b.intake with source, desk } [next] :=
      (one ▸ h : b.intake.Laned [next]).keeps_same rfl rfl
    have opened : b.intake.Keeps [next]
        (Intake.openBackfill { b.intake with source, desk } b.filter b.deepStart latest).2
        [b.intake.lanes.fresh, next] :=
      kept.trans (kept.laned.openLane _)
    refine .of_yields ?_
    rw [one]
    exact connect_yields opened (List.Subset.refl _) (some next)
  | fail phase | replay phase | stale phase => exact h.beginCycle (serving phase) rfl rfl
  | noHead phase => exact h.same rfl rfl rfl
  | tick phase => exact h.same (serving phase).symm rfl rfl
  | @head tick x phase heads =>
    exact h.follow (c := { b with heads }) (serving phase) rfl rfl tick _
  | @log tick l lanes phase next =>
    have closed := serving phase
    obtain ⟨laned, read⟩ := (closed ▸ h : b.intake.Laned []).read next
    let c : Broadcaster σ := { b with intake := { b.intake with lanes } }
    have laned : c.Laned := by rwa [Laned, show c.opening = [] from closed]
    have followed : c.Keeps _ [.log l] := laned.follow closed rfl rfl tick (b.herald.onLog b.desk l)
    refine ⟨followed.laned, fun x before => ?_, followed.held⟩
    rw [Buffered, closed] at before
    rcases read x before with rfl | still
    · exact .inl List.mem_cons_self
    · have still : c.Buffered x := by rwa [Buffered, show c.opening = [] from closed]
      exact followed.buffered x still
  | close phase => exact h.same (handing phase).symm rfl rfl
  | serve phase => exact h.same (handing phase).symm rfl rfl

theorem Beside.keeps (h : b.Laned) (beside : b.Beside b') : b.Keeps b' heard := by
  obtain ⟨source, desk, same⟩ := beside.intake
  refine h.same ?_ (by rw [same]) (by rw [same])
  unfold opening
  rcases beside.phase with phase | ⟨unstarted, stopped | ⟨ready, gathering⟩⟩
  · rw [phase]
  · rw [unstarted, stopped]
  · rw [unstarted, gathering]

theorem Goes.keeps (h : b.Laned) (free : b.desk.cancelled = false) (g : b.Goes b' heard) :
    b.Keeps b' heard := by
  cases g with
  | act acts => exact acts.keeps h free
  | fill fills => exact .of_yields (fills.keeps h free).yields
  | beside beside => exact beside.keeps h

/-! ## Runs -/

theorem Reached.laned (r : b.Reached hs) (free : b.desk.cancelled = false) : b.Laned := by
  induction r with
  | start => exact ⟨nofun, nofun, nofun⟩
  | move r m ih =>
    have before := r.free free
    exact ((r.goes m).keeps (ih before) before).laned

/-- A log that waits in a lane is heard of or waits on, whatever happens to the subscription it came
with. One that a writer has in its hands gets into its lane, or it is with a feed whose subscription
is replaced in that very moment. -/
theorem stored_until_read (r : b.Reached hs) (ms : List (Move σ))
    (free : (b.run ms).desk.cancelled = false) (l : Log) :
    (b.Buffered l → .log l ∈ b.history ms ∨ (b.run ms).Buffered l) ∧
    (b.intake.Held l →
      .log l ∈ b.history ms ∨ (b.run ms).Buffered l ∨ (b.run ms).intake.Held l ∨
        ∃ earlier m later, ms = earlier ++ m :: later ∧ (b.run earlier).intake.Held l ∧
          ((b.run earlier).move m).intake.Forfeit l) := by
  induction ms generalizing b hs with
  | nil => exact ⟨.inr, fun held => .inr (.inr (.inl held))⟩
  | cons m ms ih =>
    obtain ⟨buffered, held⟩ := ih (r.move m) free
    have before := r.free_of_run free
    have keeps := (r.goes m).keeps (r.laned before) before
    have in_lane (waits : (b.move m).Buffered l) :
        .log l ∈ b.history (m :: ms) ∨ (b.run (m :: ms)).Buffered l :=
      (buffered waits).imp_left fun heard => List.mem_append_right _ heard
    refine ⟨fun waits => ?_, fun holds => ?_⟩
    · rcases keeps.buffered l waits with heard | waits
      · exact .inl (List.mem_append_left _ heard)
      · exact in_lane waits
    · rcases keeps.held l holds with holds' | waits | lost
      · rcases held holds' with heard | waits | holds' | ⟨earlier, m', later, rfl, on, lost⟩
        · exact .inl (List.mem_append_right _ heard)
        · exact .inr (.inl waits)
        · exact .inr (.inr (.inl holds'))
        · exact .inr (.inr (.inr ⟨m :: earlier, m', later, rfl, on, lost⟩))
      · exact (in_lane waits).imp_right .inl
      · exact .inr (.inr (.inr ⟨[], m, ms, rfl, holds, lost⟩))

end Broadcaster

namespace Example

/-! A node that takes its time, and a lane with room for one log. The subscription is replaced while
the lane is full. -/

def second : Log := { log with index := some 1 }

def narrow : Broadcaster ScriptedChain :=
  .new { Settings.standard with buffer := 1 } { ScriptedChain.new 5 with logDelay := 1 } .empty

/-- Up to a live log in the lane, another one in front of it, and a replay asked for. -/
def filling : List (Move ScriptedChain) :=
  [.register keeper options, .start, .task .service, .task .service, .task .service,
    .task (.lane 1), .node (·.emit log), .node (·.emit second), .task (.lane 0), .task (.lane 0),
    .task (.lane 0), .replay 4]

/-- Until nobody has anything left to do. -/
def replacing : List (Move ScriptedChain) :=
  [.task .service, .task .service, .task .service, .task (.lane 0), .clock ⟨1, 1⟩,
    .task (.lane 1), .task (.lane 1), .task .service, .task .service, .task (.lane 3),
    .clock ⟨2, 2⟩, .task (.lane 3), .task (.lane 3), .task .service, .task (.lane 2)]

theorem filled : (narrow.run filling).Reached (narrow.history filling) :=
  Broadcaster.Reached.run (.start ..) filling

theorem waiting_log_read : .log log ∈ (narrow.run filling).history replacing := by
  have kept := Broadcaster.stored_until_read filled replacing (by decide +kernel) log
  refine (kept.1 (by decide +kernel)).resolve_right ?_
  decide +kernel

/-- The log that did not fit into the lane is nowhere, and the new backfill begins after it. -/
theorem log_in_hand_lost :
    (narrow.run filling).intake.Held second ∧
    ((narrow.run filling).run replacing).desk.cancelled = false ∧
    (∀ i ∈ (narrow.run filling).history replacing, i ≠ .log second) ∧
    ¬ ((narrow.run filling).run replacing).Buffered second ∧
    ¬ ((narrow.run filling).run replacing).intake.Held second ∧
    ((narrow.run filling).run replacing).desk.asked.head? = some (.logs ⟨[1], [7]⟩ 4 5) := by
  refine ⟨by decide +kernel, by decide +kernel, ?_, by decide +kernel, by decide +kernel,
    by decide +kernel⟩
  have others : ((narrow.run filling).history replacing).all (fun
      | .log l => l != second
      | _ => true) = true := by decide +kernel
  rintro i mem rfl
  simpa using List.all_eq_true.1 others _ mem

end Example

end ChainHerald
