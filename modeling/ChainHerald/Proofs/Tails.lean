import ChainHerald.Proofs.Backfill
import ChainHerald.Proofs.Gaps
import ChainHerald.Proofs.GrowingChain
import ChainHerald.Proofs.Tuning

/-!
# Lanes of a growing chain

A live lane that is not cancelled is fed by an open subscription of its own, and whatever is mined
gets into it (`Intake.Streams`). What a backfill has to bring is in its batch, in the answer on its
way, or still to be asked for (`Intake.Fetches`). Both hold from one move to the next as long as
nobody gives the lane up.
-/

namespace ChainHerald

open GrowingChain (Tail)

namespace Intake

section

variable {σ : Type} [Source σ] {i i' i'' : Intake σ} {lane n : Nat} {l : Log} {given : Option Nat}

/-- The log is in the lane now. -/
def InLane (i : Intake σ) (lane : Nat) (l : Log) : Prop :=
  ∃ c, i.lanes.channels.get? lane = some c ∧ l ∈ c.buffer

instance : Decidable (i.InLane lane l) :=
  decidable_of_iff (∃ c ∈ i.lanes.channels.get? lane, l ∈ c.buffer) Iff.rfl

theorem inLane_of_send {lanes : Lanes Log} (sent : i.lanes.send lane l = some (.accepted, lanes)) :
    InLane { i with lanes } lane l := by
  obtain ⟨c, -, rfl⟩ := Lanes.send_accepted sent
  exact ⟨_, Table.get?_insert_self, List.mem_append_right c.buffer List.mem_cons_self⟩

/-- The writer of the lane moves, or it waits for room in the lane or for a timer. -/
def Active (i : Intake σ) (lane : Nat) : Prop :=
  i.step lane ≠ none ∨ (∃ c, i.lanes.channels.get? lane = some c ∧ c.capacity ≤ c.buffer.length) ∨
    ∃ t ∈ i.wakes lane, i.desk.clock.now < t

/-- Whoever has a log in hand puts it down when there is room. -/
theorem Laned.send_or_full {os : List Nat} {w : Writer σ} (h : i.Laned os)
    (writer : i.writers.get? lane = some w) (l : Log) :
    (∃ lanes, i.lanes.send lane l = some (.accepted, lanes)) ∨
      ∃ c, i.lanes.channels.get? lane = some c ∧ c.capacity ≤ c.buffer.length := by
  obtain ⟨c, here, readable, -⟩ := h.channel lane w writer
  by_cases room : c.buffer.length < c.capacity
  · have accepted : (c.send l).1 = .accepted := by simp [Channel.send, readable, room]
    refine .inl ⟨{ i.lanes with channels := i.lanes.channels.insert lane (c.send l).2 }, ?_⟩
    rw [Lanes.send, here, Option.map_some, accepted]
  · exact .inr ⟨c, here, Nat.le_of_not_lt room⟩

/-- Every writer stays as it is, but for the one of the lane that is given up. -/
def KeepsBut (i i' : Intake σ) (given : Option Nat) : Prop :=
  ∀ n w, given ≠ some n → i.writers.get? n = some w → i'.writers.get? n = some w

theorem KeepsBut.of_eq (same : i'.writers = i.writers) : i.KeepsBut i' given :=
  fun _ _ _ held => same ▸ held

theorem KeepsBut.trans (h : i.KeepsBut i' given) (h' : i'.KeepsBut i'' given) :
    i.KeepsBut i'' given :=
  fun n w other held => h' n w other (h n w other held)

theorem keepsBut_cancelLane (i : Intake σ) (lane : Nat) :
    i.KeepsBut (i.cancelLane lane) (some lane) := by
  intro n w other held
  unfold cancelLane
  split
  · have other : n ≠ lane := fun same => other (congrArg some same.symm)
    exact (Table.get?_insert_of_ne other).trans held
  · exact held

theorem Laned.keepsBut_openLane {os : List Nat} (h : i.Laned os) (w : Writer σ) :
    i.KeepsBut (i.openLane w).2 given := by
  intro n u _ held
  obtain ⟨c, there, -⟩ := h.channel n u held
  have other : n ≠ i.lanes.fresh := Nat.ne_of_lt (h.fresh n c there)
  exact (Table.get?_insert_of_ne other).trans held

end

variable {i i' : Intake GrowingChain} {lane n feed : Nat} {f : Filter} {base : Nat}
  {put put' : Log → Prop} {held : Option Log} {tail : Tail} {os : List Nat}

/-- The lane is fed by this subscription. -/
def Feeds (i : Intake GrowingChain) (lane feed : Nat) : Prop :=
  ∃ held cancelled cycle, i.writers.get? lane = some (.live feed held cancelled cycle)

/-- The lane is fed by an open subscription of its own and is not cancelled. Every log that passes
the filter and was mined above `base` is under way to the lane or in hand, or has been put there. -/
structure Fed (i : Intake GrowingChain) (lane : Nat) (f : Filter) (base : Nat) (put : Log → Prop)
    (feed : Nat) (held : Option Log) (tail : Tail) : Prop where
  writer : ∃ cycle, i.writers.get? lane = some (.live feed held false cycle)
  here : i.source.tails[feed]? = some tail
  isOpen : tail.isOpen = true
  filter : tail.filter = f
  alone : ∀ n, i.Feeds n feed → n = lane
  reaches : ∀ l ∈ i.source.mined, f.passes l = true → ∀ k, l.block = some k → base < k →
    l ∈ tail.ahead ∨ held = some l ∨ put l

def Streams (i : Intake GrowingChain) (lane : Nat) (f : Filter) (base : Nat) (put : Log → Prop) :
    Prop :=
  ∃ feed held tail, i.Fed lane f base put feed held tail

theorem Streams.mono (s : i.Streams lane f base put) (le : ∀ l, put l → put' l) :
    i.Streams lane f base put' := by
  obtain ⟨feed, held, tail, fed⟩ := s
  refine ⟨feed, held, tail, { fed with reaches := fun l mined passes k block above => ?_ }⟩
  exact (fed.reaches l mined passes k block above).imp_right (Or.imp_right (le l))

/-- Others move. -/
theorem Fed.frame (fed : i.Fed lane f base put feed held tail)
    (writer : i'.writers.get? lane = i.writers.get? lane)
    (here : i'.source.tails[feed]? = i.source.tails[feed]?)
    (mined : i'.source.mined = i.source.mined)
    (feeds : ∀ n, i'.Feeds n feed → i.Feeds n feed) : i'.Streams lane f base put :=
  ⟨feed, held, tail, {
    writer := fed.writer.imp fun _ => writer.trans
    here := here.trans fed.here
    isOpen := fed.isOpen
    filter := fed.filter
    alone := fun n fed' => fed.alone n (feeds n fed')
    reaches := mined ▸ fed.reaches }⟩

theorem feeds_congr (same : i'.writers = i.writers) : i'.Feeds n feed ↔ i.Feeds n feed := by
  unfold Feeds
  rw [same]

/-- Opening subscriptions leaves the old ones alone. -/
theorem Fed.opens (fed : i.Fed lane f base put feed held tail)
    (opens : i.source.Opens i'.source) : i'.source.tails[feed]? = i.source.tails[feed]? := by
  obtain ⟨more, tails⟩ := opens.tails
  obtain ⟨below, -⟩ := List.getElem?_eq_some_iff.1 fed.here
  rw [tails, List.getElem?_append_left below]

/-- A new block comes to everybody who reads. -/
theorem Fed.mine (fed : i.Fed lane f base put feed held tail) (logs : List Log) :
    Streams { i with source := i.source.mine logs } lane f base put := by
  refine ⟨feed, held, tail.push (i.source.block logs), ?_⟩
  have pushed : tail.push (i.source.block logs) =
      { tail with ahead := tail.ahead ++ (i.source.block logs).filter f.passes } := by
    rw [Tail.push, if_pos fed.isOpen, fed.filter]
  exact {
    writer := fed.writer
    here := by simp [GrowingChain.mine, fed.here]
    isOpen := by rw [pushed]; exact fed.isOpen
    filter := by rw [pushed]; exact fed.filter
    alone := fed.alone
    reaches := by
      intro l mined passes k block above
      rw [pushed]
      rcases List.mem_append.1 mined with old | new
      · exact (fed.reaches l old passes k block above).imp_left (List.mem_append_left _)
      · exact .inl (List.mem_append_right _ (List.mem_filter.2 ⟨new, passes⟩)) }

theorem Streams.grows (s : i.Streams lane f base put) {c : GrowingChain} {desk : Desk}
    (grows : i.source.Grows c) : Streams { i with source := c, desk } lane f base put := by
  obtain ⟨feed, held, tail, fed⟩ := s
  cases grows with
  | still | weather => exact fed.frame rfl rfl rfl fun _ => id
  | mine logs =>
    obtain ⟨feed, held, tail, fed⟩ := fed.mine logs
    exact fed.frame rfl rfl rfl fun _ => id

/-! ## The writers' moves -/

theorem Fills.feeds (fills : i.Fills lane i') (fed : i'.Feeds n feed) : i.Feeds n feed := by
  by_cases here : n = lane
  · subst here
    obtain ⟨held, cancelled, cycle, fed⟩ := fed
    have gone {j : Intake GrowingChain} {w} : (j.finish n).writers.get? n ≠ some w := by
      simp [finish]
    have put {j : Intake GrowingChain} {v w} (h : (j.put n v).writers.get? n = some w) : v = w :=
      Option.some.inj (Table.get?_insert_self.symm.trans h)
    cases fills with
    | quit | refused | exhaust | cut | fail => exact absurd fed gone
    | put writer =>
      cases put fed
      exact ⟨_, _, _, writer⟩
    | read writer read =>
      cases put fed
      obtain ⟨-, -, -, -, -, -, rfl, -⟩ := GrowingChain.read_cases read
      exact ⟨_, _, _, writer⟩
    | ask | fetch | send | range => cases put fed
  · unfold Feeds at fed ⊢
    rwa [← fills.elsewhere here]

/-- What a writer's move does to a subscription that is not its own. -/
theorem Fills.tails (fills : i.Fills lane i') (other : ¬ i.Feeds lane feed)
    (below : feed < i.source.tails.length) :
    i'.source.tails[feed]? = i.source.tails[feed]? := by
  have apart {feed' held cancelled cycle}
      (writer : i.writers.get? lane = some (.live feed' held cancelled cycle)) : feed' ≠ feed := by
    rintro rfl
    exact other ⟨_, _, _, writer⟩
  have release {feed' : Nat} (ne : feed' ≠ feed) (c : GrowingChain) :
      (GrowingChain.release feed' c).tails[feed]? = c.tails[feed]? := by
    simp [GrowingChain.release, ne]
  cases fills with
  | quit writer | refused writer => exact release (apart writer) _
  | put | send | range | exhaust | cut => rfl
  | read writer read =>
    obtain ⟨tail, l, rest, -, -, -, rfl, rfl⟩ := GrowingChain.read_cases read
    exact List.getElem?_set_ne (apart writer)
  | fail writer read error =>
    obtain ⟨tail, l, rest, -, -, event, -, -⟩ := GrowingChain.read_cases read
    cases event
    cases error
  | ask _ step | fetch _ step =>
    obtain ⟨more, tails⟩ := (Retry.step_opens step).tails
    exact tails ▸ List.getElem?_append_left below

theorem Fills.mined (fills : i.Fills lane i') :
    i'.source.mined = i.source.mined ∧ i'.source.height = i.source.height ∧
      i.source.tails.length ≤ i'.source.tails.length := by
  cases fills with
  | quit | refused => exact ⟨rfl, rfl, Nat.le_of_eq (List.length_modify ..).symm⟩
  | put | send | range | exhaust | cut => exact ⟨rfl, rfl, Nat.le_refl _⟩
  | read writer read =>
    obtain ⟨tail, l, rest, -, -, -, rfl, rfl⟩ := GrowingChain.read_cases read
    exact ⟨rfl, rfl, by simp [Intake.put]⟩
  | fail writer read error =>
    obtain ⟨tail, l, rest, -, -, event, -, -⟩ := GrowingChain.read_cases read
    cases event
    cases error
  | ask _ step | fetch _ step =>
    have opens := Retry.step_opens step
    obtain ⟨more, tails⟩ := opens.tails
    exact ⟨opens.mined, opens.height, by simp [Intake.put, tails]⟩

/-- The lane's own writer takes the next log in hand, or puts the one in hand down. -/
theorem Fed.fills_here (fed : i.Fed lane f base put feed held tail) (fills : i.Fills lane i')
    (h : i.Laned os) (free : i.desk.cancelled = false) :
    i'.Streams lane f base fun l => put l ∨ i'.InLane lane l := by
  obtain ⟨cycle, on⟩ := fed.writer
  have only {v} (writer : i.writers.get? lane = some v) : v = .live feed held false cycle :=
    Option.some.inj (writer.symm.trans on)
  have alone (n : Nat) (fed' : i'.Feeds n feed) : n = lane := fed.alone n (fills.feeds fed')
  cases fills with
  | quit writer halted =>
    cases only writer
    simp [free] at halted
  | refused writer gone => exact absurd gone (h.not_unread writer)
  | @put _ l _ _ writer sent =>
    cases only writer
    refine ⟨feed, none, tail, ⟨cycle, Table.get?_insert_self⟩, fed.here, fed.isOpen, fed.filter,
      alone, ?_⟩
    intro x mined passes k block above
    rcases fed.reaches x mined passes k block above with ahead | in_hand | before
    · exact .inl ahead
    · cases in_hand
      exact .inr (.inr (.inr (inLane_of_send sent)))
    · exact .inr (.inr (.inl before))
  | @read _ held' _ _ _ writer read =>
    cases only writer
    obtain ⟨tail', l, rest, there, ahead, event, rfl, rfl⟩ := GrowingChain.read_cases read
    obtain rfl := Option.some.inj (there.symm.trans fed.here)
    obtain rfl : held' = some l := by
      cases held' with
      | none => cases event
      | some => cases event; rfl
    obtain ⟨below, -⟩ := List.getElem?_eq_some_iff.1 fed.here
    refine ⟨_, some l, { tail' with ahead := rest }, ⟨cycle, Table.get?_insert_self⟩,
      List.getElem?_set_self below, fed.isOpen, fed.filter, alone, ?_⟩
    intro x mined passes k block above
    rcases fed.reaches x mined passes k block above with here | nothing | before
    · rw [ahead] at here
      rcases List.mem_cons.1 here with rfl | later
      · exact .inr (.inl rfl)
      · exact .inl later
    · cases nothing
    · exact .inr (.inr (.inl before))
  | fail writer read error =>
    obtain ⟨tail, l, rest, -, -, event, -, -⟩ := GrowingChain.read_cases read
    cases event
    cases error
  | ask writer | fetch writer | send writer | range writer | exhaust writer => cases only writer
  | cut writer backfill =>
    cases only writer
    exact absurd rfl (backfill _ _ _ _)

theorem Streams.fills (s : i.Streams lane f base put) (fills : i.Fills n i') (h : i.Laned os)
    (free : i.desk.cancelled = false) :
    i'.Streams lane f base fun l => put l ∨ i'.InLane lane l := by
  obtain ⟨feed, held, tail, fed⟩ := s
  by_cases own : n = lane
  · subst own
    exact fed.fills_here fills h free
  · have other : ¬ i.Feeds n feed := fun feeds => own (fed.alone n feeds)
    obtain ⟨below, -⟩ := List.getElem?_eq_some_iff.1 fed.here
    have s := fed.frame (fills.elsewhere (Ne.symm own)) (fills.tails other below) fills.mined.1
      fun _ => fills.feeds
    exact s.mono fun _ => .inl

/-- A lane with something under way to it gets on. -/
theorem Fed.active (fed : i.Fed lane f base put feed held tail) (h : i.Laned os)
    (some : tail.ahead ≠ [] ∨ held ≠ none) : i.Active lane := by
  obtain ⟨cycle, writer⟩ := fed.writer
  cases held with
  | some l =>
    rcases h.send_or_full writer l with ⟨lanes, sent⟩ | full
    · refine .inl ?_
      simp only [step, writer, stepLive, sent]
      split <;> exact Option.some_ne_none _
    · exact .inr (.inl full)
  | none =>
    obtain ⟨l, rest, ahead⟩ := List.exists_cons_of_ne_nil (some.resolve_right (absurd rfl))
    obtain ⟨f', ahead', isOpen⟩ := tail
    cases ahead
    have reads : GrowingChain.read feed i.source ≠ none := by
      simp [GrowingChain.read, fed.here]
    refine .inl ?_
    simp only [step, writer, stepLive]
    split
    · exact Option.some_ne_none _
    · split
      next nothing => exact absurd nothing reads
      · exact Option.some_ne_none _

/-! ## Backfills -/

end Intake

/-- The backfill is yet to put the log down, which is from this block. -/
def Writer.Owes (w : Writer GrowingChain) (f : Filter) (l : Log) (k : Nat) : Prop :=
  match w with
  | .live .. => False
  | .fetching f' rest request => f' = f ∧ (rest.Left k ∨
    ∃ lo hi, request.request = .logs f lo hi ∧ lo ≤ k ∧ k ≤ hi ∧ request.Honest (l ∈ ·))
  | .sending f' rest batch => f' = f ∧ (rest.Left k ∨ l ∈ batch)

namespace Intake

variable {i i' : Intake GrowingChain} {lane n : Nat} {f : Filter} {lo hi k : Nat}
  {put put' : Log → Prop} {os : List Nat} {l : Log}

def Owes (i : Intake GrowingChain) (lane : Nat) (f : Filter) (l : Log) (k : Nat) : Prop :=
  ∃ w, i.writers.get? lane = some w ∧ w.Owes f l k

/-- The lane is to get every log that passes the filter and is from one of the blocks, and what is
not under way has been put there. The blocks are all mined. -/
structure Fetches (i : Intake GrowingChain) (lane : Nat) (f : Filter) (lo hi : Nat)
    (put : Log → Prop) : Prop where
  below : hi ≤ i.source.height
  brings : ∀ l ∈ i.source.mined, f.passes l = true → ∀ k, l.block = some k → lo ≤ k → k ≤ hi →
    i.Owes lane f l k ∨ put l

theorem Fetches.mono (s : i.Fetches lane f lo hi put) (le : ∀ l, put l → put' l) :
    i.Fetches lane f lo hi put' where
  below := s.below
  brings l mined passes k block above below :=
    (s.brings l mined passes k block above below).imp_right (le l)

theorem Owes.of_writer {w : Writer GrowingChain} (owes : i.Owes lane f l k)
    (writer : i.writers.get? lane = some w) : w.Owes f l k := by
  obtain ⟨v, held, owes⟩ := owes
  obtain rfl := Option.some.inj (writer.symm.trans held)
  exact owes

theorem mem_select {c : GrowingChain} (mined : l ∈ c.mined) (passes : f.passes l = true)
    (block : l.block = some k) (above : lo ≤ k) (below : k ≤ hi) : l ∈ f.select lo hi c.mined := by
  refine List.mem_filter.2 ⟨mined, ?_⟩
  simp [block, passes, above, below]

/-- What a backfill owes it asks for, gets and puts down. -/
theorem Owes.fills_here (owes : i.Owes lane f l k) (mined : l ∈ i.source.mined)
    (passes : f.passes l = true) (block : l.block = some k) (fills : i.Fills lane i')
    (h : i.Laned os) (free : i.desk.cancelled = false) :
    i'.Owes lane f l k ∨ i'.InLane lane l := by
  cases fills with
  | quit writer | put writer | refused writer | read writer | fail writer =>
    exact (owes.of_writer writer).elim
  | @ask f' rest request request' i₁ writer step =>
    obtain ⟨rfl, left | ⟨lo, hi, asks, above, below, honest⟩⟩ := owes.of_writer writer
    · exact .inl ⟨_, Table.get?_insert_self, rfl, .inl left⟩
    · have same := (Retry.step_repeats step).request request' rfl
      have query : GrowingChain.answer request.request i.source =
          (.going ⟨request.request, some (f'.select lo hi i.source.mined)⟩, i.source) := by
        rw [asks]
        rfl
      obtain ⟨-, ⟨r, eq, honest⟩ | ⟨a, eq, -⟩⟩ := honest.step_query query
        (mem_select mined passes block above below) step
      · cases eq
        exact .inl ⟨_, Table.get?_insert_self, rfl,
          .inr ⟨lo, hi, same.trans asks, above, below, honest⟩⟩
      · cases eq
  | @fetch f' rest request batch i₁ writer step =>
    obtain ⟨rfl, left | ⟨lo, hi, asks, above, below, honest⟩⟩ := owes.of_writer writer
    · exact .inl ⟨_, Table.get?_insert_self, rfl, .inl left⟩
    · have query : GrowingChain.answer request.request i.source =
          (.going ⟨request.request, some (f'.select lo hi i.source.mined)⟩, i.source) := by
        rw [asks]
        rfl
      obtain ⟨-, ⟨r, eq, -⟩ | ⟨a, eq, got⟩⟩ := honest.step_query query
        (mem_select mined passes block above below) step
      · cases eq
      · cases eq
        exact .inl ⟨_, Table.get?_insert_self, rfl, .inr (List.mem_mergeSort.2 got)⟩
  | send writer sent =>
    obtain ⟨rfl, left | here⟩ := owes.of_writer writer
    · exact .inl ⟨_, Table.get?_insert_self, rfl, .inl left⟩
    · rcases List.mem_cons.1 here with rfl | later
      · exact .inr (inLane_of_send sent)
      · exact .inl ⟨_, Table.get?_insert_self, rfl, .inr later⟩
  | @range f' rest lo hi rest' writer next =>
    obtain ⟨rfl, left | here⟩ := owes.of_writer writer
    · refine .inl ⟨_, Table.get?_insert_self, rfl, ?_⟩
      rcases left.next next with ⟨above, below⟩ | left
      · exact .inr ⟨lo, hi, rfl, above, below, Retry.honest_ask _ _ i⟩
      · exact .inl left
    · cases here
  | exhaust writer last =>
    obtain ⟨rfl, left | here⟩ := owes.of_writer writer
    · exact absurd last left.next_ne_none
    · cases here
  | cut writer _ halted => exact absurd (halted.resolve_left (by simp [free])) (h.not_unread writer)

/-- A backfill that owes something gets on. -/
theorem Owes.active (owes : i.Owes lane f l k) (h : i.Laned os) : i.Active lane := by
  obtain ⟨w, writer, owes⟩ := owes
  cases w with
  | live => exact owes.elim
  | fetching f' rest request =>
    rcases request.step_or_waits i with moves | ⟨t, mem, early⟩
    · refine .inl ?_
      simp only [step, writer, stepFetching]
      split
      · exact Option.some_ne_none _
      · split
        next nothing => exact absurd nothing moves
        · exact Option.some_ne_none _
        · exact Option.some_ne_none _
    · refine .inr (.inr ⟨t, ?_, early⟩)
      simpa [wakes, writer, Writer.wakes] using mem
  | sending f' rest batch =>
    cases batch with
    | cons x batch =>
      rcases h.send_or_full writer x with ⟨lanes, sent⟩ | full
      · refine .inl ?_
        simp only [step, writer, stepSending, sent]
        split <;> exact Option.some_ne_none _
      · exact .inr (.inl full)
    | nil =>
      refine .inl ?_
      simp only [step, writer, stepSending]
      split
      · exact Option.some_ne_none _
      · split <;> exact Option.some_ne_none _

theorem Fetches.fills (s : i.Fetches lane f lo hi put) (fills : i.Fills n i') (h : i.Laned os)
    (free : i.desk.cancelled = false) :
    i'.Fetches lane f lo hi fun l => put l ∨ i'.InLane lane l := by
  obtain ⟨mined, height, -⟩ := fills.mined
  refine ⟨height ▸ s.below, fun l is_mined passes k block above below => ?_⟩
  rw [mined] at is_mined
  rcases s.brings l is_mined passes k block above below with owes | before
  · by_cases own : n = lane
    · subst own
      exact (owes.fills_here is_mined passes block fills h free).imp_right .inr
    · obtain ⟨w, writer, owes⟩ := owes
      exact .inl ⟨w, (fills.elsewhere (Ne.symm own)).trans writer, owes⟩
  · exact .inr (.inl before)

/-- A new block is above the ones that a backfill is to bring. -/
theorem Fetches.grows (s : i.Fetches lane f lo hi put) {c : GrowingChain} {desk : Desk}
    (grows : i.source.Grows c) : Fetches { i with source := c, desk } lane f lo hi put := by
  cases grows with
  | still | weather => exact ⟨s.below, s.brings⟩
  | mine logs =>
    refine ⟨Nat.le_succ_of_le s.below, fun l mined passes k block above below => ?_⟩
    rcases List.mem_append.1 mined with old | new
    · exact s.brings l old passes k block above below
    · have next := Option.some.inj (block.symm.trans (GrowingChain.block_eq new))
      exact absurd s.below (by omega)

theorem Fetches.spares (s : i.Fetches lane f lo hi put) (spares : i.Spares i')
    (opens : i.source.Opens i'.source) : i'.Fetches lane f lo hi put := by
  refine ⟨opens.height ▸ s.below, fun l mined passes k block above below => ?_⟩
  refine (s.brings l (opens.mined ▸ mined) passes k block above below).imp_left ?_
  rintro ⟨w, writer, owes⟩
  refine ⟨w, ?_, owes⟩
  cases w with
  | live => exact owes.elim
  | fetching | sending => exact spares lane _ _ writer rfl

end Intake

end ChainHerald
