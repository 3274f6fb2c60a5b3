import ChainHerald.Proofs.Consumed
import ChainHerald.Proofs.Serving

/-!
# The agenda of a pass

What a head makes due is a matter of the pool, the live registrations and the ledger alone
(`Herald.MakesDue`), and chain order makes one list of it, the agenda (`Herald.Agenda`). A pass
works it off from the front: at any time, whatever others do meanwhile, it has dealt with some first
part of it, and with all of it when it is over, unless somebody cancelled (`Pass.Abides`). A log
that the decoder takes is handed to the listener; any other is marked (`Offer.deed`).
-/

namespace ChainHerald

/-! ## Topics -/

/-- The signature is one that is asked for, and every position that is restricted holds one of the
values accepted there. -/
def Options.Admits (o : Options) (topics : List Hash) : Prop :=
  ∃ signature accepted, topics[0]? = some signature ∧ o.filters.get? signature = some accepted ∧
    ∀ i values, accepted[i]? = some values → values ≠ [] → ∃ t ∈ values, topics[i + 1]? = some t

theorem Options.accepts_iff {accepted : List (List Hash)} {indexed : List Hash} :
    accepts accepted indexed = true ↔ ∀ (i : Nat) (values : List Hash),
      accepted[i]? = some values → values ≠ [] → ∃ t ∈ values, indexed[i]? = some t := by
  -- the cases are those of the recursion: nothing left, a free position, a missing topic, a topic
  induction accepted, indexed using accepts.induct with
  | case1 topics => simp [accepts]
  | case2 topics rest ih =>
    rw [accepts, ih]
    constructor
    · intro later i values at_i some
      cases i with
      | zero => exact absurd (Option.some.inj at_i).symm some
      | succ i =>
        obtain ⟨t, mem, there⟩ := later i values at_i some
        exact ⟨t, mem, List.getElem?_tail ▸ there⟩
    · intro all i values at_i some
      obtain ⟨t, mem, there⟩ := all (i + 1) values at_i some
      exact ⟨t, mem, List.getElem?_tail ▸ there⟩
  | case3 a as rest =>
    refine iff_of_false nofun fun all => ?_
    obtain ⟨t, -, there⟩ := all 0 (a :: as) rfl (List.cons_ne_nil a as)
    cases there
  | case4 a as rest t topics ih =>
    rw [accepts, Bool.and_eq_true, List.contains_iff_mem, ih]
    constructor
    · rintro ⟨first, later⟩ i values at_i some
      cases i with
      | zero => exact ⟨t, Option.some.inj at_i ▸ first, rfl⟩
      | succ i => exact later i values at_i some
    · intro all
      refine ⟨?_, fun i values at_i some => all (i + 1) values at_i some⟩
      obtain ⟨u, mem, there⟩ := all 0 (a :: as) rfl (List.cons_ne_nil a as)
      exact Option.some.inj there ▸ mem

theorem Options.matchesTopics_iff {o : Options} {topics : List Hash} :
    o.matchesTopics topics = true ↔ o.Admits topics := by
  unfold matchesTopics Admits
  cases topics with
  | nil => simp
  | cons signature indexed =>
    cases asked : o.filters.get? signature with
    | none => simp [asked]
    | some accepted => simp [asked, accepts_iff]

/-! ## Chain order -/

/-- By block, then by index in the block, then by block hash. -/
def Position.Precedes (p q : Position) : Prop :=
  p.block < q.block ∨ p.block = q.block ∧
    (p.index < q.index ∨ p.index = q.index ∧ p.hash < q.hash)

theorem Position.precedes_iff {p q : Position} : compare p q = .lt ↔ p.Precedes q := by
  have hashes : compare p.hash q.hash = .lt ↔ p.hash < q.hash := compareOfLessAndEq_eq_lt
  unfold Precedes
  rw [← hashes, ← Nat.compare_eq_lt, ← Nat.compare_eq_eq, ← Nat.compare_eq_lt (a := p.index),
    ← Nat.compare_eq_eq (a := p.index)]
  simp only [compare, compareLex, compareOn, Ordering.then_eq_lt]

/-- In chain order, and for one log in the order in which the registrations were made. -/
def Offer.Before (o o' : Offer) : Prop :=
  o.position.Precedes o'.position ∨
    o.position = o'.position ∧ o.registration.id < o'.registration.id

theorem Position.Precedes.asymm {p q : Position} (before : p.Precedes q) : ¬ q.Precedes p :=
  fun after => Table.not_lt_of_lt (precedes_iff.2 before) (precedes_iff.2 after)

theorem Offer.Before.asymm {o o' : Offer} (before : o.Before o') : ¬ o'.Before o := by
  intro after
  rcases before with lt | ⟨same, lt⟩ <;> rcases after with gt | ⟨same', gt⟩
  · exact lt.asymm gt
  · exact lt.asymm (same' ▸ lt)
  · exact gt.asymm (same ▸ gt)
  · exact Nat.lt_asymm lt gt

/-- What has to hold of a log and a registration for the head to make them due. -/
structure Herald.MakesDue (e : Herald) (h : Head) (consumed : Members Key) (o : Offer) : Prop where
  pooled : e.pool.get? o.position = some o.log
  reached : o.position.block ≤ h.number
  live : e.registry.live.get? o.registration.id = some o.registration
  contract : o.registration.options.contract = o.log.address
  deep : o.registration.options.confirmations ≤ h.number - o.position.block
  topics : o.registration.options.Admits o.log.topics
  unconsumed : consumed.contains o.key = false

/-- Everything that the head makes due, in order. -/
structure Herald.Agenda (e : Herald) (h : Head) (consumed : Members Key) (os : List Offer) :
    Prop where
  order : os.Pairwise Offer.Before
  due : ∀ o, o ∈ os ↔ e.MakesDue h consumed o

namespace Herald

variable {e : Herald} {h : Head} {consumed : Members Key} {os os' : List Offer}

theorem Agenda.nodup (a : e.Agenda h consumed os) : os.Nodup :=
  a.order.imp fun {o o'} before (same : o = o') => before.asymm (same ▸ before)

/-- There is only one agenda. -/
theorem Agenda.unique (a : e.Agenda h consumed os) (a' : e.Agenda h consumed os') : os = os' := by
  refine List.Perm.eq_of_pairwise ?_ a.order a'.order ?_
  · intro o o' _ _ before after
    exact absurd after before.asymm
  · refine (List.perm_ext_iff_of_nodup a.nodup a'.nodup).2 fun o => ?_
    rw [a.due, a'.due]

/-- Registrations are numbered in the order in which they were made. -/
theorem values_ascending {r : Registry} (own : ∀ id g, r.live.get? id = some g → g.id = id) :
    r.live.values.Pairwise (·.id < ·.id) := by
  refine List.pairwise_map.2 (r.live.ascending.imp_of_mem fun {x y} mem mem' below => ?_)
  rw [own _ _ (Table.mem_entries.1 mem), own _ _ (Table.mem_entries.1 mem')]
  exact Nat.compare_eq_lt.1 below

/-- What is offered is the agenda. -/
theorem agenda_offers (placed : e.pool.Placed)
    (own : ∀ id g, e.registry.live.get? id = some g → g.id = id) (h : Head)
    (consumed : Members Key) :
    e.Agenda h consumed (e.registry.offers (e.due h) h consumed) where
  order := by
    have there := placed.upTo h.number
    rw [Registry.offers, due, Pool.logs, List.flatMap_map]
    refine List.pairwise_flatMap.2 ⟨fun x mem => ?_, ?_⟩
    · rw [there _ _ (Pool.mem_entries.1 mem)]
      refine List.Pairwise.filter _ (List.pairwise_map.2 (List.Pairwise.filter _ ?_))
      exact (values_ascending own).imp fun below => .inr ⟨rfl, below⟩
    · refine Pool.ascending.imp_of_mem fun {x y} mem mem' below o at_x o' at_y => .inl ?_
      rw [there _ _ (Pool.mem_entries.1 mem)] at at_x
      rw [there _ _ (Pool.mem_entries.1 mem')] at at_y
      obtain ⟨g, -, rfl⟩ := List.mem_map.1 (List.mem_filter.1 at_x).1
      obtain ⟨g', -, rfl⟩ := List.mem_map.1 (List.mem_filter.1 at_y).1
      exact Position.precedes_iff.1 below
  due o := by
    have there : o.log ∈ e.due h ∧ o.log.position? = some o.position ↔
        e.pool.get? o.position = some o.log ∧ o.position.block ≤ h.number := by
      rw [due, ← (placed.upTo h.number).get?_eq_some, Pool.get?_upTo_eq_some]
    have live : o.registration ∈ e.registry.live.values ↔
        e.registry.live.get? o.registration.id = some o.registration := by
      rw [Table.mem_values]
      constructor
      · rintro ⟨id, held⟩
        rwa [own id _ held]
      · exact fun held => ⟨_, held⟩
    rw [Registry.mem_offers, Registration.wants_iff, isConfirmed_iff, Options.matchesTopics_iff,
      live]
    constructor
    · rintro ⟨mem, positioned, held, ⟨contract, ⟨reached, deep⟩, topics⟩, unconsumed⟩
      exact ⟨(there.1 ⟨mem, positioned⟩).1, reached, held, contract, deep, topics, unconsumed⟩
    · intro owes
      obtain ⟨mem, positioned⟩ := there.2 ⟨owes.pooled, owes.reached⟩
      exact ⟨mem, positioned, owes.live, ⟨owes.contract, ⟨owes.reached, owes.deep⟩, owes.topics⟩,
        owes.unconsumed⟩

end Herald

/-! ## What is done about an offer -/

/-- The call of a listener, or the marker for a log that its decoder does not take. -/
inductive Deed where
  | call (registration : Nat) (b : Broadcast)
  | mark (k : Key) (block : Nat)

def Offer.deed (h : Head) (o : Offer) : Deed :=
  match o.registration.options.decoder.decode o.log with
  | .ok v => .call o.registration.id (o.broadcast h v)
  | .error _ => .mark o.key o.position.block

/-- What the entry tells of. A log that does not decode is noticed when it is marked. -/
def Entry.deed? : Entry → Option Deed
  | .handed id b => some (.call id b)
  | .notice (.undecodable _ b _) => some (.mark b.key b.block)
  | _ => none

namespace Desk

/-- What listeners were called with and which logs were marked for not decoding since the desk was
as in `begun`, in order. -/
def deedsSince (d begun : Desk) : List Deed :=
  (gained begun.journal.length d.journal).filterMap Entry.deed?

/-- The journal gains these deeds, in order, and nobody takes a cancellation back. What others do at
the desk is no deed. -/
structure Does (d : Desk) (ds : List Deed) (d' : Desk) : Prop where
  journal : ∃ new, d'.journal = new ++ d.journal ∧ new.reverse.filterMap Entry.deed? = ds
  cancelled : d.cancelled = true → d'.cancelled = true

/-- The one mark for a log that does not decode. If it fails that is noticed, and nothing else is
different. -/
structure SetAside (d : Desk) (h : Head) (o : Offer) (err : DecodeError) (d' : Desk) : Prop where
  clock : d'.clock = d.clock
  cancelled : d'.cancelled = d.cancelled
  ledger : d'.ledger = (d.ledger.mark o.key o.position.block).2
  journal : ∃ failure, d'.journal = failure ++ .notice (.undecodable o.registration.listener.job
      (.new o.log h o.registration.listener.job) err) :: d.journal ∧
    ((d.ledger.mark o.key o.position.block).1 = .ok () → failure = []) ∧
    ∀ e, (d.ledger.mark o.key o.position.block).1 = .error e →
      failure = [.notice (.markFailed o.registration.listener.job e)]

variable {d d' d'' : Desk} {h : Head} {o : Offer} {b : Broadcast} {ds ds' : List Deed}

theorem Does.deedsSince (does : d.Does ds d') : d'.deedsSince d = ds := by
  obtain ⟨new, j, deeds⟩ := does.journal
  rw [Desk.deedsSince, j, gained_append, deeds]

theorem Does.of_journal (j : d'.journal = d.journal)
    (c : d.cancelled = true → d'.cancelled = true) : d.Does [] d' :=
  ⟨⟨[], j, rfl⟩, c⟩

theorem Does.refl (d : Desk) : d.Does [] d := .of_journal rfl id

theorem Does.trans (does : d.Does ds d') (does' : d'.Does ds' d'') : d.Does (ds ++ ds') d'' := by
  obtain ⟨new, j, rfl⟩ := does.journal
  obtain ⟨new', j', rfl⟩ := does'.journal
  refine ⟨⟨new' ++ new, ?_, ?_⟩, does'.cancelled ∘ does.cancelled⟩
  · rw [j', j, List.append_assoc]
  · rw [List.reverse_append, List.filterMap_append]

theorem does_write (d : Desk) (e : Entry) : d.Does e.deed?.toList (d.write e) := by
  refine ⟨⟨[e], rfl, ?_⟩, id⟩
  cases deed : e.deed? <;> simp [deed]

/-- What a listener does is no deed of the pass. -/
theorem does_receive (d : Desk) (l : Listener) (b : Broadcast) : d.Does [] (d.receive l b) := by
  have record (d : Desk) : d.Does [] (d.write (.recorded l b)) := d.does_write (.recorded l b)
  have cancel (d : Desk) : d.Does [] { d with cancelled := d.cancelled || l.cancels } :=
    .of_journal rfl fun h => by simp [h]
  unfold receive
  split
  · split
    next d' was =>
      have asked : d.Does [] (d.was b.key).2 := .of_journal rfl id
      rw [was] at asked
      exact asked.trans (cancel _)
    next d' _ was =>
      have asked : d.Does [] (d.was b.key).2 := .of_journal rfl id
      rw [was] at asked
      have marked (d : Desk) : d.Does [] (d.mark b.key b.block).2 := .of_journal rfl id
      exact asked.trans ((record _).trans ((marked _).trans (cancel _)))
  · exact (record d).trans (cancel _)

theorem does_prepare (call : d.prepare h o = (some b, d')) : d.Does [o.deed h] d' := by
  obtain ⟨v, decoded, rfl, rfl⟩ := prepare_call call
  have deed : o.deed h = .call o.registration.id (o.broadcast h v) := by rw [Offer.deed, decoded]
  exact deed ▸ d.does_write (.handed o.registration.id (o.broadcast h v))

theorem setAside_of_prepare {err : DecodeError}
    (undecoded : o.registration.options.decoder.decode o.log = .error err) :
    ∃ d', d.prepare h o = (none, d') ∧ d.SetAside h o err d' := by
  simp only [prepare, undecoded, mark, notice, write]
  cases marked : (d.ledger.mark o.key o.position.block).1 with
  | ok =>
    refine ⟨_, rfl, rfl, rfl, rfl, [], rfl, fun _ => rfl, fun e failed => ?_⟩
    cases marked.symm.trans failed
  | error e =>
    refine ⟨_, rfl, rfl, rfl, rfl, [_], rfl, fun taken => ?_, fun e' failed => ?_⟩
    · cases marked.symm.trans taken
    · cases marked.symm.trans failed
      rfl

theorem SetAside.does {err : DecodeError} (aside : d.SetAside h o err d')
    (undecoded : o.registration.options.decoder.decode o.log = .error err)
    (positioned : o.log.position? = some o.position) : d.Does [o.deed h] d' := by
  have key : (Broadcast.new o.log h o.registration.listener.job).key = o.key :=
    Log.key_of_position? positioned o.registration.listener.job
  have block : (Broadcast.new o.log h o.registration.listener.job).block = o.position.block := by
    rw [Broadcast.block, Broadcast.new, Log.block_of_position? positioned]
    rfl
  have deed : o.deed h = .mark o.key o.position.block := by rw [Offer.deed, undecoded]
  have noted : d.Does [o.deed h] (d.notice (.undecodable o.registration.listener.job
      (.new o.log h o.registration.listener.job) err)) := by
    rw [deed, ← key, ← block]
    exact d.does_write (.notice (.undecodable ..))
  obtain ⟨failure, j, none, some⟩ := aside.journal
  refine noted.trans ⟨⟨failure, j, ?_⟩, fun c => aside.cancelled.trans c⟩
  cases marked : (d.ledger.mark o.key o.position.block).1 with
  | ok => rw [none marked]; rfl
  | error e => rw [some e marked]; rfl

end Desk

/-! ## Working it off -/

namespace Pass

/-- A pass under way, with whatever others do meanwhile. -/
inductive Proceeds (p : Pass) (d : Desk) : Pass → Desk → Prop where
  | begun : Proceeds p d p d
  | step {q q' : Pass} {d₁ d₂ : Desk} (run : Proceeds p d q d₁) (s : q.step d₁ = some (q', d₂)) :
      Proceeds p d q' d₂
  | aside {q : Pass} {d₁ d₂ : Desk} (run : Proceeds p d q d₁) (others : d₁.Does [] d₂) :
      Proceeds p d q d₂

/-- The first offers of the agenda have been dealt with. What is left is still to be done, apart
from a listener that is being waited for, or is given up because somebody cancelled. -/
def Abides (os : List Offer) (begun : Desk) (q : Pass) (d : Desk) : Prop :=
  ∃ done left, os = done ++ left ∧ begun.Does (done.map (Offer.deed q.head)) d ∧
    (q.todo = left ∧ q.busy = none ∨ (∃ o, q.todo = o :: left ∧ q.busy.isSome) ∨
      q.todo = [] ∧ d.cancelled = true)

variable {p q q' r : Pass} {d d' d₁ d₂ begun : Desk} {os rest : List Offer} {o : Offer} {h : Head}

theorem Proceeds.trans (run : p.Proceeds d q d') (more : q.Proceeds d' r d₁) :
    p.Proceeds d r d₁ := by
  induction more with
  | begun => exact run
  | step _ s ih => exact ih.step s
  | aside _ others ih => exact ih.aside others

theorem Ends.proceeds (ends : p.Ends d d') : ∃ q, p.Proceeds d q d' ∧ q.todo = [] := by
  induction ends with
  | @done p d todo => exact ⟨p, .begun, todo⟩
  | step s _ ih =>
    obtain ⟨q, run, spent⟩ := ih
    exact ⟨q, (Proceeds.begun.step s).trans run, spent⟩
  | @wait p d d' clock _ ih =>
    obtain ⟨q, run, spent⟩ := ih
    have waits : d.Does [] (d.timed clock) := .of_journal rfl id
    exact ⟨q, (Proceeds.begun.aside waits).trans run, spent⟩

/-- The offer whose turn it is has been dealt with. -/
theorem Abides.advance (a : Abides os begun q d) (todo : q.todo = o :: rest)
    (idle : q.busy = none) (does : d.Does [o.deed q.head] d')
    {q' : Pass} (head : q'.head = q.head)
    (after : q'.todo = rest ∧ q'.busy = none ∨ ∃ o, q'.todo = o :: rest ∧ q'.busy.isSome) :
    Abides os begun q' d' := by
  obtain ⟨done, left, split, did, ⟨same, -⟩ | ⟨o', -, busy⟩ | ⟨spent, -⟩⟩ := a
  · obtain rfl : left = o :: rest := same.symm.trans todo
    refine ⟨done ++ [o], rest, by simp [split], ?_, ?_⟩
    · rw [head, List.map_append]
      exact did.trans does
    · rcases after with idle | busy
      · exact .inl idle
      · exact .inr (.inl busy)
  · simp [idle] at busy
  · cases spent.symm.trans todo

theorem Abides.mem (a : Abides os begun q d) (todo : q.todo = o :: rest) (idle : q.busy = none) :
    o ∈ os := by
  obtain ⟨done, left, rfl, -, ⟨same, -⟩ | ⟨o', -, busy⟩ | ⟨spent, -⟩⟩ := a
  · refine List.mem_append_right done ?_
    rw [← same, todo]
    exact List.mem_cons_self
  · simp [idle] at busy
  · cases spent.symm.trans todo

theorem Abides.moves (a : Abides os begun q d)
    (positioned : ∀ o ∈ os, o.log.position? = some o.position) (m : q.Moves d q' d') :
    Abides os begun q' d' := by
  cases m with
  | leave idle cancelled =>
    obtain ⟨done, left, split, did, -⟩ := a
    exact ⟨done, left, split, did, .inr (.inr ⟨rfl, cancelled⟩)⟩
  | @skip o rest d' todo idle _ skipped =>
    obtain ⟨⟨err, undecoded⟩, -⟩ := Desk.prepare_skip skipped
    obtain ⟨d'', prepared, aside⟩ := Desk.setAside_of_prepare (d := d) (h := q.head) undecoded
    obtain ⟨-, rfl⟩ := Prod.mk.inj (skipped.symm.trans prepared)
    have does := aside.does undecoded (positioned o (a.mem todo idle))
    exact a.advance todo idle does rfl (.inl ⟨rfl, idle⟩)
  | @hand o rest b d₁ todo idle _ call =>
    have does := (Desk.does_prepare call).trans (d₁.does_receive o.registration.listener b)
    exact a.advance todo idle does rfl (.inl ⟨rfl, idle⟩)
  | @keep o rest b d₁ ready todo idle _ call =>
    exact a.advance todo idle (Desk.does_prepare call) rfl (.inr ⟨o, todo, rfl⟩)
  | @resume o rest ready b todo busy =>
    obtain ⟨done, left, split, did, ⟨-, idle⟩ | ⟨o', same, -⟩ | ⟨spent, -⟩⟩ := a
    · cases busy.symm.trans idle
    · obtain ⟨-, rfl⟩ := List.cons.inj (same.symm.trans todo)
      have does := did.trans (d.does_receive o.registration.listener b)
      rw [List.append_nil] at does
      exact ⟨done, left, split, does, .inl ⟨rfl, rfl⟩⟩
    · cases spent.symm.trans todo

theorem Abides.proceeds (positioned : ∀ o ∈ os, o.log.position? = some o.position)
    {prune : Option Nat} (run : (start h os prune).Proceeds d q d') :
    q.head = h ∧ Abides os d q d' := by
  induction run with
  | begun => exact ⟨rfl, [], os, rfl, .refl d, .inl ⟨rfl, rfl⟩⟩
  | step _ s ih =>
    obtain ⟨head, abides⟩ := ih
    exact ⟨(step_moves s).head.trans head, abides.moves positioned (step_moves s)⟩
  | aside _ others ih =>
    obtain ⟨head, done, left, split, did, stands⟩ := ih
    refine ⟨head, done, left, split, ?_, ?_⟩
    · have both := did.trans others
      rwa [List.append_nil] at both
    · exact stands.imp_right (Or.imp_right (And.imp_right others.cancelled))

/-- What a pass does for its agenda. What listeners are called with and which logs are marked is at
any time a first part of it (`front`), and all of it at the end of a pass that nobody cancelled
(`whole`). -/
structure Carries (p : Pass) (h : Head) (os : List Offer) : Prop where
  front : ∀ d q d', p.Proceeds d q d' → d'.deedsSince d <+: os.map (Offer.deed h)
  whole : ∀ d q d', p.Proceeds d q d' → q.todo = [] → d'.cancelled = false →
    d'.deedsSince d = os.map (Offer.deed h)
  /-- Once somebody has cancelled nothing more is done. -/
  stops : ∀ d q d₁ q' d₂, p.Proceeds d q d₁ → d₁.cancelled = true →
    q.step d₁ = some (q', d₂) → d₂.deedsSince d₁ = []
  /-- A log that does not decode costs one mark, whether that fails or not. -/
  marks : ∀ d q d₁ o rest err, p.Proceeds d q d₁ → q.todo = o :: rest → q.busy = none →
    d₁.cancelled = false → o.registration.options.decoder.decode o.log = .error err →
    ∃ d₂, q.step d₁ = some ({ q with todo := rest }, d₂) ∧ d₁.SetAside h o err d₂
  /-- It can always be taken to its end. -/
  ends : ∀ d, ∃ q d', p.Proceeds d q d' ∧ q.todo = []

theorem carries (positioned : ∀ o ∈ os, o.log.position? = some o.position) (prune : Option Nat) :
    (start h os prune).Carries h os where
  front d q d' run := by
    obtain ⟨rfl, done, left, rfl, did, -⟩ := Abides.proceeds positioned run
    rw [did.deedsSince, List.map_append]
    exact List.prefix_append _ _
  whole d q d' run spent free := by
    obtain ⟨rfl, done, left, rfl, did, ⟨same, -⟩ | ⟨o, more, -⟩ | ⟨-, cancelled⟩⟩ :=
      Abides.proceeds positioned run
    · obtain rfl : left = [] := same.symm.trans spent
      rw [did.deedsSince, List.append_nil]
    · cases spent.symm.trans more
    · cases free.symm.trans cancelled
  stops d q d₁ q' d₂ _ cancelled s := by
    cases step_moves s with
    | leave => exact (Desk.Does.refl d₁).deedsSince
    | skip _ _ free | hand _ _ free | keep _ _ free => cases free.symm.trans cancelled
    | resume => exact (d₁.does_receive _ _).deedsSince
  marks d q d₁ o rest err run todo idle free undecoded := by
    obtain ⟨rfl, -⟩ := Abides.proceeds positioned run
    obtain ⟨d₂, prepared, aside⟩ := Desk.setAside_of_prepare (d := d₁) (h := q.head) undecoded
    exact ⟨d₂, by simp [step, todo, idle, free, prepared], aside⟩
  ends d := by
    obtain ⟨d', ends⟩ := (start h os prune).ends d
    obtain ⟨q, run, spent⟩ := ends.proceeds
    exact ⟨q, d', run, spent⟩

end Pass

namespace Herald

variable {e : Herald}

/-- What a pass delivers. For any set of consumed keys there is one list of what the head makes due,
in chain order, and a pass over it works it off from the front, all of it unless somebody cancels. A
dispatch begins such a pass, with the keys that the ledger reports as consumed. -/
theorem dispatch_in_chain_order (placed : e.pool.Placed)
    (own : ∀ id g, e.registry.live.get? id = some g → g.id = id) (h : Head) :
    (∀ consumed, ∃ os, e.Agenda h consumed os ∧ (∀ os', e.Agenda h consumed os' → os' = os) ∧
      ∀ prune, (Pass.start h os prune).Carries h os) ∧
    ∀ d p e' d', e.dispatch d h = (some p, e', d') → ∃ lo consumed os prune,
      (e.pool.upTo h.number).lowest? = some lo ∧ (d.find lo h.number).1 = .ok consumed ∧
      e.Agenda h consumed os ∧ p = .start h os prune := by
  have agenda (consumed : Members Key) := agenda_offers placed own h consumed
  constructor
  · intro consumed
    refine ⟨_, agenda consumed, fun os' other => other.unique (agenda consumed), fun prune => ?_⟩
    exact Pass.carries (fun o mem => placed _ _ ((agenda consumed).due o |>.1 mem).pooled) prune
  · intro d p e' d' began
    rcases dispatch_cases placed began with ⟨none, -⟩ | ⟨lo, consumed, low, found, start, -⟩
    · cases none
    · exact ⟨lo, consumed, _, _, low, found, agenda consumed, Option.some.inj start⟩

end Herald

namespace Example

/-- It asks for the same logs as the keeper and cannot read them. -/
def misreader : Registration :=
  ⟨1, { keeper with job := 2 }, { options with decoder := .fails "unreadable" }⟩

/-- Two blocks compete at height 3, and the keeper is done with one of the two logs. -/
def contested : Herald :=
  { ((Herald.new 100).apply (.add misreader)).apply (.add ⟨0, keeper, options⟩) with
    pool := Pool.empty.addAll [log, { log with hash := some 32 }, { log with block := some 70 }] }

theorem contested_own : ∀ id g, contested.registry.live.get? id = some g → g.id = id := by
  intro id g held
  have mem := Table.mem_entries.2 held
  have entries : contested.registry.live.entries =
      [(0, ⟨0, keeper, options⟩), (1, misreader)] := rfl
  rw [entries] at mem
  simp only [List.mem_cons, List.not_mem_nil, or_false, Prod.mk.injEq] at mem
  rcases mem with ⟨rfl, rfl⟩ | ⟨rfl, rfl⟩ <;> rfl

/-- The log of the lesser block hash comes first, and what does not decode is marked. -/
theorem contested_in_order : ∃ os, contested.Agenda head (Members.ofList [⟨33, 0, 1⟩]) os ∧
    os.map (Offer.deed head) =
      [.call 0 ⟨{ log with hash := some 32 }, some .unit, 60, 66, 1⟩, .mark ⟨32, 0, 2⟩ 3,
        .mark ⟨33, 0, 2⟩ 3] ∧
    (Pass.start head os none).Carries head os := by
  have placed : contested.pool.Placed := Pool.placed_empty.addAll _
  obtain ⟨os, agenda, unique, carries⟩ :=
    (Herald.dispatch_in_chain_order placed contested_own head).1 (Members.ofList [⟨33, 0, 1⟩])
  refine ⟨os, agenda, ?_, carries none⟩
  rw [← unique _ (Herald.agenda_offers placed contested_own head _)]
  rfl

end Example

end ChainHerald
