import ChainHerald.Proofs.Books
import ChainHerald.Proofs.Eviction
import ChainHerald.Proofs.Service

/-!
# What is consumed stays consumed

Markers are only ever added (`Desk.Tells`), and a pass asks the ledger for all blocks from the
lowest log that is due up to the head. So no pass that begins once a marker is there offers the log
to its job again (`consumed_never_offered`).
-/

namespace ChainHerald

/-- The broadcast of a log that was decoded, with whatever success. -/
def Entry.decoded? : Entry → Option Broadcast
  | .handed _ x | .notice (.undecodable _ x _) => some x
  | _ => none

/-- The marker that goes with an entry: a marking listener marks what it records, and what does not
decode is marked as well. -/
def Entry.marker? : Entry → Option Marker
  | .recorded l x => if l.marking then some (x.log.marker x.job) else none
  | .notice (.undecodable _ x _) => some (x.log.marker x.job)
  | _ => none

theorem Entry.told_of_plain {e : Entry} (plain : e.broadcast? = none) :
    e.decoded? = none ∧ e.marker? = none := by
  cases e with
  | notice n => cases n <;> first | exact ⟨rfl, rfl⟩ | cases plain
  | asked => exact ⟨rfl, rfl⟩
  | handed | recorded => cases plain

theorem gained_append {α : Type} (new old : List α) :
    gained old.length (new ++ old) = new.reverse := by
  simp [gained]

namespace Desk

/-- The broadcasts of logs that were decoded since the desk was as in `begun`. -/
def decodedSince (d begun : Desk) : List Broadcast :=
  (gained begun.journal.length d.journal).filterMap Entry.decoded?

/-- No marker is lost, only such logs were decoded, and while the ledger takes marks it holds those
that go with the entries. -/
structure Tells (d : Desk) (told : Broadcast → Prop) (d' : Desk) : Prop where
  markers : ∀ k ∈ d.ledger.markers.keys, k ∈ d'.ledger.markers.keys
  journal : ∃ new, d'.journal = new ++ d.journal ∧
    (∀ e ∈ new, ∀ x, e.decoded? = some x → told x) ∧
    (d.ledger.failingMarks = 0 →
      ∀ e ∈ new, ∀ k, e.marker? = some k → k ∈ d'.ledger.markers.keys)

variable {d d' d'' : Desk} {told : Broadcast → Prop} {qs : List Query} {h : Head} {o : Offer}
  {x : Broadcast}

theorem Tells.refl (d : Desk) : d.Tells told d := ⟨fun _ => id, [], rfl, by simp, by simp⟩

theorem Tells.trans (t : d.Tells told d') (t' : d'.Tells told d'')
    (works : d.ledger.failingMarks = 0 → d'.ledger.failingMarks = 0) : d.Tells told d'' := by
  obtain ⟨new, j, decoded, marked⟩ := t.journal
  obtain ⟨new', j', decoded', marked'⟩ := t'.journal
  refine ⟨fun k hk => t'.markers k (t.markers k hk), new' ++ new, ?_, ?_, ?_⟩
  · rw [j', j, List.append_assoc]
  · intro e he
    rcases List.mem_append.1 he with he | he
    · exact decoded' e he
    · exact decoded e he
  · intro zero e he k hk
    rcases List.mem_append.1 he with he | he
    · exact marked' (works zero) e he k hk
    · exact t'.markers k (marked zero e he k hk)

/-- What concerns no listener calls for no marker, whether or not the ledger takes marks. -/
theorem Tells.asks (t : d.Tells told d') (a : d'.Asks qs d'') : d.Tells told d'' := by
  obtain ⟨new, j, decoded, marked⟩ := t.journal
  obtain ⟨new', j', -, plain⟩ := a.journal
  refine ⟨fun k hk => a.markers k (t.markers k hk), new' ++ new, ?_, ?_, ?_⟩
  · rw [j', j, List.append_assoc]
  · intro e he x hx
    rcases List.mem_append.1 he with he | he
    · simp [(Entry.told_of_plain (plain e he)).1] at hx
    · exact decoded e he x hx
  · intro zero e he k hk
    rcases List.mem_append.1 he with he | he
    · simp [(Entry.told_of_plain (plain e he)).2] at hk
    · exact a.markers k (marked zero e he k hk)

theorem Asks.tells (a : d.Asks qs d') : d.Tells told d' := (Tells.refl d).asks a

theorem Tells.mem_decodedSince (t : d.Tells told d') (mem : x ∈ d'.decodedSince d) : told x := by
  obtain ⟨new, j, decoded, -⟩ := t.journal
  rw [decodedSince, j, gained_append] at mem
  obtain ⟨e, he, hx⟩ := List.mem_filterMap.1 mem
  exact decoded e (List.mem_reverse.1 he) x hx

theorem Tells.mem_markers (t : d.Tells told d') (works : d.ledger.failingMarks = 0) {e : Entry}
    {k : Marker} (mem : e ∈ gained d.journal.length d'.journal) (marks : e.marker? = some k) :
    k ∈ d'.ledger.markers.keys := by
  obtain ⟨new, j, -, marked⟩ := t.journal
  rw [j, gained_append] at mem
  exact marked works e (List.mem_reverse.1 mem) k marks

theorem mem_mark {k : Key} {block : Nat} (works : d.ledger.failingMarks = 0) :
    ⟨block, k⟩ ∈ (d.mark k block).2.ledger.markers.keys := by
  simp only [mark, Ledger.mark, works]
  exact Ledger.mem_put.2 (.inl rfl)

theorem tells_call (p : d.prepare h o = (some x, d')) (due : told x) :
    d.Tells told d' ∧ d'.ledger = d.ledger := by
  obtain ⟨v, -, -, rfl⟩ := prepare_call p
  refine ⟨⟨fun _ => id, [.handed o.registration.id x], rfl, ?_, ?_⟩, rfl⟩
  · intro e he y hy
    obtain rfl := List.mem_singleton.1 he
    obtain rfl : x = y := Option.some.inj hy
    exact due
  · intro _ e he k hk
    obtain rfl := List.mem_singleton.1 he
    cases hk

theorem tells_skip (p : d.prepare h o = (none, d')) (at_o : o.log.position? = some o.position)
    (due : told (.new o.log h o.registration.listener.job)) : d.Tells told d' := by
  have marker : (⟨o.position.block, o.key⟩ : Marker) =
      o.log.marker o.registration.listener.job := by
    simp [Log.marker, Log.key_of_position? at_o, Log.block_of_position? at_o, Offer.key]
  unfold prepare at p
  split at p
  · cases p
  next e _ =>
    have noted : d.Tells told (d.notice (.undecodable o.registration.listener.job
        (.new o.log h o.registration.listener.job) e) |>.mark o.key o.position.block).2 := by
      refine ⟨(d.asks_mark o.key o.position.block).markers, [_], rfl, ?_, ?_⟩
      · intro e he y hy
        obtain rfl := List.mem_singleton.1 he
        obtain rfl := Option.some.inj hy
        exact due
      · intro works e he k hk
        obtain rfl := List.mem_singleton.1 he
        obtain rfl := Option.some.inj hk
        exact marker ▸ mem_mark works
    dsimp only at p
    split at p
    next m =>
      cases p
      rwa [m] at noted
    next m =>
      cases p
      rw [m] at noted
      exact noted.asks (Desk.asks_notice _ rfl)

theorem tells_keep {l : Listener} (marking : l.marking = true) (x : Broadcast) :
    d.Tells told ((d.write (.recorded l x)).mark x.key x.block).2 := by
  refine ⟨(d.asks_mark x.key x.block).markers, [.recorded l x], rfl, ?_, ?_⟩
  · intro e he y hy
    obtain rfl := List.mem_singleton.1 he
    cases hy
  · intro works e he k hk
    obtain rfl := List.mem_singleton.1 he
    simp only [Entry.marker?, marking, if_true, Option.some.injEq] at hk
    exact hk ▸ mem_mark works

theorem tells_record {l : Listener} (unmarking : l.marking = false) (x : Broadcast) :
    d.Tells told (d.write (.recorded l x)) := by
  refine ⟨fun _ => id, [.recorded l x], rfl, ?_, ?_⟩
  · intro e he y hy
    obtain rfl := List.mem_singleton.1 he
    cases hy
  · intro _ e he k hk
    obtain rfl := List.mem_singleton.1 he
    simp [Entry.marker?, unmarking] at hk

theorem tells_receive (l : Listener) (x : Broadcast) : d.Tells told (d.receive l x) := by
  have cancel (d : Desk) : d.Asks [] { d with cancelled := d.cancelled || l.cancels } :=
    .of_journal rfl fun _ => id
  have looked : d.Tells told (d.was x.key).2 := (d.asks_was x.key).tells
  have works (zero : d.ledger.failingMarks = 0) : (d.was x.key).2.ledger.failingMarks = 0 := by
    unfold was Ledger.was
    split <;> exact zero
  unfold receive
  cases marking : l.marking with
  | false => exact (tells_record marking x).asks (cancel _)
  | true =>
    simp only [if_true]
    split
    next was =>
      rw [was] at looked
      exact looked.asks (cancel _)
    next was =>
      rw [was] at looked works
      exact (looked.trans (tells_keep marking x) works).asks (cancel _)

end Desk

/-! ## Moves -/

theorem Pass.Moves.tells {p p' : Pass} {d d' : Desk} (m : p.Moves d p' d')
    (at_todo : ∀ o ∈ p.todo, o.log.position? = some o.position) :
    d.Tells (fun x => ∃ o ∈ p.todo, x.key = o.key) d' := by
  have own {o : Offer} (mem : o ∈ p.todo) (v : Option Decoded) :
      ∃ f ∈ p.todo, Broadcast.key ⟨o.log, v, p.head.number, p.head.hash,
        o.registration.listener.job⟩ = f.key :=
    ⟨o, mem, Log.key_of_position? (at_todo o mem) _⟩
  cases m with
  | leave => exact .refl d
  | @skip o rest d' todo _ _ undecoded =>
    have first : o ∈ p.todo := todo ▸ List.mem_cons_self
    exact Desk.tells_skip undecoded (at_todo o first) (own first none)
  | @hand o rest x d' todo _ _ call =>
    obtain ⟨v, -, rfl, -⟩ := Desk.prepare_call call
    have first : o ∈ p.todo := todo ▸ List.mem_cons_self
    have called : d.Tells (fun x => ∃ f ∈ p.todo, x.key = f.key) d' ∧ d'.ledger = d.ledger :=
      Desk.tells_call call (own first (some v))
    exact called.1.trans (Desk.tells_receive _ _) fun zero => called.2 ▸ zero
  | @keep o rest x d' ready todo _ _ call =>
    obtain ⟨v, -, rfl, -⟩ := Desk.prepare_call call
    have first : o ∈ p.todo := todo ▸ List.mem_cons_self
    exact (Desk.tells_call call (own first (some v))).1
  | resume => exact Desk.tells_receive _ _

theorem Herald.lowest_le {e : Herald} (placed : e.pool.Placed) {h : Head} {lo : Nat}
    (low : (e.pool.upTo h.number).lowest? = some lo) {l : Log} (due : l ∈ e.due h) :
    ∃ p, l.position? = some p ∧ lo ≤ p.block ∧ p.block ≤ h.number := by
  obtain ⟨p, held⟩ := Pool.mem_logs.1 due
  obtain ⟨pooled, below⟩ := Pool.get?_upTo_eq_some.1 held
  have at_p := placed p l pooled
  have least := (placed.upTo h.number).min_block.trans low
  refine ⟨p, at_p, ?_, below⟩
  exact (List.min?_eq_some_iff.1 least).2 _
    (List.mem_filterMap.2 ⟨l, due, Log.block_of_position? at_p⟩)

namespace Broadcaster

variable {σ : Type} [Source σ] {a b b' : Broadcaster σ} {hs heard : List Input} {m : Move σ}
  {h : Head} {consumed : Members Key} {k : Marker}

/-- A move decodes for the pass that is on, and for nobody else. -/
theorem Goes.tells (g : b.Goes b' heard) (f : b.Follows hs) :
    b.desk.Tells (fun x => ∃ p, b.pass = some p ∧ ∃ o ∈ p.todo, x.key = o.key) b'.desk := by
  cases g with
  | act acts =>
    rcases acts.desk with ⟨qs, asks⟩ | ⟨p, p', on, moves⟩
    · exact asks.tells
    · obtain ⟨markers, new, j, decoded, marked⟩ :=
        moves.tells fun o mem => ((f.pass p on).2 o mem).position
      exact ⟨markers, new, j, fun e he x hx => ⟨p, on, decoded e he x hx⟩, marked⟩
  | fill fills =>
    obtain ⟨qs, asks⟩ := fills.asks
    exact asks.tells
  | beside beside => exact beside.asks.tells

theorem Reached.tells (r : b.Reached hs) (m : Move σ) :
    b.desk.Tells (fun x => ∃ p, b.pass = some p ∧ ∃ o ∈ p.todo, x.key = o.key) (b.move m).desk :=
  (r.goes m).tells r.follows

/-- How a marker gets written with a move: by a call from outside, by a marking listener, or
because the log does not decode. -/
inductive Marks (b : Broadcaster σ) : Move σ → Marker → Prop where
  | call {x} (accepted : (b.markConsumed x).1 = .ok ()) :
      Marks b (.markConsumed x) (x.log.marker x.job)
  | listener {m l x} (marking : l.marking = true) (works : b.desk.ledger.failingMarks = 0)
      (recorded : .recorded l x ∈ gained b.desk.journal.length (b.move m).desk.journal) :
      Marks b m (x.log.marker x.job)
  | undecodable {m job x e} (works : b.desk.ledger.failingMarks = 0)
      (noticed : .notice (.undecodable job x e) ∈
        gained b.desk.journal.length (b.move m).desk.journal) :
      Marks b m (x.log.marker x.job)

theorem Marks.of_gained (works : b.desk.ledger.failingMarks = 0) {e : Entry}
    (mem : e ∈ gained b.desk.journal.length (b.move m).desk.journal) (told : e.marker? = some k) :
    b.Marks m k := by
  cases e with
  | recorded l x =>
    by_cases marking : l.marking = true
    · obtain rfl : x.log.marker x.job = k := by simpa [Entry.marker?, marking] using told
      exact .listener marking works mem
    · simp [Entry.marker?, marking] at told
  | notice n =>
    cases n with
    | undecodable =>
      cases told
      exact .undecodable works mem
    | _ => cases told
  | asked | handed => cases told

theorem Marks.marked (r : b.Reached hs) (marks : b.Marks m k) :
    k ∈ (b.move m).desk.ledger.markers.keys := by
  cases marks with
  | @call x accepted =>
    simp only [markConsumed, move, Desk.mark, Ledger.mark] at accepted ⊢
    split at accepted
    · exact Ledger.mem_put.2 (.inl rfl)
    · cases accepted
  | @listener _ l x marking works recorded =>
    exact (r.tells m).mem_markers works recorded (by simp [Entry.marker?, marking])
  | undecodable works noticed => exact (r.tells m).mem_markers works noticed rfl

theorem Reached.marked_run (r : b.Reached hs) (marked : k ∈ b.desk.ledger.markers.keys)
    (ms : List (Move σ)) : k ∈ (b.run ms).desk.ledger.markers.keys := by
  induction ms generalizing b hs with
  | nil => exact marked
  | cons m ms ih => exact ih (r.move m) ((r.tells m).markers k marked)

/-- The pass only ever has offers left that it began with. -/
theorem Opens.todo (o : a.Opens m h consumed) (r : a.Reached hs) (since : On (a.move m) b)
    {q : Pass} (on : b.pass = some q) :
    q.todo <:+ (a.noted m).registry.offers ((a.noted m).due h) h consumed := by
  induction since generalizing q with
  | here =>
    obtain rfl := Option.some.inj (o.begun.symm.trans on)
    exact List.suffix_rfl
  | @move b since m' still ih =>
    obtain ⟨hs', r'⟩ := since.reached (r.move m)
    have advance := r'.advances m'
    obtain ⟨q', now, -⟩ := o.on r since
    generalize b.takes m' = heard at advance
    cases advance with
    | aside _ same => exact ih (same.symm.trans on)
    | changes _ idle | hear _ idle => simp [now] at idle
    | serve before moves after =>
      obtain rfl := Option.some.inj (after.symm.trans on)
      exact moves.todo_suffix.trans (ih before)
    | close _ _ after => exact absurd after still

/-- A log that arrives from the marked block comes with the marker's block number. -/
def Numbered (k : Marker) (hs : List Input) : Prop :=
  ∀ l p, .log l ∈ hs → l.position? = some p → p.hash = k.key.hash → p.block = k.block

/-- A pass that begins once a marker is there has no offer left, at any time, of the log to the
job, as long as all logs of the marked block come with its number. -/
theorem Opens.no_offer (o : a.Opens m h consumed) (r : a.Reached hs)
    (marked : k ∈ a.desk.ledger.markers.keys) (numbered : Numbered k (hs ++ a.takes m))
    (since : On (a.move m) b) {q : Pass} (on : b.pass = some q) :
    ∀ f ∈ q.todo, f.key ≠ k.key := by
  intro f mem same
  have follows := r.follows_noted m
  obtain ⟨lo, low, read⟩ := o.read
  obtain ⟨due, at_f, -, -, unconsumed⟩ := Registry.mem_offers.1 ((o.todo r since on).subset mem)
  obtain ⟨p, at_p, above, below⟩ := Herald.lowest_le follows.placed low due
  obtain rfl : p = f.position := Option.some.inj (at_p.symm.trans at_f)
  obtain ⟨q, pooled⟩ := Pool.mem_logs.1 due
  have arrived := (follows.fresh q f.log (Pool.get?_upTo_eq_some.1 pooled).1).mem
  have block := numbered f.log f.position arrived at_f (congrArg Key.hash same)
  rw [Ledger.find_eq_ok read, same] at unconsumed
  have found : (a.desk.ledger.within lo h.number).contains k.key = true :=
    Ledger.contains_within.2 ⟨k, marked, rfl, block ▸ above, block ▸ below⟩
  simp [found] at unconsumed

/-- Every marker that is written gets to the ledger. A pass that begins at any time after that
neither decodes nor hands out the log for the job. And every pass asks the ledger for a range of
blocks in which all its logs lie. -/
theorem consumed_never_offered (r : b.Reached hs) :
    (∀ m k, b.Marks m k → k ∈ (b.move m).desk.ledger.markers.keys) ∧
    (∀ k ∈ b.desk.ledger.markers.keys, ∀ ms m h consumed, (b.run ms).Opens m h consumed →
      Numbered k (hs ++ b.history (ms ++ [m])) → ∀ c, On ((b.run ms).move m) c →
        (∀ q, c.pass = some q → ∀ o ∈ q.todo, o.key ≠ k.key) ∧
        ∀ m' x, x ∈ (c.move m').desk.decodedSince c.desk → x.key ≠ k.key) ∧
    ∀ m h consumed, b.Opens m h consumed → ∃ lo, (b.desk.ledger.find lo h.number).1 = .ok consumed ∧
      ∀ l ∈ (b.noted m).due h, ∃ block, l.block = some block ∧ lo ≤ block ∧ block ≤ h.number := by
  refine ⟨fun m k marks => marks.marked r, ?_, ?_⟩
  · intro k marked ms m h consumed opens numbered c since
    have r' := r.run ms
    have numbered' : Numbered k ((hs ++ b.history ms) ++ (b.run ms).takes m) := by
      simpa [history_append, history] using numbered
    have never {q : Pass} (on : c.pass = some q) :=
      opens.no_offer r' (r.marked_run marked ms) numbered' since on
    refine ⟨fun q => never, ?_⟩
    intro m' x mem
    obtain ⟨hs', later⟩ := since.reached (r'.move m)
    obtain ⟨q, on, o, left, same⟩ := (later.tells m').mem_decodedSince mem
    exact same ▸ never on o left
  · intro m h consumed opens
    obtain ⟨lo, low, read⟩ := opens.read
    refine ⟨lo, read, fun l due => ?_⟩
    obtain ⟨p, at_p, above, below⟩ := Herald.lowest_le (r.follows_noted m).placed low due
    exact ⟨p.block, Log.block_of_position? at_p, above, below⟩

/-- A pass that is on after a move and was not before it began with the move. -/
theorem Reached.opens (r : b.Reached hs) (before : b.pass = none) (after : (b.move m).pass ≠ none) :
    ∃ h consumed, b.Opens m h consumed := by
  have advance := r.advances m
  generalize taken : b.takes m = heard at advance
  cases advance with
  | aside _ same => exact absurd (same.trans before) after
  | changes _ _ idle | close _ _ idle => exact absurd idle after
  | hear i idle free result =>
    rcases hear_opens r.follows.herald.placed taken idle free result with ⟨idle', -⟩ | opens
    · exact absurd idle' after
    · exact opens
  | serve on => simp [before] at on

end Broadcaster

namespace Example

/-- Up to a pass that is about to call the listener. The log is not deep enough to leave the
pool. -/
def serving : List (Move ScriptedChain) := pooling ++ [.head ⟨6, 0, 0⟩, .task .service]

/-- The listener has marked the log. -/
def marked : Broadcaster ScriptedChain := (start.run serving).move (.task .service)

/-- Up to a pass at the next head. -/
def turning : List (Move ScriptedChain) := [.task .service, .head ⟨7, 0, 0⟩]

end Example

namespace Broadcaster

theorem marks_log : (Example.start.run Example.serving).Marks (.task .service)
    (Example.log.marker 1) := by
  obtain ⟨e, mem, told⟩ : ∃ e ∈ gained (Example.start.run Example.serving).desk.journal.length
      Example.marked.desk.journal, e.marker? = some (Example.log.marker 1) := by decide +kernel
  exact .of_gained (by decide +kernel) mem told

theorem numbered_log : Numbered (Example.log.marker 1)
    (Example.start.history Example.serving ++
      (Example.start.run Example.serving).takes (.task .service) ++
      Example.marked.history (Example.turning ++ [.task .service])) := by
  have only : (Example.start.history Example.serving ++
      (Example.start.run Example.serving).takes (.task .service) ++
      Example.marked.history (Example.turning ++ [.task .service])).all (fun
        | .log l => decide (l = Example.log)
        | _ => true) = true := by decide +kernel
  intro l p mem at_p _
  obtain rfl : l = Example.log := by simpa using List.all_eq_true.1 only (.log l) mem
  obtain rfl : p = Example.position := Option.some.inj (at_p.symm.trans rfl)
  rfl

theorem marked_log_kept_back :
    ∃ h consumed, (Example.marked.run Example.turning).Opens (.task .service) h consumed ∧
      ∀ c, On ((Example.marked.run Example.turning).move (.task .service)) c →
        ∀ q, c.pass = some q → ∀ o ∈ q.todo, o.key ≠ Example.log.key 1 := by
  have r := Example.reached Example.serving
  have marked := (consumed_never_offered r).1 _ _ marks_log
  have r' := r.move (.task .service)
  obtain ⟨h, consumed, opens⟩ := (r'.run Example.turning).opens (m := .task .service)
    (by decide +kernel) (by decide +kernel)
  refine ⟨h, consumed, opens, ?_⟩
  intro c since
  exact ((consumed_never_offered r').2.1 _ marked _ _ h consumed opens numbered_log c since).1

end Broadcaster

end ChainHerald
