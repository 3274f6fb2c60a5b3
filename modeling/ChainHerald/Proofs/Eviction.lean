import ChainHerald.Proofs.Delivery
import ChainHerald.Proofs.Serving

/-!
# What leaves the pool

`Opens` is a move with which a pass begins, and `On` relates it to every later moment at which that
pass is still on. While it is on, everything before what is left has been served (`Opens.on`), so
when it is over, everybody was served or somebody cancelled (`Opens.served`). From wherever it is on
it can come to that (`On.can_end`). A log leaves the pool only because it was removed or replaced,
or with a pass at a head at which everybody live has it confirmed (`evicted_only_if`).
-/

namespace ChainHerald.Broadcaster

variable {σ : Type} [Source σ] {a b b' c : Broadcaster σ} {hs heard : List Input} {m : Move σ}
  {h : Head} {consumed : Members Key} {p : Position} {l : Log}

/-- With this move a pass begins: the ledger could be read from the lowest log that is due. -/
structure Opens (b : Broadcaster σ) (m : Move σ) (h : Head) (consumed : Members Key) : Prop where
  idle : b.pass = none
  free : b.desk.cancelled = false
  head : (b.noted m).head = some h
  read : ∃ lo, ((b.noted m).pool.upTo h.number).lowest? = some lo ∧
    (b.desk.ledger.find lo h.number).1 = .ok consumed
  begun : (b.move m).pass =
    some (.start h ((b.noted m).registry.offers ((b.noted m).due h) h consumed)
      ((b.noted m).bound h))
  left : (b.move m).herald = (b.noted m).spent h
  quiet : b.desk.Quiet (b.move m).desk

/-- Ever since `start` one pass has been on. -/
inductive On (start : Broadcaster σ) : Broadcaster σ → Prop where
  | here (on : start.pass ≠ none) : On start start
  | move {b : Broadcaster σ} (since : On start b) (m : Move σ) (on : (b.move m).pass ≠ none) :
      On start (b.move m)

theorem On.reached (o : On a b) (r : a.Reached hs) : ∃ hs', b.Reached hs' := by
  induction o with
  | here => exact ⟨hs, r⟩
  | move _ m _ ih =>
    obtain ⟨hs', r'⟩ := ih
    exact ⟨_, r'.move m⟩

/-! ## The pool and the notes -/

theorem note_pool_of_not_log {e : Herald} {i : Input} (other : ∀ x, i ≠ .log x) :
    (e.note i).pool = e.pool := by
  cases i with
  | change c =>
    obtain ⟨stale, applied⟩ := e.apply_eq c
    simp [Herald.note, applied]
  | log l => exact absurd rfl (other l)
  | head h => rfl

theorem foldl_apply_pool (e : Herald) (cs : List Change) :
    (cs.foldl Herald.apply e).pool = e.pool := by
  induction cs generalizing e with
  | nil => rfl
  | cons c cs ih =>
    obtain ⟨stale, applied⟩ := e.apply_eq c
    rw [List.foldl_cons, ih, applied]

/-- Taking note of things, a log is lost only to a removed or a new log at its position. -/
theorem note_evicts {e : Herald} {i : Input} (held : e.pool.get? p = some l)
    (lost : (e.note i).pool.get? p ≠ some l) :
    ∃ x, i = .log x ∧ x.position? = some p ∧
      (x.removed = true ∨ x.removed = false ∧ (e.note i).pool.get? p = some x) := by
  by_cases other : ∀ x, i ≠ .log x
  · rw [note_pool_of_not_log other] at lost
    exact absurd held lost
  · obtain ⟨x, rfl⟩ := not_forall_not.1 other
    rcases e.file_cases x with ⟨gone, eq⟩ | ⟨standing, -, eq⟩ | ⟨-, -, eq⟩ <;>
      simp only [Herald.note, eq] at lost ⊢
    · by_cases here : x.position? = some p
      · exact ⟨x, rfl, here, .inl gone⟩
      · exact absurd ((Pool.get?_remove_of_ne here).trans held) lost
    · by_cases here : x.position? = some p
      · exact ⟨x, rfl, here, .inr ⟨standing, Pool.get?_add_self here⟩⟩
      · exact absurd ((Pool.get?_add_of_ne here).trans held) lost
    · exact absurd held lost

theorem hear_opens (placed : b.herald.pool.Placed) {i : Input} (taken : b.takes m = [i])
    (idle : b.pass = none) (free : b.desk.cancelled = false)
    (result : b.herald.hear b.desk i = ((b.move m).pass, (b.move m).herald, (b.move m).desk)) :
    (b.move m).pass = none ∧ (b.move m).herald = b.noted m ∨
      ∃ h consumed, b.Opens m h consumed := by
  have note : b.noted m = b.herald.note i := by simp [noted, taken]
  rcases Herald.hear_cases placed result with
    ⟨none, same, -⟩ | ⟨h, lo, consumed, head, low, read, begun, left, noticed⟩
  · exact .inl ⟨none, note ▸ same⟩
  · rw [← note] at head low begun left
    exact .inr ⟨h, consumed, idle, free, head, ⟨lo, low, read⟩, begun, left, noticed.quiet⟩

/-- After the notes a move leaves the pool alone, opens a pass or closes one. -/
theorem Reached.after_notes (r : b.Reached hs) (m : Move σ) :
    (b.move m).herald.pool = (b.noted m).pool ∨ (∃ h consumed, b.Opens m h consumed) ∨
      ∃ q, b.pass = some q ∧ q.todo = [] ∧ (b.move m).pass = none ∧ (b.move m).desk = b.desk ∧
        (b.move m).herald = b.herald.close q ∧ b.noted m = b.herald := by
  have advance := r.advances m
  generalize taken : b.takes m = heard at advance
  cases advance with
  | aside apart =>
    obtain ⟨stale, same⟩ := apart.herald
    exact .inl (by simp [noted, taken, same])
  | changes cs _ _ apart =>
    obtain ⟨stale, same⟩ := apart.herald
    exact .inl (by simp only [noted, taken, Herald.foldl_note_changes, same])
  | hear i idle free result =>
    rcases hear_opens r.follows.herald.placed taken idle free result with ⟨-, same⟩ | opens
    · exact .inl (congrArg Herald.pool same)
    · exact .inr (.inl opens)
  | serve _ _ _ herald => exact .inl (by simp [noted, taken, herald])
  | @close q before done after herald desk =>
    exact .inr (.inr ⟨q, before, done, after, desk, herald, by simp [noted, taken]⟩)

/-! ## A pass from its beginning to its end -/

/-- While the pass is on, the pool stays as the pass left it. -/
theorem Opens.on (o : a.Opens m h consumed) (r : a.Reached hs) (since : On (a.move m) b) :
    ∃ q, b.pass = some q ∧ q.head = h ∧ q.prune = (a.noted m).bound h ∧
      b.herald.pool = ((a.noted m).spent h).pool ∧
      q.Progress ((a.noted m).registry.offers ((a.noted m).due h) h consumed) a.desk b.desk := by
  induction since with
  | here =>
    refine ⟨_, o.begun, rfl, rfl, congrArg Herald.pool o.left, ?_⟩
    exact Pass.progress_start h _ _ o.quiet
  | @move b since m' on ih =>
    obtain ⟨q, now, head, prune, pool, progress⟩ := ih
    obtain ⟨hs', r'⟩ := since.reached (r.move m)
    have advance := r'.advances m'
    generalize b.takes m' = heard at advance
    cases advance with
    | aside apart same =>
      obtain ⟨stale, herald⟩ := apart.herald
      refine ⟨q, same.trans now, head, prune, ?_, progress.aside apart.quiet⟩
      rw [herald]
      exact pool
    | changes _ idle => simp [now] at idle
    | hear _ idle => simp [now] at idle
    | @serve p p' before moves after herald =>
      obtain rfl := Option.some.inj (before.symm.trans now)
      exact ⟨p', after, moves.head.trans head, moves.prune.trans prune, herald ▸ pool,
        progress.moves moves⟩
    | close _ _ after => exact absurd after on

/-- Whatever pass is on, some move opened it. -/
theorem Reached.opened (r : b.Reached hs) {q : Pass} (on : b.pass = some q) :
    ∃ (a : Broadcaster σ) (hs₀ : List Input) (m₀ : Move σ) (h : Head) (consumed : Members Key),
      a.Reached hs₀ ∧ a.Opens m₀ h consumed ∧ On (a.move m₀) b := by
  induction r generalizing q with
  | start => cases on
  | @move b hs r m ih =>
    have advance := r.advances m
    generalize taken : b.takes m = heard at advance
    have still : (b.move m).pass ≠ none := by simp [on]
    cases advance with
    | aside _ same =>
      obtain ⟨a, hs₀, m₀, h, consumed, r₀, opens, since⟩ := ih (same.symm.trans on)
      exact ⟨a, hs₀, m₀, h, consumed, r₀, opens, since.move m still⟩
    | serve before =>
      obtain ⟨a, hs₀, m₀, h, consumed, r₀, opens, since⟩ := ih before
      exact ⟨a, hs₀, m₀, h, consumed, r₀, opens, since.move m still⟩
    | changes _ _ idle | close _ _ idle => exact absurd idle still
    | hear i idle free result =>
      rcases hear_opens r.follows.herald.placed taken idle free result with
        ⟨idle', -⟩ | ⟨h, consumed, opens⟩
      · exact absurd idle' still
      · exact ⟨b, hs, m, h, consumed, r, opens, .here still⟩

/-- When the pass is over, somebody has cancelled or every offer was served. -/
theorem Opens.served (o : a.Opens m h consumed) (r : a.Reached hs) (since : On (a.move m) c)
    {m' : Move σ} (ended : (c.move m').pass = none) :
    (c.move m').desk.cancelled = true ∨ ∃ new, (c.move m').desk.journal = new ++ a.desk.journal ∧
      ∀ f ∈ (a.noted m).registry.offers ((a.noted m).due h) h consumed, f.Served h new := by
  obtain ⟨q, now, rfl, -, -, progress⟩ := o.on r since
  obtain ⟨hs', r'⟩ := since.reached (r.move m)
  have advance := r'.advances m'
  generalize c.takes m' = heard at advance
  cases advance with
  | aside _ same => simp [same, now] at ended
  | changes _ idle => simp [now] at idle
  | hear _ idle => simp [now] at idle
  | serve _ _ after => simp [after] at ended
  | @close q' before done _ _ desk =>
    obtain rfl := Option.some.inj (before.symm.trans now)
    rw [desk]
    rcases progress with cancelled | ⟨served, new, split, j, all, -⟩
    · exact .inl cancelled
    · rw [done, List.append_nil] at split
      exact .inr ⟨new, j, split ▸ all⟩

theorem On.ends {d d' : Desk} {p : Pass} {tick : Nat} (ends : p.Ends d d') (since : On a b)
    (phase : b.phase = .handing p tick) (desk : b.desk = d) :
    ∃ ms, (∀ m ∈ ms, m = .task .service ∨ ∃ clock, m = .clock clock) ∧ On a (b.run ms) ∧
      ((b.run ms).move (.task .service)).pass = none := by
  induction ends generalizing b with
  | done todo =>
    refine ⟨[], nofun, since, ?_⟩
    simp [Broadcaster.run, Broadcaster.move, Broadcaster.step, stepService, phase, stepHanding,
      todo, pass]
  | @step p d p' d₁ d' s rest ih =>
    have left : p.todo.isEmpty = false := by
      cases todo : p.todo with
      | nil => simp [Pass.step, todo] at s
      | cons => rfl
    have moved : b.move (.task .service) = { b.withDesk d₁ with phase := .handing p' tick } := by
      simp [Broadcaster.move, Broadcaster.step, stepService, phase, stepHanding, left, desk, s]
    have on : (b.move (.task .service)).pass ≠ none := by simp [moved, pass]
    obtain ⟨ms, own, still, ended⟩ := ih (since.move _ on) (by rw [moved]) (by rw [moved]; rfl)
    exact ⟨.task .service :: ms, List.forall_mem_cons.2 ⟨.inl rfl, own⟩, still, ended⟩
  | @wait p d d' clock rest ih =>
    have on : (b.move (.clock clock)).pass ≠ none := by
      simp [Broadcaster.move, withDesk, pass, phase]
    have timed : (b.move (.clock clock)).desk = d.timed clock := desk ▸ rfl
    obtain ⟨ms, own, still, ended⟩ := ih (since.move _ on) phase timed
    exact ⟨.clock clock :: ms, List.forall_mem_cons.2 ⟨.inr ⟨clock, rfl⟩, own⟩, still, ended⟩

/-- The service and the clock can take a pass that is on to its end. -/
theorem On.can_end (since : On a b) :
    ∃ ms, (∀ m ∈ ms, m = .task .service ∨ ∃ clock, m = .clock clock) ∧ On a (b.run ms) ∧
      ((b.run ms).move (.task .service)).pass = none := by
  have on : b.pass ≠ none := by cases since <;> assumption
  cases phase : b.phase with
  | handing p tick =>
    obtain ⟨d', ends⟩ := p.ends b.desk
    exact since.ends ends phase rfl
  | _ => simp [pass, phase] at on

/-- A pass at which everybody live has the log confirmed. When it is over, each of them that the log
is for was called with it, unless its job was done with it or it could not be decoded. -/
structure Settles (a : Broadcaster σ) (m : Move σ) (h : Head) (consumed : Members Key)
    (p : Position) (l : Log) : Prop where
  opens : a.Opens m h consumed
  held : (a.noted m).pool.get? p = some l
  below : p.block ≤ h.number
  confirmed : ∀ g ∈ (a.noted m).registry.live.values,
    isConfirmed h.number p.block g.options.confirmations = true
  called : ∀ c m', On (a.move m) c → (c.move m').pass = none →
    (c.move m').desk.cancelled = true ∨ ∀ g ∈ (a.noted m).registry.live.values,
      g.options.contract = l.address → g.options.matchesTopics l.topics = true →
      consumed.contains ⟨p.hash, p.index, g.listener.job⟩ = false →
      ∀ v, g.options.decoder.decode l = .ok v →
        (g.id, { Broadcast.new l h g.listener.job with decoded := some v }) ∈
          (c.move m').desk.callsSince a.desk

theorem Opens.settles (o : a.Opens m h consumed) (r : a.Reached hs)
    (held : (a.noted m).pool.get? p = some l) (below : p.block ≤ h.number)
    (deep : (a.noted m).registry.depth ≤ h.number - p.block) :
    a.Settles m h consumed p l := by
  have follows := r.follows_noted m
  have confirmed : ∀ g ∈ (a.noted m).registry.live.values,
      isConfirmed h.number p.block g.options.confirmations = true := by
    intro g live
    have required : g.options.confirmations ≤ (a.noted m).registry.depth := by
      rw [follows.registry] at live ⊢
      exact Registry.confirmations_le_depth live
    exact isConfirmed_iff.2 ⟨below, by omega⟩
  refine ⟨o, held, below, confirmed, ?_⟩
  intro c m' since ended
  rcases o.served r since ended with cancelled | ⟨new, j, served⟩
  · exact .inl cancelled
  · right
    intro g live contract topics unconsumed v decoded
    have due := Pool.mem_logs.2 ⟨p, Pool.get?_upTo_eq_some.2 ⟨held, below⟩⟩
    have wants := Registration.wants_iff.2 ⟨contract, confirmed g live, topics⟩
    have offered : ⟨l, p, g⟩ ∈ (a.noted m).registry.offers ((a.noted m).due h) h consumed :=
      Registry.mem_offers.2 ⟨due, follows.placed p l held, live, wants, unconsumed⟩
    exact (Desk.mem_callsSince j).2 (served _ offered v decoded)

/-- Taking note of things, a move loses a log only to a removed or a new log at its position. Past
that, a log leaves only at the beginning or the end of a pass that settles it. -/
theorem evicted_only_if (r : b.Reached hs) (m : Move σ) (p : Position) (l : Log) :
    (b.herald.pool.get? p = some l → (b.noted m).pool.get? p ≠ some l →
      ∃ x, b.takes m = [.log x] ∧ x.position? = some p ∧
        (x.removed = true ∨ x.removed = false ∧ (b.noted m).pool.get? p = some x)) ∧
    ((b.noted m).pool.get? p = some l → (b.move m).herald.pool.get? p ≠ some l →
      ∃ (a : Broadcaster σ) (hs₀ : List Input) (m₀ : Move σ) (h : Head) (consumed : Members Key),
        a.Reached hs₀ ∧ a.Settles m₀ h consumed p l ∧
        (a = b ∧ m₀ = m ∨ On (a.move m₀) b)) := by
  constructor
  · intro held lost
    have advance := r.advances m
    unfold noted at lost ⊢
    generalize b.takes m = heard at advance lost
    cases advance with
    | aside | serve | close => exact absurd held lost
    | changes cs =>
      rw [Herald.foldl_note_changes, foldl_apply_pool] at lost
      exact absurd held lost
    | hear i =>
      obtain ⟨x, rfl, here, cause⟩ := note_evicts held lost
      exact ⟨x, rfl, here, cause⟩
  · intro held lost
    rcases r.after_notes m with same | ⟨h, consumed, opens⟩ | ⟨q, on, -, -, -, closed, same⟩
    · exact absurd (same ▸ held) lost
    · rw [opens.left] at lost
      obtain ⟨below, deep⟩ := Herald.spent_evicts held lost
      exact ⟨b, hs, m, h, consumed, r, opens.settles r held below deep, .inl ⟨rfl, rfl⟩⟩
    · rw [same] at held
      rw [closed] at lost
      obtain ⟨a, hs₀, m₀, h, consumed, r₀, opens, since⟩ := r.opened on
      obtain ⟨q', now, -, prune, pool, -⟩ := opens.on r₀ since
      obtain rfl := Option.some.inj (now.symm.trans on)
      obtain ⟨below, deep⟩ := Herald.close_evicts prune held lost
      have before := Herald.get?_of_spent (pool ▸ held)
      exact ⟨a, hs₀, m₀, h, consumed, r₀, opens.settles r₀ before below deep, .inr since⟩

theorem served_log_evicted :
    ∃ (a : Broadcaster ScriptedChain) (hs₀ : List Input) (m₀ : Move ScriptedChain) (h : Head)
      (consumed : Members Key), a.Reached hs₀ ∧
        a.Settles m₀ h consumed Example.position Example.log ∧
        ∃ ms, On (a.move m₀) ((a.move m₀).run ms) ∧
          (((a.move m₀).run ms).move (.task .service)).pass = none := by
  have held : ((Example.start.run (Example.dispatching ++ [.task .service])).noted
      (.task .service)).pool.get? Example.position = some Example.log := by decide +kernel
  have lost : ((Example.start.run (Example.dispatching ++ [.task .service])).move
      (.task .service)).herald.pool.get? Example.position ≠ some Example.log := by decide +kernel
  obtain ⟨a, hs₀, m₀, h, consumed, r, settles, -⟩ :=
    (evicted_only_if (Example.reached _) _ _ _).2 held lost
  have on : (a.move m₀).pass ≠ none := by simp [settles.opens.begun]
  obtain ⟨ms, -, still, ended⟩ := (On.here on).can_end
  exact ⟨a, hs₀, m₀, h, consumed, r, settles, ms, still, ended⟩

end ChainHerald.Broadcaster
