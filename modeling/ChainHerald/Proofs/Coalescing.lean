import ChainHerald.Proofs.Consumed
import ChainHerald.Proofs.ExactlyOnce
import ChainHerald.Proofs.Isolation

/-!
# Heads that are skipped

Only the newest head is kept for a service that is busy. Nothing is lost by that: whatever heads
come before the highest one, what is handed out is what the highest one alone makes due
(`Herald.skipped_heads_lose_nothing`). `Desk.Hands` says what serving offers leaves, and composes;
`Herald.Kept` is the invariant over the heads: whatever the last head is going to make due is pooled
still or was offered. It takes logs that hash and index tell apart, and nobody who shuts the
broadcaster down (`heads_between_matter`).
-/

namespace ChainHerald

namespace Desk

variable {d d' d'' : Desk} {os os' : List Offer} {o : Offer} {h : Head} {k : Key}

/-! ## Serving -/

/-- Nobody is called or stopped, and at most the key is marked. -/
structure Jots (d : Desk) (k : Key) (d' : Desk) : Prop where
  quiet : d.Quiet d'
  cancelled : d'.cancelled = d.cancelled
  kept : ∀ m ∈ d.ledger.markers.keys, m ∈ d'.ledger.markers.keys
  marked : ∀ m ∈ d'.ledger.markers.keys, m ∈ d.ledger.markers.keys ∨ m.key = k

theorem Jots.of_markers (q : d.Quiet d') (cancelled : d'.cancelled = d.cancelled)
    (markers : d'.ledger.markers = d.ledger.markers) : d.Jots k d' :=
  ⟨q, cancelled, fun _ hm => markers ▸ hm, fun _ hm => .inl (markers ▸ hm)⟩

theorem Noticed.jots (n : d.Noticed d') : d.Jots k d' :=
  .of_markers n.quiet n.cancelled n.markers

theorem Jots.trans (j : d.Jots k d') (j' : d'.Jots k d'') : d.Jots k d'' where
  quiet := j.quiet.trans j'.quiet
  cancelled := j'.cancelled.trans j.cancelled
  kept m hm := j'.kept m (j.kept m hm)
  marked m hm := (j'.marked m hm).elim (j.marked m) .inr

theorem jots_was (d : Desk) (k : Key) : d.Jots k (d.was k).2 := by
  refine .of_markers (d.quiet_was k) rfl ?_
  unfold was Ledger.was
  split <;> rfl

theorem jots_mark (d : Desk) (k : Key) (block : Nat) : d.Jots k (d.mark k block).2 := by
  refine ⟨d.quiet_mark k block, rfl, (d.asks_mark k block).markers, ?_⟩
  intro m hm
  unfold mark Ledger.mark at hm
  split at hm
  · rcases Ledger.mem_put.1 hm with rfl | hm
    · exact .inr rfl
    · exact .inl hm
  · exact .inl hm

theorem jots_receive {l : Listener} (stays : l.cancels = false) (b : Broadcast) :
    d.Jots b.key (d.receive l b) := by
  have record (d : Desk) : d.Jots b.key (d.write (.recorded l b)) :=
    .of_markers (quiet_write fun _ _ => nofun) rfl rfl
  have stay (d : Desk) : d.Jots b.key { d with cancelled := d.cancelled || l.cancels } := by
    simp only [stays, Bool.or_false]
    exact .of_markers (.refl d) rfl rfl
  have looked := d.jots_was b.key
  unfold receive
  split
  · split
    next was =>
      rw [was] at looked
      exact looked.trans (stay _)
    next was =>
      rw [was] at looked
      exact looked.trans ((record _).trans ((jots_mark _ _ _).trans (stay _)))
  · exact (record d).trans (stay _)

theorem jots_skip (p : d.prepare h o = (none, d')) : d.Jots o.key d' := by
  unfold prepare at p
  split at p
  · cases p
  next e _ =>
    have marked := (d.noticed_notice (.undecodable o.registration.listener.job
      (.new o.log h o.registration.listener.job) e)).jots.trans
        (jots_mark _ o.key o.position.block)
    dsimp only at p
    split at p
    next m =>
      cases p
      rwa [m] at marked
    next m =>
      cases p
      rw [m] at marked
      exact marked.trans (noticed_notice _ _).jots

/-- What serving the offers leaves: calls for those that decode, and markers of nothing else. -/
structure Hands (d : Desk) (os : List Offer) (d' : Desk) : Prop where
  cancelled : d'.cancelled = d.cancelled
  kept : ∀ m ∈ d.ledger.markers.keys, m ∈ d'.ledger.markers.keys
  marked : ∀ m ∈ d'.ledger.markers.keys, m ∈ d.ledger.markers.keys ∨ ∃ o ∈ os, m.key = o.key
  journal : ∃ new, d'.journal = new ++ d.journal ∧ ∀ id l,
    (∃ b, .handed id b ∈ new ∧ b.log = l) ↔
      ∃ o ∈ os, o.registration.id = id ∧ o.log = l ∧
        ∃ v, o.registration.options.decoder.decode o.log = .ok v

theorem Jots.skips (j : d.Jots o.key d')
    (refused : ∃ e, o.registration.options.decoder.decode o.log = .error e) : d.Hands [o] d' := by
  obtain ⟨new, grows, silent⟩ := j.quiet.journal
  obtain ⟨e, refused⟩ := refused
  refine ⟨j.cancelled, j.kept, by simpa using j.marked, new, grows, ?_⟩
  intro id l
  constructor
  · rintro ⟨b, mem, -⟩
    exact absurd mem (silent id b)
  · simp [refused]

theorem Jots.calls {v : Decoded} (decoded : o.registration.options.decoder.decode o.log = .ok v)
    (j : (d.write (.handed o.registration.id (o.broadcast h v))).Jots o.key d') :
    d.Hands [o] d' := by
  obtain ⟨new, grows, silent⟩ := j.quiet.journal
  refine ⟨j.cancelled, j.kept,
    fun m hm => (j.marked m hm).imp_right fun key => ⟨o, List.mem_singleton_self o, key⟩,
    new ++ [.handed o.registration.id (o.broadcast h v)], by rw [grows, List.append_assoc]; rfl, ?_⟩
  intro id l
  simp only [List.mem_append, silent, false_or, List.mem_singleton, Entry.handed.injEq,
    exists_eq_left, decoded, Except.ok.injEq, exists_eq', and_true]
  constructor
  · rintro ⟨b, ⟨rfl, rfl⟩, rfl⟩
    exact ⟨rfl, rfl⟩
  · rintro ⟨rfl, rfl⟩
    exact ⟨_, ⟨rfl, rfl⟩, rfl⟩

theorem Hands.refl (d : Desk) : d.Hands [] d :=
  ⟨rfl, fun _ => id, fun _ => .inl, [], rfl, by simp⟩

theorem Noticed.hands (n : d.Noticed d') : d.Hands [] d' := by
  obtain ⟨new, grows, silent⟩ := n.quiet.journal
  exact ⟨n.cancelled, fun m hm => n.markers ▸ hm, fun m hm => .inl (n.markers ▸ hm), new, grows,
    by simp [silent]⟩

theorem Hands.timed (a : d.Hands os d') (clock : Clock) : d.Hands os (d'.timed clock) :=
  ⟨a.cancelled, a.kept, a.marked, a.journal⟩

theorem Hands.trans (a : d.Hands os d') (a' : d'.Hands os' d'') : d.Hands (os ++ os') d'' := by
  obtain ⟨new, j, called⟩ := a.journal
  obtain ⟨new', j', called'⟩ := a'.journal
  refine ⟨a'.cancelled.trans a.cancelled, fun m hm => a'.kept m (a.kept m hm), ?_,
    new' ++ new, by rw [j', j, List.append_assoc], ?_⟩
  · intro m hm
    rcases a'.marked m hm with hm | ⟨o, mem, key⟩
    · rcases a.marked m hm with hm | ⟨o, mem, key⟩
      · exact .inl hm
      · exact .inr ⟨o, List.mem_append_left _ mem, key⟩
    · exact .inr ⟨o, List.mem_append_right _ mem, key⟩
  · intro id l
    have here := called id l
    have there := called' id l
    simp only [List.mem_append, or_and_right, exists_or, here, there]
    exact or_comm

theorem hands_serve (at_o : o.log.position? = some o.position)
    (stays : o.registration.listener.cancels = false) : d.Hands [o] (d.serve h o) := by
  rcases prepared : d.prepare h o with ⟨_ | b, d₁⟩
  · have served : d.serve h o = d₁ := by simp [serve, prepared]
    exact served ▸ (jots_skip prepared).skips (prepare_skip prepared).1
  · have served : d.serve h o = d₁.receive o.registration.listener b := by simp [serve, prepared]
    obtain ⟨v, decoded, rfl, rfl⟩ := prepare_call prepared
    have key : (o.broadcast h v).key = o.key := Log.key_of_position? at_o _
    exact served ▸ (key ▸ jots_receive stays (o.broadcast h v)).calls decoded

theorem hands_serveAll (free : d.cancelled = false)
    (at_os : ∀ o ∈ os, o.log.position? = some o.position)
    (stays : ∀ o ∈ os, o.registration.listener.cancels = false) :
    d.Hands os (d.serveAll h os) := by
  induction os generalizing d with
  | nil => exact .refl d
  | cons o rest ih =>
    obtain ⟨at_o, at_rest⟩ := List.forall_mem_cons.1 at_os
    obtain ⟨first, others⟩ := List.forall_mem_cons.1 stays
    have served := hands_serve (d := d) (h := h) at_o first
    rw [serveAll_cons free]
    exact served.trans (ih (served.cancelled.trans free) at_rest others)

end Desk

/-! ## What the last head makes due -/

/-- Hash and index tell the pooled logs apart. -/
def Pool.Apart (p : Pool) : Prop :=
  ∀ q q' l l', p.get? q = some l → p.get? q' = some l' → q.hash = q'.hash → q.index = q'.index →
    q = q'

theorem Pool.apart_of_entries {p : Pool} (apart : ∀ a ∈ p.entries, ∀ b ∈ p.entries,
    a.1.hash = b.1.hash → a.1.index = b.1.index → a.1 = b.1) : p.Apart := by
  intro q q' l l' held held'
  exact apart (q, l) (mem_entries.2 held) (q', l') (mem_entries.2 held')

/-- A marker of a pooled log stands under its block. -/
def Ledger.Filed (g : Ledger) (p : Pool) : Prop :=
  ∀ m ∈ g.markers.keys, ∀ q l, p.get? q = some l → m.key.hash = q.hash → m.key.index = q.index →
    m.block = q.block

/-- Registrations with ids and jobs of their own, a pool of placed logs and a ledger that can be
read, with every marker under the block of its log. -/
structure Herald.Poised (e : Herald) (d : Desk) (gs : List Registration) : Prop where
  ids : (gs.map (·.id)).Nodup
  jobs : (gs.map (·.listener.job)).Nodup
  registry : e.registry = .after (gs.map .add)
  placed : e.pool.Placed
  filed : d.ledger.Filed e.pool
  free : d.cancelled = false

namespace Herald

variable {e e' e₀ : Herald} {d d' d₀ : Desk} {gs : List Registration} {h x : Head} {o f : Offer}
  {os : List Offer}

/-- Pooled, meant for somebody live, deep enough at the head, and not consumed. -/
structure Owes (e : Herald) (d : Desk) (h : Head) (o : Offer) : Prop where
  pooled : e.pool.get? o.position = some o.log
  live : o.registration ∈ e.registry.live.values
  wants : o.registration.wants h o.log o.position = true
  fresh : ∀ m ∈ d.ledger.markers.keys, m.key ≠ o.key

/-- Two of them are the same if their keys are. -/
theorem Poised.eq_of_key (poised : e.Poised d gs) (apart : e.pool.Apart) (owed : e.Owes d h o)
    (owed' : e.Owes d h f) (key : o.key = f.key) : o = f := by
  obtain ⟨l, q, g⟩ := o
  obtain ⟨l', q', g'⟩ := f
  simp only [Offer.key, Key.mk.injEq] at key
  obtain ⟨hash, index, job⟩ := key
  obtain rfl : q = q' := apart q q' l l' owed.pooled owed'.pooled hash index
  obtain rfl : l = l' := Option.some.inj (owed.pooled.symm.trans owed'.pooled)
  have live {a : Registration} (mem : a ∈ e.registry.live.values) : a ∈ gs := by
    rw [poised.registry] at mem
    exact (Registry.mem_live_adds poised.ids).1 mem
  obtain rfl := List.inj_on_of_nodup_map poised.jobs (live owed.live) (live owed'.live) job
  rfl

/-- What the last head makes due is pooled still or was offered, and nothing else was. -/
structure Kept (e₀ : Herald) (d₀ : Desk) (h : Head) (os : List Offer) (e : Herald) (d : Desk) :
    Prop where
  registry : e.registry = e₀.registry
  pool : ∀ p l, e.pool.get? p = some l → e₀.pool.get? p = some l
  hands : d₀.Hands os d
  sound : ∀ o ∈ os, e₀.Owes d₀ h o
  complete : ∀ o, e₀.Owes d₀ h o → e.pool.get? o.position = some o.log ∨ o ∈ os

namespace Kept

variable {consumed : Members Key} {lo : Nat}

theorem placed (k : Kept e₀ d₀ h os e d) (placed : e₀.pool.Placed) : e.pool.Placed :=
  fun p l held => placed p l (k.pool p l held)

/-- What one of the heads offers is due at the last one as well. -/
theorem owed (k : Kept e₀ d₀ h os e d) (poised : e₀.Poised d₀ gs) (le : x.number ≤ h.number)
    (low : (e.pool.upTo x.number).lowest? = some lo)
    (read : consumed = d.ledger.within lo x.number)
    (mem : o ∈ e.registry.offers (e.due x) x consumed) : e₀.Owes d₀ h o := by
  obtain ⟨due, at_o, live, wants, fresh⟩ := Registry.mem_offers.1 mem
  have placed := k.placed poised.placed
  obtain ⟨q, held⟩ := Pool.mem_logs.1 due
  obtain ⟨pooled, below⟩ := Pool.get?_upTo_eq_some.1 held
  obtain rfl : q = o.position := Option.some.inj ((placed q _ pooled).symm.trans at_o)
  have first := k.pool _ _ pooled
  refine ⟨first, k.registry ▸ live, Registration.wants_mono wants le, fun m marked key => ?_⟩
  obtain ⟨q, at_q, above, -⟩ := lowest_le placed low due
  obtain rfl : q = o.position := Option.some.inj (at_q.symm.trans at_o)
  have block := poised.filed m marked _ o.log first (congrArg Key.hash key)
    (congrArg Key.index key)
  have found := Ledger.contains_within.2
    ⟨m, k.hands.kept m marked, key, block ▸ above, block ▸ below⟩
  simp [read, found] at fresh

/-- What is due at one of the heads is offered then, unless it was before. -/
theorem caught (k : Kept e₀ d₀ h os e d) (poised : e₀.Poised d₀ gs) (apart : e₀.pool.Apart)
    (read : consumed = d.ledger.within lo x.number) (owed : e₀.Owes d₀ h o)
    (wants : o.registration.wants x o.log o.position = true) :
    o ∈ os ++ e.registry.offers (e.due x) x consumed := by
  rcases k.complete o owed with pooled | offered
  · obtain ⟨-, confirmed, -⟩ := Registration.wants_iff.1 wants
    have due := Pool.get?_upTo_eq_some.2 ⟨pooled, (isConfirmed_iff.1 confirmed).1⟩
    cases seen : consumed.contains o.key with
    | false =>
      refine List.mem_append_right _ (Registry.mem_offers.2 ⟨Pool.mem_logs.2 ⟨_, due⟩, ?_, ?_⟩)
      · exact poised.placed _ _ owed.pooled
      · exact ⟨k.registry ▸ owed.live, wants, seen⟩
    | true =>
      -- a marker that was not there from the start is that of an earlier offer, of this one
      rw [read] at seen
      obtain ⟨m, marked, key, -⟩ := Ledger.contains_within.1 seen
      rcases k.hands.marked m marked with old | ⟨f, mem, at_f⟩
      · exact absurd key (owed.fresh m old)
      · have same := poised.eq_of_key apart owed (k.sound f mem) (key.symm.trans at_f)
        exact List.mem_append_left _ (same ▸ mem)
  · exact List.mem_append_left _ offered

/-- What is deep enough for everybody at one of the heads is due there. -/
theorem deep (poised : e₀.Poised d₀ gs) (owed : e₀.Owes d₀ h o)
    (below : o.position.block ≤ x.number)
    (deep : e₀.registry.depth ≤ x.number - o.position.block) :
    o.registration.wants x o.log o.position = true := by
  obtain ⟨contract, -, topics⟩ := Registration.wants_iff.1 owed.wants
  have required : o.registration.options.confirmations ≤ e₀.registry.depth := by
    have live := owed.live
    rw [poised.registry] at live ⊢
    exact Registry.confirmations_le_depth live
  exact Registration.wants_iff.2 ⟨contract, isConfirmed_iff.2 ⟨below, by omega⟩, topics⟩

theorem desk (k : Kept e₀ d₀ h os e d) (hands : d.Hands [] d') : Kept e₀ d₀ h os e d' :=
  { k with hands := List.append_nil os ▸ k.hands.trans hands }

theorem reading (k : Kept e₀ d₀ h os e d) (fails : Bool) : Kept e₀ d₀ h os e (d.reading fails) :=
  k.desk ⟨rfl, fun _ => id, fun _ => .inl, [], rfl, by simp⟩

theorem timed (k : Kept e₀ d₀ h os e d) (clock : Clock) : Kept e₀ d₀ h os e (d.timed clock) :=
  { k with hands := k.hands.timed clock }

theorem turn (k : Kept e₀ d₀ h os e d) (x : Head) : Kept e₀ d₀ h os { e with head := some x } d :=
  ⟨k.registry, k.pool, k.hands, k.sound, k.complete⟩

/-- What leaves the pool with a pass has been offered. -/
theorem pass (k : Kept e₀ d₀ h os e d) (poised : e₀.Poised d₀ gs) (apart : e₀.pool.Apart)
    (stays : ∀ g ∈ gs, g.listener.cancels = false) (le : x.number ≤ h.number)
    (low : (e.pool.upTo x.number).lowest? = some lo)
    (read : consumed = d.ledger.within lo x.number) (n : d.Noticed d') {q : Pass}
    (prune : q.prune = e.bound x) :
    Kept e₀ d₀ h (os ++ e.registry.offers (e.due x) x consumed) ((e.spent x).close q)
      (d'.serveAll x (e.registry.offers (e.due x) x consumed)) where
  registry := by rw [close_registry, spent_registry, k.registry]
  pool p l held := k.pool p l (get?_of_spent (get?_of_close held))
  hands := by
    have free : d'.cancelled = false := n.cancelled.trans (k.hands.cancelled.trans poised.free)
    refine k.hands.trans (n.hands.trans (Desk.hands_serveAll free ?_ ?_))
    · intro o mem
      exact (Registry.mem_offers.1 mem).2.1
    · intro o mem
      have live := (k.owed poised le low read mem).live
      rw [poised.registry] at live
      exact stays _ ((Registry.mem_live_adds poised.ids).1 live)
  sound o mem := (List.mem_append.1 mem).elim (k.sound o) (k.owed poised le low read)
  complete o owed := by
    have due (evicted : o.position.block ≤ x.number ∧
        e.registry.depth ≤ x.number - o.position.block) :
        o ∈ os ++ e.registry.offers (e.due x) x consumed :=
      k.caught poised apart read owed (deep poised owed evicted.1 (k.registry ▸ evicted.2))
    by_cases still : ((e.spent x).close q).pool.get? o.position = some o.log
    · exact .inl still
    · right
      rcases k.complete o owed with pooled | offered
      · by_cases left : (e.spent x).pool.get? o.position = some o.log
        · exact due (close_evicts prune left still)
        · exact due (spent_evicts pooled left)
      · exact List.mem_append_left _ offered

/-- One head on, and whatever it makes due has been offered. -/
theorem answers (k : Kept e₀ d₀ h os e d) (poised : e₀.Poised d₀ gs) (apart : e₀.pool.Apart)
    (stays : ∀ g ∈ gs, g.listener.cancels = false) (le : x.number ≤ h.number)
    (a : e.Answers d ⟨.head x, false⟩ e' d') :
    ∃ new, Kept e₀ d₀ h (os ++ new) e' d' ∧ ∀ o, e₀.Owes d₀ h o →
      o.registration.wants x o.log o.position = true → o ∈ os ++ new := by
  have now := (k.reading false).turn x
  have placed := k.placed poised.placed
  cases a with
  | alone result =>
    rcases hear_cases placed result with ⟨-, rfl, n⟩ | ⟨_, _, _, -, -, -, begun, -⟩
    · have low : (e.pool.upTo x.number).lowest? = none :=
        lowest?_of_dispatch (e := { e with head := some x }) placed rfl result
      refine ⟨[], (List.append_nil os).symm ▸ now.desk n.hands, fun o owed wants => ?_⟩
      rcases k.complete o owed with pooled | offered
      · obtain ⟨-, confirmed, -⟩ := Registration.wants_iff.1 wants
        have due := Pool.get?_upTo_eq_some.2 ⟨pooled, (isConfirmed_iff.1 confirmed).1⟩
        rw [Pool.lowest?_eq_none low] at due
        cases due
      · exact List.mem_append_left _ offered
    · cases begun
  | pass result ends =>
    rcases hear_cases placed result with
      ⟨none, -⟩ | ⟨x', lo, consumed, head, low, read, begun, rfl, n⟩
    · cases none
    · cases begun
      obtain rfl := Option.some.inj head
      obtain ⟨clock, rfl⟩ := ends.eq_finish
      rw [Pass.finish_of_idle rfl]
      have read := Ledger.find_eq_ok read
      refine ⟨_, (now.pass poised apart stays le low read n rfl).timed clock,
        fun o owed wants => ?_⟩
      exact now.caught poised apart read owed wants

theorem serves {hs : List Head} (k : Kept e₀ d₀ h os e d) (poised : e₀.Poised d₀ gs)
    (apart : e₀.pool.Apart) (stays : ∀ g ∈ gs, g.listener.cancels = false)
    (le : ∀ x ∈ hs, x.number ≤ h.number)
    (s : e.Serves d (hs.map fun x => ⟨.head x, false⟩) e' d') :
    ∃ os', Kept e₀ d₀ h os' e' d' := by
  induction hs generalizing e d os with
  | nil =>
    cases s
    exact ⟨os, k⟩
  | cons x rest ih =>
    obtain ⟨first, others⟩ := List.forall_mem_cons.1 le
    cases s with
    | cons a s =>
      obtain ⟨new, k', -⟩ := k.answers poised apart stays first a
      exact ih k' others s

end Kept

end Herald

/-! ## Skipping heads -/

/-- The head arrives, and the ledger can be read. -/
def Head.call (x : Head) : Call := ⟨.head x, false⟩

/-- Who was handed what. -/
def Desk.handedSince (d begun : Desk) : List (Nat × Log) :=
  (d.callsSince begun).map fun c => (c.1, c.2.log)

theorem Desk.Hands.mem_handedSince {d d' : Desk} {os : List Offer} (a : d.Hands os d') {id : Nat}
    {l : Log} : (id, l) ∈ d'.handedSince d ↔ ∃ o ∈ os, o.registration.id = id ∧ o.log = l ∧
      ∃ v, o.registration.options.decoder.decode o.log = .ok v := by
  obtain ⟨new, grows, called⟩ := a.journal
  rw [← called, handedSince, List.mem_map]
  constructor
  · rintro ⟨⟨id, b⟩, mem, same⟩
    obtain ⟨rfl, rfl⟩ := Prod.mk.inj same
    exact ⟨b, (mem_callsSince grows).1 mem, rfl⟩
  · rintro ⟨b, mem, rfl⟩
    exact ⟨(id, b), (mem_callsSince grows).2 mem, rfl⟩

namespace Herald

variable {e e' : Herald} {d d' : Desk} {gs : List Registration} {hs : List Head} {h : Head}

/-- What is handed out by the last head is what that head alone makes due. -/
theorem Poised.handed (poised : e.Poised d gs) (apart : e.pool.Apart)
    (stays : ∀ g ∈ gs, g.listener.cancels = false) (le : ∀ x ∈ hs, x.number ≤ h.number)
    (s : e.Serves d ((hs ++ [h]).map Head.call) e' d') (id : Nat) (l : Log) :
    (id, l) ∈ d'.handedSince d ↔ ∃ o, e.Owes d h o ∧ o.registration.id = id ∧ o.log = l ∧
      ∃ v, o.registration.options.decoder.decode o.log = .ok v := by
  rw [List.map_append] at s
  obtain ⟨e₁, d₁, before, last⟩ := s.last
  have start : Kept e d h [] e d :=
    ⟨rfl, fun _ _ held => held, .refl d, by simp, fun _ owed => .inl owed.pooled⟩
  obtain ⟨os, k⟩ := start.serves poised apart stays le before
  obtain ⟨new, k', due⟩ := k.answers poised apart stays (Nat.le_refl _) last
  rw [k'.hands.mem_handedSince]
  refine exists_congr fun o => and_congr_left fun _ => ⟨k'.sound o, fun owed => ?_⟩
  exact due o owed owed.wants

/-- Whoever is handed something by the heads in turn is handed it by the last one alone, and the
other way round. -/
def Coalesces (e : Herald) (d : Desk) (hs : List Head) (h : Head) : Prop :=
  ∀ e₁ d₁ e₂ d₂, e.Serves d ((hs ++ [h]).map Head.call) e₁ d₁ → e.Serves d [h.call] e₂ d₂ →
    ∀ c, c ∈ d₁.handedSince d ↔ c ∈ d₂.handedSince d

/-- As long as no head goes beyond the last one, the others might as well be left out, whatever they
evict and mark in between. -/
theorem skipped_heads_lose_nothing (poised : e.Poised d gs) (apart : e.pool.Apart)
    (stays : ∀ g ∈ gs, g.listener.cancels = false) (le : ∀ x ∈ hs, x.number ≤ h.number) :
    (∃ e₁ d₁, e.Serves d ((hs ++ [h]).map Head.call) e₁ d₁) ∧
      (∃ e₂ d₂, e.Serves d [h.call] e₂ d₂) ∧ e.Coalesces d hs h := by
  refine ⟨serves .., serves .., ?_⟩
  rintro e₁ d₁ e₂ d₂ all last ⟨id, l⟩
  have alone : e.Serves d (([] ++ [h]).map Head.call) e₂ d₂ := last
  exact (poised.handed apart stays le all id l).trans
    (poised.handed apart stays (by simp) alone id l).symm

end Herald

namespace Example

def crowd (gs : List Registration) (logs : List Log) : Herald :=
  ⟨.after (gs.map .add), Pool.empty.addAll logs, none, false, 50⟩

def mined (block : Nat) (hash : Hash) (data : Bytes) : Log :=
  { log with block := some block, hash := some hash, data }

def height (number : Nat) : Head := ⟨number, 0, 0⟩

/-- Refuses logs with data. -/
def picky : Decoder := ⟨fun l => if l.data.isEmpty then .ok .unit else .error (.custom "data")⟩

def taker (id : Nat) (cancels : Bool) (confirmations : Nat) : Registration :=
  ⟨id, ⟨"taker", id, id, id == 1, cancels, 0⟩, { options with confirmations, decoder := picky }⟩

theorem poised_crowd (gs : List Registration) (ids : (gs.map (·.id)).Nodup)
    (jobs : (gs.map (·.listener.job)).Nodup) (logs : List Log) :
    (crowd gs logs).Poised (.new ⟨0, 0⟩ .empty) gs :=
  have unmarked : Ledger.empty.Filed (crowd gs logs).pool := by
    simp [Ledger.Filed, Ledger.empty, Table.keys, Table.empty]
  ⟨ids, jobs, rfl, Pool.Placed.addAll Pool.placed_empty logs, unmarked, rfl⟩

/-- One taker marks what it was handed, the other does not. -/
def takers : List Registration := [taker 0 false 3, taker 1 false 1]

def apartLogs : List Log := [mined 5 55 [], mined 7 77 [1], mined 8 88 []]

/-- Two logs that hash and index do not tell apart. -/
def twins : List Log := [mined 5 55 [1], mined 7 55 []]

end Example

theorem takers_lose_nothing :
    ((Example.crowd Example.takers Example.apartLogs).Poised (.new ⟨0, 0⟩ .empty) Example.takers ∧
      (Example.crowd Example.takers Example.apartLogs).pool.Apart ∧
      (∀ g ∈ Example.takers, g.listener.cancels = false) ∧
      ∀ x ∈ [Example.height 9, Example.height 6], x.number ≤ (Example.height 10).number) ∧
    (∃ e₁ d₁, (Example.crowd Example.takers Example.apartLogs).Serves (.new ⟨0, 0⟩ .empty)
      (([Example.height 9, Example.height 6] ++ [Example.height 10]).map Head.call) e₁ d₁) ∧
    (∃ e₂ d₂, (Example.crowd Example.takers Example.apartLogs).Serves (.new ⟨0, 0⟩ .empty)
      [(Example.height 10).call] e₂ d₂) ∧
    (Example.crowd Example.takers Example.apartLogs).Coalesces (.new ⟨0, 0⟩ .empty)
      [Example.height 9, Example.height 6] (Example.height 10) := by
  have poised := Example.poised_crowd Example.takers (by decide) (by decide) Example.apartLogs
  have apart : (Example.crowd Example.takers Example.apartLogs).pool.Apart :=
    Pool.apart_of_entries (by decide +kernel)
  have stays : ∀ g ∈ Example.takers, g.listener.cancels = false := by
    simp [Example.takers, Example.taker]
  have le : ∀ x ∈ [Example.height 9, Example.height 6], x.number ≤ (Example.height 10).number := by
    simp [Example.height]
  exact ⟨⟨poised, apart, stays, le⟩, Herald.skipped_heads_lose_nothing poised apart stays le⟩

/-- The heads in between do matter where hash and index do not tell logs apart: at the earlier head
the one is refused and marked, which takes the other one away. They matter as well where somebody
shuts the broadcaster down before the others have waited long enough. -/
theorem heads_between_matter :
    ¬ (∀ gs (e : Herald) d hs h, e.Poised d gs → (∀ g ∈ gs, g.listener.cancels = false) →
      (∀ x ∈ hs, x.number ≤ h.number) → e.Coalesces d hs h) ∧
    ¬ (∀ gs (e : Herald) d hs h, e.Poised d gs → e.pool.Apart →
      (∀ x ∈ hs, x.number ≤ h.number) → e.Coalesces d hs h) := by
  have le : ∀ x ∈ [Example.height 6], x.number ≤ (Example.height 10).number := by
    simp [Example.height]
  constructor
  · intro same
    have poised := Example.poised_crowd [Example.taker 0 false 1] (by decide) (by decide)
      Example.twins
    have handed := same _ _ _ _ _ poised (by simp [Example.taker]) le _ _ _ _
      (Herald.serves_answer ..) (Herald.serves_answer ..) (0, Example.mined 7 55 [])
    revert handed
    decide +kernel
  · intro same
    have poised := Example.poised_crowd [Example.taker 0 false 3, Example.taker 1 true 0]
      (by decide) (by decide) [Example.mined 5 55 []]
    have handed := same _ _ _ _ _ poised (Pool.apart_of_entries (by decide +kernel)) le _ _ _ _
      (Herald.serves_answer ..) (Herald.serves_answer ..) (0, Example.mined 5 55 [])
    revert handed
    decide +kernel

end ChainHerald
