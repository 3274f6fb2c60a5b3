import ChainHerald.Proofs.Aggregates
import ChainHerald.Proofs.Delivery
import ChainHerald.Proofs.ExactlyOnce
import ChainHerald.Proofs.Restart

/-!
# What a dispatch does to the state

The service comes out of a dispatch as it went in, but for the pool, and that is cut at one block
(`Herald.dispatch_effect`). Nothing at all happens if nothing is due, and nothing but a notice if
the ledger cannot be read. The pool has its logs under their own positions and the registry its
counts right wherever a service gets to (`Broadcaster.Reached.intact`).
-/

namespace ChainHerald

/-! ## Numbers of registrations -/

namespace Mailbox

variable {α : Type} {q : Mailbox α}

theorem deliver_suffix (a : α) : (q.deliver a).2.queue <:+ q.queue ++ [a] := by
  unfold deliver notify
  dsimp only
  split <;> exact List.drop_suffix _ _

theorem foldl_deliver_suffix (as : List α) :
    (as.foldl (fun q a => (q.deliver a).2) q).queue <:+ q.queue ++ as := by
  induction as generalizing q with
  | nil => exact ⟨[], (List.append_nil _).symm⟩
  | cons a as ih =>
    obtain ⟨front, eq⟩ := q.deliver_suffix a
    refine ih.trans ⟨front, ?_⟩
    rw [← List.append_assoc, eq, List.append_assoc]
    rfl

end Mailbox

namespace Broadcaster

variable {σ : Type} [Source σ] {b : Broadcaster σ} {hs : List Input}

/-- The numbers that the changes so far have given, heard of or not. -/
def given (b : Broadcaster σ) (hs : List Input) : List Nat :=
  (Input.changes hs ++ b.changes.queue).filterMap Registry.given?

theorem given_delivers (b : Broadcaster σ) (m : Move σ) :
    (b.delivers m).filterMap Registry.given? = [] ∨
      (b.delivers m).filterMap Registry.given? = [b.nextId] := by
  cases m with
  | register l o =>
    rcases b.register_cases l o with ⟨d, -, eq⟩ | ⟨e, d, eq⟩
    · exact .inr (by simp [delivers, eq, Registry.given?])
    · exact .inl (by simp [delivers, eq])
  | _ => exact .inl rfl

/-- No number is given twice. -/
theorem Reached.given_once (r : b.Reached hs) :
    (b.given hs).Nodup ∧ ∀ id ∈ b.given hs, id < b.nextId := by
  induction r with
  | start => exact ⟨.nil, nofun⟩
  | @move b hs r m ih =>
    obtain ⟨once, below⟩ := ih
    by_cases service : m = .task .service
    · subst service
      have same : (b.move (.task .service)).given (hs ++ b.takes (.task .service)) =
          b.given hs := by
        rw [given, given, changes_append, List.append_assoc, ← b.service_acts.drains]
      rw [same, b.service_acts.undisturbed.nextId]
      exact ⟨once, below⟩
    · have handled := others_handled (b := b) service
      have later : List.Sublist ((b.move m).given (hs ++ b.takes m))
          (b.given hs ++ (b.delivers m).filterMap Registry.given?) := by
        rw [given, given, ← List.filterMap_append, takes_outside service, List.append_nil,
          List.append_assoc, handled.changes]
        exact ((Mailbox.foldl_deliver_suffix _).sublist.append_left _).filterMap _
      rcases b.given_delivers m with none | new
      · rw [none, List.append_nil] at later
        refine ⟨once.sublist later, fun id mem => ?_⟩
        exact Nat.lt_of_lt_of_le (below id (later.subset mem)) handled.nextId
      · have fresh : b.nextId < (b.move m).nextId := by
          have mem : b.nextId ∈ (b.delivers m).filterMap Registry.given? := by simp [new]
          obtain ⟨c, delivered, gives⟩ := List.mem_filterMap.1 mem
          cases c with
          | add g =>
            have same : g.id = b.nextId := Option.some.inj gives
            exact same ▸ (handled.ids g delivered).2
          | remove => cases gives
        rw [new] at later
        have apart : ∀ id ∈ b.given hs, ∀ id' ∈ [b.nextId], id ≠ id' := by
          intro id old id' new
          rw [List.mem_singleton.1 new]
          exact Nat.ne_of_lt (below id old)
        constructor
        · have all := List.nodup_append.2 ⟨once, List.pairwise_singleton .., apart⟩
          exact all.sublist later
        · intro id mem
          rcases List.mem_append.1 (later.subset mem) with old | new
          · exact Nat.lt_trans (below id old) fresh
          · exact List.mem_singleton.1 new ▸ fresh

theorem Reached.proper (r : b.Reached hs) : Registry.Proper (Input.changes hs) where
  ids := by
    have once := r.given_once.1
    rw [given, List.filterMap_append] at once
    exact (List.nodup_append.1 once).1
  filters g mem := r.filtered (.add g) mem

end Broadcaster

/-! ## States of a service -/

namespace Herald

/-- Every log is pooled under its own position, and the counts are those of the live
registrations. -/
structure Intact (e : Herald) : Prop where
  placed : e.pool.Placed
  exact : e.registry.Exact

variable {e : Herald}

theorem Intact.depth_eq (intact : e.Intact) {n : Nat}
    (deepest : (e.registry.live.values.map (·.options.confirmations)).max? = some n) :
    e.registry.depth = n := by
  rw [intact.exact.depth_eq, deepest]
  rfl

theorem Intact.depth_eq_zero (intact : e.Intact)
    (nobody : ∀ g ∈ e.registry.live.values, g.options.confirmations = 0) :
    e.registry.depth = 0 := by
  rw [intact.exact.depth_eq]
  cases deepest : (e.registry.live.values.map (·.options.confirmations)).max? with
  | none => rfl
  | some n =>
    obtain ⟨g, live, rfl⟩ := List.mem_map.1 (List.max?_mem deepest)
    exact nobody g live

end Herald

/-- Wherever a service gets to, its state is intact. -/
theorem Broadcaster.Reached.intact {σ : Type} [Source σ] {b : Broadcaster σ} {hs : List Input}
    (r : b.Reached hs) : b.herald.Intact where
  placed := r.follows.herald.placed
  exact := by
    rw [r.follows.herald.registry]
    exact Registry.exact_after r.proper

/-! ## A pass to its end -/

namespace Pass

/-- The moves of a pass to its end, whatever others do at the desk meanwhile. -/
inductive Runs : Pass → Desk → Pass → Desk → Prop where
  | done {p : Pass} {d : Desk} (todo : p.todo = []) : Runs p d p d
  | moves {p p' q : Pass} {d d' d'' : Desk} (step : p.step d = some (p', d'))
      (rest : Runs p' d' q d'') : Runs p d q d''
  | aside {p q : Pass} {d d'' : Desk} (d' : Desk) (rest : Runs p d' q d'') : Runs p d q d''

variable {p q : Pass} {d d' : Desk}

theorem Runs.prune (runs : p.Runs d q d') : q.prune = p.prune := by
  induction runs with
  | done => rfl
  | moves step _ ih => exact ih.trans (step_moves step).prune
  | aside _ _ ih => exact ih

theorem Ends.runs (ends : p.Ends d d') : ∃ q, p.Runs d q d' := by
  induction ends with
  | @done p d todo => exact ⟨p, .done todo⟩
  | step step _ ih =>
    obtain ⟨q, rest⟩ := ih
    exact ⟨q, .moves step rest⟩
  | wait clock _ ih =>
    obtain ⟨q, rest⟩ := ih
    exact ⟨q, .aside _ rest⟩

theorem runs (p : Pass) (d : Desk) : ∃ q d', p.Runs d q d' := by
  obtain ⟨d', ends⟩ := p.ends d
  obtain ⟨q, runs⟩ := ends.runs
  exact ⟨q, d', runs⟩

end Pass

/-! ## A dispatch to its end -/

namespace Herald

/-- All is as it was, but that the pool has lost what is below the block. -/
structure Cut (e : Herald) (block : Nat) (e' : Herald) : Prop where
  registry : e'.registry = e.registry
  head : e'.head = e.head
  stale : e'.stale = e.stale
  finality : e'.finality = e.finality
  pool : ∀ p l, e'.pool.get? p = some l ↔ e.pool.get? p = some l ∧ block ≤ p.block

/-- What a dispatch comes to: nothing if nothing is due, a notice if the ledger cannot be read, and
otherwise a pass, after which the pool is cut above the head if nobody waits for confirmations, and
else at what neither finality nor the deepest requirement needs any more. -/
structure Effect (e : Herald) (d : Desk) (h : Head) : Prop where
  idle : (∀ p l, e.pool.get? p = some l → h.number < p.block) → e.dispatch d h = (none, e, d)
  unread : ∀ lo err d', (e.pool.upTo h.number).lowest? = some lo →
    d.find lo h.number = (.error err, d') →
    e.dispatch d h = (none, e, d'.notice (.consumedUnavailable lo h.number err)) ∧
      d'.ledger.markers = d.ledger.markers ∧ d'.journal = d.journal
  read : ∀ lo consumed d', (e.pool.upTo h.number).lowest? = some lo →
    d.find lo h.number = (.ok consumed, d') →
    ∃ p e', e.dispatch d h = (some p, e', d') ∧ (∃ q d'', p.Runs d' q d'') ∧
      ∀ q d'', p.Runs d' q d'' →
        ((∀ g ∈ e.registry.live.values, g.options.confirmations = 0) →
          e.Cut (h.number + 1) (e'.close q)) ∧
        ∀ n, (e.registry.live.values.map (·.options.confirmations)).max? = some n → 0 < n →
          e.Cut (h.number - max e.finality n) (e'.close q)

variable {e : Herald} {d : Desk} {h : Head}

theorem cut_since (e : Herald) (block : Nat) :
    e.Cut block { e with pool := e.pool.since block } :=
  ⟨rfl, rfl, rfl, rfl, fun _ _ => Pool.get?_since_eq_some⟩

/-- The pool is cut when the pass begins, if nobody waits, and else when it ends. -/
theorem close_spent (e : Herald) {q : Pass} (prune : q.prune = e.bound h) :
    e.Cut (if e.registry.depth = 0 then h.number + 1 else h.number - e.retention)
      ((e.spent h).close q) := by
  rw [close, prune]
  by_cases nobody : e.registry.depth = 0
  · simpa only [spent, bound, if_pos nobody] using e.cut_since _
  · simpa only [spent, bound, if_neg nobody] using e.cut_since _

/-- What a dispatch does to the state of a service, whatever that is. -/
theorem dispatch_effect (intact : e.Intact) (d : Desk) (h : Head) : e.Effect d h where
  idle nothing := by
    have low : (e.pool.upTo h.number).lowest? = none := by
      rw [Pool.lowest?_eq_none_iff]
      intro p
      cases held : (e.pool.upTo h.number).get? p with
      | none => rfl
      | some l =>
        obtain ⟨pooled, below⟩ := Pool.get?_upTo_eq_some.1 held
        exact absurd (nothing p l pooled) (Nat.not_lt.2 below)
    rw [dispatch_eq intact.placed, low]
  unread lo err d' low failed := by
    have noticed := d.noticed_find lo h.number
    rw [failed] at noticed
    refine ⟨?_, noticed.markers, ?_⟩
    · rw [dispatch_eq intact.placed, low]
      simp only [failed]
    · exact (congrArg (fun r => r.2.journal) failed).symm
  read lo consumed d' low found := by
    refine ⟨.start h (e.registry.offers (e.due h) h consumed) (e.bound h), e.spent h, ?_,
      Pass.runs _ _, ?_⟩
    · rw [dispatch_eq intact.placed, low]
      simp only [found]
    · intro q d'' runs
      have cut := e.close_spent runs.prune
      constructor
      · intro nobody
        rwa [if_pos (intact.depth_eq_zero nobody)] at cut
      · intro n deepest some
        have depth := intact.depth_eq deepest
        rw [if_neg (by omega), retention, depth] at cut
        exact cut

/-- A log at block 3 goes when a pass at head 60 is over; it stays if the ledger cannot be read, and
head 2 does not concern it. -/
theorem settled_log_cut :
    let b := Example.start.run Example.pooling
    b.herald.pool.get? Example.position = some Example.log ∧
    (∃ p e' d', b.herald.dispatch (b.desk.reading false) Example.head = (some p, e', d') ∧
      ∃ q d'', p.Runs d' q d'' ∧ (e'.close q).pool.get? Example.position = none) ∧
    b.herald.dispatch (b.desk.reading true) Example.head = (none, b.herald,
      ((b.desk.reading true).find 3 60).2.notice (.consumedUnavailable 3 60 Ledger.readError)) ∧
    b.herald.dispatch b.desk ⟨2, 0, 0⟩ = (none, b.herald, b.desk) := by
  intro b
  have effect := dispatch_effect (Example.reached Example.pooling).intact
  have low : (b.herald.pool.upTo 60).lowest? = some 3 := by decide +kernel
  have deepest : (b.herald.registry.live.values.map (·.options.confirmations)).max? = some 2 := by
    decide +kernel
  refine ⟨by decide +kernel, ?_, ?_, ?_⟩
  · obtain ⟨p, e', began, ⟨q, d'', runs⟩, after⟩ :=
      (effect (b.desk.reading false) Example.head).read 3 _ _ low rfl
    refine ⟨p, e', _, began, q, d'', runs, ?_⟩
    have cut := (after q d'' runs).2 2 deepest (by decide)
    cases left : (e'.close q).pool.get? Example.position with
    | none => rfl
    | some l => exact absurd ((cut.pool _ _).1 left).2 (by decide +kernel)
  · exact ((effect (b.desk.reading true) Example.head).unread 3 _ _ low rfl).1
  · have nothing : (b.herald.pool.upTo 2).lowest? = none := by decide +kernel
    refine (effect b.desk ⟨2, 0, 0⟩).idle fun p l held => ?_
    by_contra below
    have due := Pool.get?_upTo_eq_some.2 ⟨held, Nat.not_lt.1 below⟩
    rw [Pool.lowest?_eq_none nothing] at due
    cases due

end Herald

end ChainHerald
