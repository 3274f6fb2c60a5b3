import ChainHerald.Proofs.Pass
import ChainHerald.Proofs.Pool
import ChainHerald.Proofs.Registry

/-!
# One dispatch

`Herald.dispatch_eq` gives the two ways of dispatching one form: the logs up to the head are offered
if the ledger can be read from the lowest of them on, and nothing happens otherwise. With it,
`Herald.hear_cases` says what hearing of a change, a log or a head can come to: it is taken note of,
and then either that was all or a pass begins.
-/

namespace ChainHerald

theorem isConfirmed_iff {head block required : Nat} :
    isConfirmed head block required = true ↔ block ≤ head ∧ required ≤ head - block := by
  simp [isConfirmed]

theorem Registration.wants_iff {g : Registration} {h : Head} {l : Log} {p : Position} :
    g.wants h l p = true ↔ g.options.contract = l.address ∧
      isConfirmed h.number p.block g.options.confirmations = true ∧
      g.options.matchesTopics l.topics = true := by
  simp [wants, and_assoc]

theorem Registry.mem_offers {r : Registry} {logs : List Log} {h : Head} {consumed : Members Key}
    {o : Offer} : o ∈ r.offers logs h consumed ↔
      o.log ∈ logs ∧ o.log.position? = some o.position ∧ o.registration ∈ r.live.values ∧
      o.registration.wants h o.log o.position = true ∧ consumed.contains o.key = false := by
  obtain ⟨log, position, registration⟩ := o
  simp only [offers, List.mem_flatMap]
  constructor
  · rintro ⟨l, hl, mem⟩
    cases hp : l.position? with
    | none => simp [hp] at mem
    | some p =>
      simp only [hp, List.mem_filter, List.mem_map, Offer.mk.injEq, Bool.not_eq_true'] at mem
      obtain ⟨⟨g, ⟨hg, wants⟩, rfl, rfl, rfl⟩, fresh⟩ := mem
      exact ⟨hl, hp, hg, wants, fresh⟩
  · rintro ⟨hl, hp, hg, wants, fresh⟩
    refine ⟨log, hl, ?_⟩
    simp [hp, fresh, hg, wants]

/-- At most notices were written and failing reads counted down. -/
structure Desk.Noticed (d d' : Desk) : Prop where
  journal : ∃ ns : List Notice, d'.journal = ns.map .notice ++ d.journal
  cancelled : d'.cancelled = d.cancelled
  markers : d'.ledger.markers = d.ledger.markers
  marks : d'.ledger.failingMarks = d.ledger.failingMarks
  lookups : d'.ledger.failingLookups = d.ledger.failingLookups

namespace Desk

variable {d d' d'' : Desk}

theorem Noticed.refl (d : Desk) : d.Noticed d := ⟨⟨[], rfl⟩, rfl, rfl, rfl, rfl⟩

theorem Noticed.trans (h : d.Noticed d') (h' : d'.Noticed d'') : d.Noticed d'' := by
  obtain ⟨ns, j⟩ := h.journal
  obtain ⟨ns', j'⟩ := h'.journal
  exact ⟨⟨ns' ++ ns, by simp [j', j]⟩, h'.cancelled.trans h.cancelled, h'.markers.trans h.markers,
    h'.marks.trans h.marks, h'.lookups.trans h.lookups⟩

theorem Noticed.quiet (h : d.Noticed d') : d.Quiet d' := by
  obtain ⟨ns, j⟩ := h.journal
  exact ⟨⟨_, j, fun id b => by simp⟩, fun c => h.cancelled ▸ c⟩

theorem noticed_notice (d : Desk) (n : Notice) : d.Noticed (d.notice n) :=
  ⟨⟨[n], rfl⟩, rfl, rfl, rfl, rfl⟩

theorem noticed_find (d : Desk) (lo hi : Nat) : d.Noticed (d.find lo hi).2 := by
  unfold find Ledger.find
  split <;> exact ⟨⟨[], rfl⟩, rfl, rfl, rfl, rfl⟩

end Desk

namespace Herald

variable {e : Herald} {d : Desk} {h : Head}

/-- What a dispatch at the head offers. -/
def due (e : Herald) (h : Head) : List Log := (e.pool.upTo h.number).logs

/-- The pool while the pass is on: with nobody waiting, what was offered has left. -/
def spent (e : Herald) (h : Head) : Herald :=
  if e.registry.depth = 0 then { e with pool := e.pool.since (h.number + 1) } else e

@[simp]
theorem spent_registry (e : Herald) (h : Head) : (e.spent h).registry = e.registry := by
  unfold spent
  split <;> rfl

@[simp]
theorem spent_head (e : Herald) (h : Head) : (e.spent h).head = e.head := by
  unfold spent
  split <;> rfl

@[simp]
theorem close_head (e : Herald) (p : Pass) : (e.close p).head = e.head := by
  unfold close
  split <;> rfl

@[simp]
theorem close_registry (e : Herald) (p : Pass) : (e.close p).registry = e.registry := by
  unfold close
  split <;> rfl

/-- Below which block the end of the pass prunes. -/
def bound (e : Herald) (h : Head) : Option Nat :=
  if e.registry.depth = 0 then none else some (h.number - e.retention)

theorem drain_eq (placed : e.pool.Placed) (nobody : e.registry.depth = 0) :
    e.drain d h = match (e.pool.upTo h.number).lowest? with
      | none => (none, e, d)
      | some lo => match d.find lo h.number with
        | (.error err, d) => (none, e, d.notice (.consumedUnavailable lo h.number err))
        | (.ok consumed, d) =>
          (some (.start h (e.registry.offers (e.due h) h consumed) (e.bound h)), e.spent h, d) := by
  have lowest : ((e.due h).filterMap Log.block).min? = (e.pool.upTo h.number).lowest? :=
    (placed.upTo h.number).min_block
  have sides : e.pool.logs.partition (fun l => l.block.any (· ≤ h.number)) =
      (e.due h, e.pool.logs.filter (!Pool.reaches h.number ·)) := by
    rw [List.partition_eq_filter_filter]
    exact Prod.ext (placed.filter_reaches h.number) rfl
  have back : (e.pool.since (h.number + 1)).addAll (e.due h) = e.pool := by
    rw [due, ← placed.filter_reaches, placed.addAll_due]
  have left : e.spent h = { e with pool := e.pool.since (h.number + 1) } := if_pos nobody
  have kept : e.bound h = none := if_pos nobody
  rw [left, kept]
  unfold drain
  cases taken : e.pool.takeAll.1 with
  | none =>
    rw [show e.pool.takeAll = (none, Pool.empty) from Prod.ext taken rfl,
      Pool.takeAll_eq_none taken]
    rfl
  | some out =>
    obtain ⟨logs, lo, hi⟩ := out
    rw [show e.pool.takeAll = (some (logs, lo, hi), Pool.empty) from Prod.ext taken rfl,
      Pool.takeAll_eq_some taken]
    simp only [sides, placed.addAll_ahead, lowest, back]
    cases low : (e.pool.upTo h.number).lowest? with
    | none => simp only [Pool.since_of_none low]
    | some lo => rfl

/-- What a dispatch comes to, whichever way it empties the pool. -/
theorem dispatch_eq (placed : e.pool.Placed) :
    e.dispatch d h = match (e.pool.upTo h.number).lowest? with
      | none => (none, e, d)
      | some lo => match d.find lo h.number with
        | (.error err, d) => (none, e, d.notice (.consumedUnavailable lo h.number err))
        | (.ok consumed, d) =>
          (some (.start h (e.registry.offers (e.due h) h consumed) (e.bound h)), e.spent h, d) := by
  by_cases nobody : e.registry.depth = 0
  · rw [dispatch, if_pos nobody, drain_eq placed nobody]
  · have left : e.spent h = e := if_neg nobody
    have kept : e.bound h = some (h.number - e.retention) := if_neg nobody
    rw [dispatch, if_neg nobody, retain, left, kept]
    unfold Pool.ready?
    cases (e.pool.upTo h.number).lowest? <;> rfl

/-- A dispatch comes to nothing, or a pass begins. -/
theorem dispatch_cases (placed : e.pool.Placed) {pass : Option Pass} {e' : Herald} {d' : Desk}
    (result : e.dispatch d h = (pass, e', d')) :
    pass = none ∧ e' = e ∧ d.Noticed d' ∨
    ∃ lo consumed, (e.pool.upTo h.number).lowest? = some lo ∧
      (d.ledger.find lo h.number).1 = .ok consumed ∧
      pass = some (.start h (e.registry.offers (e.due h) h consumed) (e.bound h)) ∧
      e' = e.spent h ∧ d.Noticed d' := by
  rw [dispatch_eq placed] at result
  cases low : (e.pool.upTo h.number).lowest? with
  | none =>
    simp only [low, Prod.mk.injEq] at result
    obtain ⟨rfl, rfl, rfl⟩ := result
    exact .inl ⟨rfl, rfl, .refl d⟩
  | some lo =>
    have noticed := d.noticed_find lo h.number
    cases found : d.find lo h.number with
    | mk answer d₁ =>
      rw [found] at noticed
      cases answer with
      | error err =>
        simp only [low, found, Prod.mk.injEq] at result
        obtain ⟨rfl, rfl, rfl⟩ := result
        exact .inl ⟨rfl, rfl, noticed.trans (Desk.noticed_notice _ _)⟩
      | ok consumed =>
        simp only [low, found, Prod.mk.injEq] at result
        obtain ⟨rfl, rfl, rfl⟩ := result
        exact .inr ⟨lo, consumed, rfl, congrArg Prod.fst found, rfl, rfl, noticed⟩

/-- While the ledger can be read, a dispatch comes to nothing only if nothing is due. -/
theorem lowest?_of_dispatch (placed : e.pool.Placed) (reads : d.ledger.failingReads = 0)
    {e' : Herald} {d' : Desk} (result : e.dispatch d h = (none, e', d')) :
    (e.pool.upTo h.number).lowest? = none := by
  rw [dispatch_eq placed] at result
  cases low : (e.pool.upTo h.number).lowest? with
  | none => rfl
  | some lo => simp [low, Desk.find, Ledger.find, reads] at result

/-! ## What a pass takes out of the pool -/

variable {p : Position} {l : Log}

theorem get?_of_spent (held : (e.spent h).pool.get? p = some l) : e.pool.get? p = some l := by
  unfold spent at held
  split at held
  · exact (Pool.get?_since_eq_some.1 held).1
  · exact held

theorem get?_of_close {q : Pass} (held : (e.close q).pool.get? p = some l) :
    e.pool.get? p = some l := by
  unfold close at held
  split at held
  · exact held
  · exact (Pool.get?_since_eq_some.1 held).1

/-- What leaves at the beginning of a pass is deep enough for everybody. -/
theorem spent_evicts (held : e.pool.get? p = some l) (lost : (e.spent h).pool.get? p ≠ some l) :
    p.block ≤ h.number ∧ e.registry.depth ≤ h.number - p.block := by
  unfold spent at lost
  split at lost
  next nobody =>
    have above : ¬ h.number + 1 ≤ p.block := by
      intro above
      exact lost (Pool.get?_since_eq_some.2 ⟨held, above⟩)
    omega
  · exact absurd held lost

/-- And so is what leaves at its end, as of when it began. -/
theorem close_evicts {begun : Herald} {q : Pass} (prune : q.prune = begun.bound h)
    (held : e.pool.get? p = some l) (lost : (e.close q).pool.get? p ≠ some l) :
    p.block ≤ h.number ∧ begun.registry.depth ≤ h.number - p.block := by
  unfold close at lost
  rw [prune, bound] at lost
  by_cases nobody : begun.registry.depth = 0
  · simp only [nobody, if_true] at lost
    exact absurd held lost
  · simp only [nobody, if_false] at lost
    have above : ¬ h.number - begun.retention ≤ p.block := by
      intro above
      exact lost (Pool.get?_since_eq_some.2 ⟨held, above⟩)
    have deepest : begun.registry.depth ≤ begun.retention := Nat.le_max_right ..
    omega

end Herald

/-! ## What a herald hears of -/

/-- What reaches a herald, one at a time: a change of registrations, a log, a head. -/
inductive Input where
  | change (c : Change)
  | log (l : Log)
  | head (h : Head)

namespace Herald

variable {e : Herald} {d : Desk}

/-- A removed log leaves the pool; any other joins it, unless nobody has named its contract. -/
def file (e : Herald) (l : Log) : Herald :=
  if l.removed then { e with pool := e.pool.remove l }
  else if e.registry.covers l.address then { e with pool := (e.pool.add l).2 }
  else e

/-- What comes before any dispatch. -/
def note (e : Herald) : Input → Herald
  | .change c => e.apply c
  | .log l => e.file l
  | .head h => { e with head := some h }

def hear (e : Herald) (d : Desk) : Input → Option Pass × Herald × Desk
  | .change c => (none, e.apply c, d)
  | .log l => e.onLog d l
  | .head h => e.onHead d h

theorem foldl_note_changes (e : Herald) (cs : List Change) :
    (cs.map Input.change).foldl note e = cs.foldl apply e := by
  rw [List.foldl_map]
  rfl

theorem apply_eq (e : Herald) (c : Change) : ∃ stale,
    e.apply c = { e with registry := e.registry.change c, stale := stale } := by
  cases c <;> exact ⟨_, rfl⟩

/-- What a log does to the pool. -/
theorem file_cases (e : Herald) (l : Log) :
    l.removed = true ∧ e.file l = { e with pool := e.pool.remove l } ∨
    l.removed = false ∧ e.registry.covers l.address = true ∧
      e.file l = { e with pool := (e.pool.add l).2 } ∨
    l.removed = false ∧ e.registry.covers l.address = false ∧ e.file l = e := by
  unfold file
  cases l.removed with
  | true => exact .inl ⟨rfl, rfl⟩
  | false =>
    cases e.registry.covers l.address with
    | true => exact .inr (.inl ⟨rfl, rfl, rfl⟩)
    | false => exact .inr (.inr ⟨rfl, rfl, rfl⟩)

theorem file_of_unpositioned {l : Log} (h : l.position? = none) : e.file l = e := by
  rcases e.file_cases l with ⟨-, eq⟩ | ⟨-, -, eq⟩ | ⟨-, -, eq⟩
  · simp [eq, Pool.remove, h]
  · simp [eq, Pool.add, h]
  · exact eq

theorem Placed.file (placed : e.pool.Placed) (l : Log) : (e.file l).pool.Placed := by
  rcases e.file_cases l with ⟨-, eq⟩ | ⟨-, -, eq⟩ | ⟨-, -, eq⟩ <;> rw [eq]
  · exact placed.remove l
  · exact placed.add l
  · exact placed

theorem Placed.note (placed : e.pool.Placed) (i : Input) : (e.note i).pool.Placed := by
  cases i with
  | change c =>
    obtain ⟨stale, h⟩ := e.apply_eq c
    simpa [Herald.note, h] using placed
  | log l => exact Placed.file placed l
  | head h => exact placed

theorem noticed_warn (e : Herald) (d : Desk) (block : Nat) :
    d.Noticed (e.warn d block) ∧ (e.warn d block).ledger = d.ledger := by
  unfold warn
  split
  · exact ⟨.refl d, rfl⟩
  · exact ⟨d.noticed_notice _, rfl⟩

/-- The only other thing that an arriving log can lead to is a warning. -/
theorem onLog_eq (e : Herald) (d : Desk) (l : Log) : ∃ d', d.Noticed d' ∧ d'.ledger = d.ledger ∧
    (e.onLog d l = (none, e.file l, d') ∨
      ∃ h, (e.file l).head = some h ∧ e.onLog d l = (e.file l).dispatch d' h) := by
  unfold onLog
  cases hp : l.position? with
  | none =>
    rw [file_of_unpositioned hp]
    exact ⟨_, d.noticed_notice _, rfl, .inl rfl⟩
  | some p =>
    obtain ⟨noticed, same⟩ := e.noticed_warn d p.block
    refine ⟨_, noticed, same, ?_⟩
    dsimp only
    unfold file
    split
    · exact .inl rfl
    · cases covered : e.registry.covers l.address with
      | false => exact .inl rfl
      | true =>
        simp only [Bool.not_true, Bool.false_eq_true, if_false, if_true]
        cases at_head : e.head with
        | none => exact .inl rfl
        | some h =>
          dsimp only
          split
          · exact .inr ⟨h, rfl, rfl⟩
          · exact .inl rfl

/-- A removed log sets no pass off. -/
theorem onLog_removed {l : Log} (gone : l.removed = true) :
    (e.onLog d l).1 = none ∧ (e.onLog d l).2.1 = { e with pool := e.pool.remove l } := by
  unfold onLog
  cases hp : l.position? with
  | none => simp [Pool.remove, hp]
  | some p => simp [gone]

/-- Hearing of something is taking note of it, and then that was all or a pass begins. -/
theorem hear_cases (placed : e.pool.Placed) {i : Input} {pass : Option Pass} {e' : Herald}
    {d' : Desk} (result : e.hear d i = (pass, e', d')) :
    pass = none ∧ e' = e.note i ∧ d.Noticed d' ∨
    ∃ h lo consumed, (e.note i).head = some h ∧
      ((e.note i).pool.upTo h.number).lowest? = some lo ∧
      (d.ledger.find lo h.number).1 = .ok consumed ∧
      pass = some (.start h ((e.note i).registry.offers ((e.note i).due h) h consumed)
        ((e.note i).bound h)) ∧
      e' = (e.note i).spent h ∧ d.Noticed d' := by
  cases i with
  | change c =>
    cases result
    exact .inl ⟨rfl, rfl, .refl d⟩
  | head h =>
    rcases dispatch_cases (Placed.note placed (.head h)) result with nothing | ⟨lo, consumed, begun⟩
    · exact .inl nothing
    · exact .inr ⟨h, lo, consumed, rfl, begun⟩
  | log l =>
    obtain ⟨d₁, warned, same, stored | ⟨h, at_head, dispatched⟩⟩ := e.onLog_eq d l
    · cases stored.symm.trans result
      exact .inl ⟨rfl, rfl, warned⟩
    · rcases dispatch_cases (Placed.note placed (.log l)) (dispatched.symm.trans result) with
        ⟨none, kept, noticed⟩ | ⟨lo, consumed, low, read, begun, left, noticed⟩
      · exact .inl ⟨none, kept, warned.trans noticed⟩
      · exact .inr ⟨h, lo, consumed, at_head, low, same ▸ read, begun, left, warned.trans noticed⟩

end Herald

end ChainHerald
