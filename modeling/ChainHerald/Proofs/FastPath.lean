import ChainHerald.Proofs.Effect

/-!
# Draining instead of retaining

While nobody waits for confirmations, a dispatch drains the pool. It asks the ledger just what
retaining would, and goes on alike whatever others do meanwhile; only what has been offered stays
pooled or not (`Herald.draining_unnoticed`). An arriving log at or below the head goes out at once,
with everything else there.
-/

namespace ChainHerald

namespace Pass

/-- Whose decoder the next step calls: nobody's while a listener keeps the pass waiting, and
nobody's any more after a cancellation. -/
def decodes (p : Pass) (d : Desk) : Option Offer :=
  if p.busy.isSome || d.cancelled then none else p.todo.head?

/-- How a pass goes on, with others at the desk before each step: whose decoder it calls, and what
the desk is then. -/
def course (p : Pass) (d : Desk) : List (Desk → Desk) → List (Option Offer × Desk)
  | [] => []
  | other :: others =>
    match p.step (other d) with
    | none => (none, other d) :: p.course (other d) others
    | some (p', d') => (p.decodes (other d), d') :: p'.course d' others

variable {p : Pass} {d : Desk}

theorem step_pruning (p : Pass) (d : Desk) (prune : Option Nat) :
    { p with prune }.step d = (p.step d).map fun moved => ({ moved.1 with prune }, moved.2) := by
  obtain ⟨head, todo, busy, _⟩ := p
  cases todo with
  | nil => rfl
  | cons o rest =>
    cases busy with
    | some wait =>
      simp only [step]
      split <;> rfl
    | none =>
      simp only [step]
      split
      · rfl
      · split
        · rfl
        · split <;> rfl

/-- When it prunes does not change the course of a pass. -/
theorem course_pruning (prune : Option Nat) (others : List (Desk → Desk)) :
    { p with prune }.course d others = p.course d others := by
  induction others generalizing p d with
  | nil => rfl
  | cons other others ih =>
    simp only [course, step_pruning]
    cases p.step (other d) with
    | none => exact congrArg _ ih
    | some moved => exact congrArg _ ih

end Pass

theorem Pool.get?_add_eq_some {s : Pool} {l x : Log} {p q : Position}
    (positioned : l.position? = some p) :
    (s.add l).2.get? q = some x ↔ q = p ∧ x = l ∨ q ≠ p ∧ s.get? q = some x := by
  by_cases here : q = p
  · subst here
    simp [get?_add_self positioned, eq_comm]
  · have elsewhere : l.position? ≠ some q := by
      rw [positioned]
      exact fun same => here (Option.some.inj same).symm
    simp [get?_add_of_ne elsewhere, here]

namespace Herald

/-- The ledger is read from the lowest log up to the head, and what is due is offered. -/
def attempt (e : Herald) (d : Desk) (h : Head) (prune : Option Nat) (left : Pool) :
    Option Pass × Herald × Desk :=
  match (e.pool.upTo h.number).lowest? with
  | none => (none, e, d)
  | some lo =>
    match d.find lo h.number with
    | (.error err, d) => (none, e, d.notice (.consumedUnavailable lo h.number err))
    | (.ok consumed, d) =>
      (some (.start h (e.registry.offers (e.due h) h consumed) prune), { e with pool := left }, d)

/-- What is left when there is no pass, or when it is over. -/
inductive Leaves : Option Pass × Herald × Desk → Herald → Prop where
  | alone {e d} : Leaves (none, e, d) e
  | pass {p q e d d'} (runs : p.Runs d q d') : Leaves (some p, e, d) (e.close q)

/-- The one is as the other, but may lack logs that have been offered. -/
structure Leaner (offered : Log → Prop) (e e' : Herald) : Prop where
  same : { e' with pool := e.pool } = e
  kept : ∀ p l, e.pool.get? p = some l → e'.pool.get? p = some l
  extra : ∀ p l, e'.pool.get? p = some l → e.pool.get? p = some l ∨ offered l

/-- Draining does what retaining would, in everybody else's eyes. -/
structure Unnoticed (e : Herald) (d : Desk) (h : Head) : Prop where
  taken : e.dispatch d h = e.drain d h
  drains : e.drain d h = e.attempt d h none (e.pool.since (h.number + 1))
  retains : e.retain d h = e.attempt d h (some (h.number - e.finality)) e.pool
  desk : (e.drain d h).2.2 = (e.retain d h).2.2
  course : ∀ others, (e.drain d h).1.map (·.course (e.drain d h).2.2 others) =
    (e.retain d h).1.map (·.course (e.retain d h).2.2 others)
  left : ∀ e₁ e₂, Leaves (e.drain d h) e₁ → Leaves (e.retain d h) e₂ →
    Leaner (fun l => l ∈ e.due h ∧ (e.drain d h).1.isSome) e₁ e₂

variable {e e' : Herald} {d : Desk} {h : Head} {l : Log} {p : Position}

theorem leaner_refl (offered : Log → Prop) (e : Herald) : Leaner offered e e :=
  ⟨rfl, fun _ _ => id, fun _ _ => .inl⟩

/-- The logs up to the head may leave at once, or those below finality at the end. -/
theorem leaner_since (e : Herald) (h : Head) (back : Nat) :
    Leaner (· ∈ e.due h) { e with pool := e.pool.since (h.number + 1) }
      { e with pool := e.pool.since (h.number - back) } where
  same := rfl
  kept p l held := by
    obtain ⟨pooled, above⟩ := Pool.get?_since_eq_some.1 held
    exact Pool.get?_since_eq_some.2 ⟨pooled, by omega⟩
  extra p l held := by
    obtain ⟨pooled, -⟩ := Pool.get?_since_eq_some.1 held
    by_cases below : p.block ≤ h.number
    · exact .inr (Pool.mem_logs.2 ⟨p, Pool.get?_upTo_eq_some.2 ⟨pooled, below⟩⟩)
    · exact .inl (Pool.get?_since_eq_some.2 ⟨pooled, by omega⟩)

theorem Leaves.of_pass {q : Pass} (leaves : Leaves (some q, e, d) e') :
    ∃ q', q'.prune = q.prune ∧ e' = e.close q' := by
  cases leaves with
  | pass runs => exact ⟨_, runs.prune, rfl⟩

theorem Leaves.of_alone (leaves : Leaves (none, e, d) e') : e' = e := by
  cases leaves
  rfl

theorem leaves (r : Option Pass × Herald × Desk) : ∃ e', Leaves r e' := by
  obtain ⟨_ | p, e, d⟩ := r
  · exact ⟨e, .alone⟩
  · obtain ⟨q, d', runs⟩ := p.runs d
    exact ⟨e.close q, .pass runs⟩

theorem drain_attempt (intact : e.Intact) (nobody : e.registry.depth = 0) :
    e.drain d h = e.attempt d h none (e.pool.since (h.number + 1)) := by
  have kept : e.bound h = none := if_pos nobody
  have left : e.spent h = { e with pool := e.pool.since (h.number + 1) } := if_pos nobody
  rw [drain_eq intact.placed nobody, kept, left]
  rfl

theorem retain_attempt (nobody : e.registry.depth = 0) :
    e.retain d h = e.attempt d h (some (h.number - e.finality)) e.pool := by
  rw [retain, retention, nobody, Nat.max_zero]
  unfold Pool.ready? attempt
  cases (e.pool.upTo h.number).lowest? <;> rfl

/-- When it prunes and what it leaves make no difference to what an attempt comes to. -/
theorem attempt_cases (e : Herald) (d : Desk) (h : Head) :
    (∃ d', ∀ prune left, e.attempt d h prune left = (none, e, d')) ∨
    ∃ todo d', ∀ prune left,
      e.attempt d h prune left = (some (.start h todo prune), { e with pool := left }, d') := by
  unfold attempt
  cases (e.pool.upTo h.number).lowest? with
  | none => exact .inl ⟨d, fun _ _ => rfl⟩
  | some lo =>
    rcases found : d.find lo h.number with ⟨err | consumed, d'⟩
    · refine .inl ⟨d'.notice (.consumedUnavailable lo h.number err), fun _ _ => ?_⟩
      simp only [found]
    · refine .inr ⟨e.registry.offers (e.due h) h consumed, d', fun _ _ => ?_⟩
      simp only [found]

theorem unnoticed (intact : e.Intact) (nobody : e.registry.depth = 0) (d : Desk) (h : Head) :
    e.Unnoticed d h := by
  have drains := drain_attempt (d := d) (h := h) intact nobody
  have retains := retain_attempt (d := d) (h := h) nobody
  refine ⟨if_pos nobody, drains, retains, ?_, ?_, ?_⟩
  all_goals
    rw [drains, retains]
    obtain ⟨d', nothing⟩ | ⟨todo, d', begun⟩ := e.attempt_cases d h
  · rw [nothing, nothing]
  · rw [begun, begun]
  · intro others
    rw [nothing, nothing]
  · intro others
    rw [begun, begun]
    exact congrArg some (Pass.course_pruning _ others).symm
  · intro e₁ e₂ drained retained
    rw [nothing] at drained retained
    rw [drained.of_alone, retained.of_alone]
    exact leaner_refl _ e
  · intro e₁ e₂ drained retained
    rw [begun] at drained retained
    obtain ⟨q, prune, rfl⟩ := drained.of_pass
    obtain ⟨q', prune', rfl⟩ := retained.of_pass
    rw [begun, close, close, prune, prune']
    obtain ⟨same, kept, extra⟩ := e.leaner_since h e.finality
    exact ⟨same, kept, fun p l held => (extra p l held).imp_right fun due => ⟨due, rfl⟩⟩

/-! ## A log at or below the head -/

/-- An arriving log is offered at once, with all else up to the head, and only what is above the
head stays pooled. -/
def Prompt (e : Herald) (d : Desk) (l : Log) (p : Position) (h : Head) : Prop :=
  ∃ lo, ((e.pool.add l).2.upTo h.number).lowest? = some lo ∧
    ∀ consumed d', (e.warn d p.block).find lo h.number = (.ok consumed, d') →
      ∃ logs e', e.onLog d l =
          (some (.start h (e.registry.offers logs h consumed) none), e', d') ∧
        (∀ x, x ∈ logs ↔ x = l ∨ ∃ q, q ≠ p ∧ e.pool.get? q = some x ∧ q.block ≤ h.number) ∧
        ∀ e'', Leaves (e.onLog d l) e'' → ∀ q x,
          e''.pool.get? q = some x ↔ e.pool.get? q = some x ∧ h.number < q.block

theorem Intact.add (intact : e.Intact) (l : Log) :
    Intact { e with pool := (e.pool.add l).2 } :=
  ⟨intact.placed.add l, intact.exact⟩

theorem onLog_dispatch (positioned : l.position? = some p) (standing : l.removed = false)
    (covered : e.registry.covers l.address = true) (at_head : e.head = some h)
    (nobody : e.registry.depth = 0) (below : p.block ≤ h.number) :
    e.onLog d l =
      { e with pool := (e.pool.add l).2 }.dispatch (e.warn d p.block) h := by
  simp [onLog, positioned, standing, covered, at_head, nobody, below]

theorem mem_due_add {x : Log} (positioned : l.position? = some p) (below : p.block ≤ h.number) :
    x ∈ due { e with pool := (e.pool.add l).2 } h ↔
      x = l ∨ ∃ q, q ≠ p ∧ e.pool.get? q = some x ∧ q.block ≤ h.number := by
  simp only [due, Pool.mem_logs, Pool.get?_upTo_eq_some,
    Pool.get?_add_eq_some positioned]
  constructor
  · rintro ⟨q, ⟨-, rfl⟩ | ⟨elsewhere, pooled⟩, due⟩
    · exact .inl rfl
    · exact .inr ⟨q, elsewhere, pooled, due⟩
  · rintro (rfl | ⟨q, elsewhere, pooled, due⟩)
    · exact ⟨p, .inl ⟨rfl, rfl⟩, below⟩
    · exact ⟨q, .inr ⟨elsewhere, pooled⟩, due⟩

theorem prompt (intact : e.Intact) (nobody : e.registry.depth = 0) (d : Desk)
    (positioned : l.position? = some p) (standing : l.removed = false)
    (covered : e.registry.covers l.address = true) (at_head : e.head = some h)
    (below : p.block ≤ h.number) : e.Prompt d l p h := by
  have seen := unnoticed (intact.add l) nobody (e.warn d p.block) h
  have drained := seen.taken.trans seen.drains
  rw [← onLog_dispatch positioned standing covered at_head nobody below] at drained
  cases low : ((e.pool.add l).2.upTo h.number).lowest? with
  | none =>
    have joined : (e.pool.add l).2.get? p = some l := Pool.get?_add_self positioned
    have due := Pool.get?_upTo_eq_some.2 ⟨joined, below⟩
    rw [Pool.lowest?_eq_none low] at due
    cases due
  | some lo =>
    refine ⟨lo, low, fun consumed d' found => ?_⟩
    simp only [attempt, low, found] at drained
    refine ⟨_, _, drained, fun x => mem_due_add positioned below, ?_⟩
    intro e'' leaves q x
    rw [drained] at leaves
    obtain ⟨pass, prune, rfl⟩ := leaves.of_pass
    rw [close, prune]
    dsimp only [Pass.start]
    rw [Pool.get?_since_eq_some, Pool.get?_add_eq_some positioned]
    constructor
    · rintro ⟨⟨rfl, -⟩ | ⟨-, pooled⟩, above⟩
      · omega
      · exact ⟨pooled, above⟩
    · rintro ⟨pooled, above⟩
      have elsewhere : q ≠ p := by
        rintro rfl
        omega
      exact ⟨.inr ⟨elsewhere, pooled⟩, above⟩

/-- While nobody waits for confirmations, nobody notices that the pool is drained, and no log at or
below the head waits. -/
theorem draining_unnoticed (intact : e.Intact)
    (nobody : ∀ g ∈ e.registry.live.values, g.options.confirmations = 0) :
    (∀ d h, e.Unnoticed d h) ∧
    ∀ d l p h, l.position? = some p → l.removed = false → e.registry.covers l.address = true →
      e.head = some h → p.block ≤ h.number → e.Prompt d l p h := by
  have depth := intact.depth_eq_zero nobody
  constructor
  · exact unnoticed intact depth
  · intro d l p h positioned standing covered at_head below
    exact prompt intact depth d positioned standing covered at_head below

end Herald

namespace Example

def eager : Registration := ⟨0, keeper, { options with confirmations := 0 }⟩

def rival : Log := { log with hash := some 32 }

/-- Two blocks compete at height 3, and a third log is ahead of the head. -/
def crowded : Herald :=
  { (Herald.new 100).apply (.add eager) with
    pool := Pool.empty.addAll [log, rival, { log with block := some 70 }]
    head := some head }

theorem crowded_intact : crowded.Intact where
  placed := Pool.placed_empty.addAll _
  exact := by
    have proper : Registry.Proper [.add eager] := {
      ids := List.pairwise_singleton ..
      filters := fun g mem => by
        cases List.mem_singleton.1 mem
        decide +kernel }
    exact Registry.exact_after proper

/-- Both logs of height 3 leave with the one that arrives. -/
theorem rivals_drained :
    let d := Desk.new ⟨0, 0⟩ .empty
    let arriving := { log with index := some 1 }
    (∃ drained retained, Herald.Leaves (crowded.drain d head) drained ∧
      Herald.Leaves (crowded.retain d head) retained ∧
      { retained with pool := drained.pool } = drained) ∧
    ∃ logs consumed e' d', crowded.onLog d arriving =
        (some (.start head (crowded.registry.offers logs head consumed) none), e', d') ∧
      arriving ∈ logs ∧ log ∈ logs ∧ rival ∈ logs := by
  intro d arriving
  have nobody : ∀ g ∈ crowded.registry.live.values, g.options.confirmations = 0 := by
    decide +kernel
  obtain ⟨unnoticed, prompt⟩ := Herald.draining_unnoticed crowded_intact nobody
  constructor
  · obtain ⟨drained, drains⟩ := Herald.leaves (crowded.drain d head)
    obtain ⟨retained, retains⟩ := Herald.leaves (crowded.retain d head)
    exact ⟨drained, retained, drains, retains,
      ((unnoticed d head).left drained retained drains retains).same⟩
  · obtain ⟨lo, -, reads⟩ := prompt d arriving ⟨3, 1, 33⟩ head rfl rfl (by decide +kernel) rfl
      (by decide)
    obtain ⟨logs, e', sent, mem, -⟩ := reads _ _ rfl
    refine ⟨logs, _, e', _, sent, (mem _).2 (.inl rfl), ?_, ?_⟩
    · exact (mem _).2 (.inr ⟨position, by decide, by decide +kernel, by decide⟩)
    · exact (mem _).2 (.inr ⟨⟨3, 0, 32⟩, by decide, by decide +kernel, by decide⟩)

end Example

end ChainHerald
