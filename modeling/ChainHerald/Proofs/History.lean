import ChainHerald.Proofs.Advance

/-!
# What a broadcaster owes to its history

`Broadcaster.Follows` is the invariant of runs: the registry is the one that the changes heard of
leave, the head is the last one heard of, and every pooled log has arrived and was not taken back
since. Of every offer that a pass still has to make it says the same, and that the registration is
live and wants the log at that head.
-/

namespace ChainHerald

namespace Input

def changes (hs : List Input) : List Change :=
  hs.filterMap fun
    | .change c => some c
    | _ => none

def heads (hs : List Input) : List Head :=
  hs.filterMap fun
    | .head h => some h
    | _ => none

def lastHead (hs : List Input) : Option Head := (heads hs).getLast?

/-- The log arrived, not removed, and since then no removed one at its position. -/
def Fresh (hs : List Input) (l : Log) : Prop :=
  ∃ earlier later, hs = earlier ++ .log l :: later ∧ l.removed = false ∧
    ∀ r, .log r ∈ later → r.removed = true → r.position? ≠ l.position?

variable {hs : List Input} {l : Log} {i : Input}

theorem Fresh.of_arrival (standing : l.removed = false) : Fresh (hs ++ [.log l]) l :=
  ⟨hs, [], rfl, standing, fun _ h => by cases h⟩

theorem Fresh.concat (h : Fresh hs l)
    (elsewhere : ∀ r, i = .log r → r.removed = true → r.position? ≠ l.position?) :
    Fresh (hs ++ [i]) l := by
  obtain ⟨earlier, later, rfl, standing, since⟩ := h
  refine ⟨earlier, later ++ [i], by simp, standing, ?_⟩
  intro r hr
  rcases List.mem_append.1 hr with hr | hr
  · exact since r hr
  · exact elsewhere r (List.mem_singleton.1 hr).symm

theorem Fresh.mem (h : Fresh hs l) : .log l ∈ hs := by
  obtain ⟨earlier, later, rfl, -⟩ := h
  simp

/-- Something removed does not come back without a new arrival. -/
theorem Fresh.arrived_since {earlier later : List Input} {r : Log}
    (h : Fresh (earlier ++ .log r :: later) l) (gone : r.removed = true)
    (same : r.position? = l.position?) : .log l ∈ later := by
  obtain ⟨before, after, split, standing, since⟩ := h
  rcases List.append_eq_append_iff.1 split with ⟨mid, hb, ha⟩ | ⟨mid, hb, ha⟩
  · cases mid with
    | nil =>
      obtain ⟨e, -⟩ := List.cons.inj ha
      cases e
      simp [gone] at standing
    | cons i mid =>
      rw [List.cons_append, List.cons.injEq] at ha
      simp [ha.2]
  · cases mid with
    | nil =>
      obtain ⟨e, -⟩ := List.cons.inj ha
      cases e
      simp [gone] at standing
    | cons i mid =>
      rw [List.cons_append, List.cons.injEq] at ha
      exact absurd same (since r (by simp [ha.2]) gone)

/-- A position that was vacated stays without a fresh log until one arrives there. -/
theorem Fresh.position_ne {earlier later : List Input} {r : Log} {p : Position}
    (h : Fresh (earlier ++ .log r :: later) l) (gone : r.removed = true)
    (vacated : r.position? = some p)
    (none_since : ∀ x, .log x ∈ later → x.position? = some p → x.removed = true) :
    l.position? ≠ some p := by
  intro here
  have again := h.arrived_since gone (vacated.trans here.symm)
  obtain ⟨_, _, _, standing, -⟩ := h
  simp [none_since l again here] at standing

end Input

open Input (Fresh lastHead)

/-- What the herald holds comes from what was heard. -/
structure Herald.Follows (e : Herald) (hs : List Input) : Prop where
  registry : e.registry = .after (Input.changes hs)
  head : e.head = lastHead hs
  placed : e.pool.Placed
  fresh : ∀ p l, e.pool.get? p = some l → Fresh hs l

namespace Herald

variable {e : Herald} {hs : List Input}

theorem follows_new (finality : Nat) : (new finality).Follows [] :=
  ⟨rfl, rfl, Pool.placed_empty, fun _ _ h => by cases h⟩

theorem Follows.stale (f : e.Follows hs) (stale : Bool) : { e with stale }.Follows hs :=
  ⟨f.registry, f.head, f.placed, f.fresh⟩

/-- Dropping logs does no harm. -/
theorem Follows.since (f : e.Follows hs) (n : Nat) : { e with pool := e.pool.since n }.Follows hs :=
  ⟨f.registry, f.head, f.placed.since n, fun p l h => f.fresh p l (Pool.get?_since_eq_some.1 h).1⟩

theorem Follows.spent (f : e.Follows hs) (h : Head) : (e.spent h).Follows hs := by
  unfold Herald.spent
  split
  · exact f.since _
  · exact f

theorem Follows.close (f : e.Follows hs) (p : Pass) : (e.close p).Follows hs := by
  unfold Herald.close
  split
  · exact f
  · exact f.since _

theorem Follows.change (f : e.Follows hs) (c : Change) :
    (e.apply c).Follows (hs ++ [.change c]) := by
  obtain ⟨stale, applied⟩ := e.apply_eq c
  rw [applied]
  refine ⟨?_, ?_, f.placed, fun p l h => (f.fresh p l h).concat fun r hr => nomatch hr⟩
  · simp [f.registry, Input.changes, Registry.after_concat]
  · simp [f.head, lastHead, Input.heads]

theorem Follows.turn (f : e.Follows hs) (h : Head) :
    Follows { e with head := some h } (hs ++ [.head h]) := by
  refine ⟨?_, ?_, f.placed, fun p l hl => (f.fresh p l hl).concat fun r hr => nomatch hr⟩
  · simp [f.registry, Input.changes]
  · simp [lastHead, Input.heads]

theorem Follows.file (f : e.Follows hs) (l : Log) : (e.file l).Follows (hs ++ [.log l]) := by
  have registry : e.registry = .after (Input.changes (hs ++ [.log l])) := by
    simp [f.registry, Input.changes]
  have head : e.head = lastHead (hs ++ [.log l]) := by simp [f.head, lastHead, Input.heads]
  have placed := Placed.file f.placed l
  have kept {p : Position} {x : Log} (held : e.pool.get? p = some x)
      (elsewhere : l.removed = true → l.position? ≠ some p) : Fresh (hs ++ [.log l]) x := by
    apply (f.fresh p x held).concat
    intro r hr gone
    cases hr
    exact f.placed p x held ▸ elsewhere gone
  rcases e.file_cases l with ⟨gone, eq⟩ | ⟨standing, -, eq⟩ | ⟨standing, -, eq⟩ <;>
    rw [eq] at placed ⊢
  · refine ⟨registry, head, placed, fun p x held => ?_⟩
    by_cases here : l.position? = some p
    · simp [Pool.get?_remove_self here] at held
    · exact kept (Pool.get?_remove_of_ne here ▸ held) fun _ => here
  · refine ⟨registry, head, placed, fun p x held => ?_⟩
    by_cases here : l.position? = some p
    · obtain rfl := Option.some.inj ((Pool.get?_add_self here).symm.trans held)
      exact .of_arrival standing
    · exact kept (Pool.get?_add_of_ne here ▸ held) fun _ => here
  · exact ⟨registry, head, placed, fun p x held => kept held fun gone => by simp [standing] at gone⟩

theorem Follows.note (f : e.Follows hs) (i : Input) : (e.note i).Follows (hs ++ [i]) := by
  cases i with
  | change c => exact f.change c
  | log l => exact f.file l
  | head h => exact f.turn h

theorem Follows.notes (f : e.Follows hs) (is : List Input) :
    (is.foldl Herald.note e).Follows (hs ++ is) := by
  induction is generalizing e hs with
  | nil => simpa using f
  | cons i is ih => simpa using ih (f.note i)

end Herald

/-- A fresh log and a live registration that wants it at the head. -/
structure Offer.Sound (o : Offer) (e : Herald) (hs : List Input) (h : Head) : Prop where
  fresh : Fresh hs o.log
  position : o.log.position? = some o.position
  live : o.registration ∈ e.registry.live.values
  wants : o.registration.wants h o.log o.position = true

theorem Herald.Follows.offers {e : Herald} {hs : List Input} (f : e.Follows hs) {h : Head}
    {consumed : Members Key} : ∀ o ∈ e.registry.offers (e.due h) h consumed, o.Sound e hs h := by
  intro o mem
  obtain ⟨due, position, live, wants, -⟩ := Registry.mem_offers.1 mem
  obtain ⟨p, held⟩ := Pool.mem_logs.1 due
  exact ⟨f.fresh p o.log (Pool.get?_upTo_eq_some.1 held).1, position, live, wants⟩

namespace Broadcaster

variable {σ : Type} [Source σ] {b b' : Broadcaster σ} {hs heard : List Input}

/-- Everything that is pooled or under way comes from what was heard. -/
structure Follows (b : Broadcaster σ) (hs : List Input) : Prop where
  herald : b.herald.Follows hs
  pass : ∀ p, b.pass = some p →
    b.herald.head = some p.head ∧ ∀ o ∈ p.todo, o.Sound b.herald hs p.head

theorem Follows.of_idle (f : b.herald.Follows hs) (idle : b.pass = none) : b.Follows hs := by
  refine ⟨f, ?_⟩
  intro p h
  simp [idle] at h

theorem Follows.hear (f : b.Follows hs) {i : Input}
    (result : b.herald.hear b.desk i = (b'.pass, b'.herald, b'.desk)) :
    b'.Follows (hs ++ [i]) := by
  have noted := f.herald.note i
  rcases Herald.hear_cases f.herald.placed result with
    ⟨idle, same, -⟩ | ⟨h, lo, consumed, at_head, -, -, begun, left, -⟩
  · exact .of_idle (same ▸ noted) idle
  · refine ⟨left ▸ noted.spent h, ?_⟩
    intro p hp
    obtain rfl := Option.some.inj (begun.symm.trans hp)
    constructor
    · rw [left, Herald.spent_head, at_head]
      rfl
    · intro o ho
      obtain ⟨fresh, position, live, wants⟩ := noted.offers o ho
      exact ⟨fresh, position, by rwa [left, Herald.spent_registry], wants⟩

theorem Follows.advance (f : b.Follows hs) (a : Advance b b' heard) : b'.Follows (hs ++ heard) := by
  cases a with
  | aside apart pass =>
    obtain ⟨stale, same⟩ := apart.herald
    rw [List.append_nil]
    refine ⟨same ▸ f.herald.stale stale, ?_⟩
    intro p hp
    obtain ⟨head, sound⟩ := f.pass p (pass ▸ hp)
    rw [same]
    refine ⟨head, ?_⟩
    intro o ho
    obtain ⟨fresh, position, live, wants⟩ := sound o ho
    exact ⟨fresh, position, live, wants⟩
  | changes cs _ idle apart =>
    obtain ⟨stale, same⟩ := apart.herald
    have noted := f.herald.notes (cs.map .change)
    rw [Herald.foldl_note_changes] at noted
    exact .of_idle (same ▸ noted.stale stale) idle
  | hear i _ _ result => exact f.hear result
  | @serve p p' before moves after herald =>
    rw [List.append_nil]
    refine ⟨herald ▸ f.herald, ?_⟩
    intro q hq
    obtain rfl := Option.some.inj (after.symm.trans hq)
    obtain ⟨head, sound⟩ := f.pass p before
    rw [herald, moves.head]
    refine ⟨head, ?_⟩
    intro o ho
    exact sound o (moves.todo_suffix.subset ho)
  | @close p before done after herald desk =>
    rw [List.append_nil]
    exact .of_idle (herald ▸ f.herald.close p) after

theorem Reached.follows (r : b.Reached hs) : b.Follows hs := by
  induction r with
  | start settings => exact .of_idle (Herald.follows_new settings.finality) rfl
  | move r m ih => exact ih.advance (r.advances m)

theorem Reached.follows_noted (r : b.Reached hs) (m : Move σ) :
    (b.noted m).Follows (hs ++ b.takes m) :=
  r.follows.herald.notes (b.takes m)

end Broadcaster

end ChainHerald
