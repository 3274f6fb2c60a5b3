import ChainHerald.Streams
import ChainHerald.Proofs.LaneOrder

/-!
# Named lanes are read in the order they were pushed

Lanes are opened, pushed, written to, closed and read from in any order (`Streams.Session.run`). A
`Record` beside them notes which lanes were pushed, what each of them accepted and what the reader
got. The reader gets the pushed lanes one after another, each to its end, and what it gets next is
determined by the record alone (`Record.Due`). Whatever is sent while there is room for it is among
that (`sent_comes_back`).
-/

namespace ChainHerald

namespace Lanes

variable {α : Type} {s : Lanes α} {lane n : Nat} {f : Channel α → Channel α}

theorem get?_update : (s.update lane f).channels.get? n =
    if n = lane then (s.channels.get? n).map f else s.channels.get? n := by
  unfold update
  by_cases here : n = lane
  · subst here
    rw [if_pos rfl]
    split
    next absent => rw [absent, Option.map_none]
    next c held => rw [held, Table.get?_insert_self, Option.map_some]
  · rw [if_neg here]
    split
    · rfl
    · exact Table.get?_insert_of_ne here

theorem update_queue : (s.update lane f).queue = s.queue := by
  unfold update
  split <;> rfl

theorem update_fresh : (s.update lane f).fresh = s.fresh := by
  unfold update
  split <;> rfl

theorem items_update (keeps : ∀ c, (f c).buffer = c.buffer) :
    items (s.update lane f).channels n = items s.channels n := by
  rw [items, items, get?_update]
  split
  · cases s.channels.get? n with
    | none => rfl
    | some c => exact keeps c
  · rfl

end Lanes

/-- What became of the lanes so far. -/
structure Record (α : Type) where
  /-- The lanes that are to be read, in the order they were pushed. -/
  pushed : List Nat
  accepted : Nat → List α
  returned : List α

namespace Record

variable {α : Type} {r : Record α} {opened : Nat → Prop}

def push (r : Record α) (lane : Nat) : Record α := { r with pushed := r.pushed ++ [lane] }

def accept (r : Record α) (lane : Nat) (a : α) : Record α :=
  { r with accepted := fun n => if n = lane then r.accepted n ++ [a] else r.accepted n }

def hear (r : Record α) : Reading α → Record α
  | .item a => { r with returned := r.returned ++ [a] }
  | .waiting | .ended => r

/-- What the reader has to get next. The lanes before the one it is at are finished: they are
closed, and everything they accepted was returned. -/
inductive Due (r : Record α) (opened : Nat → Prop) : Reading α → Prop
  | item {finished later : List Nat} {lane : Nat} {part rest : List α} {a : α}
      (split : r.pushed = finished ++ lane :: later) (closed : ∀ n ∈ finished, ¬ opened n)
      (accepted : r.accepted lane = part ++ a :: rest)
      (read : r.returned = finished.flatMap r.accepted ++ part) : Due r opened (.item a)
  | waiting {finished later : List Nat} {lane : Nat}
      (split : r.pushed = finished ++ lane :: later) (closed : ∀ n ∈ finished, ¬ opened n)
      (live : opened lane)
      (read : r.returned = (finished ++ [lane]).flatMap r.accepted) : Due r opened .waiting
  | ended (closed : ∀ n ∈ r.pushed, ¬ opened n)
      (read : r.returned = r.pushed.flatMap r.accepted) : Due r opened .ended

/-- Two places in a list: they are the same, or one comes before the other. -/
theorem places {xs xs' ys ys' : List Nat} {x y : Nat} (same : xs ++ x :: xs' = ys ++ y :: ys') :
    (xs = ys ∧ x = y) ∨ (∃ more, ys = xs ++ x :: more) ∨ ∃ more, xs = ys ++ y :: more := by
  rcases List.append_eq_append_iff.1 same with ⟨more, ys_eq, xs'_eq⟩ | ⟨more, xs_eq, ys'_eq⟩
  · cases more with
    | nil =>
      obtain ⟨x_eq, -⟩ := List.cons.inj xs'_eq
      exact .inl ⟨(ys_eq.trans (List.append_nil xs)).symm, x_eq⟩
    | cons z more =>
      obtain ⟨rfl, -⟩ := List.cons.inj xs'_eq
      exact .inr (.inl ⟨more, ys_eq⟩)
  · cases more with
    | nil =>
      obtain ⟨y_eq, -⟩ := List.cons.inj ys'_eq
      exact .inl ⟨xs_eq.trans (List.append_nil ys), y_eq.symm⟩
    | cons z more =>
      obtain ⟨rfl, -⟩ := List.cons.inj ys'_eq
      exact .inr (.inr ⟨more, xs_eq⟩)

/-- Nobody has read past an item that is still to be read. -/
theorem not_past {finished more : List Nat} {lane : Nat} {part rest tail : List α} {a : α}
    (accepted : r.accepted lane = part ++ a :: rest) :
    finished.flatMap r.accepted ++ part ≠
      (finished ++ lane :: more).flatMap r.accepted ++ tail := by
  intro same
  have lengths := congrArg List.length same
  simp only [List.flatMap_append, List.flatMap_cons, accepted, List.length_append,
    List.length_cons] at lengths
  omega

theorem Due.unique {x y : Reading α} (d : r.Due opened x) (d' : r.Due opened y) : x = y := by
  cases d with
  | item split closed accepted read =>
    cases d' with
    | item split' closed' accepted' read' =>
      have reads := read.symm.trans read'
      rcases places (split.symm.trans split') with ⟨rfl, rfl⟩ | ⟨more, rfl⟩ | ⟨more, rfl⟩
      · obtain rfl := List.append_cancel_left reads
        obtain ⟨rfl, -⟩ := List.cons.inj (List.append_cancel_left (accepted.symm.trans accepted'))
        rfl
      · exact absurd reads (not_past accepted)
      · exact absurd reads.symm (not_past accepted')
    | waiting split' closed' opened' read' =>
      have reads := read.symm.trans (read'.trans (List.append_nil _).symm)
      rcases places (split.symm.trans split') with ⟨rfl, rfl⟩ | ⟨more, rfl⟩ | ⟨more, rfl⟩
      · exact absurd reads (not_past accepted)
      · rw [List.append_assoc, List.cons_append] at reads
        exact absurd reads (not_past accepted)
      · exact absurd opened' (closed _ (by simp))
    | ended closed' read' =>
      rw [split] at read'
      exact absurd (read.symm.trans (read'.trans (List.append_nil _).symm)) (not_past accepted)
  | waiting split closed opened read =>
    cases d' with
    | item split' closed' accepted' read' =>
      have reads := read'.symm.trans (read.trans (List.append_nil _).symm)
      rcases places (split'.symm.trans split) with ⟨rfl, rfl⟩ | ⟨more, rfl⟩ | ⟨more, rfl⟩
      · exact absurd reads (not_past accepted')
      · rw [List.append_assoc, List.cons_append] at reads
        exact absurd reads (not_past accepted')
      · exact absurd opened (closed' _ (by simp))
    | waiting => rfl
    | ended closed' _ => exact absurd opened (closed' _ (by simp [split]))
  | ended closed read =>
    cases d' with
    | item split' closed' accepted' read' =>
      rw [split'] at read
      exact absurd (read'.symm.trans (read.trans (List.append_nil _).symm)) (not_past accepted')
    | waiting split' _ opened' _ => exact absurd opened' (closed _ (by simp [split']))
    | ended => rfl

end Record

namespace Streams

variable {α : Type} {held : List (String × Nat)} {name : String} {lane n : Nat}

/-! ## Ends that are held by name -/

/-- Each end is held under a name of its own. -/
def Apart (held : List (String × Nat)) : Prop :=
  ∀ p ∈ held, ∀ q ∈ held, p.1 = q.1 ↔ p.2 = q.2

/-- The lanes whose ends are held. -/
def ends (held : List (String × Nat)) : List Nat := held.map (·.2)

theorem mem_of_lookup (found : held.lookup name = some lane) : (name, lane) ∈ held := by
  obtain ⟨before, after, rfl, -⟩ := List.lookup_eq_some_iff.1 found
  exact List.mem_append_right before List.mem_cons_self

theorem mem_without {p : String × Nat} : p ∈ without name held ↔ p ∈ held ∧ p.1 ≠ name := by
  simp [without]

theorem Apart.without (a : Apart held) (name : String) : Apart (Streams.without name held) :=
  fun p mem q mem' => a p (mem_without.1 mem).1 q (mem_without.1 mem').1

theorem without_of_lookup (absent : held.lookup name = none) :
    Streams.without name held = held := by
  rw [Streams.without, List.filter_eq_self]
  intro p mem
  have other := List.lookup_eq_none_iff.1 absent p mem
  exact decide_eq_true (bne_iff_ne.1 other).symm

/-- With the name goes the one end that was held under it. -/
theorem Apart.mem_ends_without (a : Apart held) (found : held.lookup name = some lane) :
    n ∈ ends (Streams.without name held) ↔ n ∈ ends held ∧ n ≠ lane := by
  have named := mem_of_lookup found
  simp only [ends, List.mem_map, mem_without]
  constructor
  · rintro ⟨p, ⟨mem, other⟩, rfl⟩
    exact ⟨⟨p, mem, rfl⟩, fun same => other ((a p mem _ named).2 same)⟩
  · rintro ⟨⟨p, mem, rfl⟩, other⟩
    exact ⟨p, ⟨mem, fun same => other ((a p mem _ named).1 same)⟩, rfl⟩

theorem Apart.cons (a : Apart held) (unnamed : ∀ p ∈ held, p.1 ≠ name) (new : lane ∉ ends held) :
    Apart ((name, lane) :: held) := by
  have other {p : String × Nat} (mem : p ∈ held) : p.2 ≠ lane :=
    fun same => new (List.mem_map.2 ⟨p, mem, same⟩)
  intro p mem q mem'
  rcases List.mem_cons.1 mem with rfl | mem <;> rcases List.mem_cons.1 mem' with rfl | mem'
  · exact iff_of_true rfl rfl
  · exact iff_of_false (unnamed q mem').symm (other mem').symm
  · exact iff_of_false (unnamed p mem) (other mem)
  · exact a p mem q mem'

/-- Somebody can still write to the lane. -/
def Open (s : Streams α) (lane : Nat) : Prop := lane ∈ ends s.writing

/-- The reading end that is held under this name is let go. -/
def letGo (s : Streams α) (name : String) : Streams α :=
  match s.reading.lookup name with
  | none => s
  | some lane =>
    { s with lanes := s.lanes.update lane Channel.detach, reading := without name s.reading }

theorem forget_eq (s : Streams α) (name : String) :
    s.forget name = (s.close name).2.letGo name := by
  unfold forget close
  cases writing : s.writing.lookup name with
  | none =>
    rw [without_of_lookup writing]
    unfold letGo
    cases reading : s.reading.lookup name with
    | none => rw [without_of_lookup reading]
    | some lane => rfl
  | some lane =>
    unfold letGo
    cases reading : s.reading.lookup name with
    | none => rw [without_of_lookup reading]
    | some lane => rfl

/-! ## A session -/

/-- What may be done with named lanes. Reading is tried once, so a reader that waits may be given
up. -/
inductive Act (α : Type) where
  | opened (name : String) (capacity : Nat)
  | push (name : String)
  | send (name : String) (a : α)
  | close (name : String)
  | next

/-- Lanes, and what became of them so far. -/
structure Session (α : Type) where
  streams : Streams α
  record : Record α

namespace Session

variable {t : Session α}

def step (t : Session α) : Act α → Session α
  | .opened name capacity => { t with streams := t.streams.opened name capacity }
  | .push name =>
    ⟨t.streams.push name, match t.streams.reading.lookup name with
      | none => t.record
      | some lane => t.record.push lane⟩
  | .send name a =>
    ⟨(t.streams.send name a).2,
      match t.streams.writing.lookup name, (t.streams.send name a).1 with
      | some lane, some .accepted => t.record.accept lane a
      | _, _ => t.record⟩
  | .close name => { t with streams := (t.streams.close name).2 }
  | .next => ⟨t.streams.next.2, t.record.hear t.streams.next.1⟩

def new : Session α := ⟨.empty, [], fun _ => [], []⟩

def run (t : Session α) (acts : List (Act α)) : Session α := acts.foldl step t

/-- The lanes that are gone were closed and returned in full. Of the first one that is left some
was returned, of the others nothing. -/
structure Parts (t : Session α) (gone : List Nat) (taken : List α) : Prop where
  pushed : t.record.pushed = gone ++ t.streams.lanes.queue
  closed : ∀ n ∈ gone, ¬ t.streams.Open n
  returned : t.record.returned = gone.flatMap t.record.accepted ++ taken
  first : ∀ n, t.streams.lanes.queue.head? = some n →
    t.record.accepted n = taken ++ Lanes.items t.streams.lanes.channels n
  later : ∀ n, n ∉ gone → t.streams.lanes.queue.head? ≠ some n →
    t.record.accepted n = Lanes.items t.streams.lanes.channels n
  none : t.streams.lanes.queue = [] → taken = []

/-- The ends that are held fit the lanes, and the lanes fit the record. -/
structure Sound (t : Session α) : Prop where
  writers : Apart t.streams.writing
  readers : Apart t.streams.reading
  live : ∀ n, t.streams.Open n ↔
    ∃ c, t.streams.lanes.channels.get? n = some c ∧ c.writable = true
  numbered : ∀ n c, t.streams.lanes.channels.get? n = some c → n < t.streams.lanes.fresh
  unread : ∀ n ∈ ends t.streams.reading, n < t.streams.lanes.fresh ∧ n ∉ t.record.pushed
  pushed : ∀ n ∈ t.record.pushed, n < t.streams.lanes.fresh
  once : t.record.pushed.Nodup
  parts : ∃ gone taken, t.Parts gone taken

theorem sound_new : (new : Session α).Sound where
  writers _ mem := nomatch mem
  readers _ mem := nomatch mem
  live _ := iff_of_false nofun fun ⟨_, held, _⟩ => nomatch held
  numbered _ _ held := nomatch held
  unread _ mem := nomatch mem
  pushed _ mem := nomatch mem
  once := .nil
  parts := ⟨[], [], rfl, nofun, rfl, nofun, fun _ _ _ => rfl, fun _ => rfl⟩

/-- A channel may change as long as its items stay, and ends may be let go. -/
theorem Sound.update (s : t.Sound) {f : Channel α → Channel α}
    (keeps : ∀ c, (f c).buffer = c.buffer) {writing reading : List (String × Nat)}
    (writers : Apart writing) (readers : Apart reading)
    (fewer : ∀ n ∈ ends writing, t.streams.Open n)
    (unread : ∀ n ∈ ends reading, n ∈ ends t.streams.reading)
    (live : ∀ n, n ∈ ends writing ↔
      ∃ c, (t.streams.lanes.update lane f).channels.get? n = some c ∧ c.writable = true) :
    Sound { t with streams := ⟨t.streams.lanes.update lane f, writing, reading⟩ } where
  writers := writers
  readers := readers
  live := live
  numbered n c held := by
    simp only [Lanes.get?_update] at held
    simp only [Lanes.update_fresh]
    split at held
    · obtain ⟨c', held', -⟩ := Option.map_eq_some_iff.1 held
      exact s.numbered n c' held'
    · exact s.numbered n c held
  unread n mem := by
    simp only [Lanes.update_fresh]
    exact s.unread n (unread n mem)
  pushed n mem := by
    simp only [Lanes.update_fresh]
    exact s.pushed n mem
  once := s.once
  parts := by
    obtain ⟨gone, taken, p⟩ := s.parts
    refine ⟨gone, taken, ?_, fun n mem still => p.closed n mem (fewer n still), p.returned, ?_, ?_,
      ?_⟩
    · simpa only [Lanes.update_queue] using p.pushed
    · simpa only [Lanes.update_queue, Lanes.items_update keeps] using p.first
    · simpa only [Lanes.update_queue, Lanes.items_update keeps] using p.later
    · simpa only [Lanes.update_queue] using p.none

theorem Sound.close (s : t.Sound) (name : String) :
    Sound { t with streams := (t.streams.close name).2 } := by
  unfold Streams.close
  split
  · exact s
  next lane found =>
    have shorter {n : Nat} := s.writers.mem_ends_without (n := n) found
    refine s.update (f := Channel.hangUp) (fun _ => rfl) (s.writers.without name) s.readers
      (fun n mem => (shorter.1 mem).1) (fun _ mem => mem) fun n => ?_
    rw [Lanes.get?_update, shorter]
    by_cases here : n = lane
    · simp [here, Channel.hangUp]
    · rw [if_neg here, and_iff_left here]
      exact s.live n

theorem Sound.letGo (s : t.Sound) (name : String) :
    Sound { t with streams := t.streams.letGo name } := by
  unfold Streams.letGo
  split
  · exact s
  next lane found =>
    refine s.update (f := Channel.detach) (fun _ => rfl) s.writers (s.readers.without name)
      (fun _ mem => mem) (fun n mem => ((s.readers.mem_ends_without found).1 mem).1) fun n => ?_
    rw [Lanes.get?_update]
    refine (s.live n).trans ?_
    by_cases here : n = lane
    · simp [here, Channel.detach]
    · rw [if_neg here]

theorem Sound.add (s : t.Sound) (unwritten : ∀ p ∈ t.streams.writing, p.1 ≠ name)
    (unread : ∀ p ∈ t.streams.reading, p.1 ≠ name) (capacity : Nat) :
    Sound { t with streams := ⟨t.streams.lanes.add (.new capacity),
      (name, t.streams.lanes.fresh) :: t.streams.writing,
      (name, t.streams.lanes.fresh) :: t.streams.reading⟩ } := by
  have unheld : t.streams.lanes.channels.get? t.streams.lanes.fresh = none := by
    cases held : t.streams.lanes.channels.get? t.streams.lanes.fresh with
    | none => rfl
    | some c => exact absurd (s.numbered _ c held) (Nat.lt_irrefl _)
  have unpushed : t.streams.lanes.fresh ∉ t.record.pushed :=
    fun mem => absurd (s.pushed _ mem) (Nat.lt_irrefl _)
  have closed : t.streams.lanes.fresh ∉ ends t.streams.writing := by
    intro mem
    obtain ⟨c, held, -⟩ := (s.live _).1 mem
    cases unheld.symm.trans held
  have items (n : Nat) : Lanes.items (t.streams.lanes.add (.new capacity)).channels n =
      Lanes.items t.streams.lanes.channels n := by
    simp only [Lanes.add]
    by_cases new : n = t.streams.lanes.fresh
    · rw [new, Lanes.items_eq_nil unheld, Lanes.items_insert_self]
      rfl
    · rw [Lanes.items_insert_of_ne new]
  refine ⟨s.writers.cons unwritten closed, s.readers.cons unread fun mem => ?_, fun n => ?_,
    fun n c held => ?_, fun n mem => ?_, fun n mem => ?_, s.once, ?_⟩
  · exact absurd (s.unread _ mem).1 (Nat.lt_irrefl _)
  · simp only [Open, ends, List.map_cons, List.mem_cons, Lanes.add]
    by_cases new : n = t.streams.lanes.fresh
    · subst new
      exact iff_of_true (.inl rfl) ⟨_, Table.get?_insert_self, rfl⟩
    · rw [Table.get?_insert_of_ne new, or_iff_right new]
      exact s.live n
  · simp only [Lanes.add] at held ⊢
    by_cases new : n = t.streams.lanes.fresh
    · exact new ▸ Nat.lt_succ_self n
    · rw [Table.get?_insert_of_ne new] at held
      exact Nat.lt_succ_of_lt (s.numbered n c held)
  · simp only [ends, List.map_cons, List.mem_cons, Lanes.add] at mem ⊢
    rcases mem with rfl | mem
    · exact ⟨Nat.lt_succ_self _, unpushed⟩
    · obtain ⟨below, apart⟩ := s.unread n mem
      exact ⟨Nat.lt_succ_of_lt below, apart⟩
  · exact Nat.lt_succ_of_lt (s.pushed n mem)
  · obtain ⟨gone, taken, p⟩ := s.parts
    refine ⟨gone, taken, p.pushed, fun n mem still => ?_, p.returned, fun n first => ?_,
      fun n left other => ?_, p.none⟩
    · rcases List.mem_cons.1 still with rfl | still
      · exact unpushed (p.pushed ▸ List.mem_append_left _ mem)
      · exact p.closed n mem still
    · exact (p.first n first).trans (congrArg _ (items n).symm)
    · exact (p.later n left other).trans (items n).symm

theorem Sound.opened (s : t.Sound) (name : String) (capacity : Nat) :
    (t.step (.opened name capacity)).Sound := by
  have forgot : Sound { t with streams := t.streams.forget name } := by
    rw [forget_eq]
    exact (s.close name).letGo name
  have unnamed (held : List (String × Nat)) (p : String × Nat) (mem : p ∈ without name held) :
      p.1 ≠ name := (mem_without.1 mem).2
  exact forgot.add (unnamed t.streams.writing) (unnamed t.streams.reading) capacity

/-- A lane that is pushed is the first one if nothing is left, and nothing of it was returned. -/
theorem Parts.push {gone : List Nat} {taken : List α} (p : t.Parts gone taken)
    (before : lane ∉ gone) (reading : List (String × Nat)) :
    Parts ⟨⟨t.streams.lanes.enqueue lane, t.streams.writing, reading⟩, t.record.push lane⟩ gone
      taken where
  pushed := (congrArg (· ++ [lane]) p.pushed).trans (List.append_assoc ..)
  closed := p.closed
  returned := p.returned
  first n first := by
    cases queue : t.streams.lanes.queue with
    | nil =>
      simp only [Lanes.enqueue, queue] at first
      obtain rfl := Option.some.inj first
      refine (p.later lane before (by simp [queue])).trans ?_
      rw [p.none queue]
      rfl
    | cons head rest =>
      simp only [Lanes.enqueue, queue] at first
      exact p.first n (by rwa [queue])
  later n left other := by
    refine p.later n left fun first => other ?_
    simp [Lanes.enqueue, first]
  none empty := absurd empty (List.append_ne_nil_of_right_ne_nil _ (List.cons_ne_nil _ _))

theorem Sound.push (s : t.Sound) (name : String) : (t.step (.push name)).Sound := by
  simp only [step, Streams.push]
  cases found : t.streams.reading.lookup name with
  | none => exact s
  | some lane =>
    have shorter {n : Nat} := s.readers.mem_ends_without (n := n) found
    obtain ⟨below, apart⟩ := s.unread lane (List.mem_map.2 ⟨_, mem_of_lookup found, rfl⟩)
    refine ⟨s.writers, s.readers.without name, s.live, s.numbered, ?_, ?_, ?_, ?_⟩
    · intro n mem
      obtain ⟨held, other⟩ := shorter.1 mem
      obtain ⟨below, apart⟩ := s.unread n held
      refine ⟨below, fun pushed => ?_⟩
      rcases List.mem_append.1 pushed with pushed | same
      · exact apart pushed
      · exact other (List.mem_singleton.1 same)
    · intro n pushed
      rcases List.mem_append.1 pushed with pushed | same
      · exact s.pushed n pushed
      · exact List.mem_singleton.1 same ▸ below
    · refine List.nodup_append.2 ⟨s.once, List.pairwise_singleton _ _, ?_⟩
      rintro n mem m last rfl
      exact apart (List.mem_singleton.1 last ▸ mem)
    · obtain ⟨gone, taken, p⟩ := s.parts
      have before : lane ∉ gone := fun mem => apart (p.pushed ▸ List.mem_append_left _ mem)
      exact ⟨gone, taken, p.push before _⟩

/-- What is in a channel may change if the record says so. -/
theorem Sound.refill {c : Channel α} (s : t.Sound)
    (held : t.streams.lanes.channels.get? lane = some c) {buffer : List α} {r : Record α}
    (pushed : r.pushed = t.record.pushed) {gone : List Nat} {taken : List α}
    (parts : Parts ⟨{ t.streams with lanes := { t.streams.lanes with
      channels := t.streams.lanes.channels.insert lane { c with buffer } } }, r⟩ gone taken) :
    Sound ⟨{ t.streams with lanes := { t.streams.lanes with
      channels := t.streams.lanes.channels.insert lane { c with buffer } } }, r⟩ where
  writers := s.writers
  readers := s.readers
  live n := by
    refine (s.live n).trans ?_
    by_cases here : n = lane
    · simp [here, held]
    · simp only [Table.get?_insert_of_ne here]
  numbered n c' held' := by
    by_cases here : n = lane
    · exact here ▸ s.numbered lane c held
    · exact s.numbered n c' ((Table.get?_insert_of_ne here).symm.trans held')
  unread n mem := by
    rw [pushed]
    exact s.unread n mem
  pushed n mem := s.pushed n (pushed ▸ mem)
  once := pushed ▸ s.once
  parts := ⟨gone, taken, parts⟩

/-- The lane that accepts something is not gone, since it is open. -/
theorem Sound.accept {c : Channel α} (s : t.Sound) (opened : t.streams.Open lane)
    (held : t.streams.lanes.channels.get? lane = some c) (a : α) :
    Sound ⟨{ t.streams with lanes := { t.streams.lanes with
      channels := t.streams.lanes.channels.insert lane { c with buffer := c.buffer ++ [a] } } },
      t.record.accept lane a⟩ := by
  obtain ⟨gone, taken, p⟩ := s.parts
  have kept : gone.flatMap (t.record.accept lane a).accepted =
      gone.flatMap t.record.accepted := by
    refine List.flatMap_congr fun n mem => if_neg ?_
    rintro rfl
    exact p.closed _ mem opened
  -- the item goes to the end of both
  have both {n : Nat} (before : List α)
      (fits : t.record.accepted n = before ++ Lanes.items t.streams.lanes.channels n) :
      (t.record.accept lane a).accepted n = before ++ Lanes.items
        (t.streams.lanes.channels.insert lane { c with buffer := c.buffer ++ [a] }) n := by
    simp only [Record.accept]
    split
    next here =>
      subst here
      rw [fits, Lanes.items_of_get? held, Lanes.items_insert_self, List.append_assoc]
    next other => rw [fits, Lanes.items_insert_of_ne other]
  exact s.refill held rfl ⟨p.pushed, p.closed, p.returned.trans (congrArg (· ++ taken) kept.symm),
    fun n first => both taken (p.first n first), fun n left other => both [] (p.later n left other),
    p.none⟩

theorem Sound.send (s : t.Sound) (name : String) (a : α) : (t.step (.send name a)).Sound := by
  simp only [step, Streams.send]
  cases found : t.streams.writing.lookup name with
  | none => exact s
  | some lane =>
    have opened : t.streams.Open lane := List.mem_map.2 ⟨_, mem_of_lookup found, rfl⟩
    obtain ⟨c, held, -⟩ := (s.live lane).1 opened
    have same : t.streams.lanes.channels.insert lane c = t.streams.lanes.channels :=
      Table.insert_of_get? held
    simp only [Option.bind_some, Lanes.send, held, Option.map_some, Channel.send]
    by_cases readable : c.readable = true
    · by_cases room : c.buffer.length < c.capacity
      · simpa [readable, room] using s.accept opened held a
      · simpa [readable, room, same] using s
    · simpa [readable, same] using s

/-! ## Reading -/

section Reading

variable {channels channels' : Table Nat (Channel α)} {rest : List Nat} {fresh : Nat}
  {writing reading : List (String × Nat)} {r : Record α}

/-- A lane that is closed and read to its end can leave the queue. -/
theorem Sound.leave (s : Sound ⟨⟨⟨channels, lane :: rest, fresh⟩, writing, reading⟩, r⟩)
    (drained : Lanes.Drained channels lane) (gone : channels'.get? lane = none)
    (others : ∀ n, n ≠ lane → channels'.get? n = channels.get? n) :
    Sound ⟨⟨⟨channels', rest, fresh⟩, writing, reading⟩, r⟩ := by
  have closed : lane ∉ ends writing := by
    intro still
    obtain ⟨c, held, writable⟩ := (s.live lane).1 still
    cases writable.symm.trans (drained c held).2
  have empty : Lanes.items channels lane = [] := by
    cases held : channels.get? lane with
    | none => exact Lanes.items_eq_nil held
    | some c => exact (Lanes.items_of_get? held).trans (drained c held).1
  refine ⟨s.writers, s.readers, fun n => ?_, fun n c held => ?_, s.unread, s.pushed, s.once, ?_⟩
  · by_cases here : n = lane
    · subst here
      exact iff_of_false closed fun ⟨c, held, _⟩ => nomatch gone.symm.trans held
    · refine (s.live n).trans ?_
      simp only [others n here]
  · by_cases here : n = lane
    · subst here
      cases gone.symm.trans held
    · exact s.numbered n c ((others n here).symm.trans held)
  · obtain ⟨before, taken, p⟩ := s.parts
    have pushed : r.pushed = before ++ [lane] ++ rest :=
      p.pushed.trans (List.append_assoc before [lane] rest).symm
    have once : (before ++ [lane] ++ rest).Nodup := pushed ▸ s.once
    have accepted : r.accepted lane = taken := by
      refine (p.first lane rfl).trans ?_
      rw [empty, List.append_nil]
    have later {n : Nat} (left : n ∉ before ++ [lane]) :
        r.accepted n = Lanes.items channels' n := by
      have other : n ≠ lane := fun same => left (by simp [same])
      refine (p.later n (fun mem => left (List.mem_append_left _ mem)) ?_).trans ?_
      · exact fun same => other (Option.some.inj same).symm
      · simp only [Lanes.items, others n other]
    refine ⟨before ++ [lane], [], pushed, fun n mem => ?_, ?_, fun n first => ?_,
      fun n left _ => later left, fun _ => rfl⟩
    · rcases List.mem_append.1 mem with mem | last
      · exact p.closed n mem
      · exact List.mem_singleton.1 last ▸ closed
    · refine p.returned.trans ?_
      simp [accepted]
    · refine later fun mem => ?_
      exact (List.nodup_append.1 once).2.2 n mem n (List.mem_of_head? first) rfl

/-- The first lane gives its first item. -/
theorem Sound.take {c : Channel α} {a : α} {more : List α}
    (s : Sound ⟨⟨⟨channels, lane :: rest, fresh⟩, writing, reading⟩, r⟩)
    (held : channels.get? lane = some c) (buffer : c.buffer = a :: more) :
    r.Due (· ∈ ends writing) (.item a) ∧
      Sound ⟨⟨⟨channels.insert lane { c with buffer := more }, lane :: rest, fresh⟩, writing,
        reading⟩, r.hear (.item a)⟩ := by
  obtain ⟨gone, taken, p⟩ := s.parts
  have accepted : r.accepted lane = taken ++ a :: more := by
    refine (p.first lane rfl).trans ?_
    rw [Lanes.items_of_get? held, buffer]
  refine ⟨.item p.pushed p.closed accepted p.returned, s.refill held rfl ⟨p.pushed, p.closed,
    (congrArg (· ++ [a]) p.returned).trans (List.append_assoc _ _ _), fun n first => ?_,
    fun n left other => ?_, nofun⟩⟩
  · obtain rfl := Option.some.inj first
    refine accepted.trans ?_
    simp
  · refine (p.later n left other).trans (Lanes.items_insert_of_ne ?_).symm
    exact fun here => other (congrArg some here.symm)

/-- The first lane is open and has nothing to give. -/
theorem Sound.waits {c : Channel α}
    (s : Sound ⟨⟨⟨channels, lane :: rest, fresh⟩, writing, reading⟩, r⟩)
    (held : channels.get? lane = some c) (buffer : c.buffer = []) (writable : c.writable = true) :
    r.Due (· ∈ ends writing) .waiting := by
  obtain ⟨gone, taken, p⟩ := s.parts
  have accepted : r.accepted lane = taken := by
    refine (p.first lane rfl).trans ?_
    rw [Lanes.items_of_get? held, buffer, List.append_nil]
  refine .waiting p.pushed p.closed ((s.live lane).2 ⟨c, held, writable⟩) ?_
  refine p.returned.trans ?_
  simp [accepted]

/-- What the reader gets is due, whatever lanes are passed on the way. -/
theorem Sound.nextIn {queue queue' : List Nat} {x : Reading α}
    (s : Sound ⟨⟨⟨channels, queue, fresh⟩, writing, reading⟩, r⟩)
    (found : Lanes.nextIn channels queue = (x, channels', queue')) :
    r.Due (· ∈ ends writing) x ∧
      Sound ⟨⟨⟨channels', queue', fresh⟩, writing, reading⟩, r.hear x⟩ ∧
      (x = .ended → queue' = []) := by
  -- lanes are erased on the way, so the induction is for any table
  induction queue generalizing channels with
  | nil =>
    cases found
    obtain ⟨gone, taken, p⟩ := s.parts
    have all : r.pushed = gone := p.pushed.trans (List.append_nil gone)
    refine ⟨.ended (all ▸ p.closed) ?_, s, fun _ => rfl⟩
    rw [all, ← List.append_nil (gone.flatMap _), ← p.none rfl]
    exact p.returned
  | cons lane rest ih =>
    unfold Lanes.nextIn at found
    cases held : channels.get? lane with
    | none =>
      simp only [held, Option.map_none] at found
      refine ih (s.leave (fun c there => ?_) held fun _ _ => rfl) found
      cases held.symm.trans there
    | some c =>
      simp only [held, Option.map_some, Channel.take] at found
      cases buffer : c.buffer with
      | cons a more =>
        simp only [buffer] at found
        cases found
        obtain ⟨due, after⟩ := s.take held buffer
        refine ⟨due, after, ?_⟩
        rintro ⟨⟩
      | nil =>
        cases writable : c.writable with
        | true =>
          simp only [buffer, writable, if_true] at found
          cases found
          refine ⟨s.waits held buffer writable, s, ?_⟩
          rintro ⟨⟩
        | false =>
          simp only [buffer, writable] at found
          refine ih (s.leave (fun d there => ?_) Table.get?_erase_self fun n other =>
            Table.get?_erase_of_ne other) found
          obtain rfl := Option.some.inj (held.symm.trans there)
          exact ⟨buffer, writable⟩

end Reading

/-- What the reader gets next is what it is due to get. -/
theorem Sound.next (s : t.Sound) : t.record.Due t.streams.Open t.streams.next.1 ∧
    (t.step .next).Sound ∧ (t.streams.next.1 = .ended → t.streams.next.2.lanes.queue = []) := by
  simp only [step, Streams.next, Lanes.next]
  exact s.nextIn rfl

theorem Sound.step (s : t.Sound) (a : Act α) : (t.step a).Sound := by
  cases a with
  | opened name capacity => exact s.opened name capacity
  | push name => exact s.push name
  | send name a => exact s.send name a
  | close name => exact s.close name
  | next => exact s.next.2.1

theorem Sound.run (s : t.Sound) (acts : List (Act α)) : (t.run acts).Sound := by
  induction acts generalizing t with
  | nil => exact s
  | cons a acts ih => exact ih (s.step a)

theorem Sound.front (s : t.Sound) :
    t.record.returned <+: t.record.pushed.flatMap t.record.accepted := by
  obtain ⟨gone, taken, p⟩ := s.parts
  rw [p.pushed, p.returned, List.flatMap_append, List.prefix_append_right_inj]
  cases queue : t.streams.lanes.queue with
  | nil =>
    rw [p.none queue]
    exact List.nil_prefix
  | cons lane rest =>
    have first := p.first lane (by rw [queue]; rfl)
    rw [List.flatMap_cons, first, List.append_assoc]
    exact List.prefix_append _ _

/-- What is in the first lane is returned next. -/
theorem returned_of_first {c : Channel α} {rest : List Nat}
    (held : t.streams.lanes.channels.get? lane = some c)
    (first : t.streams.lanes.queue = lane :: rest) :
    (t.run (.replicate c.buffer.length .next)).record.returned =
      t.record.returned ++ c.buffer := by
  generalize buffer : c.buffer = as
  induction as generalizing t c with
  | nil => exact (List.append_nil _).symm
  | cons a as ih =>
    obtain ⟨returned, queue, left⟩ : (t.step .next).record.returned = t.record.returned ++ [a] ∧
        (t.step .next).streams.lanes.queue = lane :: rest ∧
        (t.step .next).streams.lanes.channels.get? lane = some { c with buffer := as } := by
      simp [step, Streams.next, Lanes.next, first, Lanes.nextIn, held, Channel.take, buffer,
        Record.hear, Table.get?_insert_self]
    calc ((t.step .next).run (.replicate as.length .next)).record.returned
      _ = (t.step .next).record.returned ++ as := ih left queue rfl
      _ = t.record.returned ++ a :: as := by rw [returned, List.append_assoc]; rfl

/-- The first lane accepts what is sent to it as long as it can be read and has room, and that is
returned right after what was there before. -/
theorem sent_comes_back {c : Channel α} {rest : List Nat}
    (named : t.streams.writing.lookup name = some lane)
    (held : t.streams.lanes.channels.get? lane = some c) (readable : c.readable = true)
    (room : c.buffer.length < c.capacity) (first : t.streams.lanes.queue = lane :: rest) (a : α) :
    (t.streams.send name a).1 = some .accepted ∧
      (t.run (.send name a :: .replicate (c.buffer.length + 1) .next)).record.returned =
        t.record.returned ++ c.buffer ++ [a] := by
  let filled : Channel α := { c with buffer := c.buffer ++ [a] }
  have sent : t.streams.send name a = (some .accepted, { t.streams with lanes :=
      { t.streams.lanes with channels := t.streams.lanes.channels.insert lane filled } }) := by
    simp [filled, Streams.send, named, Lanes.send, held, Channel.send, readable, room]
  refine ⟨congrArg Prod.fst sent, ?_⟩
  have queue : (t.step (.send name a)).streams.lanes.queue = lane :: rest := by
    simp [step, sent, first]
  have there : (t.step (.send name a)).streams.lanes.channels.get? lane = some filled := by
    simp [step, sent, Table.get?_insert_self]
  have unread : (t.step (.send name a)).record.returned = t.record.returned := by
    simp [step, sent, named, Record.accept]
  have returned := returned_of_first there queue
  rw [List.length_append, unread, ← List.append_assoc] at returned
  exact returned

/-- Whatever is done with the lanes: what was returned are the first items that the pushed lanes
accepted, lane by lane in the order they were pushed. What the reader gets next is what it is due to
get and nothing else: it waits for the first lane that is not finished, and comes to an end when all
are, with nothing left in the queue. -/
theorem read_in_push_order (acts : List (Act α)) :
    let t := (new : Session α).run acts
    t.record.returned <+: t.record.pushed.flatMap t.record.accepted ∧
      (∀ x, t.streams.next.1 = x ↔ t.record.Due t.streams.Open x) ∧
      (t.streams.next.1 = .ended → t.streams.next.2.lanes.queue = []) := by
  intro t
  have sound : t.Sound := sound_new.run acts
  obtain ⟨due, -, ended⟩ := sound.next
  refine ⟨sound.front, fun x => ⟨fun same => same ▸ due, fun other => due.unique other⟩, ended⟩

end Session

end Streams

end ChainHerald
