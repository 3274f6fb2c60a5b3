import ChainHerald.Proofs.Effect
import ChainHerald.Proofs.WakeUps

/-!
# A mailbox over its whole life

Deliveries, both ways of taking, polls and waits come in any order (`Mailbox.run`). What is queued
is always an end of what was delivered, within the capacity, and a wake-up is either stored or given
to the waiter that came first (`Mailbox.Keeps`). One consumer that empties the queue whenever it was
woken (`Mailbox.Attended`) therefore never waits beside a queued item.
-/

namespace ChainHerald

namespace Mailbox

variable {α : Type} {m : Mailbox α} {capacity : Option Nat} {items : List α}

/-- What may happen to a mailbox. -/
inductive Act (α : Type) where
  | deliver (a : α)
  | retrieve
  | latest
  /-- A waiter that is given up unless it is woken at once. -/
  | poll
  | wait

def Act.item? : Act α → Option α
  | .deliver a => some a
  | _ => none

def act (m : Mailbox α) : Act α → Mailbox α
  | .deliver a => (m.deliver a).2
  | .retrieve => m.retrieve.2
  | .latest => m.latest.2
  | .poll => m.awake.2
  | .wait => m.wait

def run (m : Mailbox α) (acts : List (Act α)) : Mailbox α := acts.foldl act m

/-- All items that are ever delivered, oldest first. -/
def delivered (acts : List (Act α)) : List α := acts.filterMap Act.item?

/-- How many waiters nobody has woken yet. -/
def asleep (m : Mailbox α) : Nat := m.waiters.count false

/-! ## Wake-ups -/

theorem all_woken_iff (woken : List Bool) : woken.all id = true ↔ woken.count false = 0 := by
  rw [List.count_eq_zero, List.all_eq_true]
  constructor
  · intro all mem
    exact Bool.noConfusion (all false mem)
  · intro none w mem
    cases w with
    | true => rfl
    | false => exact absurd mem none

theorem count_finishFirst (woken : List Bool) :
    (finishFirst woken).count false = woken.count false - 1 := by
  induction woken with
  | nil => rfl
  | cons w rest ih =>
    cases w with
    | false => simp [finishFirst]
    | true => simp [finishFirst, ih]

theorem finishFirst_replicate (woken asleep : Nat) :
    finishFirst (List.replicate woken true ++ List.replicate (asleep + 1) false) =
      List.replicate (woken + 1) true ++ List.replicate asleep false := by
  induction woken with
  | zero => rfl
  | succ woken ih =>
    rw [List.replicate_succ, List.cons_append, finishFirst, ih]
    rfl

theorem notify_asleep (m : Mailbox α) : m.notify.asleep = m.asleep - 1 := by
  unfold notify asleep
  split
  next all =>
    rw [(all_woken_iff m.waiters).1 all]
  · exact count_finishFirst m.waiters

theorem notify_wakeUp (m : Mailbox α) : m.notify.wakeUp = (m.wakeUp || decide (m.asleep = 0)) := by
  unfold notify asleep
  split
  next all => simp [(all_woken_iff m.waiters).1 all]
  next some => simp [mt (all_woken_iff m.waiters).2 some]

theorem deliver_asleep (m : Mailbox α) (a : α) : (m.deliver a).2.asleep = m.asleep - 1 := by
  rw [deliver_eq_notify, notify_asleep]
  rfl

theorem deliver_wakeUp (m : Mailbox α) (a : α) :
    (m.deliver a).2.wakeUp = (m.wakeUp || decide (m.asleep = 0)) := by
  rw [deliver_eq_notify, notify_wakeUp]
  rfl

/-- Each delivery wakes one waiter. The deliveries that find none share one stored wake-up. -/
theorem wakes_all (m : Mailbox α) (as : List α) :
    (m.run (as.map .deliver)).asleep = m.asleep - as.length ∧
      (m.run (as.map .deliver)).wakeUp = (m.wakeUp || decide (m.asleep < as.length)) := by
  induction as generalizing m with
  | nil => exact ⟨rfl, (Bool.or_false _).symm⟩
  | cons a as ih =>
    obtain ⟨asleep, wakeUp⟩ := ih (m.deliver a).2
    refine ⟨?_, ?_⟩
    · refine asleep.trans ?_
      rw [deliver_asleep, List.length_cons]
      omega
    · refine wakeUp.trans ?_
      rw [deliver_asleep, deliver_wakeUp, List.length_cons, Bool.or_assoc, ← Bool.decide_or]
      congr 2
      exact propext (by omega)

/-- Only a delivery stores a wake-up. -/
theorem wakeUp_spent (gone : m.wakeUp = false) (acts : List (Act α)) (none : delivered acts = []) :
    (m.run acts).wakeUp = false := by
  induction acts generalizing m with
  | nil => exact gone
  | cons a acts ih =>
    cases a with
    | deliver a => cases none
    | poll | wait => exact ih (m := m.act _) rfl none
    | retrieve | latest => exact ih (m := m.act _) gone none

/-! ## The invariant -/

/-- A mailbox that all of `items` were delivered to. -/
structure Keeps (m : Mailbox α) (capacity : Option Nat) (items : List α) : Prop where
  bound : m.capacity = capacity
  queue : m.queue <:+ items
  room : ∀ n, capacity = some n → m.queue.length ≤ max 1 n
  /-- Waiters are woken in the order they came. -/
  order : ∃ woken, m.waiters = List.replicate woken true ++ List.replicate m.asleep false
  apart : m.wakeUp = true → m.asleep = 0

theorem keeps_empty (capacity : Option Nat) : (empty (α := α) capacity).Keeps capacity [] where
  bound := rfl
  queue := List.suffix_refl []
  room _ _ := Nat.zero_le _
  order := ⟨0, rfl⟩
  apart := nofun

/-- As long as there is room, an item is only added. -/
theorem Keeps.fits (k : m.Keeps capacity items)
    (room : ∀ n, capacity = some n → m.queue.length < max 1 n) (a : α) :
    (m.deliver a).1 = false ∧ (m.deliver a).2.queue = m.queue ++ [a] := by
  simp only [deliver, notify_queue, limit, k.bound]
  cases capacity with
  | none => exact ⟨rfl, List.drop_zero⟩
  | some n =>
    have none : (m.queue ++ [a]).length - max 1 n = 0 := by
      have := room n rfl
      rw [List.length_append, List.length_singleton]
      omega
    simp only [Option.map_some, none]
    exact ⟨rfl, List.drop_zero⟩

/-- In a full mailbox the oldest item makes room. -/
theorem Keeps.overflows (k : m.Keeps capacity items) {n : Nat} (bounded : capacity = some n)
    (full : m.queue.length = max 1 n) (a : α) : (m.deliver a).1 = true ∧
      ∃ oldest rest, m.queue = oldest :: rest ∧ (m.deliver a).2.queue = rest ++ [a] := by
  have one : (m.queue ++ [a]).length - max 1 n = 1 := by
    rw [List.length_append, List.length_singleton, full]
    omega
  simp only [deliver, notify_queue, limit, k.bound, bounded, Option.map_some, one]
  refine ⟨rfl, ?_⟩
  cases queue : m.queue with
  | nil =>
    rw [queue, List.length_nil] at full
    omega
  | cons oldest rest => exact ⟨oldest, rest, rfl, rfl⟩

theorem Keeps.notify (k : m.Keeps capacity items) : m.notify.Keeps capacity items where
  bound := (notify_capacity m).trans k.bound
  queue := by
    rw [notify_queue]
    exact k.queue
  room := by
    rw [notify_queue]
    exact k.room
  order := by
    obtain ⟨woken, order⟩ := k.order
    rw [notify_asleep]
    unfold Mailbox.notify
    split
    next all =>
      refine ⟨woken, ?_⟩
      rwa [show m.asleep - 1 = m.asleep by rw [asleep, (all_woken_iff m.waiters).1 all]]
    next some =>
      obtain ⟨later, count⟩ := Nat.exists_eq_succ_of_ne_zero (mt (all_woken_iff m.waiters).2 some)
      have asleep : m.asleep = later + 1 := count
      refine ⟨woken + 1, ?_⟩
      rw [asleep] at order ⊢
      exact (congrArg finishFirst order).trans (finishFirst_replicate woken later)
  apart := by
    rw [notify_wakeUp, notify_asleep]
    intro stored
    rcases Bool.or_eq_true_iff.1 stored with before | nobody
    · rw [k.apart before]
    · rw [of_decide_eq_true nobody]

theorem Keeps.push (k : m.Keeps capacity items) (a : α) :
    (m.push a).Keeps capacity (items ++ [a]) where
  bound := k.bound
  queue := by
    obtain ⟨front, items_eq⟩ := k.queue
    refine (m.deliver_suffix a).trans ⟨front, ?_⟩
    rw [← List.append_assoc, items_eq]
  room n bounded := by
    by_cases full : m.queue.length = max 1 n
    · obtain ⟨-, oldest, rest, queue, after⟩ := k.overflows bounded full a
      have pushed : (m.push a).queue = rest ++ [a] := after
      rw [queue, List.length_cons] at full
      rw [pushed, List.length_append, List.length_singleton]
      exact Nat.le_of_eq full
    · have room : m.queue.length < max 1 n := Nat.lt_of_le_of_ne (k.room n bounded) full
      obtain ⟨-, after⟩ := k.fits (fun n' bounded' => by
        obtain rfl : n = n' := Option.some.inj (bounded.symm.trans bounded')
        exact room) a
      have pushed : (m.push a).queue = m.queue ++ [a] := after
      rw [pushed, List.length_append, List.length_singleton]
      exact room
  order := k.order
  apart := k.apart

/-- Whatever takes items leaves an end of the queue. -/
theorem Keeps.take (k : m.Keeps capacity items) {queue : List α} (rest : queue <:+ m.queue) :
    Keeps { m with queue } capacity items where
  bound := k.bound
  queue := rest.trans k.queue
  room n bounded := Nat.le_trans rest.length_le (k.room n bounded)
  order := k.order
  apart := k.apart

theorem Keeps.wait (k : m.Keeps capacity items) : m.wait.Keeps capacity items where
  bound := k.bound
  queue := k.queue
  room := k.room
  order := by
    obtain ⟨woken, order⟩ := k.order
    simp only [Mailbox.wait, asleep, List.count_append]
    cases stored : m.wakeUp with
    | true =>
      have nobody : m.asleep = 0 := k.apart stored
      have count : m.waiters.count false = 0 := nobody
      refine ⟨woken + 1, ?_⟩
      rw [count, order, nobody, List.replicate_succ']
      simp
    | false =>
      refine ⟨woken, ?_⟩
      have count : m.waiters.count false = m.asleep := rfl
      rw [count, order]
      simp [List.replicate_succ']
  apart := nofun

theorem Keeps.act (k : m.Keeps capacity items) (a : Act α) :
    (m.act a).Keeps capacity (items ++ delivered [a]) := by
  cases a with
  | deliver a =>
    have pushed : ((m.push a).notify).Keeps capacity (items ++ [a]) := (k.push a).notify
    rw [← deliver_eq_notify] at pushed
    exact pushed
  | retrieve => exact (List.append_nil items).symm ▸ k.take (List.tail_suffix m.queue)
  | latest => exact (List.append_nil items).symm ▸ k.take (List.nil_suffix)
  | poll => exact (List.append_nil items).symm ▸ { k with apart := nofun }
  | wait => exact (List.append_nil items).symm ▸ k.wait

theorem Keeps.run (k : m.Keeps capacity items) (acts : List (Act α)) :
    (m.run acts).Keeps capacity (items ++ delivered acts) := by
  induction acts generalizing m items with
  | nil => exact (List.append_nil items).symm ▸ k
  | cons a acts ih =>
    have split : delivered ([a] ++ acts) = delivered [a] ++ delivered acts :=
      List.filterMap_append
    rw [← List.singleton_append, split, ← List.append_assoc]
    exact ih (k.act a)

/-! ## One consumer -/

/-- What the consumer is about. -/
inductive Stage where
  | resting
  | waiting
  /-- It was woken and has not found the queue empty since. -/
  | draining

/-- A mailbox with its one consumer. -/
structure Attended (α : Type) where
  mailbox : Mailbox α
  stage : Stage

/-- Somebody delivers, or the consumer goes on. -/
inductive Turn (α : Type) where
  | deliver (a : α)
  | poll
  | wait
  /-- The waiting consumer sees whether it was woken. -/
  | look
  | retrieve
  | latest

namespace Attended

variable {s : Attended α}

/-- The consumer does not touch the queue while it waits, and does not wait while it drains. -/
def step (s : Attended α) : Turn α → Attended α
  | .deliver a => { s with mailbox := s.mailbox.act (.deliver a) }
  | .poll =>
    match s.stage with
    | .resting => ⟨s.mailbox.act .poll, if s.mailbox.awake.1 then .draining else .resting⟩
    | _ => s
  | .wait =>
    match s.stage with
    | .resting => ⟨s.mailbox.act .wait, .waiting⟩
    | _ => s
  | .look =>
    match s.stage with
    | .waiting =>
      if s.mailbox.waiters.getLast? = some true then { s with stage := .draining } else s
    | _ => s
  | .retrieve =>
    match s.stage with
    | .waiting => s
    | _ => ⟨s.mailbox.act .retrieve, if s.mailbox.retrieve.1.isNone then .resting else s.stage⟩
  | .latest =>
    match s.stage with
    | .waiting => s
    | _ => ⟨s.mailbox.act .latest, .resting⟩

def run (s : Attended α) (turns : List (Turn α)) : Attended α := turns.foldl step s

def new (capacity : Option Nat) : Attended α := ⟨.empty capacity, .resting⟩

/-- The consumer waits, and nobody has woken it. -/
def Waits (s : Attended α) : Prop :=
  s.stage = .waiting ∧ s.mailbox.waiters.getLast? = some false

/-- The consumer that rests has a wake-up for what is queued, and the one that sleeps has nothing
queued. -/
structure Tidy (s : Attended α) (capacity : Option Nat) : Prop where
  keeps : ∃ items, s.mailbox.Keeps capacity items
  awake : s.stage ≠ .waiting → s.mailbox.asleep = 0
  resting : s.stage = .resting → s.mailbox.queue ≠ [] → s.mailbox.wakeUp = true
  waiting : s.stage = .waiting →
    s.mailbox.asleep ≤ 1 ∧ (s.mailbox.asleep = 1 → s.mailbox.queue = [])

theorem tidy_new (capacity : Option Nat) : (new (α := α) capacity).Tidy capacity where
  keeps := ⟨[], keeps_empty capacity⟩
  awake _ := rfl
  resting _ queued := absurd rfl queued
  waiting := nofun

theorem Tidy.nobody (t : s.Tidy capacity) (resting : s.stage = .resting) :
    s.mailbox.asleep = 0 := by
  apply t.awake
  rw [resting]
  exact nofun

theorem Tidy.deliver (t : s.Tidy capacity) (a : α) : (s.step (.deliver a)).Tidy capacity where
  keeps := t.keeps.elim fun items k => ⟨_, k.act (.deliver a)⟩
  awake off := by
    refine (deliver_asleep s.mailbox a).trans ?_
    rw [t.awake off]
  resting stage _ := by
    refine (deliver_wakeUp s.mailbox a).trans ?_
    simp [t.nobody stage]
  waiting stage := by
    have few := (t.waiting stage).1
    have asleep : (s.step (.deliver a)).mailbox.asleep = s.mailbox.asleep - 1 :=
      deliver_asleep s.mailbox a
    rw [asleep]
    exact ⟨by omega, fun one => absurd one (by omega)⟩

/-- Taking items wakes nobody and keeps what is stored. A consumer that still rests afterwards had
its wake-up before, unless the queue is empty. -/
theorem Tidy.take (t : s.Tidy capacity) {queue : List α} {stage : Stage}
    (off : s.stage ≠ .waiting) (off' : stage ≠ .waiting) (rest : queue <:+ s.mailbox.queue)
    (emptied : stage = .resting → queue ≠ [] → s.stage = .resting) :
    Tidy ⟨{ s.mailbox with queue }, stage⟩ capacity where
  keeps := t.keeps.elim fun items k => ⟨items, k.take rest⟩
  awake _ := t.awake off
  resting now queued := by
    refine t.resting (emptied now queued) fun nothing => queued ?_
    exact List.suffix_nil.1 (nothing ▸ rest)
  waiting now := absurd now off'

theorem Tidy.retrieve (t : s.Tidy capacity) : (s.step .retrieve).Tidy capacity := by
  have rest : s.mailbox.queue.tail <:+ s.mailbox.queue := List.tail_suffix _
  have emptied (none : s.mailbox.retrieve.1.isNone = true) : s.mailbox.queue.tail = [] := by
    rw [List.head?_eq_none_iff.1 (Option.isNone_iff_eq_none.1 none)]
    rfl
  simp only [step]
  split
  · exact t
  next off =>
    refine t.take off ?_ rest ?_
    · split
      · exact nofun
      · exact off
    · split
      next none => exact fun _ queued => absurd (emptied none) queued
      · exact fun same _ => same

theorem Tidy.latest (t : s.Tidy capacity) : (s.step .latest).Tidy capacity := by
  simp only [step]
  split
  · exact t
  next off => exact t.take off nofun List.nil_suffix fun _ queued => absurd rfl queued

theorem Tidy.poll (t : s.Tidy capacity) : (s.step .poll).Tidy capacity := by
  simp only [step]
  split
  next resting =>
    refine ⟨t.keeps.elim fun items k => ⟨_, k.act .poll⟩, fun _ => t.nobody resting, ?_, ?_⟩
    · cases stored : s.mailbox.wakeUp with
      | true =>
        simp only [Mailbox.awake, stored]
        rintro ⟨⟩
      | false =>
        intro _ queued
        have found : s.mailbox.wakeUp = true := t.resting resting queued
        cases stored.symm.trans found
    · split <;> rintro ⟨⟩
  · exact t

theorem Tidy.wait (t : s.Tidy capacity) : (s.step .wait).Tidy capacity := by
  simp only [step]
  split
  next resting =>
    have nobody : s.mailbox.waiters.count false = 0 := t.nobody resting
    refine ⟨t.keeps.elim fun items k => ⟨_, k.act .wait⟩, fun off => absurd rfl off, nofun, ?_⟩
    intro _
    simp only [act, Mailbox.wait, asleep, List.count_append, nobody]
    cases stored : s.mailbox.wakeUp with
    | true => exact ⟨by decide, fun one => absurd one (by decide)⟩
    | false =>
      refine ⟨by decide, fun _ => ?_⟩
      by_contra queued
      cases stored.symm.trans (t.resting resting queued)
  · exact t

theorem Tidy.look (t : s.Tidy capacity) : (s.step .look).Tidy capacity := by
  simp only [step]
  split
  next waiting =>
    split
    next woken =>
      obtain ⟨items, k⟩ := t.keeps
      obtain ⟨before, order⟩ := k.order
      refine ⟨⟨items, k⟩, fun _ => ?_, nofun, nofun⟩
      -- the last of the waiters would be one that sleeps
      by_contra some
      obtain ⟨later, asleep⟩ := Nat.exists_eq_succ_of_ne_zero some
      have asleep : s.mailbox.asleep = later + 1 := asleep
      rw [order, asleep, List.replicate_succ', ← List.append_assoc, List.getLast?_concat] at woken
      cases woken
    · exact t
  · exact t

theorem Tidy.step (t : s.Tidy capacity) (turn : Turn α) : (s.step turn).Tidy capacity := by
  cases turn with
  | deliver a => exact t.deliver a
  | poll => exact t.poll
  | wait => exact t.wait
  | look => exact t.look
  | retrieve => exact t.retrieve
  | latest => exact t.latest

theorem Tidy.run (t : s.Tidy capacity) (turns : List (Turn α)) : (s.run turns).Tidy capacity := by
  induction turns generalizing s with
  | nil => exact t
  | cons turn turns ih => exact ih (t.step turn)

theorem Tidy.empty (t : s.Tidy capacity) (waits : s.Waits) : s.mailbox.queue = [] := by
  obtain ⟨stage, last⟩ := waits
  obtain ⟨few, nothing⟩ := t.waiting stage
  have some : 0 < s.mailbox.asleep := List.count_pos_iff.2 (List.mem_of_getLast? last)
  exact nothing (by omega)

end Attended

/-! ## What every history leaves -/

/-- How a mailbox stands, and how it answers, after all of `items` were delivered to it. -/
structure Serves (m : Mailbox α) (capacity : Option Nat) (items : List α) : Prop where
  suffix : m.queue <:+ items
  room : ∀ n, capacity = some n → m.queue.length ≤ max 1 n
  fits : (∀ n, capacity = some n → m.queue.length < max 1 n) → ∀ a,
    (m.deliver a).1 = false ∧ (m.deliver a).2.queue = m.queue ++ [a]
  /-- Exactly the oldest item goes. -/
  overflows : ∀ n, capacity = some n → m.queue.length = max 1 n → ∀ a, (m.deliver a).1 = true ∧
    ∃ oldest rest, m.queue = oldest :: rest ∧ (m.deliver a).2.queue = rest ++ [a]
  newest : ∀ a, (m.deliver a).2.queue.getLast? = some a
  retrieve : m.retrieve.1.toList ++ m.retrieve.2.queue = m.queue ∧
    (m.retrieve.1 = none → m.queue = [])
  latest : m.latest.1 = (if m.queue.isEmpty then none else items.getLast?) ∧
    m.latest.2.queue = []
  apart : m.wakeUp = true → ∀ woken ∈ m.waiters, woken = true
  /-- Each delivery wakes the waiter that came first, and those that find none store one wake-up
  between them. -/
  wakes : ∀ as : List α, ∃ woken, (m.run (as.map .deliver)).waiters =
      List.replicate woken true ++ List.replicate (m.asleep - as.length) false ∧
    (m.run (as.map .deliver)).wakeUp = (m.wakeUp || decide (m.asleep < as.length))
  /-- What was stored is taken at once, and only a delivery stores another. -/
  once : ∀ acts, delivered acts = [] →
    (m.awake.2.run acts).wakeUp = false ∧ (m.wait.run acts).wakeUp = false

theorem Keeps.serves (k : m.Keeps capacity items) : m.Serves capacity items where
  suffix := k.queue
  room := k.room
  fits := k.fits
  overflows _ bounded full := k.overflows bounded full
  newest a := (m.accepts_deliver a).newest
  retrieve := by
    simp only [Mailbox.retrieve]
    cases m.queue with
    | nil => exact ⟨rfl, fun _ => rfl⟩
    | cons a rest =>
      refine ⟨rfl, ?_⟩
      rintro ⟨⟩
  latest := by
    refine ⟨?_, rfl⟩
    simp only [Mailbox.latest]
    cases queue : m.queue with
    | nil => rfl
    | cons a rest =>
      obtain ⟨front, items_eq⟩ := k.queue
      rw [← items_eq, queue, List.getLast?_append_cons]
      rfl
  apart stored := by
    have nobody := (all_woken_iff m.waiters).2 (k.apart stored)
    exact fun woken mem => List.all_eq_true.1 nobody woken mem
  wakes as := by
    obtain ⟨asleep, wakeUp⟩ := m.wakes_all as
    obtain ⟨woken, order⟩ := (k.run (as.map .deliver)).order
    exact ⟨woken, asleep ▸ order, wakeUp⟩
  once acts none := ⟨wakeUp_spent rfl acts none, wakeUp_spent rfl acts none⟩

/-- Whatever happens to a mailbox, its queue is an end of all that was delivered and fits the
capacity, of which nothing counts as one. An item that does not fit takes the place of the oldest.
No wake-up is stored beside a sleeping waiter. A consumer that empties the queue whenever it was
woken sleeps only while nothing is queued. -/
theorem suffix_queue_wakes (capacity : Option Nat) :
    (∀ acts : List (Act α), ((empty capacity).run acts).Serves capacity (delivered acts)) ∧
      ∀ turns : List (Turn α), ((Attended.new capacity).run turns).Waits →
        ((Attended.new capacity).run turns).mailbox.queue = [] := by
  constructor
  · intro acts
    have keeps := (keeps_empty capacity).run acts
    rw [List.nil_append] at keeps
    exact keeps.serves
  · intro turns waits
    exact ((Attended.tidy_new capacity).run turns).empty waits

/-- Three deliveries, of which the mailbox of one has room for the last, share a wake-up. -/
def busyMorning : List (Turn Nat) :=
  [.wait, .deliver 1, .deliver 2, .look, .deliver 3, .latest, .wait, .look, .retrieve, .wait]

theorem busy_morning_waits : ((Attended.new (some 0)).run busyMorning).Waits ∧
    ((Attended.new (some 0)).run busyMorning).mailbox.queue = [] := by
  have waits : ((Attended.new (some 0)).run busyMorning).Waits := ⟨rfl, rfl⟩
  exact ⟨waits, (suffix_queue_wakes (some 0)).2 busyMorning waits⟩

end Mailbox

end ChainHerald
