import ChainHerald.Proofs.Ledger
import ChainHerald.Proofs.Pool
import ChainHerald.Proofs.Serving

/-!
# The books of marking listeners

A marking listener asks the ledger before it records and marks what it recorded. `Desk.Balanced`
says that the markers are then just those of the records, and that no record comes twice;
`Balanced.serveAll` that serving keeps it so and leaves everything recorded that was offered.
-/

namespace ChainHerald

def Entry.kept? (job : Int) : Entry → Option Log
  | .recorded l b => if l.job = job then some b.log else none
  | _ => none

/-- What the listener of the job has recorded, the latest first. -/
def Desk.recorded (d : Desk) (job : Int) : List Log := d.journal.filterMap (Entry.kept? job)

def Log.key (l : Log) (job : Int) : Key := ⟨l.hash.getD 0, l.index.getD 0, job⟩

theorem Log.key_of_position? {l : Log} {p : Position} (h : l.position? = some p) (job : Int) :
    l.key job = ⟨p.hash, p.index, job⟩ := by
  obtain ⟨-, hash, index⟩ := position?_eq_some.1 h
  simp [key, hash, index]

def Log.marker (l : Log) (job : Int) : Marker := ⟨l.block.getD 0, l.key job⟩

/-- Mined logs that hash and index tell apart. -/
structure Told (logs : Log → Prop) : Prop where
  positioned : ∀ l, logs l → ∃ p, l.position? = some p
  same : ∀ l l', logs l → logs l' → l.hash = l'.hash → l.index = l'.index → l = l'

theorem Told.eq_of_position {logs : Log → Prop} (t : Told logs) {l l' : Log} {p : Position}
    (h : logs l) (h' : logs l') (hp : l.position? = some p) (hp' : l'.position? = some p) :
    l = l' := by
  obtain ⟨-, hash, index⟩ := Log.position?_eq_some.1 hp
  obtain ⟨-, hash', index'⟩ := Log.position?_eq_some.1 hp'
  exact t.same l l' h h' (hash.trans hash'.symm) (index.trans index'.symm)

/-- Among logs that are told apart the keys are. -/
theorem Told.eq_of_key {logs : Log → Prop} (t : Told logs) {l l' : Log} {job job' : Int}
    (h : logs l) (h' : logs l') (key : l.key job = l'.key job') : l = l' ∧ job = job' := by
  obtain ⟨p, hp⟩ := t.positioned l h
  obtain ⟨p', hp'⟩ := t.positioned l' h'
  rw [Log.key_of_position? hp, Log.key_of_position? hp', Key.mk.injEq] at key
  obtain ⟨hash, index, own⟩ := key
  obtain ⟨-, at_hash, at_index⟩ := Log.position?_eq_some.1 hp
  obtain ⟨-, at_hash', at_index'⟩ := Log.position?_eq_some.1 hp'
  exact ⟨t.same l l' h h' (by rw [at_hash, at_hash', hash]) (by rw [at_index, at_index', index]),
    own⟩

namespace Desk

variable {d d' : Desk} {logs : Log → Prop} {h : Head} {o : Offer} {l : Log} {job : Int}

/-- The markers are those of the records. -/
structure Balanced (d : Desk) (logs : Log → Prop) : Prop where
  free : d.cancelled = false
  marks : d.ledger.failingMarks = 0
  lookups : d.ledger.failingLookups = 0
  marked : ∀ m, m ∈ d.ledger.markers.keys ↔ ∃ job, ∃ l ∈ d.recorded job, m = l.marker job
  once : ∀ job, (d.recorded job).Nodup
  known : ∀ job, ∀ l ∈ d.recorded job, logs l

theorem balanced_new (clock : Clock) : (new clock .empty).Balanced logs where
  free := rfl
  marks := rfl
  lookups := rfl
  marked := by simp [new, Ledger.empty, Table.keys, Table.empty, recorded]
  once := by simp [new, recorded]
  known := by simp [new, recorded]

theorem Balanced.mono (b : d.Balanced logs) {more : Log → Prop} (h : ∀ l, logs l → more l) :
    d.Balanced more :=
  { b with known := fun job l hl => h l (b.known job l hl) }

/-- Only these parts of a desk matter. -/
theorem Balanced.congr (b : d.Balanced logs) (recorded : d'.recorded = d.recorded)
    (cancelled : d'.cancelled = d.cancelled) (markers : d'.ledger.markers = d.ledger.markers)
    (marks : d'.ledger.failingMarks = d.ledger.failingMarks)
    (lookups : d'.ledger.failingLookups = d.ledger.failingLookups) : d'.Balanced logs where
  free := cancelled.trans b.free
  marks := marks.trans b.marks
  lookups := lookups.trans b.lookups
  marked := by rw [markers, recorded]; exact b.marked
  once := by rw [recorded]; exact b.once
  known := by rw [recorded]; exact b.known

/-- A key is marked just if its log is recorded. -/
theorem Balanced.holds_iff (b : d.Balanced logs) (told : Told logs) (hl : logs l) (job : Int) :
    (∃ m ∈ d.ledger.markers.keys, m.key = l.key job) ↔ l ∈ d.recorded job := by
  constructor
  · rintro ⟨m, hm, key⟩
    obtain ⟨job', l', hl', rfl⟩ := (b.marked m).1 hm
    obtain ⟨rfl, rfl⟩ := told.eq_of_key (b.known job' l' hl') hl key
    exact hl'
  · intro hl
    exact ⟨l.marker job, (b.marked _).2 ⟨job, l, hl, rfl⟩, rfl⟩

/-- A record and its marker. -/
def enter (d : Desk) (r : Listener) (x : Broadcast) : Desk :=
  { d with
    journal := .recorded r x :: d.journal
    ledger := d.ledger.put x.key x.block }

/-- What a marking listener does while the ledger works. -/
theorem receive_marking {r : Listener} {x : Broadcast} (marking : r.marking = true)
    (stays : r.cancels = false) (marks : d.ledger.failingMarks = 0)
    (lookups : d.ledger.failingLookups = 0) :
    d.receive r x = if d.ledger.holds x.key then d else d.enter r x := by
  simp only [receive, marking, stays, was, Ledger.was, lookups, if_true, Bool.or_false]
  cases d.ledger.holds x.key with
  | true => rfl
  | false => simp [write, mark, Ledger.mark, marks, enter]

theorem recorded_enter_self (d : Desk) (r : Listener) (x : Broadcast) :
    (d.enter r x).recorded r.job = x.log :: d.recorded r.job := by
  simp [recorded, enter, Entry.kept?]

theorem recorded_enter_of_ne {r : Listener} {x : Broadcast} (h : r.job ≠ job) :
    (d.enter r x).recorded job = d.recorded job := by
  simp [recorded, enter, Entry.kept?, h]

theorem mem_recorded_enter {r : Listener} {x : Broadcast} :
    l ∈ (d.enter r x).recorded job ↔ l ∈ d.recorded job ∨ x.log = l ∧ r.job = job := by
  by_cases h : r.job = job
  · subst h
    rw [recorded_enter_self, List.mem_cons]
    tauto
  · simp [recorded_enter_of_ne h, h]

theorem Balanced.enter (b : d.Balanced logs) {r : Listener} {x : Broadcast} (known : logs x.log)
    (own : x.job = r.job) (unseen : x.log ∉ d.recorded r.job) : (d.enter r x).Balanced logs := by
  have marker : (⟨x.block, x.key⟩ : Marker) = x.log.marker r.job := by
    simp [Log.marker, Log.key, Broadcast.block, Broadcast.key, own]
  refine ⟨b.free, b.marks, b.lookups, ?_, ?_, ?_⟩
  · intro m
    have put : m ∈ (d.enter r x).ledger.markers.keys ↔ _ := Ledger.mem_put
    simp only [put, b.marked, marker, mem_recorded_enter]
    constructor
    · rintro (rfl | ⟨job, l, hl, rfl⟩)
      · exact ⟨r.job, x.log, .inr ⟨rfl, rfl⟩, rfl⟩
      · exact ⟨job, l, .inl hl, rfl⟩
    · rintro ⟨job, l, hl | ⟨rfl, rfl⟩, rfl⟩
      · exact .inr ⟨job, l, hl, rfl⟩
      · exact .inl rfl
  · intro job
    by_cases h : r.job = job
    · subst h
      rw [recorded_enter_self]
      exact List.nodup_cons.2 ⟨unseen, b.once r.job⟩
    · exact (recorded_enter_of_ne h).symm ▸ b.once job
  · intro job l hl
    rcases mem_recorded_enter.1 hl with hl | ⟨rfl, -⟩
    · exact b.known job l hl
    · exact known

/-- An offer to a marking listener of a log that it can decode. -/
structure Proper (logs : Log → Prop) (o : Offer) : Prop where
  known : logs o.log
  marking : o.registration.listener.marking = true
  stays : o.registration.listener.cancels = false
  decodes : ∃ v, o.registration.options.decoder.decode o.log = .ok v

/-- Serving an offer leaves it recorded, and nothing else anew. -/
theorem Balanced.serve (b : d.Balanced logs) (told : Told logs) (proper : Proper logs o) :
    (d.serve h o).Balanced logs ∧ ∀ job l, l ∈ (d.serve h o).recorded job ↔
      l ∈ d.recorded job ∨ o.log = l ∧ o.registration.listener.job = job := by
  obtain ⟨known, marking, stays, v, decoded⟩ := proper
  have served : d.serve h o =
      (d.write (.handed o.registration.id (o.broadcast h v))).receive o.registration.listener
        (o.broadcast h v) := by
    simp [Desk.serve, prepare, decoded, Offer.broadcast]
  have same : (d.write (.handed o.registration.id (o.broadcast h v))).recorded = d.recorded :=
    funext fun job => List.filterMap_cons_none rfl
  have called := b.congr same rfl rfl rfl rfl
  have held := called.holds_iff told known o.registration.listener.job
  rw [served, receive_marking marking stays called.marks called.lookups]
  split
  next holds =>
    refine ⟨called, ?_⟩
    intro job l
    rw [same] at held ⊢
    apply (or_iff_left_of_imp ?_).symm
    rintro ⟨rfl, rfl⟩
    exact held.1 (Ledger.holds_iff.1 holds)
  next holds =>
    refine ⟨called.enter known rfl ?_, ?_⟩
    · intro seen
      exact holds (Ledger.holds_iff.2 (held.2 seen))
    · intro job l
      rw [mem_recorded_enter, same]
      rfl

theorem Balanced.serveAll {os : List Offer} (b : d.Balanced logs) (told : Told logs)
    (proper : ∀ o ∈ os, Proper logs o) :
    (d.serveAll h os).Balanced logs ∧ ∀ job l, l ∈ (d.serveAll h os).recorded job ↔
      l ∈ d.recorded job ∨ ∃ o ∈ os, o.log = l ∧ o.registration.listener.job = job := by
  induction os generalizing d with
  | nil => exact ⟨b, fun job l => by simp [Desk.serveAll]⟩
  | cons o rest ih =>
    obtain ⟨first, others⟩ := List.forall_mem_cons.1 proper
    obtain ⟨balanced, recorded⟩ := b.serve (h := h) told first
    obtain ⟨balanced', recorded'⟩ := ih balanced others
    rw [serveAll_cons b.free]
    refine ⟨balanced', ?_⟩
    intro job l
    rw [recorded', recorded]
    simp [or_assoc]

end Desk

end ChainHerald
