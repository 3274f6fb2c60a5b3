import ChainHerald.Proofs.Ledger
import ChainHerald.Proofs.Serving

/-!
# Desks that others cannot tell apart

`Desk.Alike` is what two desks have in common for everybody but one job: the calls and records of
every other job, and its markers. Whatever comes of an offer to the job itself keeps to that
(`Desk.alike_serve`), so two passes that offer everybody else the same leave desks alike
(`Desk.Alike.serveAll`), as long as the ledger takes marks and answers lookups.
-/

namespace ChainHerald

/-- Calls and records of other jobs. -/
def Entry.spares (job : Int) : Entry → Bool
  | .handed _ b | .recorded _ b => b.job != job
  | _ => false

/-- What has happened to everybody else, the latest first. -/
def Desk.beside (d : Desk) (job : Int) : List Entry := d.journal.filter (Entry.spares job)

/-- No mark and no lookup is going to fail. -/
structure Ledger.Steady (g : Ledger) : Prop where
  marks : g.failingMarks = 0
  lookups : g.failingLookups = 0

namespace Desk

variable {job : Int} {d d' d'' : Desk} {h : Head} {o : Offer}

/-- Alike to everybody but the job. -/
structure Alike (job : Int) (d d' : Desk) : Prop where
  cancelled : d'.cancelled = d.cancelled
  reads : d'.ledger.failingReads = d.ledger.failingReads
  markers : ∀ m : Marker, m.key.job ≠ job →
    (m ∈ d'.ledger.markers.keys ↔ m ∈ d.ledger.markers.keys)
  beside : d'.beside job = d.beside job

theorem Alike.refl (job : Int) (d : Desk) : Alike job d d := ⟨rfl, rfl, fun _ _ => .rfl, rfl⟩

theorem Alike.symm (a : Alike job d d') : Alike job d' d :=
  ⟨a.cancelled.symm, a.reads.symm, fun m own => (a.markers m own).symm, a.beside.symm⟩

theorem Alike.trans (a : Alike job d d') (a' : Alike job d' d'') : Alike job d d'' :=
  ⟨a'.cancelled.trans a.cancelled, a'.reads.trans a.reads,
    fun m own => (a'.markers m own).trans (a.markers m own), a'.beside.trans a.beside⟩

theorem Alike.write (a : Alike job d d') (x : Entry) : Alike job (d.write x) (d'.write x) := by
  refine { a with beside := ?_ }
  have same := a.beside
  simp only [Desk.beside, Desk.write, List.filter_cons] at same ⊢
  rw [same]

/-- What is written of the job itself, others do not see. -/
theorem alike_write {x : Entry} (own : x.spares job = false) : Alike job d (d.write x) :=
  { Alike.refl job d with beside := by simp [Desk.beside, Desk.write, own] }

def put (d : Desk) (k : Key) (block : Nat) : Desk := { d with ledger := d.ledger.put k block }

theorem Alike.put (a : Alike job d d') (k : Key) (block : Nat) :
    Alike job (d.put k block) (d'.put k block) := by
  refine { a with markers := ?_ }
  intro m own
  have before := a.markers m own
  simp only [Desk.put, Ledger.mem_put, before]

theorem alike_put {k : Key} (own : k.job = job) (block : Nat) : Alike job d (d.put k block) := by
  refine { Alike.refl job d with markers := ?_ }
  intro m other
  have ne : m ≠ ⟨block, k⟩ := fun same => other (same ▸ own)
  simp [Desk.put, Ledger.mem_put, ne]

theorem Alike.holds (a : Alike job d d') {k : Key} (other : k.job ≠ job) :
    d'.ledger.holds k = d.ledger.holds k := by
  rw [Bool.eq_iff_iff, Ledger.holds_iff, Ledger.holds_iff]
  apply exists_congr
  intro m
  apply and_congr_left
  rintro rfl
  exact a.markers m other

theorem Alike.timed (a : Alike job d d') (clock clock' : Clock) :
    Alike job (d.timed clock) (d'.timed clock') :=
  ⟨a.cancelled, a.reads, a.markers, a.beside⟩

/-! ## Serving one offer -/

theorem serve_of_error (steady : d.ledger.Steady) {e : DecodeError}
    (refused : o.registration.options.decoder.decode o.log = .error e) :
    d.serve h o = (d.notice (.undecodable o.registration.listener.job
      (.new o.log h o.registration.listener.job) e)).put o.key o.position.block := by
  simp [serve, prepare, refused, mark, Ledger.mark, notice, write, steady.marks, put]

/-- What a listener does while the ledger works, before it may cancel. -/
def keep (d : Desk) (l : Listener) (b : Broadcast) : Desk :=
  if l.marking then
    if d.ledger.holds b.key then d else (d.write (.recorded l b)).put b.key b.block
  else d.write (.recorded l b)

theorem receive_steady (steady : d.ledger.Steady) (l : Listener) (b : Broadcast) :
    d.receive l b = { d.keep l b with cancelled := (d.keep l b).cancelled || l.cancels } := by
  unfold receive keep
  cases l.marking with
  | false => rfl
  | true =>
    simp only [if_true, was, Ledger.was, steady.lookups]
    cases d.ledger.holds b.key with
    | true => rfl
    | false => simp [mark, Ledger.mark, write, steady.marks, put]

/-- What is on the desk when the listener has had the log, before it may cancel. -/
def handed (d : Desk) (h : Head) (o : Offer) (v : Decoded) : Desk :=
  (d.write (.handed o.registration.id (o.broadcast h v))).keep o.registration.listener
    (o.broadcast h v)

theorem serve_of_ok (steady : d.ledger.Steady) {v : Decoded}
    (decoded : o.registration.options.decoder.decode o.log = .ok v) :
    d.serve h o = { d.handed h o v with
      cancelled := (d.handed h o v).cancelled || o.registration.listener.cancels } := by
  have steady' : (d.write (.handed o.registration.id (o.broadcast h v))).ledger.Steady := steady
  simp only [serve, prepare, decoded]
  exact receive_steady steady' _ _

theorem Alike.keep (a : Alike job d d') (l : Listener) {b : Broadcast} (other : b.job ≠ job) :
    Alike job (d.keep l b) (d'.keep l b) := by
  unfold Desk.keep
  rw [a.holds (k := b.key) other]
  split
  · split
    · exact a
    · exact (a.write _).put _ _
  · exact a.write _

theorem alike_keep (l : Listener) {b : Broadcast} (own : b.job = job) :
    Alike job d (d.keep l b) := by
  have recorded : Alike job d (d.write (.recorded l b)) :=
    alike_write (by simp [Entry.spares, own])
  unfold keep
  split
  · split
    · exact .refl job d
    · exact recorded.trans (alike_put own _)
  · exact recorded

theorem Alike.handed (a : Alike job d d') (other : o.registration.listener.job ≠ job)
    (v : Decoded) : Alike job (d.handed h o v) (d'.handed h o v) :=
  (a.write _).keep o.registration.listener (b := o.broadcast h v) other

theorem alike_handed (own : o.registration.listener.job = job) (v : Decoded) :
    Alike job d (d.handed h o v) := by
  have written : Alike job d (d.write (.handed o.registration.id (o.broadcast h v))) :=
    alike_write (by simp [Entry.spares, Offer.broadcast, Broadcast.new, own])
  exact written.trans (alike_keep o.registration.listener (b := o.broadcast h v) own)

/-- An offer to somebody else is served alike. -/
theorem Alike.serve (a : Alike job d d') (steady : d.ledger.Steady) (steady' : d'.ledger.Steady)
    (other : o.registration.listener.job ≠ job) : Alike job (d.serve h o) (d'.serve h o) := by
  cases decoded : o.registration.options.decoder.decode o.log with
  | ok v =>
    have handed := a.handed (h := h) other v
    rw [serve_of_ok steady decoded, serve_of_ok steady' decoded]
    exact { handed with cancelled := congrArg (· || _) handed.cancelled }
  | error e =>
    rw [serve_of_error steady decoded, serve_of_error steady' decoded]
    exact (a.write _).put _ _

/-- Whatever comes of an offer to the job, nobody else can tell. -/
theorem alike_serve (steady : d.ledger.Steady) (own : o.registration.listener.job = job)
    (stays : o.registration.listener.cancels = false) : Alike job d (d.serve h o) := by
  cases decoded : o.registration.options.decoder.decode o.log with
  | ok v =>
    have handed : Alike job d (d.handed h o v) := alike_handed own v
    rw [serve_of_ok steady decoded]
    refine { handed with cancelled := ?_ }
    simp only [stays, Bool.or_false]
    exact handed.cancelled
  | error e =>
    rw [serve_of_error steady decoded]
    have told : Alike job d (d.notice (.undecodable o.registration.listener.job
      (.new o.log h o.registration.listener.job) e)) := alike_write rfl
    exact told.trans (alike_put own _)

theorem steady_keep (steady : d.ledger.Steady) (l : Listener) (b : Broadcast) :
    (d.keep l b).ledger.Steady := by
  unfold keep
  split
  · split
    · exact steady
    · exact ⟨steady.marks, steady.lookups⟩
  · exact steady

theorem steady_serve (steady : d.ledger.Steady) (h : Head) (o : Offer) :
    (d.serve h o).ledger.Steady := by
  cases decoded : o.registration.options.decoder.decode o.log with
  | ok v =>
    rw [serve_of_ok steady decoded]
    have kept := steady_keep (d := d.write (.handed o.registration.id (o.broadcast h v))) steady
      o.registration.listener (o.broadcast h v)
    exact kept
  | error e =>
    rw [serve_of_error steady decoded]
    exact ⟨steady.marks, steady.lookups⟩

/-! ## Serving all -/

theorem steady_serveAll (steady : d.ledger.Steady) (h : Head) (os : List Offer) :
    (d.serveAll h os).ledger.Steady := by
  induction os generalizing d with
  | nil => exact steady
  | cons o rest ih =>
    unfold serveAll
    split
    · exact steady
    · exact ih (steady_serve steady h o)

variable {os os' : List Offer}

theorem Alike.serveAll_of_others (a : Alike job d d') (steady : d.ledger.Steady)
    (steady' : d'.ledger.Steady) (others : ∀ o ∈ os, o.registration.listener.job ≠ job) :
    Alike job (d.serveAll h os) (d'.serveAll h os) := by
  induction os generalizing d d' with
  | nil => exact a
  | cons o rest ih =>
    obtain ⟨other, later⟩ := List.forall_mem_cons.1 others
    unfold Desk.serveAll
    rw [a.cancelled]
    split
    · exact a
    · exact ih (a.serve steady steady' other) (steady_serve steady h o) (steady_serve steady' h o)
        later

def toOthers (job : Int) (os : List Offer) : List Offer :=
  os.filter fun o => o.registration.listener.job != job

theorem mem_toOthers {o : Offer} :
    o ∈ toOthers job os ↔ o ∈ os ∧ o.registration.listener.job ≠ job := by
  simp [toOthers]

/-- The offers to the job might as well be left out. -/
theorem alike_toOthers (steady : d.ledger.Steady)
    (stays : ∀ o ∈ os, o.registration.listener.job = job →
      o.registration.listener.cancels = false) :
    Alike job (d.serveAll h os) (d.serveAll h (toOthers job os)) := by
  induction os generalizing d with
  | nil => exact .refl job d
  | cons o rest ih =>
    obtain ⟨first, later⟩ := List.forall_mem_cons.1 stays
    cases free : d.cancelled with
    | true =>
      rw [serveAll_of_cancelled free, serveAll_of_cancelled free]
      exact .refl job d
    | false =>
      rw [serveAll_cons free]
      have both := ih (steady_serve steady h o) later
      by_cases own : o.registration.listener.job = job
      · have gone : toOthers job (o :: rest) = toOthers job rest := by simp [toOthers, own]
        rw [gone]
        refine both.trans (Alike.symm ?_)
        exact (alike_serve steady own (first own)).serveAll_of_others steady
          (steady_serve steady h o) fun _ mem => (mem_toOthers.1 mem).2
      · have stands : toOthers job (o :: rest) = o :: toOthers job rest := by simp [toOthers, own]
        rw [stands, serveAll_cons free]
        exact both

/-- It is enough that everybody else is offered the same. -/
theorem Alike.serveAll (a : Alike job d d') (steady : d.ledger.Steady) (steady' : d'.ledger.Steady)
    (same : toOthers job os' = toOthers job os)
    (stays : ∀ o ∈ os, o.registration.listener.job = job → o.registration.listener.cancels = false)
    (stays' : ∀ o ∈ os', o.registration.listener.job = job →
      o.registration.listener.cancels = false) :
    Alike job (d.serveAll h os) (d'.serveAll h os') := by
  have between : Alike job (d.serveAll h (toOthers job os)) (d'.serveAll h (toOthers job os)) :=
    a.serveAll_of_others steady steady' fun o mem => (mem_toOthers.1 mem).2
  have back := (alike_toOthers (h := h) steady' stays').symm
  rw [same] at back
  exact ((alike_toOthers steady stays).trans between).trans back

end Desk

end ChainHerald
