import ChainHerald.Proofs.Alike
import ChainHerald.Proofs.ExactlyOnce
import ChainHerald.Proofs.Recoding

/-!
# Other people's decoders

Two runs hear the same of everything, only that in the second one the registrations of one job
decode differently. What a decoder makes of a log shows in the markers and in the calls of its own
job and nowhere else (`decoders_stay_apart`), so it is harmless among registrations with jobs of
their own. Two registrations of one job do get into each other's way (`Example.failure_shared`).
-/

namespace ChainHerald

open Desk (Alike toOthers)

def Call.recode (job : Int) (f : Registration → Decoder) (c : Call) : Call :=
  { c with input := c.input.recode job f }

variable {job : Int} {f : Registration → Decoder}

/-! ## Offers -/

theorem toOthers_offers {r : Registry} {logs : List Log} {h : Head}
    {consumed consumed' : Members Key}
    (same : ∀ k : Key, k.job ≠ job → consumed'.contains k = consumed.contains k) :
    toOthers job ((r.recode job f).offers logs h consumed') =
      toOthers job (r.offers logs h consumed) := by
  simp only [toOthers, Registry.offers, List.filter_flatMap]
  congr 1
  funext l
  cases l.position? with
  | none => rfl
  | some p =>
    simp only [Registry.recode, Table.values_mapValues, List.filter_map, List.filter_filter,
      List.map_map, Function.comp_def]
    rw [List.filter_congr (q := fun g => g.listener.job != job &&
      (!consumed.contains (⟨l, p, g⟩ : Offer).key && g.wants h l p))]
    · apply List.map_congr_left
      intro g mem
      have other : g.listener.job ≠ job := by simp_all
      simp [Registration.recode_of_ne other]
    · intro g _
      by_cases own : g.listener.job = job
      · simp [own]
      · have fresh := same (⟨l, p, g⟩ : Offer).key own
        simp [Registration.recode_of_ne own, fresh]

variable {d d' d₁ d₂ : Desk} {e e₁ e₂ : Herald} {h : Head}

theorem Desk.Alike.reading (a : Alike job d d') (fails : Bool) :
    Alike job (d.reading fails) (d'.reading fails) :=
  ⟨a.cancelled, rfl, a.markers, a.beside⟩

theorem contains_within_eq (a : Alike job d d') (lo hi : Nat) {k : Key} (other : k.job ≠ job) :
    (d'.ledger.within lo hi).contains k = (d.ledger.within lo hi).contains k := by
  rw [Bool.eq_iff_iff, Ledger.contains_within, Ledger.contains_within]
  apply exists_congr
  intro m
  constructor
  · rintro ⟨marked, rfl, bounds⟩
    exact ⟨(a.markers m other).1 marked, rfl, bounds⟩
  · rintro ⟨marked, rfl, bounds⟩
    exact ⟨(a.markers m other).2 marked, rfl, bounds⟩

/-- The ledger lets both read, or neither. -/
theorem find_alike (a : Alike job d d') (lo hi : Nat) :
    ∃ result result' d₁ d₁', d.find lo hi = (result, d₁) ∧ d'.find lo hi = (result', d₁') ∧
      Alike job d₁ d₁' ∧
      match result, result' with
      | .error e, .error e' => e' = e
      | .ok consumed, .ok consumed' =>
        ∀ k : Key, k.job ≠ job → consumed'.contains k = consumed.contains k
      | _, _ => False := by
  have reads := a.reads
  unfold Desk.find Ledger.find
  cases left : d.ledger.failingReads with
  | zero =>
    rw [left] at reads
    simp only [reads]
    exact ⟨_, _, _, _, rfl, rfl, a, fun k other => contains_within_eq a lo hi other⟩
  | succ n =>
    rw [left] at reads
    simp only [reads]
    exact ⟨_, _, _, _, rfl, rfl, ⟨a.cancelled, rfl, a.markers, a.beside⟩, rfl⟩

/-- No listener of the job closes the broadcaster. -/
def Herald.Stays (job : Int) (e : Herald) : Prop :=
  ∀ g ∈ e.registry.live.values, g.listener.job = job → g.listener.cancels = false

theorem stays_offers (stays : e.Stays job) {logs : List Log} {consumed : Members Key} :
    ∀ o ∈ e.registry.offers logs h consumed, o.registration.listener.job = job →
      o.registration.listener.cancels = false := by
  intro o mem
  obtain ⟨-, -, live, -⟩ := Registry.mem_offers.1 mem
  exact stays _ live

theorem Herald.Stays.recode (stays : e.Stays job) : (e.recode job f).Stays job := by
  intro g mem
  have there : g ∈ (e.registry.live.mapValues (·.recode job f)).values := mem
  rw [Table.values_mapValues] at there
  obtain ⟨g', live, rfl⟩ := List.mem_map.1 there
  simpa using stays g' live

/-- What two heralds make of the same news: nothing, or passes that offer everybody else the
same. -/
inductive Twins (job : Int) (f : Registration → Decoder) :
    Option Pass × Herald × Desk → Option Pass × Herald × Desk → Prop where
  | alone {e : Herald} {d d' : Desk} (alike : Alike job d d') :
      Twins job f (none, e, d) (none, e.recode job f, d')
  | pass {e : Herald} {d d' : Desk} {h : Head} {os os' : List Offer} {prune : Option Nat}
      (alike : Alike job d d') (same : toOthers job os' = toOthers job os)
      (stays : ∀ o ∈ os, o.registration.listener.job = job →
        o.registration.listener.cancels = false)
      (stays' : ∀ o ∈ os', o.registration.listener.job = job →
        o.registration.listener.cancels = false) :
      Twins job f (some (.start h os prune), e, d) (some (.start h os' prune), e.recode job f, d')

theorem twins_dispatch (placed : e.pool.Placed) (stays : e.Stays job) (a : Alike job d d')
    (h : Head) : Twins job f (e.dispatch d h) ((e.recode job f).dispatch d' h) := by
  rw [Herald.dispatch_eq placed, Herald.dispatch_eq (e := e.recode job f) placed]
  have pool : (e.recode job f).pool = e.pool := rfl
  rw [pool]
  cases (e.pool.upTo h.number).lowest? with
  | none => exact .alone a
  | some lo =>
    obtain ⟨result, result', d₁, d₁', found, found', alike, same⟩ := find_alike a lo h.number
    simp only [found, found']
    cases result with
    | error err =>
      cases result' with
      | error err' =>
        cases same
        exact .alone (alike.write _)
      | ok => cases same
    | ok consumed =>
      cases result' with
      | error => cases same
      | ok consumed' =>
        simp only
        rw [Herald.recode_spent]
        exact .pass alike (toOthers_offers same) (stays_offers stays) (stays_offers stays.recode)

theorem twins_onLog (placed : e.pool.Placed) (stays : e.Stays job) (a : Alike job d d') (l : Log) :
    Twins job f (e.onLog d l) ((e.recode job f).onLog d' l) := by
  unfold Herald.onLog
  cases l.position? with
  | none => exact .alone (a.write _)
  | some p =>
    have warned : Alike job (e.warn d p.block) ((e.recode job f).warn d' p.block) := by
      unfold Herald.warn
      have far : (e.recode job f).isFar p.block = e.isFar p.block := rfl
      rw [far]
      split
      · exact a
      · exact a.write _
    dsimp only
    split
    · exact .alone warned
    · have covers : (e.recode job f).registry.covers l.address = e.registry.covers l.address := rfl
      rw [covers]
      split
      · exact .alone warned
      · have head : (e.recode job f).head = e.head := rfl
        rw [head]
        cases e.head with
        | none => exact .alone warned
        | some h =>
          have depth : (e.recode job f).registry.depth = e.registry.depth := rfl
          simp only [depth]
          split
          · exact twins_dispatch (e := { e with pool := (e.pool.add l).2, head := some h })
              (placed.add l) stays warned h
          · exact .alone warned

theorem twins_hear (placed : e.pool.Placed) (stays : e.Stays job) (a : Alike job d d') (i : Input) :
    Twins job f (e.hear d i) ((e.recode job f).hear d' (i.recode job f)) := by
  cases i with
  | change c =>
    have applied : (e.recode job f).apply (c.recode job f) = (e.apply c).recode job f :=
      Herald.recode_apply c
    unfold Herald.hear
    simp only [Input.recode, applied]
    exact .alone a
  | log l => exact twins_onLog placed stays a l
  | head h => exact twins_dispatch (e := { e with head := some h }) placed stays a h

/-! ## Whole runs -/

/-- No input enrols a listener of the job that closes the broadcaster. -/
def Input.Tame (job : Int) (i : Input) : Prop :=
  ∀ g, i = .change (.add g) → g.listener.job = job → g.listener.cancels = false

theorem Herald.Stays.note (stays : e.Stays job) {i : Input} (tame : i.Tame job) :
    (e.note i).Stays job := by
  intro g mem own
  cases i with
  | change c =>
    obtain ⟨stale, applied⟩ := e.apply_eq c
    rw [Herald.note, applied] at mem
    obtain ⟨id, there⟩ := Table.mem_values.1 mem
    cases c with
    | add g' =>
      rw [Registry.live_add] at there
      by_cases new : id = g'.id
      · rw [new, Table.get?_insert_self] at there
        obtain rfl := Option.some.inj there
        exact tame g' rfl own
      · rw [Table.get?_insert_of_ne new] at there
        exact stays g (Table.mem_values.2 ⟨id, there⟩) own
    | remove gone =>
      rw [Registry.live_remove] at there
      by_cases left : id = gone
      · rw [left, Table.get?_erase_self] at there
        cases there
      · rw [Table.get?_erase_of_ne left] at there
        exact stays g (Table.mem_values.2 ⟨id, there⟩) own
  | log l =>
    have same : (e.note (.log l)).registry = e.registry := by
      rcases e.file_cases l with ⟨-, eq⟩ | ⟨-, -, eq⟩ | ⟨-, -, eq⟩ <;> rw [Herald.note, eq]
    exact stays g (same ▸ mem) own
  | head h => exact stays g mem own

/-- The pool and the registrations keep to what the comparison needs. -/
structure Fit (job : Int) (e : Herald) : Prop where
  placed : e.pool.Placed
  stays : e.Stays job

theorem Fit.spent (fit : Fit job e) (h : Head) : Fit job (e.spent h) := by
  refine ⟨?_, fun g mem => fit.stays g (Herald.spent_registry e h ▸ mem)⟩
  unfold Herald.spent
  split
  · exact fit.placed.since _
  · exact fit.placed

theorem Fit.close (fit : Fit job e) (p : Pass) : Fit job (e.close p) := by
  unfold Herald.close
  split
  · exact fit
  · exact ⟨fit.placed.since _, fit.stays⟩

theorem Fit.answers {c : Call} (fit : Fit job e) (tame : c.input.Tame job)
    (answers : e.Answers d c e₁ d₁) : Fit job e₁ := by
  have noted : Fit job (e.note c.input) := ⟨Herald.Placed.note fit.placed _, fit.stays.note tame⟩
  cases answers with
  | alone result =>
    rcases Herald.hear_cases fit.placed result with ⟨-, rfl, -⟩ | ⟨h, _, _, -, -, -, -, rfl, -⟩
    · exact noted
    · exact noted.spent h
  | pass result =>
    rcases Herald.hear_cases fit.placed result with ⟨-, rfl, -⟩ | ⟨h, _, _, -, -, -, -, rfl, -⟩
    · exact noted.close _
    · exact (noted.spent h).close _

theorem steady_hear {i : Input} {pass : Option Pass} (placed : e.pool.Placed)
    (steady : d.ledger.Steady) (result : e.hear d i = (pass, e₁, d₁)) : d₁.ledger.Steady := by
  rcases Herald.hear_cases placed result with ⟨-, -, n⟩ | ⟨_, _, _, -, -, -, -, -, n⟩
  · exact ⟨n.marks.trans steady.marks, n.lookups.trans steady.lookups⟩
  · exact ⟨n.marks.trans steady.marks, n.lookups.trans steady.lookups⟩

theorem steady_reading (steady : d.ledger.Steady) (fails : Bool) :
    (d.reading fails).ledger.Steady := ⟨steady.marks, steady.lookups⟩

/-- What the two make of one call. -/
theorem alike_answers {c : Call} (fit : Fit job e) (steady : d.ledger.Steady)
    (steady' : d'.ledger.Steady) (a : Alike job d d') (answers : e.Answers d c e₁ d₁)
    (answers' : (e.recode job f).Answers d' (c.recode job f) e₂ d₂) :
    e₂ = e₁.recode job f ∧ Alike job d₁ d₂ ∧ d₁.ledger.Steady ∧ d₂.ledger.Steady := by
  have twins : Twins job f (e.hear (d.reading c.fails) c.input)
      ((e.recode job f).hear (d'.reading (c.recode job f).fails) (c.recode job f).input) :=
    twins_hear fit.placed fit.stays (a.reading c.fails) c.input
  have placed' : (e.recode job f).pool.Placed := fit.placed
  cases answers with
  | alone result =>
    rw [result] at twins
    have left := steady_hear fit.placed (steady_reading steady c.fails) result
    cases answers' with
    | alone result' =>
      have right := steady_hear placed' (steady_reading steady' c.fails) result'
      rw [result'] at twins
      cases twins with
      | alone alike => exact ⟨rfl, alike, left, right⟩
    | pass result' =>
      rw [result'] at twins
      cases twins
  | pass result ends =>
    rw [result] at twins
    have left := steady_hear fit.placed (steady_reading steady c.fails) result
    cases answers' with
    | alone result' =>
      rw [result'] at twins
      cases twins
    | pass result' ends' =>
      have right := steady_hear placed' (steady_reading steady' c.fails) result'
      rw [result'] at twins
      obtain ⟨clock, rfl⟩ := ends.eq_finish
      obtain ⟨clock', rfl⟩ := ends'.eq_finish
      cases twins with
      | pass alike same stays stays' =>
        rw [Pass.finish_of_idle rfl, Pass.finish_of_idle rfl]
        exact ⟨Herald.recode_close _, (alike.serveAll left right same stays stays').timed _ _,
          Desk.steady_serveAll left _ _, Desk.steady_serveAll right _ _⟩

theorem alike_serves {cs : List Call} (fit : Fit job e) (tame : ∀ c ∈ cs, c.input.Tame job)
    (steady : d.ledger.Steady) (steady' : d'.ledger.Steady) (a : Alike job d d')
    (serves : e.Serves d cs e₁ d₁)
    (serves' : (e.recode job f).Serves d' (cs.map (·.recode job f)) e₂ d₂) :
    e₂ = e₁.recode job f ∧ Alike job d₁ d₂ := by
  induction serves generalizing d' with
  | nil =>
    cases serves'
    exact ⟨rfl, a⟩
  | cons first rest ih =>
    obtain ⟨now, later⟩ := List.forall_mem_cons.1 tame
    rw [List.map_cons] at serves'
    cases serves' with
    | cons first' rest' =>
      obtain ⟨rfl, alike, left, right⟩ := alike_answers fit steady steady' a first first'
      exact ih (fit.answers now first) later left right alike rest'

/-- Whatever is called, whenever registrations come and go, and however the decoders of one job are
exchanged: everybody else is handed the same logs, decoded the same way, in the same order, records
the same, and has the same markers. The two runs only need a ledger that takes marks and answers
lookups, and listeners of that job that leave the broadcaster open. -/
theorem decoders_stay_apart (job : Int) (f : Registration → Decoder) {cs : List Call}
    (tame : ∀ c ∈ cs, c.input.Tame job) (finality : Nat) (clock : Clock) {ledger : Ledger}
    (steady : ledger.Steady) :
    (∃ e d, (Herald.new finality).Serves (.new clock ledger) cs e d) ∧
    (∃ e' d', (Herald.new finality).Serves (.new clock ledger) (cs.map (·.recode job f)) e' d') ∧
    ∀ e d e' d', (Herald.new finality).Serves (.new clock ledger) cs e d →
      (Herald.new finality).Serves (.new clock ledger) (cs.map (·.recode job f)) e' d' →
      d'.beside job = d.beside job ∧ e' = e.recode job f ∧
      ∀ m : Marker, m.key.job ≠ job →
        (m ∈ d'.ledger.markers.keys ↔ m ∈ d.ledger.markers.keys) := by
  refine ⟨Herald.serves .., Herald.serves .., ?_⟩
  intro e d e' d' serves serves'
  have fit : Fit job (Herald.new finality) := ⟨Pool.placed_empty, fun g mem => by cases mem⟩
  have same : (Herald.new finality).recode job f = Herald.new finality := rfl
  obtain ⟨herald, alike⟩ := alike_serves (f := f) fit tame (d := .new clock ledger) steady steady
    (.refl job _) serves (same ▸ serves')
  exact ⟨alike.beside, herald, alike.markers⟩

/-! ## Two registrations of one job -/

theorem Pass.Ends.timed {p : Pass} (ends : p.Ends d d') (clock : Clock) :
    p.Ends d (d'.timed clock) := by
  induction ends with
  | done todo => exact .wait clock (.done todo)
  | step s _ ih => exact .step s ih
  | wait clock' _ ih => exact .wait clock' ih

theorem Pass.ends_finish (p : Pass) (d : Desk) : p.Ends d (p.finish d) := by
  obtain ⟨d', ends⟩ := p.ends d
  obtain ⟨clock, rfl⟩ := ends.eq_finish
  exact ends.timed (p.finish d).clock

/-- A call answered in no time. -/
def Herald.answer : Herald × Desk → Call → Herald × Desk
  | (e, d), c =>
    match e.hear (d.reading c.fails) c.input with
    | (none, e, d) => (e, d)
    | (some p, e, d) => (e.close p, p.finish d)

theorem Herald.answers_answer (e : Herald) (d : Desk) (c : Call) :
    e.Answers d c (answer (e, d) c).1 (answer (e, d) c).2 := by
  rcases result : e.hear (d.reading c.fails) c.input with ⟨_ | p, e', d'⟩ <;>
    simp only [answer, result]
  · exact .alone result
  · exact .pass result (p.ends_finish d')

theorem Herald.serves_answer (e : Herald) (d : Desk) (cs : List Call) :
    e.Serves d cs (cs.foldl answer (e, d)).1 (cs.foldl answer (e, d)).2 := by
  induction cs generalizing e d with
  | nil => exact .nil
  | cons c cs ih => exact .cons (e.answers_answer d c) (ih _ _)

/-- Whether the listener of the registration was called. -/
def Desk.called (d : Desk) (registration : Nat) : Bool :=
  d.journal.any fun
    | .handed id _ => id == registration
    | _ => false

/-- Whether the recorder has kept a log. -/
def Desk.kept (d : Desk) (recorder : Nat) : Bool :=
  d.journal.any fun
    | .recorded l _ => l.recorder == recorder
    | _ => false

namespace Example

/-- Wants every log at once and marks nothing. -/
def hasty (job : Int) : Registration :=
  ⟨1, ⟨"hasty", 1, job, false, false, 0⟩, { options with confirmations := 0 }⟩

/-- The keeper's log arrives and gets one block deep, then two. -/
def deepening (job : Int) : List Call :=
  [⟨.change (.add ⟨0, keeper, options⟩), false⟩, ⟨.change (.add (hasty job)), false⟩,
    ⟨.log log, false⟩, ⟨.head ⟨4, 44, 33⟩, false⟩, ⟨.head ⟨5, 55, 44⟩, false⟩]

/-- Takes the hasty one's decoder away. -/
def spoiled (g : Registration) : Decoder := if g.id = 1 then .fails "bad" else g.options.decoder

theorem tame_deepening : ∀ c ∈ deepening 2, c.input.Tame 2 := by
  intro c mem g added own
  simp only [deepening, List.mem_cons, List.not_mem_nil, or_false] at mem
  rcases mem with rfl | rfl | rfl | rfl | rfl
  · cases added
    rfl
  · cases added
    rfl
  all_goals cases added

/-- With a job of its own the hasty one may fail as it likes: the keeper is called all the same. -/
theorem failure_kept_apart : ∃ e d e' d',
    (Herald.new 50).Serves (.new ⟨0, 0⟩ .empty) (deepening 2) e d ∧
    (Herald.new 50).Serves (.new ⟨0, 0⟩ .empty) ((deepening 2).map (·.recode 2 spoiled)) e' d' ∧
    d'.beside 2 = d.beside 2 ∧ d.called 0 = true ∧ d.called 1 = true ∧ d'.called 1 = false := by
  have run := Herald.serves_answer (.new 50) (.new ⟨0, 0⟩ .empty) (deepening 2)
  have run' := Herald.serves_answer (.new 50) (.new ⟨0, 0⟩ .empty)
    ((deepening 2).map (·.recode 2 spoiled))
  have steady : Ledger.empty.Steady := ⟨rfl, rfl⟩
  have apart := decoders_stay_apart 2 spoiled tame_deepening 50 ⟨0, 0⟩ steady
  refine ⟨_, _, _, _, run, run', (apart.2.2 _ _ _ _ run run').1, ?_⟩
  decide +kernel

/-- With the keeper's own job it takes the log away from the keeper, who has yet to wait for it when
the failure marks it. -/
theorem failure_shared : ∃ e d e' d',
    (Herald.new 50).Serves (.new ⟨0, 0⟩ .empty) (deepening 1) e d ∧
    (Herald.new 50).Serves (.new ⟨0, 0⟩ .empty) ((deepening 1).map (·.recode 1 spoiled)) e' d' ∧
    d.called 0 = true ∧ d.kept 0 = true ∧ d'.called 0 = false ∧ d'.kept 0 = false := by
  refine ⟨_, _, _, _, Herald.serves_answer .., Herald.serves_answer .., ?_⟩
  decide +kernel

end Example

end ChainHerald
