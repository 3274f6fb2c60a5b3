import ChainHerald.Proofs.Books
import ChainHerald.Proofs.Delivery
import Mathlib.Data.List.Nodup

/-!
# Recorded exactly once

Marking listeners with jobs of their own, a ledger that begins empty, and any logs and heads in any
order, with any of the ledger's reads failing: after a last head whose read works everybody has
recorded just the logs that are meant for them and deep enough, each once
(`recorded_exactly_once`). The invariant is `Books`: whatever has arrived and is meant for somebody
is still pooled or recorded by them, and what they recorded some head has made deep enough.
-/

namespace ChainHerald

/-- Something that the service hears of, and whether the ledger fails then. -/
structure Call where
  input : Input
  fails : Bool

def Desk.reading (d : Desk) (fails : Bool) : Desk :=
  { d with ledger := { d.ledger with failingReads := if fails then 1 else 0 } }

namespace Herald

/-- A call, with the pass that it may set off taken to its end. -/
inductive Answers : Herald → Desk → Call → Herald → Desk → Prop where
  | alone {e d c e' d'} (result : e.hear (d.reading c.fails) c.input = (none, e', d')) :
      Answers e d c e' d'
  | pass {e d c p e' d' d''} (result : e.hear (d.reading c.fails) c.input = (some p, e', d'))
      (ends : p.Ends d' d'') : Answers e d c (e'.close p) d''

/-- Calls one after the other. -/
inductive Serves : Herald → Desk → List Call → Herald → Desk → Prop where
  | nil {e d} : Serves e d [] e d
  | cons {e d c e' d' cs e'' d''} (first : Answers e d c e' d') (rest : Serves e' d' cs e'' d'') :
      Serves e d (c :: cs) e'' d''

theorem answers (e : Herald) (d : Desk) (c : Call) : ∃ e' d', e.Answers d c e' d' := by
  rcases result : e.hear (d.reading c.fails) c.input with ⟨_ | p, e', d'⟩
  · exact ⟨e', d', .alone result⟩
  · obtain ⟨d'', ends⟩ := p.ends d'
    exact ⟨e'.close p, d'', .pass result ends⟩

theorem serves (e : Herald) (d : Desk) (cs : List Call) : ∃ e' d', e.Serves d cs e' d' := by
  induction cs generalizing e d with
  | nil => exact ⟨e, d, .nil⟩
  | cons c cs ih =>
    obtain ⟨e₁, d₁, first⟩ := e.answers d c
    obtain ⟨e₂, d₂, rest⟩ := ih e₁ d₁
    exact ⟨e₂, d₂, .cons first rest⟩

end Herald

namespace Input

/-- Logs that stand and are told apart by hash and index, heads that never go down, no changes. -/
structure Orderly (hs : List Input) : Prop where
  settled : ∀ c, .change c ∉ hs
  standing : ∀ l, .log l ∈ hs → l.removed = false
  told : Told fun l => .log l ∈ hs
  rising : (heads hs).Pairwise fun h h' => h.number ≤ h'.number

theorem Told.of_subset {hs hs' : List Input} (t : Told fun l => .log l ∈ hs')
    (h : ∀ i ∈ hs, i ∈ hs') : Told fun l => .log l ∈ hs where
  positioned := fun l hl => t.positioned l (h _ hl)
  same := fun l l' hl hl' => t.same l l' (h _ hl) (h _ hl')

/-- The last head of an orderly history is no higher than the next. -/
theorem Orderly.last_le {hs : List Input} {h h' : Head} (o : Orderly (hs ++ [.head h']))
    (last : lastHead hs = some h) : h.number ≤ h'.number := by
  have rising := o.rising
  rw [heads, List.filterMap_append] at rising
  exact (List.pairwise_append.1 rising).2.2 h (List.mem_of_getLast? last) h' (by simp)

theorem Orderly.before {hs hs' : List Input} (o : Orderly (hs ++ hs')) : Orderly hs where
  settled := fun c hc => o.settled c (List.mem_append_left _ hc)
  standing := fun l hl => o.standing l (List.mem_append_left _ hl)
  told := Told.of_subset o.told fun _ => List.mem_append_left _
  rising := by
    have rising := o.rising
    rw [heads, List.filterMap_append] at rising
    exact (List.pairwise_append.1 rising).1

end Input

open Input (Orderly)

def adds (gs : List Registration) : List Input := (gs.map Change.add).map .change

/-- Registrations with ids and jobs of their own, whose listeners get every log decoded, ask the
ledger, record, mark, and never cancel. -/
structure Roster (gs : List Registration) : Prop where
  ids : (gs.map (·.id)).Nodup
  jobs : (gs.map (·.listener.job)).Nodup
  marking : ∀ g ∈ gs, g.listener.marking = true
  stays : ∀ g ∈ gs, g.listener.cancels = false
  decodes : ∀ g ∈ gs, ∀ l, ∃ v, g.options.decoder.decode l = .ok v

/-- Whatever has arrived and is meant for somebody is pooled or recorded by them, and what they
recorded is deep enough. -/
structure Books (gs : List Registration) (e : Herald) (d : Desk) (hs : List Input) : Prop where
  follows : e.Follows (adds gs ++ hs)
  balanced : d.Balanced fun l => .log l ∈ hs
  sound : ∀ job, ∀ l ∈ d.recorded job, ∃ g ∈ gs, g.listener.job = job ∧
    ∃ h p, e.head = some h ∧ l.position? = some p ∧ g.wants h l p = true
  complete : ∀ l p, .log l ∈ hs → l.position? = some p → ∀ g ∈ gs,
    g.options.contract = l.address → g.options.matchesTopics l.topics = true →
      e.pool.get? p = some l ∨ l ∈ d.recorded g.listener.job

variable {gs : List Registration} {e : Herald} {d d' : Desk} {hs : List Input} {h : Head} {l : Log}

theorem changes_adds (settled : ∀ c, .change c ∉ hs) :
    Input.changes (adds gs ++ hs) = gs.map .add := by
  have none : Input.changes hs = [] := by
    apply List.filterMap_eq_nil_iff.2
    intro i hi
    cases i with
    | change c => exact absurd hi (settled c)
    | log | head => rfl
  have all : Input.changes (adds gs) = gs.map .add := by
    simp [Input.changes, adds, List.filterMap_map]
  rw [Input.changes, List.filterMap_append]
  exact (congrArg₂ _ all none).trans (List.append_nil _)

theorem lastHead_adds : Input.lastHead (adds gs ++ hs) = Input.lastHead hs := by
  simp [Input.lastHead, Input.heads, adds, List.filterMap_map]

theorem log_mem_adds : .log l ∈ adds gs ++ hs ↔ .log l ∈ hs := by
  simp [adds]

theorem Desk.Noticed.recorded (n : d.Noticed d') : d'.recorded = d.recorded := by
  obtain ⟨ns, j⟩ := n.journal
  have none (job : Int) : (ns.map Entry.notice).filterMap (Entry.kept? job) = [] := by
    simp [List.filterMap_map, Entry.kept?]
  funext job
  rw [Desk.recorded, j, List.filterMap_append, none]
  rfl

/-- What one head makes deep enough, no higher head makes shallow. -/
theorem Registration.wants_mono {g : Registration} {h' : Head} {p : Position}
    (wants : g.wants h l p = true) (le : h.number ≤ h'.number) : g.wants h' l p = true := by
  obtain ⟨contract, confirmed, topics⟩ := wants_iff.1 wants
  obtain ⟨below, deep⟩ := isConfirmed_iff.1 confirmed
  exact wants_iff.2 ⟨contract, isConfirmed_iff.2 ⟨by omega, by omega⟩, topics⟩

namespace Books

theorem registry (b : Books gs e d hs) (settled : ∀ c, .change c ∉ hs) :
    e.registry = .after (gs.map .add) :=
  changes_adds settled ▸ b.follows.registry

/-- Desks with the same records serve as well. -/
theorem desk (b : Books gs e d hs) (balanced : d'.Balanced fun l => .log l ∈ hs)
    (same : d'.recorded = d.recorded) : Books gs e d' hs where
  follows := b.follows
  balanced := balanced
  sound := by rw [same]; exact b.sound
  complete := by rw [same]; exact b.complete

theorem reading (b : Books gs e d hs) (fails : Bool) : Books gs e (d.reading fails) hs :=
  b.desk (b.balanced.congr rfl rfl rfl rfl rfl) rfl

theorem timed (b : Books gs e d hs) (clock : Clock) : Books gs e (d.timed clock) hs :=
  b.desk (b.balanced.congr rfl rfl rfl rfl rfl) rfl

theorem noticed (b : Books gs e d hs) (n : d.Noticed d') : Books gs e d' hs :=
  b.desk (b.balanced.congr n.recorded n.cancelled n.markers n.marks n.lookups) n.recorded

theorem turn (b : Books gs e d hs) (o : Orderly (hs ++ [.head h])) :
    Books gs { e with head := some h } d (hs ++ [.head h]) where
  follows := List.append_assoc .. ▸ b.follows.turn h
  balanced := b.balanced.mono fun l hl => List.mem_append_left _ hl
  sound := by
    intro job l hl
    obtain ⟨g, hg, own, h₀, p, head, position, wants⟩ := b.sound job l hl
    have last : Input.lastHead hs = some h₀ := by rw [← head, b.follows.head, lastHead_adds]
    exact ⟨g, hg, own, h, p, rfl, position, Registration.wants_mono wants (o.last_le last)⟩
  complete := by
    intro l p arrived position g hg contract topics
    exact b.complete l p (by simpa using arrived) position g hg contract topics

theorem file (b : Books gs e d hs) {x : Log} (o : Orderly (hs ++ [.log x])) :
    Books gs (e.file x) d (hs ++ [.log x]) := by
  have head : (e.file x).head = e.head := by
    rcases e.file_cases x with ⟨-, eq⟩ | ⟨-, -, eq⟩ | ⟨-, -, eq⟩ <;> rw [eq]
  refine ⟨List.append_assoc .. ▸ b.follows.file x,
    b.balanced.mono fun l hl => List.mem_append_left _ hl, head ▸ b.sound, ?_⟩
  intro l p arrived position g hg contract topics
  have covered (same : l = x) : e.registry.covers x.address = true := by
    have settled : ∀ c, .change c ∉ hs := o.before.settled
    rw [b.registry settled, ← same, ← contract]
    exact Registry.covers_adds hg
  have old (ne : l ≠ x) : e.pool.get? p = some l ∨ l ∈ d.recorded g.listener.job :=
    b.complete l p (by simpa [ne] using arrived) position g hg contract topics
  rcases e.file_cases x with ⟨gone, -⟩ | ⟨-, -, eq⟩ | ⟨-, bare, eq⟩
  · simp [o.standing x (by simp)] at gone
  · rw [eq]
    by_cases here : x.position? = some p
    · have same := o.told.eq_of_position (l := x) (by simp) arrived here position
      exact .inl (same ▸ Pool.get?_add_self here)
    · have ne : l ≠ x := fun same => here (same ▸ position)
      exact (old ne).imp_left fun held => (Pool.get?_add_of_ne here).trans held
  · rw [eq]
    exact old fun same => by simp [covered same] at bare

theorem note (b : Books gs e d hs) {i : Input} (o : Orderly (hs ++ [i])) :
    Books gs (e.note i) d (hs ++ [i]) := by
  cases i with
  | change c => exact absurd (by simp) (o.settled c)
  | log l => exact b.file o
  | head h => exact b.turn o

/-! ## A pass -/

/-- Every registration is in force, and nobody else is. -/
theorem live (b : Books gs e d hs) (roster : Roster gs) (settled : ∀ c, .change c ∉ hs)
    (g : Registration) : g ∈ e.registry.live.values ↔ g ∈ gs := by
  rw [b.registry settled]
  exact Registry.mem_live_adds roster.ids

theorem deepest (b : Books gs e d hs) (settled : ∀ c, .change c ∉ hs) {g : Registration}
    (live : g ∈ e.registry.live.values) : g.options.confirmations ≤ e.registry.depth := by
  rw [b.registry settled] at live ⊢
  exact Registry.confirmations_le_depth live

theorem serveAll (b : Books gs e d hs) (roster : Roster gs) (o : Orderly hs) (h : Head)
    (consumed : Members Key) :
    ((d.serveAll h (e.registry.offers (e.due h) h consumed)).Balanced fun l => .log l ∈ hs) ∧
    ∀ job l, l ∈ (d.serveAll h (e.registry.offers (e.due h) h consumed)).recorded job ↔
      l ∈ d.recorded job ∨ ∃ f ∈ e.registry.offers (e.due h) h consumed,
        f.log = l ∧ f.registration.listener.job = job := by
  apply b.balanced.serveAll o.told
  intro f mem
  have sound := b.follows.offers f mem
  have hg := (b.live roster o.settled _).1 sound.live
  exact ⟨log_mem_adds.1 sound.fresh.mem, roster.marking _ hg, roster.stays _ hg,
    roster.decodes _ hg f.log⟩

variable {lo : Nat} {consumed : Members Key}

/-- Once the offers are served, everything that the head makes deep enough is recorded. -/
theorem served (b : Books gs e d hs) (roster : Roster gs) (o : Orderly hs)
    (read : (d.ledger.find lo h.number).1 = .ok consumed)
    (n : d.Noticed d') {l : Log} {p : Position} (arrived : .log l ∈ hs)
    (position : l.position? = some p) {g : Registration} (hg : g ∈ gs)
    (wants : g.wants h l p = true) :
    l ∈ (d'.serveAll h (e.registry.offers (e.due h) h consumed)).recorded g.listener.job := by
  obtain ⟨contract, confirmed, topics⟩ := Registration.wants_iff.1 wants
  have recorded := ((b.noticed n).serveAll roster o h consumed).2
  rw [recorded, n.recorded]
  rcases b.complete l p arrived position g hg contract topics with held | seen
  · have due := Pool.get?_upTo_eq_some.2 ⟨held, (isConfirmed_iff.1 confirmed).1⟩
    cases done : consumed.contains ⟨p.hash, p.index, g.listener.job⟩ with
    | false =>
      refine .inr ⟨⟨l, p, g⟩, Registry.mem_offers.2 ⟨?_, position, ?_, wants, done⟩, rfl, rfl⟩
      · exact Pool.mem_logs.2 ⟨p, due⟩
      · exact (b.live roster o.settled g).2 hg
    | true =>
      rw [Ledger.find_eq_ok read] at done
      obtain ⟨m, marked, key, -⟩ := Ledger.contains_within.1 done
      rw [← Log.key_of_position? position] at key
      exact .inl ((b.balanced.holds_iff o.told arrived _).1 ⟨m, marked, key⟩)
  · exact .inl seen

theorem pass (b : Books gs e d hs) (roster : Roster gs) (o : Orderly hs)
    (head : e.head = some h) (read : (d.ledger.find lo h.number).1 = .ok consumed)
    (n : d.Noticed d') {q : Pass} (prune : q.prune = e.bound h) :
    Books gs ((e.spent h).close q)
      (d'.serveAll h (e.registry.offers (e.due h) h consumed)) hs := by
  have now := b.noticed n
  obtain ⟨balanced, recorded⟩ := now.serveAll roster o h consumed
  have head' : ((e.spent h).close q).head = e.head := by
    rw [Herald.close_head, Herald.spent_head]
  refine ⟨(b.follows.spent h).close q, balanced, ?_, ?_⟩
  · intro job l hl
    rw [head']
    rcases (recorded job l).1 hl with hl | ⟨f, mem, rfl, rfl⟩
    · exact now.sound job l hl
    · have sound := b.follows.offers f mem
      exact ⟨f.registration, (b.live roster o.settled _).1 sound.live, rfl, h, f.position, head,
        sound.position, sound.wants⟩
  · intro l p arrived position g hg contract topics
    have caught (deep : p.block ≤ h.number ∧ e.registry.depth ≤ h.number - p.block) :
        l ∈ (d'.serveAll h (e.registry.offers (e.due h) h consumed)).recorded g.listener.job := by
      have required := b.deepest o.settled ((b.live roster o.settled g).2 hg)
      refine b.served roster o read n arrived position hg (Registration.wants_iff.2 ?_)
      exact ⟨contract, isConfirmed_iff.2 ⟨deep.1, by omega⟩, topics⟩
    by_cases kept : ((e.spent h).close q).pool.get? p = some l
    · exact .inl kept
    · right
      rcases now.complete l p arrived position g hg contract topics with held | seen
      · by_cases still : (e.spent h).pool.get? p = some l
        · exact caught (Herald.close_evicts prune still kept)
        · exact caught (Herald.spent_evicts held still)
      · exact (recorded _ l).2 (.inl seen)

/-! ## Calls -/

variable {e' : Herald} {c : Call} {cs : List Call}

theorem answers (b : Books gs e d hs) (roster : Roster gs) (o : Orderly (hs ++ [c.input]))
    (a : e.Answers d c e' d') : Books gs e' d' (hs ++ [c.input]) := by
  have placed := b.follows.placed
  have noted := (b.reading c.fails).note o
  cases a with
  | alone result =>
    rcases Herald.hear_cases placed result with ⟨-, rfl, n⟩ | ⟨_, _, _, -, -, -, begun, -⟩
    · exact noted.noticed n
    · cases begun
  | pass result ends =>
    rcases Herald.hear_cases placed result with
      ⟨none, -⟩ | ⟨h, lo, consumed, head, -, read, begun, rfl, n⟩
    · cases none
    · cases begun
      obtain ⟨clock, rfl⟩ := ends.eq_finish
      rw [Pass.finish_of_idle rfl]
      exact (noted.pass roster o head read n rfl).timed clock

theorem serves (b : Books gs e d hs) (roster : Roster gs)
    (o : Orderly (hs ++ cs.map (·.input))) (s : e.Serves d cs e' d') :
    Books gs e' d' (hs ++ cs.map (·.input)) := by
  induction s generalizing hs with
  | nil => simpa using b
  | @cons e d c e₁ d₁ cs e₂ d₂ first rest ih =>
    rw [List.map_cons, List.append_cons] at o ⊢
    exact ih (b.answers roster o.before first) o

/-- After a head for which the ledger could be read, nobody waits for anything. -/
theorem settled_by_head (b : Books gs e d hs) (roster : Roster gs)
    (o : Orderly (hs ++ [.head h])) (a : e.Answers d ⟨.head h, false⟩ e' d') {l : Log}
    {p : Position} (arrived : .log l ∈ hs) (position : l.position? = some p) {g : Registration}
    (hg : g ∈ gs) (wants : g.wants h l p = true) : l ∈ d'.recorded g.listener.job := by
  have noted := (b.reading false).turn o
  have here : .log l ∈ hs ++ [.head h] := List.mem_append_left _ arrived
  obtain ⟨contract, confirmed, topics⟩ := Registration.wants_iff.1 wants
  cases a with
  | alone result =>
    have low := Herald.lowest?_of_dispatch noted.follows.placed rfl result
    rcases noted.complete l p here position g hg contract topics with held | seen
    · have due := Pool.get?_upTo_eq_some.2 ⟨held, (isConfirmed_iff.1 confirmed).1⟩
      rw [Pool.lowest?_eq_none low] at due
      cases due
    · rcases Herald.hear_cases b.follows.placed result with
        ⟨-, -, n⟩ | ⟨_, _, _, -, -, -, begun, -⟩
      · exact n.recorded ▸ seen
      · cases begun
  | pass result ends =>
    rcases Herald.hear_cases b.follows.placed result with
      ⟨none, -⟩ | ⟨h', lo, consumed, head, -, read, begun, -, n⟩
    · cases none
    · cases begun
      obtain rfl := Option.some.inj head
      obtain ⟨clock, rfl⟩ := ends.eq_finish
      rw [Pass.finish_of_idle rfl]
      exact noted.served roster o read n here position hg wants

end Books

/-- The herald that has heard of the registrations and of nothing else. -/
def Herald.enrolled (gs : List Registration) (finality : Nat) : Herald :=
  (gs.map Change.add).foldl Herald.apply (Herald.new finality)

theorem books_enrolled (gs : List Registration) (finality : Nat) (clock : Clock) :
    Books gs (.enrolled gs finality) (.new clock .empty) [] where
  follows := by
    have heard := (Herald.follows_new finality).notes (adds gs)
    rw [adds, Herald.foldl_note_changes] at heard
    exact (List.append_nil _).symm ▸ heard
  balanced := Desk.balanced_new clock
  sound := by simp [Desk.recorded, Desk.new]
  complete := fun _ _ arrived => by cases arrived

theorem Herald.Serves.last {e e' : Herald} {d d' : Desk} {cs : List Call} {c : Call}
    (s : e.Serves d (cs ++ [c]) e' d') : ∃ e₁ d₁, e.Serves d cs e₁ d₁ ∧ e₁.Answers d₁ c e' d' := by
  induction cs generalizing e d with
  | nil =>
    cases s with
    | cons first rest =>
      cases rest
      exact ⟨e, d, .nil, first⟩
  | cons a cs ih =>
    cases s with
    | cons first rest =>
      obtain ⟨e₁, d₁, before, last⟩ := ih rest
      exact ⟨e₁, d₁, .cons first before, last⟩

/-- The run gets to its end, and there everybody has recorded what is meant for them and deep enough
at the last head, once each, whatever the others asked for and in whatever order things came. -/
theorem recorded_exactly_once {gs : List Registration} {cs : List Call} {h : Head}
    (roster : Roster gs) (orderly : Orderly (cs.map (·.input) ++ [.head h])) (finality : Nat)
    (clock : Clock) :
    (∃ e d, (Herald.enrolled gs finality).Serves (.new clock .empty)
      (cs ++ [⟨.head h, false⟩]) e d) ∧
    ∀ e d, (Herald.enrolled gs finality).Serves (.new clock .empty)
      (cs ++ [⟨.head h, false⟩]) e d → ∀ g ∈ gs,
        (d.recorded g.listener.job).Nodup ∧ ∀ l, l ∈ d.recorded g.listener.job ↔
          .log l ∈ cs.map (·.input) ∧ l.address = g.options.contract ∧
          g.options.matchesTopics l.topics = true ∧
          ∃ p, l.position? = some p ∧ p.block ≤ h.number ∧
            g.options.confirmations ≤ h.number - p.block := by
  refine ⟨Herald.serves .., ?_⟩
  intro e d served g hg
  obtain ⟨e₁, d₁, calls, last⟩ := served.last
  have before := (books_enrolled gs finality clock).serves roster orderly.before calls
  rw [List.nil_append] at before
  have after := before.answers roster orderly last
  have head : e.head = some h := by
    rw [after.follows.head, lastHead_adds]
    simp [Input.lastHead, Input.heads]
  refine ⟨after.balanced.once _, ?_⟩
  intro l
  constructor
  · intro recorded
    obtain ⟨g', hg', same, h', p, head', position, wants⟩ := after.sound _ l recorded
    obtain rfl := List.inj_on_of_nodup_map roster.jobs hg' hg same
    obtain rfl := Option.some.inj (head'.symm.trans head)
    obtain ⟨contract, confirmed, topics⟩ := Registration.wants_iff.1 wants
    have arrived := after.balanced.known _ l recorded
    exact ⟨by simpa using arrived, contract.symm, topics, p, position,
      isConfirmed_iff.1 confirmed⟩
  · rintro ⟨arrived, contract, topics, p, position, deep⟩
    exact before.settled_by_head roster orderly last arrived position hg
      (Registration.wants_iff.2 ⟨contract.symm, isConfirmed_iff.2 deep, topics⟩)

namespace Example

/-- The keeper wants the log two blocks deep, somebody else five. -/
def team : List Registration :=
  [⟨0, keeper, options⟩, ⟨1, { keeper with job := 2 }, { options with confirmations := 5 }⟩]

/-- The log comes twice, and the first read of the ledger fails. -/
def calls : List Call := [⟨.log log, false⟩, ⟨.head ⟨5, 55, 54⟩, true⟩, ⟨.log log, false⟩]

theorem roster_team : Roster team where
  ids := by decide
  jobs := by decide
  marking := by simp [team, keeper]
  stays := by simp [team, keeper]
  decodes := by
    intro g hg l
    refine ⟨.unit, ?_⟩
    rcases List.mem_cons.1 hg with rfl | hg
    · rfl
    · rw [List.mem_singleton.1 hg]
      rfl

theorem orderly_calls : Orderly (calls.map (·.input) ++ [.head ⟨6, 66, 65⟩]) where
  settled := by simp [calls]
  standing := by simp [calls, log]
  told := by
    have only (l : Log) (hl : .log l ∈ calls.map (·.input) ++ [.head ⟨6, 66, 65⟩]) : l = log := by
      simpa [calls] using hl
    constructor
    · intro l hl
      exact ⟨position, only l hl ▸ rfl⟩
    · intro l l' hl hl' _ _
      exact (only l hl).trans (only l' hl').symm
  rising := by decide

end Example

theorem recorded_where_deep : ∃ e d,
    (Herald.enrolled Example.team 50).Serves (.new ⟨0, 0⟩ .empty)
      (Example.calls ++ [⟨.head ⟨6, 66, 65⟩, false⟩]) e d ∧
    Example.log ∈ d.recorded 1 ∧ Example.log ∉ d.recorded 2 := by
  obtain ⟨⟨e, d, served⟩, outcome⟩ :=
    recorded_exactly_once Example.roster_team Example.orderly_calls 50 ⟨0, 0⟩
  have keeper := (outcome e d served ⟨0, Example.keeper, Example.options⟩
    (by simp [Example.team])).2
  have other := (outcome e d served ⟨1, { Example.keeper with job := 2 },
    { Example.options with confirmations := 5 }⟩ (by simp [Example.team])).2
  have position : Example.log.position? = some Example.position := rfl
  refine ⟨e, d, served, ?_, ?_⟩
  · apply (keeper _).2
    exact ⟨by simp [Example.calls], rfl, by decide, Example.position, position, by decide⟩
  · intro recorded
    obtain ⟨-, -, -, p, at_p, deep⟩ := (other _).1 recorded
    obtain rfl := Option.some.inj (at_p.symm.trans position)
    exact absurd deep (by decide)

end ChainHerald
