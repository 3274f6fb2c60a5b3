import ChainHerald.Dispatch

/-!
# A pass under way

`Pass.Moves` says once what a move of a pass can be. From it follow that a pass calls only for the
offer at the head of what is left (`Moves.calls`), and that everything before it has been served,
unless somebody cancelled (`Pass.Progress`). What everybody else does to a desk meanwhile is
`Desk.Quiet`: no listener is called.
-/

namespace ChainHerald

/-- The journal may have grown, but not by a call of a listener, and nobody takes a cancellation
back. -/
structure Desk.Quiet (d d' : Desk) : Prop where
  journal : ∃ new, d'.journal = new ++ d.journal ∧ ∀ id b, .handed id b ∉ new
  cancelled : d.cancelled = true → d'.cancelled = true

namespace Desk

variable {d d' d'' : Desk}

theorem Quiet.of_journal (j : d'.journal = d.journal)
    (c : d.cancelled = true → d'.cancelled = true) : d.Quiet d' :=
  ⟨⟨[], j, fun _ _ => List.not_mem_nil⟩, c⟩

theorem Quiet.refl (d : Desk) : d.Quiet d := .of_journal rfl id

theorem Quiet.of_eq (h : d' = d) : d.Quiet d' := h ▸ .refl d

theorem Quiet.trans (h : d.Quiet d') (h' : d'.Quiet d'') : d.Quiet d'' := by
  obtain ⟨new, e, n⟩ := h.journal
  obtain ⟨new', e', n'⟩ := h'.journal
  refine ⟨⟨new' ++ new, by rw [e', e, List.append_assoc], ?_⟩, h'.cancelled ∘ h.cancelled⟩
  intro id b mem
  rcases List.mem_append.1 mem with mem | mem
  · exact n' id b mem
  · exact n id b mem

theorem quiet_write {e : Entry} (h : ∀ id b, e ≠ .handed id b) : d.Quiet (d.write e) :=
  ⟨⟨[e], rfl, fun id b mem => h id b (List.mem_singleton.1 mem).symm⟩, id⟩

theorem quiet_notice (n : Notice) : d.Quiet (d.notice n) := quiet_write fun _ _ => nofun

theorem quiet_mark (k : Key) (block : Nat) : d.Quiet (d.mark k block).2 := .of_journal rfl id

theorem quiet_was (k : Key) : d.Quiet (d.was k).2 := .of_journal rfl id

theorem quiet_find (lo hi : Nat) : d.Quiet (d.find lo hi).2 := .of_journal rfl id

/-- What a listener does is not a call. -/
theorem quiet_receive (l : Listener) (b : Broadcast) : d.Quiet (d.receive l b) := by
  have record (d : Desk) : d.Quiet (d.write (.recorded l b)) := quiet_write fun _ _ => nofun
  have cancel (d : Desk) : d.Quiet { d with cancelled := d.cancelled || l.cancels } :=
    .of_journal rfl fun h => by simp [h]
  unfold receive
  split
  · split
    next d' was =>
      have asked := d.quiet_was b.key
      rw [was] at asked
      exact asked.trans (cancel _)
    next d' _ was =>
      have asked := d.quiet_was b.key
      rw [was] at asked
      exact asked.trans ((record _).trans ((quiet_mark _ _).trans (cancel _)))
  · exact (record d).trans (cancel _)

end Desk

def Entry.call? : Entry → Option (Nat × Broadcast)
  | .handed id b => some (id, b)
  | _ => none

namespace Desk

/-- The calls of listeners since the desk was as in `begun`, in order. -/
def callsSince (d begun : Desk) : List (Nat × Broadcast) :=
  (gained begun.journal.length d.journal).filterMap Entry.call?

variable {begun d : Desk} {id : Nat} {b : Broadcast}

theorem mem_callsSince {new : List Entry} (j : d.journal = new ++ begun.journal) :
    (id, b) ∈ d.callsSince begun ↔ .handed id b ∈ new := by
  have recent : gained begun.journal.length d.journal = new.reverse := by simp [gained, j]
  rw [callsSince, recent, List.mem_filterMap]
  constructor
  · rintro ⟨e, mem, call⟩
    cases e with
    | handed =>
      cases call
      simpa using mem
    | notice | asked | recorded => cases call
  · intro mem
    exact ⟨_, List.mem_reverse.2 mem, rfl⟩

theorem Quiet.no_calls (q : begun.Quiet d) : (id, b) ∉ d.callsSince begun := by
  obtain ⟨new, j, silent⟩ := q.journal
  intro call
  exact silent id b ((mem_callsSince j).1 call)

end Desk

/-- The broadcast of a log that has been decoded. -/
def Offer.broadcast (o : Offer) (h : Head) (v : Decoded) : Broadcast :=
  { Broadcast.new o.log h o.registration.listener.job with decoded := some v }

/-- Among the entries is the call of the listener, if the log can be decoded for it. -/
def Offer.Served (o : Offer) (h : Head) (new : List Entry) : Prop :=
  ∀ v, o.registration.options.decoder.decode o.log = .ok v →
    .handed o.registration.id (o.broadcast h v) ∈ new

theorem Offer.served_call (o : Offer) (h : Head) {v : Decoded}
    (decoded : o.registration.options.decoder.decode o.log = .ok v) :
    o.Served h [.handed o.registration.id (o.broadcast h v)] := by
  intro w hw
  obtain rfl : v = w := Except.ok.inj (decoded.symm.trans hw)
  exact List.mem_singleton.2 rfl

theorem Offer.Served.append {o : Offer} {h : Head} {new : List Entry} (s : o.Served h new)
    (more : List Entry) : o.Served h (more ++ new) := by
  intro v hv
  exact List.mem_append_right _ (s v hv)

theorem Offer.Served.prepend {o : Offer} {h : Head} {new : List Entry} (s : o.Served h new)
    (more : List Entry) : o.Served h (new ++ more) := by
  intro v hv
  exact List.mem_append_left _ (s v hv)

namespace Desk

variable {d d' : Desk} {h : Head} {o : Offer} {b : Broadcast}

theorem prepare_call (p : d.prepare h o = (some b, d')) :
    ∃ v, o.registration.options.decoder.decode o.log = .ok v ∧ b = o.broadcast h v ∧
      d' = d.write (.handed o.registration.id b) := by
  unfold prepare at p
  split at p
  next v decoded =>
    simp only [Prod.mk.injEq, Option.some.injEq] at p
    obtain ⟨rfl, rfl⟩ := p
    exact ⟨v, decoded, rfl, rfl⟩
  · dsimp only at p
    split at p <;> cases p

theorem prepare_skip (p : d.prepare h o = (none, d')) :
    (∃ e, o.registration.options.decoder.decode o.log = .error e) ∧ d.Quiet d' := by
  unfold prepare at p
  split at p
  · cases p
  next e undecoded =>
    refine ⟨⟨e, undecoded⟩, ?_⟩
    have noted := d.quiet_notice (.undecodable o.registration.listener.job
      (Broadcast.new o.log h o.registration.listener.job) e)
    have marked := noted.trans (Desk.quiet_mark o.key o.position.block)
    dsimp only at p
    split at p
    next d₁ m =>
      cases p
      rwa [m] at marked
    next e d₁ m =>
      cases p
      rw [m] at marked
      exact marked.trans (quiet_notice _)

end Desk

namespace Pass

/-- What a move of a pass can be: it ends because somebody cancelled, it passes over a log that does
not decode, it calls a listener, which is done at once or keeps the pass waiting, or such a listener
is done. -/
inductive Moves (p : Pass) (d : Desk) : Pass → Desk → Prop where
  | leave (idle : p.busy = none) (cancelled : d.cancelled = true) :
      Moves p d { p with todo := [] } d
  | skip {o rest d'} (todo : p.todo = o :: rest) (idle : p.busy = none)
      (free : d.cancelled = false) (undecoded : d.prepare p.head o = (none, d')) :
      Moves p d { p with todo := rest } d'
  | hand {o rest b d'} (todo : p.todo = o :: rest) (idle : p.busy = none)
      (free : d.cancelled = false) (call : d.prepare p.head o = (some b, d')) :
      Moves p d { p with todo := rest } (d'.receive o.registration.listener b)
  | keep {o rest b d' ready} (todo : p.todo = o :: rest) (idle : p.busy = none)
      (free : d.cancelled = false) (call : d.prepare p.head o = (some b, d')) :
      Moves p d { p with busy := some (ready, b) } d'
  | resume {o rest ready b} (todo : p.todo = o :: rest) (busy : p.busy = some (ready, b)) :
      Moves p d { p with todo := rest, busy := none } (d.receive o.registration.listener b)

variable {p p' : Pass} {d d' : Desk}

theorem step_moves (s : p.step d = some (p', d')) : p.Moves d p' d' := by
  unfold step at s
  split at s
  · cases s
  next o rest ready b todo busy =>
    split at s
    · cases s
      exact .resume todo busy
    · cases s
  next o rest todo busy =>
    split at s
    next cancelled =>
      cases s
      exact .leave busy cancelled
    next free =>
      have free := Bool.eq_false_iff.2 free
      split at s
      next d₁ undecoded =>
        cases s
        exact .skip todo busy free undecoded
      next b d₁ call =>
        split at s
        · cases s
          exact .hand todo busy free call
        · cases s
          exact .keep todo busy free call

theorem Moves.head (m : p.Moves d p' d') : p'.head = p.head := by
  cases m <;> rfl

theorem Moves.prune (m : p.Moves d p' d') : p'.prune = p.prune := by
  cases m <;> rfl

theorem Moves.todo_suffix (m : p.Moves d p' d') : p'.todo <:+ p.todo := by
  cases m with
  | leave => exact List.nil_suffix
  | skip todo | hand todo | resume todo => exact todo ▸ List.suffix_cons _ _
  | keep => exact List.suffix_rfl

theorem Moves.cancelled (m : p.Moves d p' d') (c : d.cancelled = true) : d'.cancelled = true := by
  have written {e : Entry} : (d.write e).cancelled = true := c
  cases m with
  | leave => exact c
  | skip _ _ _ undecoded => exact (Desk.prepare_skip undecoded).2.cancelled c
  | hand _ _ _ call =>
    obtain ⟨v, -, -, rfl⟩ := Desk.prepare_call call
    exact (Desk.quiet_receive _ _).cancelled written
  | keep _ _ _ call =>
    obtain ⟨v, -, -, rfl⟩ := Desk.prepare_call call
    exact written
  | resume => exact (Desk.quiet_receive _ _).cancelled c

/-- The journal grows by at most one call, of the listener whose turn it is. -/
theorem Moves.calls (m : p.Moves d p' d') :
    ∃ new, d'.journal = new ++ d.journal ∧ ∀ id x, .handed id x ∈ new →
      ∃ o ∈ p.todo, ∃ v, o.registration.id = id ∧ x = o.broadcast p.head v ∧
        o.registration.options.decoder.decode o.log = .ok v := by
  have quiet {d₁ d₂ : Desk} (q : d₁.Quiet d₂) : ∃ new, d₂.journal = new ++ d₁.journal ∧
      ∀ id x, .handed id x ∉ new := q.journal
  cases m with
  | leave => exact ⟨[], rfl, fun _ _ => nofun⟩
  | skip _ _ _ undecoded =>
    obtain ⟨new, j, n⟩ := quiet (Desk.prepare_skip undecoded).2
    exact ⟨new, j, fun id x mem => absurd mem (n id x)⟩
  | @hand o rest b d₁ todo _ _ call =>
    obtain ⟨v, decoded, rfl, rfl⟩ := Desk.prepare_call call
    obtain ⟨new, j, n⟩ := quiet (Desk.quiet_receive
      (d := d.write (.handed o.registration.id (o.broadcast p.head v)))
      o.registration.listener (o.broadcast p.head v))
    refine ⟨new ++ [.handed o.registration.id (o.broadcast p.head v)], ?_, ?_⟩
    · rw [j, List.append_assoc]
      rfl
    intro id x mem
    rcases List.mem_append.1 mem with mem | mem
    · exact absurd mem (n id x)
    · obtain ⟨rfl, rfl⟩ : id = _ ∧ x = _ := by simpa using mem
      exact ⟨o, by simp [todo], v, rfl, rfl, decoded⟩
  | @keep o rest b d₁ ready todo _ _ call =>
    obtain ⟨v, decoded, rfl, rfl⟩ := Desk.prepare_call call
    refine ⟨[.handed o.registration.id (o.broadcast p.head v)], rfl, ?_⟩
    intro id x mem
    obtain ⟨rfl, rfl⟩ : id = _ ∧ x = _ := by simpa using mem
    exact ⟨o, by simp [todo], v, rfl, rfl, decoded⟩
  | resume =>
    obtain ⟨new, j, n⟩ := quiet (Desk.quiet_receive (d := d) _ _)
    exact ⟨new, j, fun id x mem => absurd mem (n id x)⟩

/-- Since the desk was as in `begun`, everything before what is left has been served, and the offer
that keeps the pass waiting as well; or somebody has cancelled. -/
def Progress (offers : List Offer) (begun : Desk) (p : Pass) (d : Desk) : Prop :=
  d.cancelled = true ∨ ∃ done new, offers = done ++ p.todo ∧ d.journal = new ++ begun.journal ∧
    (∀ o ∈ done, o.Served p.head new) ∧ (p.busy.isSome → ∀ o ∈ p.todo.head?, o.Served p.head new)

variable {offers : List Offer} {begun : Desk}

theorem progress_start (h : Head) (offers : List Offer) (prune : Option Nat) {d : Desk}
    (q : begun.Quiet d) : Progress offers begun (.start h offers prune) d := by
  obtain ⟨new, j, -⟩ := q.journal
  exact .inr ⟨[], new, rfl, j, fun _ => nofun, nofun⟩

theorem Progress.aside (pr : Progress offers begun p d) (q : d.Quiet d') :
    Progress offers begun p d' := by
  rcases pr with cancelled | ⟨done, new, split, j, served, waiting⟩
  · exact .inl (q.cancelled cancelled)
  · obtain ⟨more, j', -⟩ := q.journal
    refine .inr ⟨done, more ++ new, split, by rw [j', j, List.append_assoc], ?_, ?_⟩
    · intro o ho
      exact (served o ho).append more
    · intro busy o ho
      exact (waiting busy o ho).append more

/-- The offer whose turn it was is done, and what it wrote serves it. -/
theorem Progress.advance {o : Offer} {rest : List Offer} {more : List Entry} {busy}
    (pr : Progress offers begun p d) (todo : p.todo = o :: rest)
    (c : d.cancelled = true → d'.cancelled = true) (j : d'.journal = more ++ d.journal)
    (turn : p.busy.isSome ∨ o.Served p.head more) (idle : busy = none) :
    Progress offers begun { p with todo := rest, busy } d' := by
  rcases pr with cancelled | ⟨done, new, split, j', served, waiting⟩
  · exact .inl (c cancelled)
  · refine .inr ⟨done ++ [o], more ++ new, by simp [split, todo], by rw [j, j', List.append_assoc],
      ?_, by simp [idle]⟩
    intro r hr
    rcases List.mem_append.1 hr with hr | hr
    · exact (served r hr).append more
    · obtain rfl := List.mem_singleton.1 hr
      -- it was called with the entries before if it kept the pass waiting, with these otherwise
      rcases turn with turn | turn
      · exact (waiting turn r (by simp [todo])).append more
      · exact turn.prepend new

theorem Progress.moves (pr : Progress offers begun p d) (m : p.Moves d p' d') :
    Progress offers begun p' d' := by
  have c := m.cancelled
  cases m with
  | leave idle cancelled => exact .inl cancelled
  | @skip o rest d₁ todo idle _ undecoded =>
    obtain ⟨⟨e, he⟩, q⟩ := Desk.prepare_skip undecoded
    obtain ⟨more, j, -⟩ := q.journal
    exact pr.advance todo c j (.inr fun v hv => by simp [he] at hv) idle
  | @hand o rest b d₁ todo idle _ call =>
    obtain ⟨v, decoded, rfl, rfl⟩ := Desk.prepare_call call
    obtain ⟨more, j, -⟩ := (Desk.quiet_receive
      (d := d.write (.handed o.registration.id (o.broadcast p.head v)))
      o.registration.listener (o.broadcast p.head v)).journal
    have called := o.served_call p.head decoded
    refine pr.advance todo c ?_ (.inr (called.append more)) idle
    rw [j, List.append_assoc]
    rfl
  | @keep o rest b d₁ ready todo idle _ call =>
    obtain ⟨v, decoded, rfl, rfl⟩ := Desk.prepare_call call
    rcases pr with cancelled | ⟨done, new, split, j, served, -⟩
    · exact .inl (c cancelled)
    · have called := o.served_call p.head decoded
      refine .inr ⟨done, _ :: new, split, congrArg _ j, ?_, ?_⟩
      · intro r hr
        exact (served r hr).append [_]
      · intro _ r hr
        obtain rfl : o = r := by simpa [todo] using hr
        exact called.prepend new
  | @resume o rest ready b todo busy =>
    obtain ⟨more, j, -⟩ := (Desk.quiet_receive (d := d) o.registration.listener b).journal
    exact pr.advance todo c j (.inl (by simp [busy])) rfl

end Pass

end ChainHerald
