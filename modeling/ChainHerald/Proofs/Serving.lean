import ChainHerald.Proofs.Pass

/-!
# A pass at one go

`Pass.Ends` takes the steps of a pass to its end, with as much time going by as its listeners need.
A pass can always be taken to its end (`Pass.ends`), and apart from the clock the desk is then the
one that serving everything at one go leaves (`Ends.eq_finish`).
-/

namespace ChainHerald

namespace Desk

variable {d : Desk} {h : Head}

def timed (d : Desk) (clock : Clock) : Desk := { d with clock }

theorem prepare_timed (d : Desk) (clock : Clock) (h : Head) (o : Offer) :
    (d.timed clock).prepare h o = ((d.prepare h o).1, (d.prepare h o).2.timed clock) := by
  unfold prepare
  cases o.registration.options.decoder.decode o.log with
  | ok v => rfl
  | error e =>
    simp only [mark, notice, write, timed]
    cases (d.ledger.mark o.key o.position.block).1 <;> rfl

theorem receive_timed (d : Desk) (clock : Clock) (l : Listener) (b : Broadcast) :
    (d.timed clock).receive l b = (d.receive l b).timed clock := by
  unfold receive
  cases l.marking with
  | false => rfl
  | true =>
    simp only [was, timed, if_true]
    cases (d.ledger.was b.key).1 with
    | error e => rfl
    | ok seen => cases seen <;> rfl

theorem serve_timed (d : Desk) (clock : Clock) (h : Head) (o : Offer) :
    (d.timed clock).serve h o = (d.serve h o).timed clock := by
  unfold serve
  rw [prepare_timed]
  rcases d.prepare h o with ⟨_ | b, d'⟩
  · rfl
  · exact receive_timed ..

theorem serveAll_timed (d : Desk) (clock : Clock) (h : Head) (os : List Offer) :
    (d.timed clock).serveAll h os = (d.serveAll h os).timed clock := by
  induction os generalizing d with
  | nil => rfl
  | cons o rest ih =>
    simp only [serveAll, serve_timed, ih]
    cases free : d.cancelled <;> simp [timed, free]

theorem serveAll_of_cancelled (cancelled : d.cancelled = true) (os : List Offer) :
    d.serveAll h os = d := by
  cases os with
  | nil => rfl
  | cons => exact if_pos cancelled

theorem serveAll_cons (free : d.cancelled = false) (o : Offer) (rest : List Offer) :
    d.serveAll h (o :: rest) = (d.serve h o).serveAll h rest := by
  simp [serveAll, free]

end Desk

namespace Pass

/-- The steps of a pass to its end, while time goes by. -/
inductive Ends : Pass → Desk → Desk → Prop where
  | done {p d} (todo : p.todo = []) : Ends p d d
  | step {p d p' d' d''} (s : p.step d = some (p', d')) (rest : Ends p' d' d'') : Ends p d d''
  | wait {p d d'} (clock : Clock) (rest : Ends p (d.timed clock) d') : Ends p d d'

/-- Serves what is left at one go, the listener that keeps the pass waiting first. -/
def finish (p : Pass) (d : Desk) : Desk :=
  match p.busy, p.todo with
  | some (_, b), o :: rest => (d.receive o.registration.listener b).serveAll p.head rest
  | _, todo => d.serveAll p.head todo

variable {p p' : Pass} {d d' : Desk}

theorem finish_of_idle (idle : p.busy = none) : p.finish d = d.serveAll p.head p.todo := by
  simp [finish, idle]

theorem finish_of_done (done : p.todo = []) : p.finish d = d := by
  unfold finish
  split
  next todo => simp [done] at todo
  · simp [done, Desk.serveAll]

theorem finish_timed (p : Pass) (d : Desk) (clock : Clock) :
    p.finish (d.timed clock) = (p.finish d).timed clock := by
  unfold finish
  split
  · rw [Desk.receive_timed, Desk.serveAll_timed]
  · exact Desk.serveAll_timed ..

/-- A step takes nothing away from what the pass comes to. -/
theorem Moves.finish (m : p.Moves d p' d') : p'.finish d' = p.finish d := by
  cases m with
  | leave idle cancelled =>
    rw [finish_of_done rfl, finish_of_idle idle, Desk.serveAll_of_cancelled cancelled]
  | skip todo idle free prepared | hand todo idle free prepared =>
    simp [Pass.finish, idle, todo, Desk.serveAll_cons free, Desk.serve, prepared]
  | keep todo idle free prepared =>
    simp [Pass.finish, idle, todo, Desk.serveAll_cons free, Desk.serve, prepared]
  | resume todo busy =>
    simp [Pass.finish, todo, busy]

theorem Ends.eq_finish (e : p.Ends d d') : ∃ clock, d' = (p.finish d).timed clock := by
  induction e with
  | @done p d todo => exact ⟨d.clock, by rw [finish_of_done todo]; rfl⟩
  | step s _ ih => rwa [(step_moves s).finish] at ih
  | wait clock _ ih =>
    obtain ⟨clock', rfl⟩ := ih
    exact ⟨clock', by rw [finish_timed]; rfl⟩

/-- Time lets the listener that keeps the pass waiting get done. -/
theorem ends_of_busy {o rest ready b} (todo : p.todo = o :: rest) (busy : p.busy = some (ready, b))
    (later : ∀ d, ∃ d', Ends { p with todo := rest, busy := none } d d') (d : Desk) :
    ∃ d', p.Ends d d' := by
  obtain ⟨d', ends⟩ := later ((d.timed ⟨ready, d.clock.wall⟩).receive o.registration.listener b)
  refine ⟨d', .wait ⟨ready, d.clock.wall⟩ (.step ?_ ends)⟩
  simp [step, todo, busy, Desk.timed]

theorem ends (p : Pass) (d : Desk) : ∃ d', p.Ends d d' := by
  generalize todo : p.todo = os
  induction os generalizing p d with
  | nil => exact ⟨d, .done todo⟩
  | cons o rest ih =>
    cases busy : p.busy with
    | some r => exact ends_of_busy todo busy (fun d => ih _ d rfl) d
    | none =>
      cases free : d.cancelled with
      | true =>
        have left : p.step d = some ({ p with todo := [] }, d) := by simp [step, todo, busy, free]
        exact ⟨d, .step left (.done rfl)⟩
      | false =>
        rcases prepared : d.prepare p.head o with ⟨_ | b, d₁⟩
        · have skipped : p.step d = some ({ p with todo := rest }, d₁) := by
            simp [step, todo, busy, free, prepared]
          obtain ⟨d', ends⟩ := ih { p with todo := rest } d₁ rfl
          exact ⟨d', .step skipped ends⟩
        · by_cases swift : o.registration.listener.delay = 0
          · have handed : p.step d = some ({ p with todo := rest },
                d₁.receive o.registration.listener b) := by
              simp [step, todo, busy, free, prepared, swift]
            obtain ⟨d', ends⟩ := ih { p with todo := rest } _ rfl
            exact ⟨d', .step handed ends⟩
          · have kept : p.step d = some ({ p with
                busy := some (d₁.clock.now + o.registration.listener.delay, b) }, d₁) := by
              simp [step, todo, busy, free, prepared, swift]
            obtain ⟨d', ends⟩ := ends_of_busy (p := { p with busy := some (_, b) }) todo rfl
              (fun d => ih _ d rfl) d₁
            exact ⟨d', .step kept ends⟩

end Pass

end ChainHerald
