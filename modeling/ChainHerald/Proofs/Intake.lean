import ChainHerald.Intake
import ChainHerald.Proofs.Pass

/-!
# The node side calls nobody

Whatever fills the lanes and asks the node, the journal gains notices and requests only.
-/

namespace ChainHerald

variable {σ : Type} [Source σ] {i i' : Intake σ}

namespace Retry

variable {α : Type} {r : Retry σ α}

theorem quiet_ask (request : Request (Source.Feed σ) α) (backoff : Backoff) (i : Intake σ) :
    i.desk.Quiet (ask request backoff i).2.desk :=
  Desk.quiet_write fun _ _ => nofun

theorem quiet_start (request : Request (Source.Feed σ) α) (i : Intake σ) :
    i.desk.Quiet (start request i).2.desk :=
  quiet_ask ..

/-- What a move of a request can be. -/
inductive Moves (r : Retry σ α) (i : Intake σ) : Turn (Retry σ α) α × Intake σ → Prop where
  | asks {ready : Nat} (pausing : r.phase = .pausing ready) (ended : ready ≤ i.desk.clock.now) :
      Moves r i (.going (ask r.request r.backoff i).1, (ask r.request r.backoff i).2)
  | asking {call call' : Source.Call σ α} {source : σ} (asking : r.phase = .asking call)
      (step : Source.step call i.desk.clock i.source = some (.going call', source)) :
      Moves r i (.going { r with phase := .asking call' }, { i with source })
  | answered {call : Source.Call σ α} {a : α} {source : σ} (asking : r.phase = .asking call)
      (step : Source.step call i.desk.clock i.source = some (.done (.ok a), source)) :
      Moves r i (.done a, { i with source })
  | refused {call : Source.Call σ α} {e : ProviderError} {source : σ}
      (asking : r.phase = .asking call)
      (step : Source.step call i.desk.clock i.source = some (.done (.error e), source)) :
      Moves r i (.going { r with
          backoff := r.backoff.next.2
          phase := .pausing (i.desk.clock.now + r.backoff.pause) },
        { i with
          source
          desk := i.desk.notice (.requestFailed r.request.query.method e r.backoff.pause) })

theorem step_moves {o : Turn (Retry σ α) α × Intake σ} (s : r.step i = some o) : r.Moves i o := by
  unfold step at s
  split at s
  · rename_i ready pausing
    split at s
    · rename_i ended
      cases s
      exact .asks pausing ended
    · cases s
  · rename_i call asking
    split at s
    · cases s
    · rename_i going
      cases s
      exact .asking asking going
    · rename_i answered
      cases s
      exact .answered asking answered
    · rename_i refused
      cases s
      exact .refused asking refused

theorem quiet_step {t : Turn (Retry σ α) α} (s : r.step i = some (t, i')) :
    i.desk.Quiet i'.desk := by
  cases step_moves s with
  | asks => exact quiet_ask r.request r.backoff i
  | asking => exact .refl _
  | answered => exact .refl _
  | refused => exact i.desk.quiet_notice _

end Retry

namespace Intake

theorem report_desk (i : Intake σ) (cycle : Nat) (e : ProviderError) :
    (i.report cycle e).desk = i.desk := by
  unfold report
  split <;> rfl

theorem cancelLane_frame (i : Intake σ) (lane : Nat) :
    ∃ writers, i.cancelLane lane = { i with writers } := by
  unfold cancelLane
  split <;> exact ⟨_, rfl⟩

theorem cancelLane_desk (i : Intake σ) (lane : Nat) : (i.cancelLane lane).desk = i.desk := by
  obtain ⟨writers, same⟩ := i.cancelLane_frame lane
  rw [same]

variable {lane : Nat}

theorem stepLive_desk {feed held cancelled cycle}
    (s : i.stepLive lane feed held cancelled cycle = some i') : i'.desk = i.desk := by
  unfold stepLive at s
  split at s
  · cases s
    rfl
  · split at s
    · split at s <;> cases s <;> rfl
    · split at s
      · cases s
      · cases s
        split
        · rfl
        · rfl
        · exact report_desk ..
        · exact report_desk ..

theorem quiet_stepFetching {f rest request} (s : i.stepFetching lane f rest request = some i') :
    i.desk.Quiet i'.desk := by
  unfold stepFetching at s
  split at s
  · cases s
    exact .refl _
  · split at s
    · cases s
    next asked =>
      have quiet := Retry.quiet_step asked
      cases s
      exact quiet
    next asked =>
      have quiet := Retry.quiet_step asked
      cases s
      exact quiet

theorem quiet_stepSending {f rest batch} (s : i.stepSending lane f rest batch = some i') :
    i.desk.Quiet i'.desk := by
  unfold stepSending at s
  split at s
  · cases s
    exact .refl _
  · split at s
    · split at s <;> cases s <;> exact .refl _
    · split at s
      · cases s
        exact .refl _
      · cases s
        exact Retry.quiet_start ..

theorem quiet_step (s : i.step lane = some i') : i.desk.Quiet i'.desk := by
  unfold step at s
  split at s
  · cases s
  · exact .of_eq (stepLive_desk s)
  · exact quiet_stepFetching s
  · exact quiet_stepSending s

end Intake

end ChainHerald
