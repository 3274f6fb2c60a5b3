import ChainHerald.Proofs.History
import ChainHerald.Sample

/-!
# What listeners are handed

`calls_warranted`: whenever a listener is called, its registration is in force, its log has arrived
and is what the registration asks for, and the last head makes it deep enough.
`pool_survives_removals`: a removed log takes just its own position out of the pool, and what stood
there is neither pooled nor handed to anybody until it arrives again.
-/

namespace ChainHerald

open Input (Fresh lastHead)

/-- Why the listener of a registration may be called with this broadcast. -/
structure Broadcast.Warranted (x : Broadcast) (g : Registration) (h : Head) (hs : List Input) :
    Prop where
  enrolled : Registry.Enrolled (Input.changes hs) g
  arrived : .log x.log ∈ hs
  standing : x.log.removed = false
  contract : x.log.address = g.options.contract
  topics : g.options.matchesTopics x.log.topics = true
  last : lastHead hs = some h
  number : x.head = h.number
  hash : x.headHash = h.hash
  job : x.job = g.listener.job
  deep : ∃ p, x.log.position? = some p ∧ p.block ≤ h.number ∧
    g.options.confirmations ≤ h.number - p.block

theorem Offer.Sound.warranted {o : Offer} {e : Herald} {hs : List Input} {h : Head}
    (s : o.Sound e hs h) (f : e.Follows hs) (head : e.head = some h) (v : Decoded) :
    (o.broadcast h v).Warranted o.registration h hs := by
  obtain ⟨contract, confirmed, topics⟩ := Registration.wants_iff.1 s.wants
  obtain ⟨below, deep⟩ := isConfirmed_iff.1 confirmed
  have live := s.live
  rw [f.registry] at live
  obtain ⟨earlier, later, split, standing, since⟩ := s.fresh
  exact {
    enrolled := Registry.live_enrolled live
    arrived := s.fresh.mem
    standing := standing
    contract := contract.symm
    topics := topics
    last := f.head.symm.trans head
    number := rfl
    hash := rfl
    job := rfl
    deep := ⟨o.position, s.position, below, deep⟩ }

namespace Example

/-! A node with one log, and a listener that wants it two blocks deep. -/

def log : Log := ⟨1, [7], [], some 3, some 33, some 0, false⟩

def position : Position := ⟨3, 0, 33⟩

def head : Head := ⟨60, 66, 65⟩

def keeper : Listener := ⟨"keeper", 0, 1, true, false, 0⟩

def options : Options := { (Options.new 1 .unit).addTopic 7 [] with confirmations := 2 }

def start : Broadcaster ScriptedChain :=
  .new .standard { ScriptedChain.new 5 with history := [log] } .empty

/-- Up to the backfilled log in the pool. -/
def pooling : List (Move ScriptedChain) :=
  [.register keeper options, .start, .task .service, .task .service, .task .service,
    .task (.lane 1), .task (.lane 1), .task (.lane 1), .task (.lane 1), .task .service,
    .task .service]

/-- Up to a pass that has yet to call the listener. -/
def dispatching : List (Move ScriptedChain) := pooling ++ [.head head, .task .service]

/-- Up to the removed log in the live lane. -/
def removing : List (Move ScriptedChain) :=
  pooling ++ [.node fun c => c.emit { log with removed := true }, .task (.lane 0), .task (.lane 0)]

theorem reached (ms : List (Move ScriptedChain)) : (start.run ms).Reached (start.history ms) :=
  Broadcaster.Reached.run (.start ..) ms

end Example

namespace Broadcaster

variable {σ : Type} [Source σ] {b b' : Broadcaster σ} {hs heard : List Input} {id : Nat}
  {x : Broadcast}

/-- Only a pass under way calls listeners. -/
theorem Advance.calls (placed : b.herald.pool.Placed) (a : Advance b b' heard)
    (call : (id, x) ∈ b'.desk.callsSince b.desk) :
    ∃ p, b.pass = some p ∧ ∃ o ∈ p.todo, ∃ v, o.registration.id = id ∧
      x = o.broadcast p.head v := by
  cases a with
  | aside apart => exact absurd call apart.quiet.no_calls
  | changes _ _ _ apart => exact absurd call apart.quiet.no_calls
  | hear i _ _ result =>
    rcases Herald.hear_cases placed result with ⟨-, -, noticed⟩ | ⟨_, _, _, -, -, -, -, -, noticed⟩
    · exact absurd call noticed.quiet.no_calls
    · exact absurd call noticed.quiet.no_calls
  | @serve p p' before moves =>
    obtain ⟨new, j, handed⟩ := moves.calls
    obtain ⟨o, mem, v, rfl, rfl, -⟩ := handed id x ((Desk.mem_callsSince j).1 call)
    exact ⟨p, before, o, mem, v, rfl, rfl⟩
  | close _ _ _ _ desk => exact absurd call (Desk.Quiet.of_eq desk).no_calls

/-- Who is called by a move, and with what. -/
theorem Reached.call (r : b.Reached hs) (m : Move σ)
    (call : (id, x) ∈ (b.move m).desk.callsSince b.desk) :
    ∃ (o : Offer) (h : Head) (v : Decoded), o.Sound b.herald hs h ∧ b.herald.head = some h ∧
      o.registration.id = id ∧ x = o.broadcast h v := by
  obtain ⟨p, on, o, mem, v, same, rfl⟩ :=
    (r.advances m).calls r.follows.herald.placed call
  obtain ⟨head, sound⟩ := r.follows.pass p on
  exact ⟨o, p.head, v, sound o mem, head, same, rfl⟩

/-- Whatever the run was so far, no listener is called without a warrant. -/
theorem calls_warranted (r : b.Reached hs) (m : Move σ)
    (call : (id, x) ∈ (b.move m).desk.callsSince b.desk) :
    ∃ g h, g.id = id ∧ x.Warranted g h hs := by
  obtain ⟨o, h, v, sound, head, same, rfl⟩ := r.call m call
  exact ⟨o.registration, h, same, sound.warranted r.follows.herald head v⟩

theorem keeper_warranted :
    (0, ⟨Example.log, some .unit, 60, 66, 1⟩) ∈
      ((Example.start.run Example.dispatching).move (.task .service)).desk.callsSince
        (Example.start.run Example.dispatching).desk ∧
    ∃ g h, g.id = 0 ∧ Broadcast.Warranted ⟨Example.log, some .unit, 60, 66, 1⟩ g h
      (Example.start.history Example.dispatching) := by
  have call : (0, ⟨Example.log, some .unit, 60, 66, 1⟩) ∈
      ((Example.start.run Example.dispatching).move (.task .service)).desk.callsSince
        (Example.start.run Example.dispatching).desk := by decide +kernel
  exact ⟨call, calls_warranted (Example.reached _) _ call⟩

/-! ## Removed logs -/

/-- A removed log takes just what stands at its position out of the pool. -/
theorem Advance.removal (a : Advance b b' heard) {r : Log} (mem : .log r ∈ heard)
    (gone : r.removed = true) (q : Position) :
    b'.herald.pool.get? q =
      if r.position? = some q then none else b.herald.pool.get? q := by
  cases a with
  | aside | serve | close => cases mem
  | changes cs => simp at mem
  | hear i _ _ result =>
    obtain rfl := List.mem_singleton.1 mem
    have pool : b'.herald.pool = b.herald.pool.remove r := by
      have left := (Herald.onLog_removed (e := b.herald) (d := b.desk) gone).2
      rw [show b.herald.onLog b.desk r = _ from result] at left
      exact congrArg Herald.pool left
    rw [pool]
    split
    next here => exact Pool.get?_remove_self here
    next elsewhere => exact Pool.get?_remove_of_ne elsewhere

/-- What is pooled is fresh; from a position that a removed log vacated nothing is pooled or handed
out until a log arrives there again; and no other position notices the removal. -/
theorem pool_survives_removals (r : b.Reached hs) :
    (∀ p l, b.herald.pool.get? p = some l → l.position? = some p ∧ Fresh hs l) ∧
    (∀ earlier gone later p, hs = earlier ++ .log gone :: later → gone.removed = true →
      gone.position? = some p →
      (∀ l, .log l ∈ later → l.position? = some p → l.removed = true) →
      b.herald.pool.get? p = none ∧
      ∀ m id x, (id, x) ∈ (b.move m).desk.callsSince b.desk → x.log.position? ≠ some p) ∧
    ∀ m gone, .log gone ∈ b.takes m → gone.removed = true →
      ∀ q, (b.move m).herald.pool.get? q =
        if gone.position? = some q then none else b.herald.pool.get? q := by
  have f := r.follows
  refine ⟨?_, ?_, ?_⟩
  · intro p l held
    exact ⟨f.herald.placed p l held, f.herald.fresh p l held⟩
  · rintro earlier gone later p rfl removed at_p none_since
    constructor
    · cases held : b.herald.pool.get? p with
      | none => rfl
      | some l =>
        have absent := (f.herald.fresh p l held).position_ne removed at_p none_since
        exact absurd (f.herald.placed p l held) absent
    · intro m id x call
      obtain ⟨o, h, v, sound, -, -, rfl⟩ := r.call m call
      exact sound.fresh.position_ne removed at_p none_since
  · intro m gone mem removed
    exact (r.advances m).removal mem removed

theorem removal_taken : .log { Example.log with removed := true } ∈
    (Example.start.run Example.removing).takes (.task .service) := by
  have taken : ((Example.start.run Example.removing).takes (.task .service)).any (fun
      | .log l => l == { Example.log with removed := true }
      | _ => false) = true := by decide +kernel
  obtain ⟨i, mem, same⟩ := List.any_eq_true.1 taken
  cases i with
  | log l => exact eq_of_beq same ▸ mem
  | change | head => cases same

theorem pooled_log_removed :
    (Example.start.run Example.removing).herald.pool.get? Example.position = some Example.log ∧
    Fresh (Example.start.history Example.removing) Example.log ∧
    ((Example.start.run Example.removing).move (.task .service)).herald.pool.get?
      Example.position = none := by
  have held : (Example.start.run Example.removing).herald.pool.get? Example.position =
    some Example.log := by decide +kernel
  have safe := pool_survives_removals (Example.reached Example.removing)
  refine ⟨held, (safe.1 _ _ held).2, ?_⟩
  exact (safe.2.2 _ _ removal_taken rfl Example.position).trans (if_pos rfl)

end Broadcaster

end ChainHerald
