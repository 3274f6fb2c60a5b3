import ChainHerald.Proofs.Requests

/-!
# A chain that grows

A node that watches a growing chain and does what can be hoped of it: it answers with its height and
with the logs mined so far, though an answer takes its time, and a live subscription yields whatever
is mined once it is open. A request may fail at any time; a subscription never does.
-/

namespace ChainHerald

/-- A live subscription, with what is under way to its reader. -/
structure GrowingChain.Tail where
  filter : Filter
  ahead : List Log
  isOpen : Bool

structure GrowingChain where
  height : Nat
  mined : List Log
  /-- By number. -/
  tails : List GrowingChain.Tail
  /-- While there is one, every request fails with this error. -/
  failing : Option ProviderError
  grown : ∀ l ∈ mined, ∃ k, l.block = some k ∧ k ≤ height

namespace GrowingChain

/-- A request under way, with the answer once the node has given it. -/
structure Call (α : Type) where
  request : Request Nat α
  reply : Option α

variable {α : Type} {c : GrowingChain} {feed : Nat} {tail : Tail}

def empty (height : Nat) : GrowingChain := ⟨height, [], [], none, nofun⟩

def Tail.push (logs : List Log) (t : Tail) : Tail :=
  if t.isOpen then { t with ahead := t.ahead ++ logs.filter t.filter.passes } else t

/-- The logs of the block that comes next. -/
def block (c : GrowingChain) (logs : List Log) : List Log :=
  logs.map fun l => { l with block := some (c.height + 1) }

theorem block_eq {logs : List Log} {l : Log} (new : l ∈ c.block logs) :
    l.block = some (c.height + 1) := by
  obtain ⟨l, -, rfl⟩ := List.mem_map.1 new
  rfl

def mine (logs : List Log) (c : GrowingChain) : GrowingChain where
  height := c.height + 1
  mined := c.mined ++ c.block logs
  tails := c.tails.map (Tail.push (c.block logs))
  failing := c.failing
  grown := by
    intro l mined
    rcases List.mem_append.1 mined with old | new
    · obtain ⟨k, at_k, below⟩ := c.grown l old
      exact ⟨k, at_k, Nat.le_succ_of_le below⟩
    · exact ⟨_, block_eq new, Nat.le_refl _⟩

/-- A subscription is open from here on; anything else is answered, and the answer under way. -/
def answer : {α : Type} → Request Nat α → GrowingChain → Turn (Call α) α × GrowingChain
  | _, .subscribe f, c => (.done c.tails.length, { c with tails := c.tails ++ [⟨f, [], true⟩] })
  | _, .latest, c => (.going ⟨.latest, some c.height⟩, c)
  | _, .logs f lo hi, c => (.going ⟨.logs f lo hi, some (f.select lo hi c.mined)⟩, c)

def step (call : Call α) (c : GrowingChain) :
    Option (Turn (Call α) (Except ProviderError α) × GrowingChain) :=
  match c.failing, call.reply with
  | some e, _ => some (.done (.error e), c)
  | none, some a => some (.done (.ok a), c)
  | none, none =>
    match answer call.request c with
    | (.going call, c) => some (.going call, c)
    | (.done a, c) => some (.done (.ok a), c)

def read (feed : Nat) (c : GrowingChain) : Option (Option FeedEvent × Nat × GrowingChain) :=
  match c.tails[feed]? with
  | some ⟨f, l :: rest, isOpen⟩ =>
    some (some (.item l), feed, { c with tails := c.tails.set feed ⟨f, rest, isOpen⟩ })
  | _ => none

def release (feed : Nat) (c : GrowingChain) : GrowingChain :=
  { c with tails := c.tails.modify feed fun t => { t with isOpen := false } }

instance : Source GrowingChain where
  Call := Call
  Feed := Nat
  ask := fun request _ c => (⟨request, none⟩, c)
  step := fun call _ c => step call c
  due := fun _ => []
  read := fun feed _ c => read feed c
  feedDue := fun _ => []
  release := release

/-- What the chain does of itself. -/
inductive Grows (c : GrowingChain) : GrowingChain → Prop where
  | still : Grows c c
  | mine (logs : List Log) : Grows c (c.mine logs)
  | weather (failing : Option ProviderError) : Grows c { c with failing }

/-- Subscriptions are opened, and nothing else changes. -/
structure Opens (c c' : GrowingChain) : Prop where
  height : c'.height = c.height
  mined : c'.mined = c.mined
  tails : ∃ more, c'.tails = c.tails ++ more

theorem Opens.refl (c : GrowingChain) : c.Opens c := ⟨rfl, rfl, [], (List.append_nil _).symm⟩

theorem Opens.length_le {c' : GrowingChain} (opens : c.Opens c') :
    c.tails.length ≤ c'.tails.length := by
  obtain ⟨more, tails⟩ := opens.tails
  simp [tails]

theorem Grows.length_eq {c' : GrowingChain} (grows : c.Grows c') :
    c'.tails.length = c.tails.length := by
  cases grows with
  | still | weather => rfl
  | mine => exact List.length_map ..

theorem Grows.height_le {c' : GrowingChain} (grows : c.Grows c') : c.height ≤ c'.height := by
  cases grows with
  | still | weather => exact Nat.le_refl _
  | mine => exact Nat.le_succ _

theorem answer_opens (request : Request Nat α) (c : GrowingChain) :
    c.Opens (answer request c).2 := by
  cases request with
  | subscribe f => exact ⟨rfl, rfl, _, rfl⟩
  | latest | logs => exact .refl c

theorem step_opens {call : Call α} {t : Turn (Call α) (Except ProviderError α)} {c' : GrowingChain}
    (s : step call c = some (t, c')) : c.Opens c' := by
  unfold step at s
  split at s
  · cases s
    exact .refl c
  · cases s
    exact .refl c
  · have opens := answer_opens call.request c
    split at s <;>
    next answered =>
      cases s
      rwa [answered] at opens

/-- The node never keeps anybody waiting for long. -/
theorem step_ne_none (call : Call α) (c : GrowingChain) : step call c ≠ none := by
  unfold step
  split
  · nofun
  · nofun
  · split <;> nofun

/-- A subscription only ever yields what is under way, in order. -/
theorem read_cases {event : Option FeedEvent} {feed' : Nat} {c' : GrowingChain}
    (r : read feed c = some (event, feed', c')) : ∃ tail l rest,
      c.tails[feed]? = some tail ∧ tail.ahead = l :: rest ∧ event = some (.item l) ∧
      feed' = feed ∧ c' = { c with tails := c.tails.set feed { tail with ahead := rest } } := by
  unfold read at r
  split at r
  next f l rest isOpen here =>
    cases r
    exact ⟨_, l, rest, here, rfl, rfl, rfl, rfl⟩
  · cases r

end GrowingChain

/-! ## Requests -/

namespace Retry

open GrowingChain

variable {α : Type} {r : Retry GrowingChain α} {i i' : Intake GrowingChain} {good : α → Prop}
  {t : Turn (Retry GrowingChain α) α}

/-- What is under way is what was asked for, and an answer that is under way is good. -/
def Honest (r : Retry GrowingChain α) (good : α → Prop) : Prop :=
  ∀ call : Call α, r.phase = .asking call →
    call.request = r.request ∧ ∀ a, call.reply = some a → good a

theorem Honest.mono {good' : α → Prop} (h : r.Honest good) (le : ∀ a, good a → good' a) :
    r.Honest good' := by
  intro call asking
  obtain ⟨same, replied⟩ := h call asking
  exact ⟨same, fun a reply => le a (replied a reply)⟩

theorem honest_ask (request : Request Nat α) (backoff : Backoff) (i : Intake GrowingChain) :
    (ask request backoff i).1.Honest good := by
  intro call asking
  cases asking
  exact ⟨rfl, nofun⟩

theorem step_opens (s : r.step i = some (t, i')) : i.source.Opens i'.source := by
  cases step_moves s with
  | asks => exact .refl _
  | asking _ step => exact GrowingChain.step_opens step
  | answered _ step => exact GrowingChain.step_opens step
  | refused _ step => exact GrowingChain.step_opens step

/-- A request that does not move waits for its timer. -/
theorem step_or_waits (r : Retry GrowingChain α) (i : Intake GrowingChain) :
    r.step i ≠ none ∨ ∃ t ∈ r.wakes, i.desk.clock.now < t := by
  unfold Retry.step Retry.wakes
  split
  next ready _ =>
    split
    · exact .inl nofun
    next early => exact .inr ⟨ready, List.mem_singleton.2 rfl, Nat.lt_of_not_le early⟩
  next call _ =>
    split
    next none => exact absurd none (GrowingChain.step_ne_none call i.source)
    all_goals exact .inl nofun

/-- What a step of a request can be: it is under way, it has a good answer, or the node has just
turned to it. -/
theorem Honest.step_cases (h : r.Honest good) (s : r.step i = some (t, i')) :
    i'.source = i.source ∧
      ((∃ r', t = .going r' ∧ r'.Honest good) ∨ ∃ a, t = .done a ∧ good a) ∨
    (∃ call, answer r.request i.source = (.going call, i'.source) ∧
      t = .going { r with phase := .asking call }) ∨
    ∃ a, answer r.request i.source = (.done a, i'.source) ∧ t = .done a := by
  unfold Retry.step at s
  split at s
  · split at s
    · cases s
      exact .inl ⟨rfl, .inl ⟨_, rfl, honest_ask r.request r.backoff i⟩⟩
    · cases s
  next call asking =>
    obtain ⟨same, replied⟩ := h call asking
    -- what the node does with the call
    have moved {turn c'} (m : Source.step call i.desk.clock i.source = some (turn, c')) :
        c' = i.source ∧ ((∃ e, turn = .done (.error e)) ∨ ∃ a, turn = .done (.ok a) ∧ good a) ∨
        (∃ call', turn = .going call' ∧ answer r.request i.source = (.going call', c')) ∨
        ∃ a, turn = .done (.ok a) ∧ answer r.request i.source = (.done a, c') := by
      have m : GrowingChain.step call i.source = some (turn, c') := m
      unfold GrowingChain.step at m
      rw [← same]
      split at m
      · cases m
        exact .inl ⟨rfl, .inl ⟨_, rfl⟩⟩
      next a _ reply =>
        cases m
        exact .inl ⟨rfl, .inr ⟨a, rfl, replied a reply⟩⟩
      · split at m
        next answered =>
          cases m
          exact .inr (.inl ⟨_, rfl, answered⟩)
        next answered =>
          cases m
          exact .inr (.inr ⟨_, rfl, answered⟩)
    split at s
    · cases s
    next m =>
      cases s
      rcases moved m with ⟨-, ⟨e, eq⟩ | ⟨a, eq, -⟩⟩ | ⟨call', eq, turned⟩ | ⟨a, eq, -⟩ <;> cases eq
      exact .inr (.inl ⟨_, turned, rfl⟩)
    next m =>
      cases s
      rcases moved m with ⟨rfl, ⟨e, eq⟩ | ⟨a, eq, good⟩⟩ | ⟨call', eq, -⟩ | ⟨a, eq, turned⟩ <;>
        cases eq
      · exact .inl ⟨rfl, .inr ⟨_, rfl, good⟩⟩
      · exact .inr (.inr ⟨_, turned, rfl⟩)
    next m =>
      cases s
      rcases moved m with ⟨rfl, -⟩ | ⟨call', eq, -⟩ | ⟨a, eq, -⟩
      · exact .inl ⟨rfl, .inl ⟨_, rfl, nofun⟩⟩
      · cases eq
      · cases eq

/-- A question with a good answer is under way or has one. -/
theorem Honest.step_query (h : r.Honest good) {reply : α}
    (query : answer r.request i.source = (.going ⟨r.request, some reply⟩, i.source))
    (fresh : good reply) (s : r.step i = some (t, i')) :
    i'.source = i.source ∧
      ((∃ r', t = .going r' ∧ r'.Honest good) ∨ ∃ a, t = .done a ∧ good a) := by
  rcases h.step_cases s with same | ⟨call, turned, rfl⟩ | ⟨a, turned, -⟩
  · exact same
  · obtain ⟨eq, source⟩ := Prod.mk.inj (query.symm.trans turned)
    cases eq
    refine ⟨source.symm, .inl ⟨_, rfl, ?_⟩⟩
    intro call asking
    cases asking
    exact ⟨rfl, fun a eq => Option.some.inj eq ▸ fresh⟩
  · cases (Prod.mk.inj (query.symm.trans turned)).1

/-- Subscribing is under way, or the subscription is open from here on. -/
theorem Honest.step_subscribe {r : Retry GrowingChain Nat}
    {t : Turn (Retry GrowingChain Nat) Nat} {f : Filter} (h : r.Honest fun _ => False)
    (request : r.request = .subscribe f) (s : r.step i = some (t, i')) :
    i'.source = i.source ∧ (∃ r', t = .going r' ∧ r'.Honest fun _ => False) ∨
    i'.source = { i.source with tails := i.source.tails ++ [⟨f, [], true⟩] } ∧
      t = .done i.source.tails.length := by
  have opened : answer r.request i.source =
      (.done i.source.tails.length,
        { i.source with tails := i.source.tails ++ [⟨f, [], true⟩] }) := by
    rw [request]
    rfl
  rcases h.step_cases s with ⟨same, going | ⟨_, -, never⟩⟩ | ⟨call, turned, -⟩ | ⟨a, turned, rfl⟩
  · exact .inl ⟨same, going⟩
  · exact never.elim
  · cases (Prod.mk.inj (opened.symm.trans turned)).1
  · obtain ⟨eq, source⟩ := Prod.mk.inj (opened.symm.trans turned)
    cases eq
    exact .inr ⟨source.symm, rfl⟩

end Retry

end ChainHerald
