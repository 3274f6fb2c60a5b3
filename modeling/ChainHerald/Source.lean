import ChainHerald.Desk

namespace ChainHerald

/-- A request together with the type of its answer; subscribing is answered by a feed. -/
inductive Request (Feed : Type) : Type → Type where
  | subscribe (f : Filter) : Request Feed Feed
  | latest : Request Feed Nat
  | logs (f : Filter) (lo hi : Nat) : Request Feed (List Log)

def Request.query {Feed α : Type} : Request Feed α → Query
  | .subscribe f => .subscribe f
  | .latest => .latest
  | .logs f lo hi => .logs f lo hi

/-- One move of something under way: it goes on, or it is done. -/
inductive Turn (κ α : Type) where
  | going (k : κ)
  | done (a : α)

inductive FeedEvent where
  | item (l : Log)
  | failed (e : ProviderError)
  | ended

/-- The node side. A call or a feed that cannot move before something happens has no step; `due`
and `feedDue` are the times of its timers, the first of which lets it move. -/
class Source (σ : Type) where
  Call : Type → Type
  Feed : Type
  ask {α : Type} : Request Feed α → Clock → σ → Call α × σ
  step {α : Type} : Call α → Clock → σ → Option (Turn (Call α) (Except ProviderError α) × σ)
  due {α : Type} : Call α → List Nat
  read : Feed → Clock → σ → Option (Option FeedEvent × Feed × σ)
  feedDue : Feed → List Nat
  /-- The reader of the feed is gone. -/
  release : Feed → σ → σ

end ChainHerald
