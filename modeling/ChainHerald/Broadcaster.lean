import ChainHerald.Gate
import ChainHerald.Herald
import ChainHerald.Intake
import ChainHerald.Mailbox
import ChainHerald.Settings

namespace ChainHerald

open Source (Feed)

inductive Life where
  | unstarted
  | started
  | closed
  deriving DecidableEq

def Life.number : Life → Nat
  | .unstarted => 0
  | .started => 1
  | .closed => 2

/-- A `close` first marks the broadcaster closed and then waits until everything has ended. -/
inductive Closing where
  | asked
  | waiting
  | returned
  deriving DecidableEq

/-- Where the background service stands. A cycle subscribes, asks for the latest block to backfill
up to, and then serves; `tick` is when the debounce timer fires next. -/
inductive Phase (σ : Type) [Source σ] where
  | unstarted
  | gathering (ready : Wait)
  | subscribing (request : Retry σ (Feed σ))
  | sizing (request : Retry σ Nat) (next : Nat)
  | serving (tick : Nat)
  | handing (pass : Pass) (tick : Nat)
  | stopped

/-- A broadcaster with its service and everything that the service has running. -/
structure Broadcaster (σ : Type) [Source σ] where
  settings : Settings
  intake : Intake σ
  herald : Herald
  gate : Gate
  changes : Mailbox Change
  heads : Mailbox Head
  /-- The replay that is asked for and not yet taken. -/
  replay : Option Nat
  life : Life
  phase : Phase σ
  connected : Bool
  tracked : Nat
  nextId : Nat
  /-- The filter of the cycle that is on. -/
  filter : Filter
  /-- The lane of the subscription that is on, if there is one. -/
  current : Option Nat
  /-- Where the next backfill is to start. -/
  deepStart : Option Nat
  savedHead : Option Head
  /-- Handles that can still be used; the service is cancelled with the last one. -/
  handles : Nat
  closes : List Closing

variable {σ : Type} [Source σ]

namespace Broadcaster

def new (settings : Settings) (source : σ) (ledger : Ledger) : Broadcaster σ where
  settings := settings
  intake := .new source (.new ⟨0, 0⟩ ledger) settings.limits
  herald := .new settings.finality
  gate := .new
  changes := .empty settings.mailbox
  heads := .empty (some 1)
  replay := none
  life := .unstarted
  phase := .unstarted
  connected := false
  tracked := 0
  nextId := 0
  filter := ⟨[], []⟩
  current := none
  deepStart := none
  savedHead := settings.savedHead
  handles := 1
  closes := []

def build (settings : Settings) (source : σ) (ledger : Ledger) :
    Except BroadcasterError (Broadcaster σ) :=
  settings.check.map fun _ => new settings source ledger

def desk (b : Broadcaster σ) : Desk := b.intake.desk

def withDesk (b : Broadcaster σ) (d : Desk) : Broadcaster σ :=
  { b with intake := { b.intake with desk := d } }

def withSource (b : Broadcaster σ) (source : σ) : Broadcaster σ :=
  { b with intake := { b.intake with source } }

def notice (b : Broadcaster σ) (n : Notice) : Broadcaster σ := b.withDesk (b.desk.notice n)

def cancel (b : Broadcaster σ) : Broadcaster σ := b.withDesk { b.desk with cancelled := true }

def display (b : Broadcaster σ) : String :=
  "LogBroadcaster \x7b state: " ++ toString b.life.number ++ ", connected: " ++ toString b.connected
    ++ ", tracked_addresses: " ++ toString b.tracked ++ ", .. \x7d"

/-- Neither the service nor anything that it started is running. -/
def isIdle (b : Broadcaster σ) : Bool :=
  (match b.phase with
    | .unstarted | .stopped => true
    | _ => false) && b.intake.writers.isEmpty

end Broadcaster

end ChainHerald
