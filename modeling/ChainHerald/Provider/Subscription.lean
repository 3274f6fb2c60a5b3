import ChainHerald.Provider.Ring
import ChainHerald.Provider.Sweep

namespace ChainHerald

open Fleet (Op)

/-- Providers that carry notifications of type `ι`. -/
class Carrier (ν ι : Type) [Fleet ν] where
  rings : ν → Rings ι
  setRings : Rings ι → ν → ν

namespace Carrier

variable {ν ι : Type} [Fleet ν] [Carrier ν ι]

def release (t : Tap ι) (r : Providers ν) : Providers ν :=
  { r with fleet := setRings ((rings r.fleet).release t) r.fleet }

end Carrier

/-- A subscription that moves between providers. `fallback` is the index of the fallback that it
believes it is on, `lastReturn` the wall time of the last try to get back to the primary. -/
structure Subscription (ν ι : Type) [Fleet ν] where
  op : Op ν (Tap ι)
  tap : Option (Tap ι)
  lastReturn : Option Nat
  lags : Nat
  fallback : Option Nat

/-- Where a `recv` stands. A try to get back may be made first thing, or because all was quiet. -/
inductive Recv (ν ι : Type) [Fleet ν] where
  | starting
  | returning (round : Round ν (Tap ι)) (afterQuiet : Bool)
  | arming
  | listening (deadline : Nat)
  | switching (sweep : Sweeping ν (Tap ι))

/-- So many lags in a row make a provider unfit. -/
def mostLags : Nat := 3

namespace Subscription

variable {ν ι : Type} [Fleet ν]

def new (op : Op ν (Tap ι)) (tap : Tap ι) : Subscription ν ι := ⟨op, some tap, none, 0, none⟩

def display (s : Subscription ν ι) : String :=
  "RobustSubscription \x7b active: " ++ toString s.tap.isSome ++ ", consecutive_lags: "
    ++ toString s.lags ++ ", current_fallback_index: "
    ++ (match s.fallback with
      | none => "None"
      | some i => "Some(" ++ toString i ++ ")")
    ++ ", .. \x7d"

def returnDue (s : Subscription ν ι) (clock : Clock) (r : Providers ν) : Bool :=
  match s.lastReturn with
  | none => false
  | some t => decide (t + r.policy.reconnect ≤ clock.wall)

def startReturn (s : Subscription ν ι) (afterQuiet : Bool) (clock : Clock) (r : Providers ν) :
    Recv ν ι × Providers ν :=
  let (round, r) := Round.start 0 s.op clock r
  (.returning round afterQuiet, r)

/-- The first switch away from the primary starts the reconnect interval. -/
def startSwitch (s : Subscription ν ι) (lastError : ProviderError) (clock : Clock)
    (r : Providers ν) : Recv ν ι × Subscription ν ι × Providers ν :=
  let index := match s.fallback with
    | none => 0
    | some i => i + 1
  let (sweep, r) := Sweep.fallbacks s.op true lastError index clock r
  (.switching sweep, { s with lastReturn := some (s.lastReturn.getD clock.wall) }, r)

variable [Carrier ν ι]

def drop (s : Subscription ν ι) (r : Providers ν) : Providers ν :=
  match s.tap with
  | none => r
  | some t => Carrier.release t r

def isEmpty (s : Subscription ν ι) (r : Providers ν) : Bool :=
  match s.tap with
  | none => true
  | some t => (Carrier.rings (ι := ι) r.fleet).isEmpty t

abbrev Outcome (ν ι : Type) [Fleet ν] :=
  Turn (Recv ν ι) (Except ProviderError ι) × Subscription ν ι × Providers ν

def stepReturning (s : Subscription ν ι) (round : Round ν (Tap ι)) (afterQuiet : Bool)
    (clock : Clock) (r : Providers ν) : Option (Outcome ν ι) :=
  match round.step clock r with
  | none => none
  | some (.going round, r) => some (.going (.returning round afterQuiet), s, r)
  | some (.done (.ok tap), r) =>
    some (.going (if afterQuiet then .starting else .arming),
      { s with tap := some tap, lastReturn := none, lags := 0, fallback := none }, s.drop r)
  | some (.done (.error e), r) =>
    let s := { s with lastReturn := some clock.wall }
    let r := r.notice (.reconnectFailed e)
    if afterQuiet then
      let (recv, s, r) := s.startSwitch .timeout clock r
      some (.going recv, s, r)
    else some (.going .arming, s, r)

def stepListening (s : Subscription ν ι) (deadline : Nat) (clock : Clock) (r : Providers ν) :
    Option (Outcome ν ι) :=
  match s.tap with
  | none => some (.done (.error (.rpc .backendGone)), s, r)
  | some tap =>
    match (Carrier.rings (ι := ι) r.fleet).read tap with
    | (.item i, tap) => some (.done (.ok i), { s with tap := some tap, lags := 0 }, r)
    | (.lagged lost, tap) =>
      let s := { s with tap := some tap, lags := s.lags + 1 }
      let r := r.notice (.lagged lost s.lags)
      if s.lags < mostLags then some (.going .starting, s, r)
      else
        let (recv, s, r) := s.startSwitch (.rpc .backendGone) clock (r.notice .tooManyLags)
        some (.going recv, s, r)
    | (.closed, _) =>
      let (recv, s, r) := s.startSwitch (.rpc .backendGone) clock (r.notice .channelClosed)
      some (.going recv, s, r)
    | (.quiet, _) =>
      if clock.now < deadline then none
      else
        let r := r.notice (.quiet (r.policy.silence / 1000))
        if s.fallback.isSome && s.returnDue clock r then
          let (recv, r) := s.startReturn true clock r
          some (.going recv, s, r)
        else
          let (recv, s, r) := s.startSwitch .timeout clock r
          some (.going recv, s, r)

def stepSwitching (s : Subscription ν ι) (sweep : Sweeping ν (Tap ι)) (clock : Clock)
    (r : Providers ν) : Option (Outcome ν ι) :=
  match sweep.step clock r with
  | none => none
  | some (.going sweep, r) => some (.going (.switching sweep), s, r)
  | some (.done (.ok (tap, provider)), r) =>
    some (.going .starting, { s with tap := some tap, lags := 0, fallback := some (provider - 1) },
      s.drop r)
  | some (.done (.error e), r) =>
    some (.done (.error e), { s with tap := none }, (s.drop r).notice (.noFallback e))

/-- One move of a `recv`, nothing if it has to wait. -/
def step (s : Subscription ν ι) (recv : Recv ν ι) (clock : Clock) (r : Providers ν) :
    Option (Outcome ν ι) :=
  match recv with
  | .starting =>
    if s.returnDue clock r then
      let (recv, r) := s.startReturn false clock r
      some (.going recv, s, r)
    else some (.going .arming, s, r)
  | .returning round afterQuiet => s.stepReturning round afterQuiet clock r
  | .arming =>
    match s.tap with
    | none => some (.done (.error (.rpc .backendGone)), s, r)
    | some _ => some (.going (.listening (clock.now + r.policy.silence)), s, r)
  | .listening deadline => s.stepListening deadline clock r
  | .switching sweep => s.stepSwitching sweep clock r

end Subscription

namespace Recv

variable {ν ι : Type} [Fleet ν]

def wakes : Recv ν ι → List Nat
  | .starting | .arming => []
  | .returning round _ => round.wakes
  | .listening deadline => [deadline]
  | .switching sweep => sweep.wakes

end Recv

end ChainHerald
