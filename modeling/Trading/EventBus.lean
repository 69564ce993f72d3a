import Trading.Domain

/-!
# Runtime events and the bus that carries them

The bus dispatches to its subscribers in registration order, one at a time; a
subscriber that raises does not keep an event from the next one. The callbacks
registered while the system is wired know the environment `ε` only; the
supervisor's own callback is told apart.
-/
namespace Trading

open Async

inductive SystemState where
  | booting | reconciling | running | quarantine | draining | stopped
  deriving DecidableEq, Repr

/-- The member's name. -/
def SystemState.name : SystemState → String
  | .booting => "BOOTING"
  | .reconciling => "RECONCILING"
  | .running => "RUNNING"
  | .quarantine => "QUARANTINE"
  | .draining => "DRAINING"
  | .stopped => "STOPPED"

inductive TriggerAction where
  | rejectNew | cancelAll | quarantine | flatten
  deriving DecidableEq, Repr

/-- What a breaker that trips returns. -/
structure Trigger where
  breakerName : String
  action : TriggerAction
  reason : String
  deriving DecidableEq, Repr

structure SystemStateChanged where
  oldState : SystemState
  newState : SystemState
  reason : String
  timestamp : Time
  deriving DecidableEq, Repr

structure BreakerTripped where
  breakerName : String
  action : TriggerAction
  reason : String
  timestamp : Time
  deriving DecidableEq, Repr

structure Heartbeat where
  component : String
  timestamp : Time
  deriving DecidableEq, Repr

structure ErrorOccurred where
  component : String
  message : String
  exceptionType : String
  timestamp : Time
  deriving DecidableEq, Repr

inductive Event where
  | systemStateChanged (event : SystemStateChanged)
  | breakerTripped (event : BreakerTripped)
  | heartbeat (event : Heartbeat)
  | errorOccurred (event : ErrorOccurred)
  deriving DecidableEq, Repr

/-- An entry of `_subs`. `accepts` is the `isinstance` test of the declared type. -/
inductive Subscription (ε : Type) where
  | external (accepts : Event → Bool) (callback : Event → Coro ε Unit)
  | onBreakerTripped

/-- What the callback raises is no more than an error. -/
def Subscription.RaisesErrors {ε : Type} : Subscription ε → Prop
  | .external _ callback => ∀ event, Co.RaisesErrors (callback event)
  | .onBreakerTripped => True

structure EventBus (ε : Type) where
  subs : List (Subscription ε)
  started : Bool
  stopped : Bool

namespace EventBus

variable {ε : Type}

/-- The bus as it is wired, before `start()`. -/
def wired (subs : List (Subscription ε)) : EventBus ε := ⟨subs, false, false⟩

/-- The bus dispatches, and the supervisor is subscribed to it. -/
structure Live (bus : EventBus ε) : Prop where
  started : bus.started = true
  stopped : bus.stopped = false
  subscribed : .onBreakerTripped ∈ bus.subs

def subscribe (sub : Subscription ε) : Coro (EventBus ε) Unit := do
  let bus ← Co.get
  if bus.stopped then .throw ⟨"RuntimeError", "EventBus is stopped; cannot subscribe"⟩
  else Co.modify fun bus => { bus with subs := bus.subs ++ [sub] }

def start : Coro (EventBus ε) Unit := do
  let bus ← Co.get
  if bus.stopped then .throw ⟨"RuntimeError", "EventBus already stopped; cannot restart"⟩
  else Co.modify fun bus => { bus with started := true }

def stop : Coro (EventBus ε) Unit :=
  Co.modify fun bus => { bus with started := false, stopped := true }

section Publish

variable {W : Type} [Part (EventBus ε) W] [Part ε W]

/-- One subscriber's turn; whatever it raises is logged and dropped. -/
def dispatch (onBreakerTripped : BreakerTripped → Coro W Unit) (event : Event) :
    Subscription ε → Coro W Unit
  | .external accepts callback =>
    if accepts event then ((callback event).lift : Coro W Unit).suppress else pure ()
  | .onBreakerTripped =>
    match event with
    | .breakerTripped e => (onBreakerTripped e).suppress
    | _ => pure ()

/-- The subscribers are those of the moment of the call. One that registers during
the dispatch only follows the `BreakerTripped` type, and a delivery to it is a
delivery of its own. -/
def publish (onBreakerTripped : BreakerTripped → Coro W Unit) (event : Event) :
    Coro W Unit := do
  let bus ← (Co.get : Coro (EventBus ε) (EventBus ε)).lift
  if bus.stopped then .throw ⟨"RuntimeError", "EventBus stopped; cannot publish"⟩
  else if !bus.started then .throw ⟨"RuntimeError", "EventBus not started; cannot publish"⟩
  else Co.forEach bus.subs (dispatch onBreakerTripped event)

end Publish

end EventBus

end Trading
