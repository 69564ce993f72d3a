import Trading.EventBus
import Trading.Venue

/-!
# The supervisor

`DefaultSupervisor` over components that know the environment `ε` only. A task
that asyncio cancels is one that is never resumed again; only the tick task, which
`stop()` waits for, has its way to the end spelt out.
-/
namespace Trading

open Async

inductive AlertLevel where
  | info | warn | alert | critical
  deriving DecidableEq, Repr

structure Alert where
  level : AlertLevel
  component : String
  message : String
  timestamp : Time
  correlationKey : Option String
  deriving DecidableEq, Repr

/-- The `Lifecycle` protocol. -/
structure Lifecycle (ε : Type) where
  start : Coro ε Unit
  stop : Coro ε Unit

/-- The tick task as cancellations find it: ended, or in an await whose `rest` is what is left
of it once `CancelledError` was thrown into it. A loop that swallows one cancellation goes
on, its rounds being other tasks' operations, until the `next` one. -/
inductive TickTask (ε : Type) where
  | ended (outcome : Except PyError Unit)
  | sleeping (rest : Coro ε Unit) (next : TickTask ε)
  | calling (rest : Coro ε Unit) (next : TickTask ε)

def PyError.isCancelled (exc : PyError) : Bool := exc.type = "CancelledError"

/-- What is left of `_tick_loop` to await. -/
def TickTask.awaited {ε : Type} : TickTask ε → Coro ε Unit
  | .ended outcome => .ofExcept outcome
  | .sleeping rest next => do
    -- `except asyncio.CancelledError: return` is around the sleep alone
    let cancelled ← (rest.bind fun _ => .pure false).tryCatch fun exc =>
      if exc.isCancelled then .pure true else .throw exc
    if cancelled then pure () else .suspend next.awaited
  | .calling rest next => do
    -- `except Exception` is around each of the three calls
    rest.suppress
    .suspend next.awaited

/-- What the supervisor composes. -/
structure Components (ε : Type) where
  orderJournal : Lifecycle ε
  accountJournal : Lifecycle ε
  eventLog : Lifecycle ε
  alertLog : Lifecycle ε
  alertRouter : Lifecycle ε
  venueLifecycle : Lifecycle ε
  marketData : Lifecycle ε
  /-- Managers that are no `Lifecycle` are neither started nor stopped. -/
  omsLifecycle : Option (Lifecycle ε)
  pmsLifecycle : Option (Lifecycle ε)
  venue : Venue ε
  writeEvent : SystemStateChanged → Coro ε Unit
  alert : Alert → Coro ε Unit
  cancelAll : Coro ε Nat
  reconcile : Coro ε Unit
  /-- Where a cancellation finds the tick loop. -/
  tickTask : TickTask ε

/-- `DefaultSupervisor`'s own fields. -/
structure Supervisor where
  state : SystemState
  busRunning : Bool
  tickTask : Bool
  deriving DecidableEq, Repr

/-- A state change with the state its operation had last checked or set. -/
structure Transition extends SystemStateChanged where
  seen : SystemState
  deriving DecidableEq, Repr

/-- A ghost record of what was attempted, in order. `asked` holds what the breakers
answer to an intent; it and `placeOrder` say whether the system was quarantined. -/
inductive Effect where
  | transition (t : Transition)
  | stopBus
  | acknowledged
  | asked (quarantined : Bool) (answers : List (Except PyError (Option Trigger)))
  | placeOrder (quarantined : Bool) (request : OrderRequest)
  deriving DecidableEq, Repr

def Effect.transition? : Effect → Option Transition
  | .transition t => some t
  | _ => none

/-- The transitions of a stretch of effects. -/
def transitionsOf (es : List Effect) : List Transition := es.filterMap Effect.transition?

/-- Quarantined, and not acknowledged since. -/
def quarantinedAfter (es : List Effect) : Bool :=
  es.foldl (fun quarantined e =>
    match e with
    | .transition t => quarantined || t.newState = .quarantine
    | .acknowledged => false
    | _ => quarantined) false

@[simp] theorem transitionsOf_append (es fs : List Effect) :
    transitionsOf (es ++ fs) = transitionsOf es ++ transitionsOf fs := List.filterMap_append

structure RuntimeWorld (ε : Type) where
  supervisor : Supervisor
  bus : EventBus ε
  trace : List Effect
  env : ε

namespace RuntimeWorld

variable {ε : Type}

instance : Part (EventBus ε) (RuntimeWorld ε) where
  view w := w.bus
  put b w := { w with bus := b }
  view_put _ _ := rfl
  put_view _ := rfl
  put_put _ _ _ := rfl

instance : Part ε (RuntimeWorld ε) where
  view w := w.env
  put e w := { w with env := e }
  view_put _ _ := rfl
  put_view _ := rfl
  put_put _ _ _ := rfl

def new (subs : List (Subscription ε)) (env : ε) : RuntimeWorld ε :=
  ⟨⟨.booting, false, false⟩, .wired subs, [], env⟩

def state (w : RuntimeWorld ε) : SystemState := w.supervisor.state

def transitions (w : RuntimeWorld ε) : List Transition := transitionsOf w.trace

/-- The state is set, and the event about to be written. -/
def moved (seen : SystemState) (event : SystemStateChanged) (w : RuntimeWorld ε) :
    RuntimeWorld ε :=
  { w with supervisor := { w.supervisor with state := event.newState }
           trace := w.trace ++ [.transition ⟨event, seen⟩] }

def note (e : Effect) (w : RuntimeWorld ε) : RuntimeWorld ε := { w with trace := w.trace ++ [e] }

@[simp] theorem note_env (e : Effect) (w : RuntimeWorld ε) : (w.note e).env = w.env := rfl
@[simp] theorem note_trace (e : Effect) (w : RuntimeWorld ε) :
    (w.note e).trace = w.trace ++ [e] := rfl

def quarantined (w : RuntimeWorld ε) : Bool := quarantinedAfter w.trace

end RuntimeWorld

namespace Supervisor

open RuntimeWorld

variable {ε : Type} [Part Clock ε] (comps : Components ε)

def readNow : Coro (RuntimeWorld ε) Time := (Clock.now.lift : Coro ε Time).lift

/-- Write the event, and publish it while the bus is up. -/
def announce (event : SystemStateChanged) : Coro (RuntimeWorld ε) Unit := do
  (comps.writeEvent event).lift
  let w ← Co.get
  if w.supervisor.busRunning then
    EventBus.publish (ε := ε) (fun _ => pure ()) (.systemStateChanged event)

/-- `seen` is ghost: the state the calling operation checked or set last. -/
def transition (seen newState : SystemState) (reason : String) : Coro (RuntimeWorld ε) Unit := do
  let w ← Co.get
  let now ← readNow
  let event : SystemStateChanged := ⟨w.state, newState, reason, now⟩
  Co.modify (moved seen event)
  announce comps event

/-- Up to the announcement nothing can go wrong. -/
theorem exec_transition_eq (seen newState : SystemState) (reason : String)
    (w : RuntimeWorld ε) :
    ∃ e now, (transition comps seen newState reason).exec w =
      (announce comps ⟨w.state, newState, reason, now⟩).exec
        { w.moved seen ⟨w.state, newState, reason, now⟩ with env := e } :=
  ⟨_, _, rfl⟩

def startIfLifecycle : Option (Lifecycle ε) → Coro (RuntimeWorld ε) Unit
  | none => pure ()
  | some component => component.start.lift

/-- Persistence first, to log state changes from here on; then alerts. -/
def startPersistence : Coro (RuntimeWorld ε) Unit := do
  comps.orderJournal.start.lift
  comps.accountJournal.start.lift
  comps.eventLog.start.lift
  comps.alertLog.start.lift
  comps.alertRouter.start.lift

/-- The bus, with its subscription, before the venue can emit events. -/
def openBus : Coro (RuntimeWorld ε) Unit := do
  (EventBus.start : Coro (EventBus ε) Unit).lift
  Co.modify fun w => { w with supervisor := { w.supervisor with busRunning := true } }
  (EventBus.subscribe .onBreakerTripped : Coro (EventBus ε) Unit).lift

/-- Restore the caches, then connect to the venue. -/
def connect : Coro (RuntimeWorld ε) Unit := do
  startIfLifecycle comps.omsLifecycle
  startIfLifecycle comps.pmsLifecycle
  comps.venueLifecycle.start.lift
  comps.marketData.start.lift

/-- Everything up to the initial reconciliation. -/
def startComponents : Coro (RuntimeWorld ε) Unit := do
  startPersistence comps
  openBus
  transition comps .booting .reconciling "components started"
  connect comps

/-- The calls of the initial reconciliation; their results are ignored. -/
def initialReconciliation : Coro ε Unit := do
  let _ ← comps.venue.getOpenOrders none
  let _ ← comps.venue.getPositions
  let _ ← comps.venue.getBalance
  comps.reconcile

/-- Reconcile, run, and start the tick loop. -/
def enterRunning : Coro (RuntimeWorld ε) Unit := do
  (initialReconciliation comps).lift
  transition comps .reconciling .running "reconciliation complete"
  Co.modify fun w => { w with supervisor := { w.supervisor with tickTask := true } }

def start : Coro (RuntimeWorld ε) Unit := do
  let w ← Co.get
  if w.state ≠ .booting then
    .throw ⟨"RuntimeError", s!"start() requires BOOTING, currently {w.state.name}"⟩
  else do
    startComponents comps
    enterRunning comps

def safeStop (component : Lifecycle ε) : Coro (RuntimeWorld ε) Unit :=
  (component.stop.lift : Coro (RuntimeWorld ε) Unit).suppress

def safeStopIfLifecycle : Option (Lifecycle ε) → Coro (RuntimeWorld ε) Unit
  | none => pure ()
  | some component => safeStop component

/-- A cancellation request that may fail. -/
def tryCancelAll : Coro (RuntimeWorld ε) Unit :=
  (comps.cancelAll.lift : Coro (RuntimeWorld ε) Nat).suppress

/-- Cancel the tick loop and wait for it; its cancellation is expected. -/
def stopTickTask : Coro (RuntimeWorld ε) Unit := do
  let w ← Co.get
  if w.supervisor.tickTask then do
    (comps.tickTask.awaited.lift : Coro (RuntimeWorld ε) Unit).suppressOnly PyError.isCancelled
    Co.modify fun w => { w with supervisor := { w.supervisor with tickTask := false } }

/-- How Python prints a truth value. -/
def pyBool : Bool → String
  | true => "True"
  | false => "False"

/-- Everything is stopped in reverse order, the bus before what it would reach. -/
def stopComponents : Coro (RuntimeWorld ε) Unit := do
  safeStop comps.marketData
  safeStop comps.venueLifecycle
  Co.modify fun w => { w with supervisor := { w.supervisor with busRunning := false } }
  Co.modify (note .stopBus)
  ((EventBus.stop : Coro (EventBus ε) Unit).lift : Coro (RuntimeWorld ε) Unit).suppress
  safeStopIfLifecycle comps.omsLifecycle
  safeStopIfLifecycle comps.pmsLifecycle
  transition comps .draining .stopped "shutdown complete"
  safeStop comps.alertRouter
  safeStop comps.alertLog
  safeStop comps.eventLog
  safeStop comps.accountJournal
  safeStop comps.orderJournal

def stop (drain : Bool) : Coro (RuntimeWorld ε) Unit := do
  let w ← Co.get
  if w.state = .stopped ∨ w.state = .draining then pure ()
  else do
    stopTickTask comps
    transition comps w.state .draining s!"shutdown drain={pyBool drain}"
    if drain then tryCancelAll comps
    stopComponents comps

/-- `breaker_name or fallback`: an empty name counts as none. -/
def nameOr (fallback : String) : Option String → String
  | none => fallback
  | some name => if name = "" then fallback else name

def quarantineAlert (reason : String) (breakerName : Option String) (now : Time) : Alert :=
  let name := nameOr "" breakerName
  { level := .critical, component := "Supervisor"
    message := s!"QUARANTINE: {reason}" ++ if name = "" then "" else s!" (breaker={name})"
    timestamp := now, correlationKey := some ("quarantine:" ++ nameOr "manual" breakerName) }

def quarantine (reason : String) (breakerName : Option String) : Coro (RuntimeWorld ε) Unit := do
  let w ← Co.get
  if w.state ≠ .running then pure ()
  else do
    tryCancelAll comps
    transition comps .running .quarantine reason
    let now ← readNow
    (comps.alert (quarantineAlert reason breakerName now)).lift

/-- The calls of the reconciliation after an acknowledgement. -/
def reReconciliation : Coro ε Unit := do
  let _ ← comps.venue.getOpenOrders none
  let _ ← comps.venue.getPositions
  comps.reconcile

def acknowledge : Coro (RuntimeWorld ε) Unit := do
  let w ← Co.get
  if w.state ≠ .quarantine then
    .throw ⟨"RuntimeError",
      s!"acknowledge() only valid in QUARANTINE, currently {w.state.name}"⟩
  else do
    transition comps .quarantine .reconciling "human ack"
    (reReconciliation comps).lift
    transition comps .reconciling .running "reconciliation after ack OK"
    Co.modify fun w => if w.state = .running then w.note .acknowledged else w

/-- The bus subscriber: dispatch on the action. -/
def onBreakerTripped (event : BreakerTripped) : Coro (RuntimeWorld ε) Unit :=
  match event.action with
  | .rejectNew => pure ()
  | .cancelAll => tryCancelAll comps
  | .quarantine => quarantine comps event.reason (some event.breakerName)
  | .flatten => do
    tryCancelAll comps
    -- no position is closed: a flatten is a quarantine for now
    quarantine comps event.reason (some event.breakerName)

def publish (event : Event) : Coro (RuntimeWorld ε) Unit :=
  EventBus.publish (ε := ε) (onBreakerTripped comps) event

end Supervisor

/-- What any task may call at any moment: `deliver` is a `BreakerTripped` that some
dispatch has got to the supervisor, `publish` any event put on the bus. -/
inductive SupervisorOp where
  | start
  | stop (drain : Bool)
  | quarantine (reason : String) (breakerName : Option String)
  | acknowledge
  | deliver (event : BreakerTripped)
  | publish (event : Event)
  deriving DecidableEq, Repr

def SupervisorOp.prog {ε : Type} [Part Clock ε] (comps : Components ε) :
    SupervisorOp → Coro (RuntimeWorld ε) Unit
  | .start => Supervisor.start comps
  | .stop drain => Supervisor.stop comps drain
  | .quarantine reason breakerName => Supervisor.quarantine comps reason breakerName
  | .acknowledge => Supervisor.acknowledge comps
  | .deliver event => Supervisor.onBreakerTripped comps event
  | .publish event => Supervisor.publish comps event

def noLifecycle {ε : Type} : Lifecycle ε := ⟨.pure (), .pure ()⟩

/-- Components that do nothing, but for a `cancel_all` that waits for the venue. -/
def idleComponents {ε : Type} : Components ε where
  orderJournal := noLifecycle
  accountJournal := noLifecycle
  eventLog := noLifecycle
  alertLog := noLifecycle
  alertRouter := noLifecycle
  venueLifecycle := noLifecycle
  marketData := noLifecycle
  omsLifecycle := none
  pmsLifecycle := none
  venue :=
    { placeOrder := fun _ => .throw ⟨"VenueError", "unavailable"⟩
      cancelOrder := fun _ => .pure false
      getOrder := fun _ => .pure none
      getOpenOrders := fun _ => .pure []
      getPositions := .pure []
      getBalance := .pure ⟨"USDT", 0, 0, 0, 0⟩ }
  writeEvent _ := .pure ()
  alert _ := .pure ()
  cancelAll := Co.yield.bind fun _ => .pure 0
  reconcile := .pure ()
  tickTask := .ended (.ok ())

end Trading
