import Trading.Supervisor

/-!
# The risk manager

Breakers are asked before every order and at every tick. At a tick each trigger
travels over the bus to the supervisor, which may quarantine the system.
-/
namespace Trading

open Async Data

structure FundingRate where
  symbol : Symbol
  rate : Decimal
  predictedRate : Option Decimal
  nextFundingTime : Time
  timestamp : Time
  deriving DecidableEq, Repr

structure RiskContext where
  now : Time
  positions : List Position
  balance : Balance
  openOrders : List Order
  fundingRates : Dict Symbol FundingRate

/-- A breaker may update its own counters, which are part of the environment, and raise. -/
structure CircuitBreaker (ε : Type) where
  evaluate : RiskContext → ε → ε × Except PyError (Option Trigger)

def CircuitBreaker.run {ε : Type} (breaker : CircuitBreaker ε) (context : RiskContext) :
    Coro ε (Option Trigger) :=
  .act (fun e => (breaker.evaluate context e).1) fun e =>
    .ofExcept (breaker.evaluate context e).2

inductive Decision where
  | approved
  | rejected (reason : String) (breakerName : Option String)
  deriving DecidableEq, Repr

/-- What the risk manager is wired to: the caches it reads and its breakers. -/
structure RiskManager (ε : Type) where
  positions : Coro ε (List Position)
  balance : Coro ε Balance
  openOrders : Coro ε (List Order)
  breakers : List (CircuitBreaker ε)

namespace RiskManager

open RuntimeWorld

variable {ε : Type} [Part Clock ε] (risk : RiskManager ε)

def buildContext : Coro ε RiskContext := do
  let positions ← risk.positions
  let balance ← risk.balance
  let openOrders ← risk.openOrders
  let now ← Clock.now.lift
  pure ⟨now, positions, balance, openOrders, .empty⟩

/-- The first breaker that trips decides; the ones after it are not asked. -/
def firstTrigger (context : RiskContext) : List (CircuitBreaker ε) → Coro ε (Option Trigger)
  | [] => pure none
  | breaker :: breakers => do
    let trigger ← breaker.run context
    match trigger with
    | some trigger => pure (some trigger)
    | none => firstTrigger context breakers

omit [Part Clock ε] in
/-- A breaker that does not raise decides, or lets the next one be asked. -/
theorem block_firstTrigger (context : RiskContext) {breaker : CircuitBreaker ε}
    (breakers : List (CircuitBreaker ε)) {e : ε} {answer : Option Trigger}
    (h : (breaker.evaluate context e).2 = .ok answer) :
    (firstTrigger context (breaker :: breakers)).block e =
      if answer.isSome then ((breaker.evaluate context e).1, .done answer)
      else (firstTrigger context breakers).block (breaker.evaluate context e).1 := by
  have hrun : (breaker.run context).block e = ((breaker.evaluate context e).1, .done answer) := by
    change (Co.ofExcept (breaker.evaluate context e).2).block _ = _
    rw [h]
    rfl
  rw [firstTrigger, Co.bind_eq, Co.block_bind_done hrun]
  cases answer with
  | none => rfl
  | some trigger => rfl

/-- What the breakers answer, each asked in turn. -/
def answers (context : RiskContext) :
    List (CircuitBreaker ε) → ε → List (Except PyError (Option Trigger))
  | [], _ => []
  | breaker :: breakers, e =>
    (breaker.evaluate context e).2 :: answers context breakers (breaker.evaluate context e).1

/-- The intent itself is not looked at. The answers are noted as the ghost record needs
them, before the first one is asked for. -/
def check (_intent : TradeIntent) : Coro (RuntimeWorld ε) Decision := do
  let context ← (buildContext risk).lift
  Co.modify fun w => w.note (.asked w.quarantined (answers context risk.breakers w.env))
  let trigger ← (firstTrigger context risk.breakers).lift
  match trigger with
  | some trigger => pure (.rejected trigger.reason (some trigger.breakerName))
  | none => pure .approved

variable (comps : Components ε)

/-- One breaker's turn in a tick. -/
def tickBreaker (context : RiskContext) (breaker : CircuitBreaker ε) :
    Coro (RuntimeWorld ε) Unit := do
  let trigger ← (breaker.run context).lift
  match trigger with
  | none => pure ()
  | some trigger => do
    let now ← Supervisor.readNow
    Supervisor.publish comps
      (.breakerTripped ⟨trigger.breakerName, trigger.action, trigger.reason, now⟩)

def tick : Coro (RuntimeWorld ε) Unit := do
  let context ← (buildContext risk).lift
  Co.forEach risk.breakers (tickBreaker comps context)

end RiskManager

end Trading
