import Trading.OrderManager
import Trading.RiskManager

/-!
# The executor

Every intent is checked against the breakers and then handed to the order manager.
Nothing else stands between a strategy and the venue: the supervisor's state is not
asked.
-/
namespace Trading

open Async RuntimeWorld

section Parts

variable {ε J : Type}

instance [clock : Part Clock ε] : Part Clock (RuntimeWorld ε) := clock.trans inferInstance

instance [oms : Part (OrderManager J) ε] : Part (OrderManager J) (RuntimeWorld ε) :=
  oms.trans inferInstance

end Parts

/-- A venue seen from the whole system, with its calls of `place_order` noted. -/
def Venue.watched {ε : Type} (venue : Venue ε) : Venue (RuntimeWorld ε) where
  placeOrder request := do
    Co.modify fun w => w.note (.placeOrder w.quarantined request)
    (venue.placeOrder request).lift
  cancelOrder oid := (venue.cancelOrder oid).lift
  getOrder oid := (venue.getOrder oid).lift
  getOpenOrders symbol := (venue.getOpenOrders symbol).lift
  getPositions := venue.getPositions.lift
  getBalance := venue.getBalance.lift

section Executor

variable {ε J : Type} [Part Clock ε] [Part (OrderManager J) ε] (comps : Components ε)
  (risk : RiskManager ε) (journal : OrderJournal J)

/-- `cid` is the id the order manager's factory hands out. -/
def Executor.submitIntent (cid : ClientOrderId) (intent : TradeIntent) :
    Coro (RuntimeWorld ε) SubmitResult := do
  let decision ← risk.check intent
  match decision with
  | .approved => OrderManager.submit comps.venue.watched journal cid intent
  | .rejected reason breakerName => pure (.riskRejected reason breakerName)

/-- What the tasks call: strategies, the tick loop, and whoever asks for an operation of
the supervisor. Heartbeats and errors are events put on the bus. -/
inductive ExecutorOp where
  | submitIntent (cid : ClientOrderId) (intent : TradeIntent)
  | riskTick
  | supervise (op : SupervisorOp)
  deriving DecidableEq, Repr

def ExecutorOp.prog : ExecutorOp → Coro (RuntimeWorld ε) Unit
  | .submitIntent cid intent =>
    (Executor.submitIntent comps risk journal cid intent).bind fun _ => .pure ()
  | .riskTick => risk.tick comps
  | .supervise op => op.prog comps

end Executor

end Trading
