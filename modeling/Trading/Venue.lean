import Mathlib.Tactic.Ring
import Trading.Domain

/-!
# Venues and their notifications

A venue pushes two streams to its subscribers: order updates carrying the full
order, and fills. `Notification` is one element of either.
-/
namespace Trading

/-- What a component may ask of a venue, as coroutines over the state `W`. -/
structure Venue (W : Type) where
  placeOrder : OrderRequest → Coro W OrderId
  cancelOrder : OrderId → Coro W Bool
  getOrder : OrderId → Coro W (Option Order)
  getOpenOrders : Option Symbol → Coro W (List Order)
  getPositions : Coro W (List Position)
  getBalance : Coro W Balance

/-- Ask a venue that is a part of the world and touches nothing else. -/
def Venue.lift {V W : Type} [Async.Part V W] (venue : Venue V) : Venue W where
  placeOrder request := (venue.placeOrder request).lift
  cancelOrder oid := (venue.cancelOrder oid).lift
  getOrder oid := (venue.getOrder oid).lift
  getOpenOrders symbol := (venue.getOpenOrders symbol).lift
  getPositions := venue.getPositions.lift
  getBalance := venue.getBalance.lift

/-- The callbacks registered with `on_order_update` and `on_fill`, in order. -/
structure Subscribers (W : Type) where
  orderCbs : List (Order → Coro W Unit)
  fillCbs : List (Fill → Coro W Unit)

/-- Subscribers whose callbacks only know a part of the state. While one of them is
suspended it may re-enter the venue through any operation. -/
def Subscribers.lift {S W : Type} [Async.Part S W] (subs : Subscribers S) : Subscribers W where
  orderCbs := subs.orderCbs.map fun cb order => (cb order).lift
  fillCbs := subs.fillCbs.map fun cb fill => (cb fill).lift

/-- Callbacks that never raise. -/
structure Subscribers.Quiet {S : Type} (subs : Subscribers S) : Prop where
  order : ∀ cb ∈ subs.orderCbs, ∀ o, (cb o).NoThrow
  fill : ∀ cb ∈ subs.fillCbs, ∀ f, (cb f).NoThrow

inductive Notification where
  | update (order : Order)
  | fill (fill : Fill)
  deriving DecidableEq, Repr

def Notification.update? : Notification → Option Order
  | .update o => some o
  | .fill _ => none

def Notification.fill? : Notification → Option Fill
  | .update _ => none
  | .fill f => some f

/-- The fills of a stream of notifications. -/
def fillsOf (ns : List Notification) : List Fill := ns.filterMap Notification.fill?

/-- The order updates of a stream of notifications. -/
def updatesOf (ns : List Notification) : List Order := ns.filterMap Notification.update?

@[simp] theorem fillsOf_append (ms ns : List Notification) :
    fillsOf (ms ++ ns) = fillsOf ms ++ fillsOf ns := List.filterMap_append
@[simp] theorem updatesOf_append (ms ns : List Notification) :
    updatesOf (ms ++ ns) = updatesOf ms ++ updatesOf ns := List.filterMap_append
@[simp] theorem fillsOf_nil : fillsOf [] = [] := rfl
@[simp] theorem updatesOf_nil : updatesOf [] = [] := rfl
@[simp] theorem fillsOf_fill (f : Fill) (ns : List Notification) :
    fillsOf (.fill f :: ns) = f :: fillsOf ns := rfl
@[simp] theorem fillsOf_update (o : Order) (ns : List Notification) :
    fillsOf (.update o :: ns) = fillsOf ns := rfl
@[simp] theorem updatesOf_fill (f : Fill) (ns : List Notification) :
    updatesOf (.fill f :: ns) = updatesOf ns := rfl
@[simp] theorem updatesOf_update (o : Order) (ns : List Notification) :
    updatesOf (.update o :: ns) = o :: updatesOf ns := rfl

/-- The order a notification is about. -/
def Notification.orderId : Notification → OrderId
  | .update o => o.orderId
  | .fill f => f.orderId

/-- The notifications about one order. -/
def concerning (oid : OrderId) (ns : List Notification) : List Notification :=
  ns.filter fun n => n.orderId = oid

/-- The fills generated for an order. -/
def fillsFor (oid : OrderId) (ns : List Notification) : List Fill :=
  (fillsOf ns).filter fun f => f.orderId = oid

/-- The fills generated for a symbol. -/
def fillsIn (symbol : Symbol) (ns : List Notification) : List Fill :=
  (fillsOf ns).filter fun f => f.symbol = symbol

@[simp] theorem concerning_append (oid : OrderId) (ms ns : List Notification) :
    concerning oid (ms ++ ns) = concerning oid ms ++ concerning oid ns := List.filter_append ..
@[simp] theorem fillsFor_append (oid : OrderId) (ms ns : List Notification) :
    fillsFor oid (ms ++ ns) = fillsFor oid ms ++ fillsFor oid ns := by simp [fillsFor]
@[simp] theorem fillsFor_update (oid : OrderId) (o : Order) : fillsFor oid [.update o] = [] := rfl
theorem fillsFor_fill (oid : OrderId) (f : Fill) (o : Order) :
    fillsFor oid [.fill f, .update o] = if f.orderId = oid then [f] else [] := by
  by_cases h : f.orderId = oid <;> simp [fillsFor, h]
theorem fillsIn_append (symbol : Symbol) (ms ns : List Notification) :
    fillsIn symbol (ms ++ ns) = fillsIn symbol ms ++ fillsIn symbol ns := by simp [fillsIn]
theorem fillsIn_fill (symbol : Symbol) (f : Fill) (o : Order) :
    fillsIn symbol [.fill f, .update o] = if f.symbol = symbol then [f] else [] := by
  by_cases h : f.symbol = symbol <;> simp [fillsIn, h]

/-- Decimal division raises where the divisor is zero. -/
def divide (num den : Decimal) : Except PyError Decimal :=
  if den = 0 then
    if num = 0 then .error ⟨"InvalidOperation", "[<class 'decimal.DivisionUndefined'>]"⟩
    else .error ⟨"DivisionByZero", "[<class 'decimal.DivisionByZero'>]"⟩
  else .ok (num / den)

def Order.newAverage (order : Order) (fill : Fill) : Except PyError Decimal :=
  match order.averageFillPrice with
  | none => .ok fill.price
  | some average =>
    divide (average * order.filledQuantity + fill.price * fill.quantity)
      (order.filledQuantity + fill.quantity)

/-- The order after `fill`: cumulative quantity, average price, status, time. The venue's
`_apply_fill_to_order` and the manager's `_on_fill` compute it by the same statements. -/
def Order.executed (order : Order) (fill : Fill) : Except PyError Order :=
  let newFilled := order.filledQuantity + fill.quantity
  (order.newAverage fill).map fun newAvg =>
    { order with
      filledQuantity := newFilled
      averageFillPrice := some newAvg
      status := if order.quantity ≤ newFilled then .filled else .partiallyFilled
      updatedAt := fill.timestamp }

theorem Order.executed_ok {order updated : Order} {fill : Fill}
    (h : order.executed fill = .ok updated) :
    ∃ newAvg, order.newAverage fill = .ok newAvg ∧
      updated = { order with
        filledQuantity := order.filledQuantity + fill.quantity
        averageFillPrice := some newAvg
        status := if order.quantity ≤ order.filledQuantity + fill.quantity then .filled
          else .partiallyFilled
        updatedAt := fill.timestamp } := by
  unfold Order.executed at h
  cases havg : order.newAverage fill with
  | error e => rw [havg] at h; cases h
  | ok newAvg => rw [havg] at h; cases h; exact ⟨newAvg, rfl, rfl⟩

section Executed

variable {order updated : Order} {fill : Fill}

theorem Order.executed_orderId (h : order.executed fill = .ok updated) :
    updated.orderId = order.orderId := by
  obtain ⟨_, -, rfl⟩ := Order.executed_ok h
  rfl

theorem Order.executed_updatedAt (h : order.executed fill = .ok updated) :
    updated.updatedAt = fill.timestamp := by
  obtain ⟨_, -, rfl⟩ := Order.executed_ok h
  rfl

theorem Order.executed_filledQuantity (h : order.executed fill = .ok updated) :
    updated.filledQuantity = order.filledQuantity + fill.quantity := by
  obtain ⟨_, -, rfl⟩ := Order.executed_ok h
  rfl

theorem Order.executed_status (h : order.executed fill = .ok updated) :
    updated.status = .filled ∨ updated.status = .partiallyFilled := by
  obtain ⟨_, -, rfl⟩ := Order.executed_ok h
  dsimp only
  split
  · exact .inl rfl
  · exact .inr rfl

end Executed

/-- The new average accounts for the old notional and for the fill. -/
theorem Order.newAverage_notional {order : Order} {fill : Fill} {newAvg : Decimal}
    (h : order.newAverage fill = .ok newAvg)
    (hnone : order.averageFillPrice = none → order.filledQuantity = 0) :
    newAvg * (order.filledQuantity + fill.quantity) =
      order.averageFillPrice.getD 0 * order.filledQuantity + fill.price * fill.quantity := by
  unfold Order.newAverage at h
  cases havg : order.averageFillPrice with
  | none =>
    rw [havg] at h
    cases h
    rw [hnone havg]
    ring
  | some average =>
    simp only [havg, divide] at h
    split at h
    · split at h <;> cases h
    · next hden =>
      cases h
      rw [div_mul_cancel₀ _ hden, Option.getD_some]

end Trading
