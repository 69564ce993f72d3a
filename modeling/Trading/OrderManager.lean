import Trading.OrderJournal

/-!
# The order manager

A cache of the venue's orders, fed by both notification streams and mirrored
into a journal. The cache is written before the journal by an order update and
after the first journal write by a fill.
-/
namespace Trading

open Async Data

/-- The cache and the journal's state. `received` is a ghost record of the
order updates in the order in which they were handed over. -/
structure OrderManager (J : Type) where
  orders : Dict OrderId Order
  journal : J
  received : List Order

namespace OrderManager

variable {J : Type}

instance : Part J (OrderManager J) where
  view m := m.journal
  put j m := { m with journal := j }
  view_put _ _ := rfl
  put_view _ := rfl
  put_put _ _ _ := rfl

def new (j : J) : OrderManager J := ⟨.empty, j, []⟩

/-- Authoritative state from the venue: overwrite the cache, then journal it. -/
def onOrderUpdate (journal : OrderJournal J) (order : Order) : Coro (OrderManager J) Unit := do
  Co.modify fun m =>
    { m with orders := m.orders.set order.orderId order, received := m.received ++ [order] }
  (journal.writeOrder order).lift

/-- Journal the fill, then execute it on whatever the cache holds by now. -/
def onFill (journal : OrderJournal J) (fill : Fill) : Coro (OrderManager J) Unit := do
  (journal.writeFill fill).lift
  let m ← Co.get
  match m.orders.get fill.orderId with
  | none => pure ()
  | some order =>
    let updated ← Co.ofExcept (order.executed fill)
    Co.modify fun m => { m with orders := m.orders.set fill.orderId updated }
    (journal.writeOrder updated).lift

/-- Restore the cache from the journal. -/
def start (journal : OrderJournal J) : Coro (OrderManager J) Unit := do
  let openOrders ← (journal.readOpenOrders none).lift
  Co.modify fun m => { m with orders := .ofList Order.orderId openOrders }

def getOrder (oid : OrderId) : Coro (OrderManager J) (Option Order) := do
  let m ← Co.get
  pure (m.orders.get oid)

/-- The cached orders that are not terminal. -/
def live (m : OrderManager J) (symbol : Option Symbol) : List Order :=
  m.orders.values.filter fun o => !o.status.isTerminal && symbol.all fun s => o.symbol = s

def openOrders (symbol : Option Symbol) : Coro (OrderManager J) (List Order) := do
  let m ← Co.get
  pure (m.live symbol)

/-- The request and the audit order that a submission builds from its intent. -/
def request (cid : ClientOrderId) (intent : TradeIntent) : OrderRequest :=
  { symbol := intent.symbol, side := intent.side, type := intent.type
    quantity := intent.quantity, clientOrderId := cid, price := intent.price
    timeInForce := intent.timeInForce, reduceOnly := intent.reduceOnly }

def submittedOrder (oid : OrderId) (cid : ClientOrderId) (intent : TradeIntent)
    (submittedAt : Time) : Order :=
  { orderId := oid, clientOrderId := cid, symbol := intent.symbol, side := intent.side
    type := intent.type, quantity := intent.quantity, filledQuantity := 0
    price := intent.price, averageFillPrice := none, status := .submitted
    timeInForce := intent.timeInForce, reduceOnly := intent.reduceOnly
    createdAt := submittedAt, updatedAt := submittedAt }

/-- Journal the submission, and cache it unless a callback already cached the order. -/
def recordSubmission (journal : OrderJournal J) (order : Order) : Coro (OrderManager J) Unit := do
  (journal.writeOrder order).lift
  Co.modify fun m => { m with orders := m.orders.setDefault order.orderId order }

section Venue

variable {W : Type} [Part Clock W] [Part (OrderManager J) W] (venue : Venue W)
  (journal : OrderJournal J)

/-- The submission time is read before the venue is asked; `cid` is the id the
factory hands out. -/
def submit (cid : ClientOrderId) (intent : TradeIntent) : Coro W SubmitResult := do
  let submittedAt ← Clock.now.lift
  let placed ← (venue.placeOrder (request cid intent)).caught
  match placed with
  | .error exc => pure (.submissionFailed exc.message true)
  | .ok oid =>
    (recordSubmission journal (submittedOrder oid cid intent submittedAt)).lift
    pure (.submitted oid cid)

/-- A submission whose placement returns goes on to record it. -/
theorem exec_submit_placed {venue : Venue W} {cid : ClientOrderId} {intent : TradeIntent}
    {w w₁ w₂ : W} {submittedAt : Time} {oid : OrderId}
    (hnow : (Clock.now.lift : Coro W Time).exec w = (w₁, .ok submittedAt))
    (hplace : (venue.placeOrder (request cid intent)).exec w₁ = (w₂, .ok oid)) :
    (submit venue journal cid intent).exec w =
      (((recordSubmission journal (submittedOrder oid cid intent submittedAt)).lift :
        Coro W Unit).bind fun _ => .pure (.submitted oid cid)).exec w₂ := by
  rw [submit, Co.bind_eq, Co.exec_bind_ok hnow, Co.bind_eq,
    Co.exec_bind_ok (Co.exec_caught_ok hplace)]
  rfl

def cancel (oid : OrderId) : Coro W Bool := venue.cancelOrder oid

/-- One cancel request after another; the count is of those the venue confirms. -/
def cancelEach : List Order → Nat → Coro W Nat
  | [], count => pure count
  | order :: orders, count => do
    let done ← venue.cancelOrder order.orderId
    cancelEach orders (if done then count + 1 else count)

def cancelAll (symbol : Option Symbol) : Coro W Nat := do
  let orders ← (openOrders symbol : Coro (OrderManager J) (List Order)).lift
  cancelEach venue orders 0

end Venue

/-- `onFill` on one cached order, if there is one; a failed division leaves it. -/
def fillCached (fill : Fill) (cached : Option Order) : Option Order :=
  cached.map fun order =>
    match order.executed fill with
    | .ok updated => updated
    | .error _ => order

@[simp] theorem put_orders (j : J) (m : OrderManager J) :
    (Part.put j m : OrderManager J).orders = m.orders := rfl

theorem exec_onOrderUpdate_get (journal : OrderJournal J) (order : Order) (m : OrderManager J)
    (oid : OrderId) :
    ((onOrderUpdate journal order).exec m).1.orders.get oid =
      if oid = order.orderId then some order else m.orders.get oid := by
  simp only [onOrderUpdate, Co.bind_eq, Co.exec_bind, Co.exec_modify, Co.exec_lift, put_orders,
    Dict.get_set]

theorem exec_onFill_get {journal : OrderJournal J} (hj : journal.Reliable) (fill : Fill)
    (m : OrderManager J) (oid : OrderId) :
    ((onFill journal fill).exec m).1.orders.get oid =
      if oid = fill.orderId then fillCached fill (m.orders.get oid) else m.orders.get oid := by
  obtain ⟨a, hwrite⟩ := (hj.writeFill fill).exec m.journal
  have hview : (Part.view m : J) = m.journal := rfl
  have hexec : ((journal.writeFill fill).lift : Coro (OrderManager J) Unit).exec m =
      ({ m with journal := ((journal.writeFill fill).exec m.journal).1 }, .ok a) := by
    rw [Co.exec_lift, hview, hwrite]
    rfl
  rw [onFill, Co.bind_eq, Co.exec_bind_ok hexec]
  simp only [Co.bind_eq, Co.exec_bind, Co.exec_get]
  by_cases h : oid = fill.orderId
  · subst h
    rw [if_pos rfl]
    cases hget : m.orders.get fill.orderId with
    | none => simpa [fillCached] using hget
    | some order =>
      cases hex : order.executed fill with
      | error e => simpa [fillCached, Co.ofExcept, hex] using hget
      | ok updated => simp [fillCached, Co.ofExcept, hex, Co.exec_bind]
  · rw [if_neg h]
    cases hget : m.orders.get fill.orderId with
    | none => rfl
    | some order =>
      cases hex : order.executed fill with
      | error e => simp [Co.ofExcept, hex]
      | ok updated => simp [Co.ofExcept, hex, Co.exec_bind, Dict.get_set, h]

theorem mem_live {m : OrderManager J} {o : Order} :
    o ∈ m.live none ↔ (∃ oid, m.orders.get oid = some o) ∧ o.status.isTerminal = false := by
  simp [live, Dict.mem_values]

end OrderManager

end Trading
