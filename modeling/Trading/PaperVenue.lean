import Trading.Async.Contract
import Trading.FillEngine
import Trading.PositionMath
import Trading.Venue

/-!
# The paper venue

Simulated fills over live order books. Every mutation of the venue is followed
by the loops over its callbacks, one await after another; between two awaits
any other caller may enter. `trace` is a ghost record of the notifications, in
the order in which the venue changed its state for them.
-/
namespace Trading

open Async Data

structure PaperConfig where
  fillEngine : FillEngine
  initialBalance : Decimal
  currency : String := "USDT"
  deriving DecidableEq, Repr

structure PaperVenue where
  nextOid : Nat
  openOrders : Dict OrderId Order
  allOrders : Dict OrderId Order
  positions : Dict Symbol PositionState
  latestBook : Dict Symbol OrderbookSnapshot

def PaperVenue.new : PaperVenue := ⟨0, .empty, .empty, .empty, .empty⟩

/-- The venue with its clock, its ghost trace and everything else (`env`). -/
structure PaperWorld (ε : Type) where
  clock : Clock
  venue : PaperVenue
  trace : List Notification
  env : ε

namespace PaperWorld

variable {ε : Type}

instance : Part Clock (PaperWorld ε) where
  view w := w.clock
  put c w := { w with clock := c }
  view_put _ _ := rfl
  put_view _ := rfl
  put_put _ _ _ := rfl

instance : Part PaperVenue (PaperWorld ε) where
  view w := w.venue
  put v w := { w with venue := v }
  view_put _ _ := rfl
  put_view _ := rfl
  put_put _ _ _ := rfl

/-- Everything that is neither the venue nor its clock. -/
instance : Part ε (PaperWorld ε) where
  view w := w.env
  put e w := { w with env := e }
  view_put _ _ := rfl
  put_view _ := rfl
  put_put _ _ _ := rfl

def readNow : Coro (PaperWorld ε) Time := Clock.now.lift

def readVenue : Coro (PaperWorld ε) PaperVenue := .act id fun w => .pure w.venue

/-- The world after one more reading of the clock. -/
def tick (w : PaperWorld ε) : PaperWorld ε :=
  { w with clock := { w.clock with reads := w.clock.reads + 1 } }

@[simp] theorem tick_venue (w : PaperWorld ε) : w.tick.venue = w.venue := rfl
@[simp] theorem tick_env (w : PaperWorld ε) : w.tick.env = w.env := rfl

@[simp] theorem exec_readNow (w : PaperWorld ε) :
    readNow.exec w = (w.tick, .ok (w.clock.reading w.clock.reads)) := rfl

@[simp] theorem exec_readVenue (w : PaperWorld ε) : readVenue.exec w = (w, .ok w.venue) := rfl

/-- Change the venue and note the notifications this owes to the subscribers. -/
def record (f : PaperVenue → PaperVenue) (owed : List Notification) :
    Coro (PaperWorld ε) Unit :=
  Co.modify fun w => { w with venue := f w.venue, trace := w.trace ++ owed }

end PaperWorld

namespace PaperVenue

open PaperWorld

/-- The `n`-th id the venue assigns. -/
def paperOid (n : Nat) : OrderId := s!"paper-{n}"

theorem paperOid_inj {m n : Nat} (h : paperOid m = paperOid n) : m = n := by
  have hrepr : m.repr = n.repr := by simpa [paperOid] using h
  rw [← @Nat.ofDigitChars_ten_toDigits m, ← Nat.toList_repr, hrepr, Nat.toList_repr,
    Nat.ofDigitChars_ten_toDigits]

def wouldCrossImmediately (request : OrderRequest) (book : OrderbookSnapshot) : Bool :=
  match request.price with
  | none => false
  | some price =>
    match request.side with
    | .buy => book.bestAsk.any fun ask => ask.price ≤ price
    | .sell => book.bestBid.any fun bid => price ≤ bid.price

/-- POST_ONLY orders that would cross a known book are rejected at submission. -/
def initialStatus (v : PaperVenue) (request : OrderRequest) : OrderStatus :=
  if request.timeInForce = .postOnly ∧
      (v.latestBook.get request.symbol).any (wouldCrossImmediately request) then .rejected
  else .acked

def newOrder (request : OrderRequest) (oid : OrderId) (status : OrderStatus) (now : Time) :
    Order :=
  { orderId := oid, clientOrderId := request.clientOrderId, symbol := request.symbol
    side := request.side, type := request.type, quantity := request.quantity
    filledQuantity := 0, price := request.price, averageFillPrice := none, status := status
    timeInForce := request.timeInForce, reduceOnly := request.reduceOnly
    createdAt := now, updatedAt := now }

/-- Enter a new order, open only if it was accepted. -/
def enter (order : Order) (v : PaperVenue) : PaperVenue :=
  { v with
    allOrders := v.allOrders.set order.orderId order
    openOrders := if order.status = .acked then v.openOrders.set order.orderId order
      else v.openOrders }

def position (v : PaperVenue) (symbol : Symbol) : PositionState :=
  (v.positions.get symbol).getD {}

/-- Store an executed order and the position its fill leads to. -/
def store (updated : Order) (fill : Fill) (v : PaperVenue) : PaperVenue :=
  { v with
    openOrders := if updated.status = .filled then v.openOrders.pop updated.orderId
      else v.openOrders.set updated.orderId updated
    allOrders := v.allOrders.set updated.orderId updated
    positions := v.positions.set fill.symbol ((v.position fill.symbol).applyFill fill).newState }

theorem position_store (updated : Order) (fill : Fill) (v : PaperVenue) (symbol : Symbol) :
    (store updated fill v).position symbol =
      if symbol = fill.symbol then ((v.position fill.symbol).applyFill fill).newState
      else v.position symbol := by
  unfold position store
  rw [Dict.get_set]
  split <;> rfl

def remove (oid : OrderId) (cancelled : Order) (v : PaperVenue) : PaperVenue :=
  { v with openOrders := v.openOrders.pop oid, allOrders := v.allOrders.set oid cancelled }

def observe (snapshot : OrderbookSnapshot) (v : PaperVenue) : PaperVenue :=
  { v with latestBook := v.latestBook.set snapshot.symbol snapshot }

section Interface

variable {ε : Type} (cfg : PaperConfig) (subs : Subscribers (PaperWorld ε))

def notifyOrder (order : Order) : Coro (PaperWorld ε) Unit :=
  Co.forEach subs.orderCbs fun cb => cb order

def notifyFill (fill : Fill) : Coro (PaperWorld ε) Unit :=
  Co.forEach subs.fillCbs fun cb => cb fill

/-- Fills are announced before the order update that includes them. -/
def applyFillToOrder (order : Order) (fill : Fill) : Coro (PaperWorld ε) Unit := do
  let updated ← Co.ofExcept (order.executed fill)
  record (store updated fill) [.fill fill, .update updated]
  notifyFill subs fill
  notifyOrder subs updated

def tryFillOrder (oid : OrderId) (snapshot : OrderbookSnapshot) : Coro (PaperWorld ε) Unit := do
  let v ← readVenue
  match v.openOrders.get oid with
  | none => pure ()
  | some order =>
    let time ← readNow
    match cfg.fillEngine.tryFill order snapshot time with
    | none => pure ()
    | some fill => applyFillToOrder subs order fill

/-- The attempt to fill an accepted order against the latest book. -/
def tryFillLatest (order : Order) : Coro (PaperWorld ε) Unit := do
  let v ← readVenue
  match v.latestBook.get order.symbol with
  | none => pure ()
  | some book => tryFillOrder cfg subs order.orderId book

def placeOrder (request : OrderRequest) : Coro (PaperWorld ε) OrderId := do
  record (fun v => { v with nextOid := v.nextOid + 1 }) []
  let v ← readVenue
  let oid := paperOid v.nextOid
  let time ← readNow
  let order := newOrder request oid (v.initialStatus request) time
  record (enter order) [.update order]
  notifyOrder subs order
  if order.status = .acked then tryFillLatest cfg subs order else pure ()
  pure oid

def cancelOrder (oid : OrderId) : Coro (PaperWorld ε) Bool := do
  let v ← readVenue
  match v.openOrders.get oid with
  | none => pure false
  | some order =>
    let time ← readNow
    let cancelled := { order with status := .cancelled, updatedAt := time }
    record (remove oid cancelled) [.update cancelled]
    notifyOrder subs cancelled
    pure true

def getOrder (oid : OrderId) : Coro (PaperWorld ε) (Option Order) := do
  let v ← readVenue
  pure (v.allOrders.get oid)

def getOpenOrders (symbol : Option Symbol) : Coro (PaperWorld ε) (List Order) := do
  let v ← readVenue
  pure (v.openOrders.values.filter fun o => symbol.all fun s => o.symbol = s)

/-- The ids are read once; the dict may change while the loop awaits callbacks. -/
def onOrderbook (snapshot : OrderbookSnapshot) : Coro (PaperWorld ε) Unit := do
  record (observe snapshot) []
  let v ← readVenue
  let ids := (v.openOrders.entries.filter fun e => e.2.symbol = snapshot.symbol).map Prod.fst
  Co.forEach ids fun oid => tryFillOrder cfg subs oid snapshot

def markPrice (v : PaperVenue) (symbol : Symbol) (fallback : Decimal) : Decimal :=
  match v.latestBook.get symbol with
  | none => fallback
  | some book =>
    match book.bestBid, book.bestAsk with
    | some bid, some ask => (bid.price + ask.price) / 2
    | some bid, none => bid.price
    | none, some ask => ask.price
    | none, none => fallback

def unrealizedPnl (v : PaperVenue) (symbol : Symbol) (state : PositionState) : Decimal :=
  let mark := v.markPrice symbol state.entryPrice
  if 0 < state.netQty then (mark - state.entryPrice) * state.netQty
  else (state.entryPrice - mark) * |state.netQty|

def buildPosition (symbol : Symbol) (state : PositionState) : Coro (PaperWorld ε) Position := do
  let v ← readVenue
  let mark := v.markPrice symbol state.entryPrice
  let side := if 0 < state.netQty then PositionSide.long else .short
  let qty := |state.netQty|
  let unrealized := if side = .long then (mark - state.entryPrice) * qty
    else (state.entryPrice - mark) * qty
  let time ← readNow
  pure
    { symbol := symbol, side := side, quantity := qty, entryPrice := state.entryPrice
      markPrice := mark, unrealizedPnl := unrealized, realizedPnl := state.realizedPnl
      leverage := 1, liquidationPrice := none, updatedAt := time }

/-- The positions of the given entries, flat ones omitted. -/
def buildPositions : List (Symbol × PositionState) → Coro (PaperWorld ε) (List Position)
  | [] => pure []
  | (symbol, state) :: rest =>
    if state.netQty = 0 then buildPositions rest
    else do
      let position ← buildPosition symbol state
      let positions ← buildPositions rest
      pure (position :: positions)

def getPositions : Coro (PaperWorld ε) (List Position) := do
  let v ← readVenue
  buildPositions v.positions.entries

def totalRealized (v : PaperVenue) : Decimal := v.positions.total fun _ s => s.realizedPnl

def totalUnrealized (v : PaperVenue) : Decimal :=
  v.positions.total fun symbol s => if s.netQty = 0 then 0 else v.unrealizedPnl symbol s

def getBalance : Coro (PaperWorld ε) Balance := do
  let v ← readVenue
  let total := cfg.initialBalance + v.totalRealized + v.totalUnrealized
  let time ← readNow
  pure
    { currency := cfg.currency, total := total, available := total, marginUsed := 0
      updatedAt := time }

def asVenue : Venue (PaperWorld ε) where
  placeOrder := placeOrder cfg subs
  cancelOrder := cancelOrder subs
  getOrder := getOrder
  getOpenOrders := getOpenOrders
  getPositions := getPositions
  getBalance := getBalance cfg

end Interface

end PaperVenue

/-- What callers and the market data feed may start at any moment. -/
inductive PaperOp where
  | placeOrder (request : OrderRequest)
  | cancelOrder (oid : OrderId)
  | onOrderbook (snapshot : OrderbookSnapshot)
  deriving DecidableEq, Repr

def PaperOp.prog {ε : Type} (cfg : PaperConfig) (subs : Subscribers (PaperWorld ε)) :
    PaperOp → Coro (PaperWorld ε) Unit
  | .placeOrder request => (PaperVenue.placeOrder cfg subs request).bind fun _ => .pure ()
  | .cancelOrder oid => (PaperVenue.cancelOrder subs oid).bind fun _ => .pure ()
  | .onOrderbook snapshot => PaperVenue.onOrderbook cfg subs snapshot

end Trading
