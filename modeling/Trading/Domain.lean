import Mathlib.Data.Rat.Defs
import Trading.Async.Coroutine
import Trading.Data.Dict

/-!
# Domain value objects

Decimals are rationals; what an operation rounds is a matter of its context. A timestamp is
the number of microseconds since 1970 in UTC, so comparing timestamps is comparing integers.
-/
namespace Trading

abbrev Decimal := ℚ
abbrev Time := Int
abbrev Symbol := String
abbrev OrderId := String
abbrev ClientOrderId := String

/-- A raised exception: its class and the text `str` gives for it. -/
structure PyError where
  type : String
  message : String
  deriving DecidableEq, Repr

/-- Whether `except Exception` catches it: a cancellation and the requests to exit are
no `Exception`. -/
def PyError.isException (exc : PyError) : Bool :=
  exc.type ∉ ["BaseException", "BaseExceptionGroup", "CancelledError", "GeneratorExit",
    "KeyboardInterrupt", "SystemExit"]

instance : Async.Catchable PyError := ⟨PyError.isException⟩

/-- `datetime.min` and `datetime.max`: the years 1 to 9999. -/
def Time.min : Time := -62135596800000000

def Time.max : Time := 253402300799999999

def Time.InRange (t : Time) : Prop := Time.min ≤ t ∧ t ≤ Time.max

instance : DecidablePred Time.InRange := fun _ => inferInstanceAs (Decidable (_ ∧ _))

/-- `datetime` plus or minus `timedelta`. -/
def Time.checked (t : Time) : Except PyError Time :=
  if Time.InRange t then .ok t else .error ⟨"OverflowError", "date value out of range"⟩

/-- An `async def` over the state `W`. -/
abbrev Coro (W α : Type) := Async.Co W PyError α

inductive OrderSide where
  | buy | sell
  deriving DecidableEq, Repr

inductive OrderType where
  | market | limit | stopMarket | stopLimit
  deriving DecidableEq, Repr

inductive TimeInForce where
  | gtc | ioc | fok | postOnly
  deriving DecidableEq, Repr

inductive OrderStatus where
  | submitted | acked | partiallyFilled | filled | cancelled | rejected | expired | failed
  deriving DecidableEq, Repr

structure TradeIntent where
  symbol : Symbol
  side : OrderSide
  type : OrderType
  quantity : Decimal
  price : Option Decimal := none
  timeInForce : TimeInForce := .gtc
  reduceOnly : Bool := false
  deriving DecidableEq, Repr

structure OrderRequest where
  symbol : Symbol
  side : OrderSide
  type : OrderType
  quantity : Decimal
  clientOrderId : ClientOrderId
  price : Option Decimal := none
  timeInForce : TimeInForce := .gtc
  reduceOnly : Bool := false
  deriving DecidableEq, Repr

structure Order where
  orderId : OrderId
  clientOrderId : ClientOrderId
  symbol : Symbol
  side : OrderSide
  type : OrderType
  quantity : Decimal
  filledQuantity : Decimal
  price : Option Decimal
  averageFillPrice : Option Decimal
  status : OrderStatus
  timeInForce : TimeInForce
  reduceOnly : Bool
  createdAt : Time
  updatedAt : Time
  deriving DecidableEq, Repr

/-- A single (partial or full) execution of an order. -/
structure Fill where
  orderId : OrderId
  symbol : Symbol
  side : OrderSide
  price : Decimal
  quantity : Decimal
  fee : Decimal
  feeCurrency : String
  isMaker : Bool
  timestamp : Time
  deriving DecidableEq, Repr

/-- The quantity of a fill with the sign of its side. -/
def Fill.signed (f : Fill) : Decimal :=
  if f.side = .buy then f.quantity else -f.quantity

inductive SubmitResult where
  | submitted (orderId : OrderId) (clientOrderId : ClientOrderId)
  | riskRejected (reason : String) (breakerName : Option String)
  | venueRejected (reason : String)
  | submissionFailed (reason : String) (isRetryable : Bool)
  deriving DecidableEq, Repr

structure Level where
  price : Decimal
  quantity : Decimal
  deriving DecidableEq, Repr

structure OrderbookSnapshot where
  symbol : Symbol
  bids : List Level
  asks : List Level
  sequence : Int
  timestamp : Time
  deriving DecidableEq, Repr

namespace OrderbookSnapshot

def bestBid (b : OrderbookSnapshot) : Option Level := b.bids.head?

def bestAsk (b : OrderbookSnapshot) : Option Level := b.asks.head?

/-- Every level of the book offers a positive quantity. -/
def Positive (b : OrderbookSnapshot) : Prop :=
  (∀ l ∈ b.bids, 0 < l.quantity) ∧ ∀ l ∈ b.asks, 0 < l.quantity

/-- No level of the book offers a negative quantity. -/
def NonNegative (b : OrderbookSnapshot) : Prop :=
  (∀ l ∈ b.bids, 0 ≤ l.quantity) ∧ ∀ l ∈ b.asks, 0 ≤ l.quantity

theorem Positive.nonNegative {b : OrderbookSnapshot} (h : b.Positive) : b.NonNegative :=
  ⟨fun l hl => Rat.le_of_lt (h.1 l hl), fun l hl => Rat.le_of_lt (h.2 l hl)⟩

end OrderbookSnapshot

inductive PositionSide where
  | long | short | flat
  deriving DecidableEq, Repr

structure Position where
  symbol : Symbol
  side : PositionSide
  quantity : Decimal
  entryPrice : Decimal
  markPrice : Decimal
  unrealizedPnl : Decimal
  realizedPnl : Decimal
  leverage : Decimal
  liquidationPrice : Option Decimal
  updatedAt : Time
  deriving DecidableEq, Repr

structure Balance where
  currency : String
  total : Decimal
  available : Decimal
  marginUsed : Decimal
  updatedAt : Time
  deriving DecidableEq, Repr

/-- A clock is the sequence of its readings and how many were taken. -/
structure Clock where
  reading : Nat → Time
  reads : Nat

/-- `clock.now()`: take the next reading. -/
def Clock.now : Coro Clock Time :=
  .act (fun c => { c with reads := c.reads + 1 }) fun c => .pure (c.reading c.reads)

/-- Readings may repeat but never go back. -/
def Clock.Monotone (c : Clock) : Prop := ∀ m n, m ≤ n → c.reading m ≤ c.reading n

end Trading
