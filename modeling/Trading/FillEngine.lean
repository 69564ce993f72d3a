import Trading.Data.Greedy
import Trading.Domain

/-!
# Fill engines

`immediate` fills the whole remaining quantity at the top of the book without a
fee. `orderbook` walks the book for market orders, lets a crossed limit order
fill at its own price, and charges the taker or the maker fee.
-/
namespace Trading

open Data

inductive FillEngine where
  | immediate (feeCurrency : String)
  | orderbook (makerFee takerFee : Decimal) (feeCurrency : String)
  deriving DecidableEq, Repr

namespace FillEngine

def fillPrice (order : Order) (book : OrderbookSnapshot) : Option Decimal :=
  match order.type with
  | .market =>
    match order.side with
    | .buy => book.bestAsk.map Level.price
    | .sell => book.bestBid.map Level.price
  | .limit =>
    match order.price with
    | none => none
    | some price =>
      match order.side with
      | .buy => (book.bestAsk.filter fun ask => ask.price ≤ price).map Level.price
      | .sell => (book.bestBid.filter fun bid => price ≤ bid.price).map Level.price
  | .stopMarket | .stopLimit => none

def immediateTryFill (feeCurrency : String) (order : Order) (book : OrderbookSnapshot)
    (timestamp : Time) : Option Fill :=
  if order.symbol ≠ book.symbol then none
  else
    let remaining := order.quantity - order.filledQuantity
    if remaining ≤ 0 then none
    else (fillPrice order book).map fun price =>
      { orderId := order.orderId, symbol := order.symbol, side := order.side, price := price
        quantity := remaining, fee := 0, feeCurrency := feeCurrency, isMaker := false
        timestamp := timestamp }

/-- Consume successive levels up to `remaining`, from `filled` and `notional` on. -/
def walkFrom (remaining : Decimal) : List Level → Decimal → Decimal → Decimal × Decimal
  | [], filled, notional => (filled, notional)
  | level :: levels, filled, notional =>
    let take := min (remaining - filled) level.quantity
    let filled' := filled + take
    let notional' := notional + take * level.price
    if remaining ≤ filled' then (filled', notional') else walkFrom remaining levels filled' notional'

def walk (levels : List Level) (remaining : Decimal) : Decimal × Decimal :=
  walkFrom remaining levels 0 0

/-- The fill record, charged the maker or the taker rate. -/
def build (makerFee takerFee : Decimal) (feeCurrency : String) (order : Order)
    (price quantity : Decimal) (isMaker : Bool) (timestamp : Time) : Fill :=
  let feeRate := if isMaker then makerFee else takerFee
  { orderId := order.orderId, symbol := order.symbol, side := order.side, price := price
    quantity := quantity, fee := price * quantity * feeRate, feeCurrency := feeCurrency
    isMaker := isMaker, timestamp := timestamp }

def marketFill (makerFee takerFee : Decimal) (feeCurrency : String) (order : Order)
    (book : OrderbookSnapshot) (remaining : Decimal) (timestamp : Time) : Option Fill :=
  let levels := if order.side = .buy then book.asks else book.bids
  let (filled, notional) := walk levels remaining
  if filled = 0 then none
  else
    let avgPrice := notional / filled
    some (build makerFee takerFee feeCurrency order avgPrice filled false timestamp)

def limitFill (makerFee takerFee : Decimal) (feeCurrency : String) (order : Order)
    (book : OrderbookSnapshot) (remaining : Decimal) (timestamp : Time) : Option Fill :=
  match order.price with
  | none => none
  | some price =>
    let crossed : Bool := match order.side with
      | .buy => book.bestAsk.any fun best => best.price ≤ price
      | .sell => book.bestBid.any fun best => price ≤ best.price
    if crossed then
      some (build makerFee takerFee feeCurrency order price remaining true timestamp)
    else none

def orderbookTryFill (makerFee takerFee : Decimal) (feeCurrency : String) (order : Order)
    (book : OrderbookSnapshot) (timestamp : Time) : Option Fill :=
  if order.symbol ≠ book.symbol then none
  else
    let remaining := order.quantity - order.filledQuantity
    if remaining ≤ 0 then none
    else match order.type with
      | .market => marketFill makerFee takerFee feeCurrency order book remaining timestamp
      | .limit => limitFill makerFee takerFee feeCurrency order book remaining timestamp
      | .stopMarket | .stopLimit => none

def tryFill : FillEngine → Order → OrderbookSnapshot → Time → Option Fill
  | .immediate feeCurrency => immediateTryFill feeCurrency
  | .orderbook makerFee takerFee feeCurrency => orderbookTryFill makerFee takerFee feeCurrency

/-- A fill carries the identity of its order, whichever engine made it. -/
structure Describes (f : Fill) (order : Order) (timestamp : Time) : Prop where
  orderId : f.orderId = order.orderId
  symbol : f.symbol = order.symbol
  side : f.side = order.side
  timestamp : f.timestamp = timestamp

/-- The walk is a greedy buyer, who takes nothing more once the loop has stopped. -/
theorem walkFrom_greedy {remaining : Decimal} {levels : List Level} {filled notional : Decimal}
    (hlevels : ∀ l ∈ levels, 0 ≤ l.quantity) :
    walkFrom remaining levels filled notional =
      (filled + (greedy Level.quantity (remaining - filled) levels).sum,
        notional + cost Level.price levels (greedy Level.quantity (remaining - filled) levels)) := by
  induction levels generalizing filled notional with
  | nil => simp [walkFrom, greedy, cost]
  | cons level levels ih =>
    have hrest : ∀ l ∈ levels, 0 ≤ l.quantity :=
      fun l hl => hlevels l (List.mem_cons_of_mem level hl)
    have hcap : min (remaining - filled) level.quantity ≤ remaining - filled := min_le_left _ _
    simp only [walkFrom, greedy, cost, List.sum_cons, sub_sub, ← add_assoc]
    split
    · have hdone : remaining - (filled + min (remaining - filled) level.quantity) = 0 := by linarith
      rw [hdone, greedy_zero hrest, cost_zero]
      simp
    · rw [ih hrest]

theorem walk_greedy {remaining : Decimal} {levels : List Level}
    (hlevels : ∀ l ∈ levels, 0 ≤ l.quantity) :
    walk levels remaining = ((greedy Level.quantity remaining levels).sum,
      cost Level.price levels (greedy Level.quantity remaining levels)) := by
  rw [walk, walkFrom_greedy hlevels, sub_zero, zero_add, zero_add]

/-- A walk gets what is asked or all there is. -/
theorem walk_fst {levels : List Level} {remaining : Decimal}
    (hlevels : ∀ l ∈ levels, 0 ≤ l.quantity) (hr : 0 ≤ remaining) :
    (walk levels remaining).1 = min remaining (levels.map Level.quantity).sum := by
  rw [walk_greedy hlevels]
  exact sum_greedy hlevels hr

/-- Unless a level is negative a walk takes at least nothing and at most what is asked. -/
theorem walk_bounds {levels : List Level} {remaining : Decimal}
    (hlevels : ∀ l ∈ levels, 0 ≤ l.quantity) (hr : 0 ≤ remaining) :
    0 ≤ (walk levels remaining).1 ∧ (walk levels remaining).1 ≤ remaining := by
  rw [walk_fst hlevels hr]
  refine ⟨le_min hr (List.sum_nonneg fun q hq => ?_), min_le_left _ _⟩
  obtain ⟨l, hl, rfl⟩ := List.mem_map.mp hq
  exact hlevels l hl

theorem tryFill_describes {engine : FillEngine} {order : Order} {book : OrderbookSnapshot}
    {now : Time} {f : Fill} (h : engine.tryFill order book now = some f) :
    Describes f order now := by
  cases engine with
  | immediate cur =>
    simp only [tryFill, immediateTryFill, ite_not, Option.ite_none_right_eq_some,
      Option.ite_none_left_eq_some, Option.map_eq_some_iff] at h
    obtain ⟨-, -, price, -, rfl⟩ := h
    exact ⟨rfl, rfl, rfl, rfl⟩
  | orderbook mk tk cur =>
    simp only [tryFill, orderbookTryFill, ite_not, Option.ite_none_right_eq_some,
      Option.ite_none_left_eq_some] at h
    obtain ⟨-, -, h⟩ := h
    cases ht : order.type <;> simp only [ht, reduceCtorEq] at h
    · simp only [marketFill, Option.ite_none_left_eq_some, Option.some.injEq] at h
      obtain ⟨-, rfl⟩ := h
      exact ⟨rfl, rfl, rfl, rfl⟩
    · unfold limitFill at h
      split at h
      · cases h
      · simp only [Option.ite_none_right_eq_some, Option.some.injEq] at h
        obtain ⟨-, rfl⟩ := h
        exact ⟨rfl, rfl, rfl, rfl⟩

/-- Neither engine fills an order on the book of another symbol. -/
theorem tryFill_symbol {engine : FillEngine} {order : Order} {book : OrderbookSnapshot}
    {now : Time} {f : Fill} (h : engine.tryFill order book now = some f) :
    order.symbol = book.symbol := by
  cases engine <;>
    simp only [tryFill, immediateTryFill, orderbookTryFill, ite_not,
      Option.ite_none_right_eq_some] at h <;>
    exact h.1

/-- Unless a level of the book is negative a fill is positive and never exceeds what
the order still wants. -/
theorem tryFill_quantity {engine : FillEngine} {order : Order} {book : OrderbookSnapshot}
    {now : Time} {f : Fill} (hbook : book.NonNegative) (h : engine.tryFill order book now = some f) :
    0 < f.quantity ∧ f.quantity ≤ order.quantity - order.filledQuantity := by
  cases engine with
  | immediate cur =>
    simp only [tryFill, immediateTryFill, ite_not, Option.ite_none_right_eq_some,
      Option.ite_none_left_eq_some, Option.map_eq_some_iff, not_le] at h
    obtain ⟨-, hr, price, -, rfl⟩ := h
    exact ⟨hr, le_refl _⟩
  | orderbook mk tk cur =>
    simp only [tryFill, orderbookTryFill, ite_not, Option.ite_none_right_eq_some,
      Option.ite_none_left_eq_some, not_le] at h
    obtain ⟨-, hr, h⟩ := h
    cases ht : order.type <;> simp only [ht, reduceCtorEq] at h
    · have hlevels : ∀ l ∈ (if order.side = .buy then book.asks else book.bids),
          0 ≤ l.quantity := by
        split
        · exact hbook.2
        · exact hbook.1
      have hw := walk_bounds hlevels hr.le
      simp only [marketFill, Option.ite_none_left_eq_some, Option.some.injEq] at h
      obtain ⟨hne, rfl⟩ := h
      exact ⟨lt_of_le_of_ne hw.1 (Ne.symm hne), hw.2⟩
    · unfold limitFill at h
      split at h
      · cases h
      · simp only [Option.ite_none_right_eq_some, Option.some.injEq] at h
        obtain ⟨-, rfl⟩ := h
        exact ⟨hr, le_refl _⟩

end FillEngine

end Trading
