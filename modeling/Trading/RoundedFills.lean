import Trading.DecimalContext
import Trading.FillEngine

/-!
# Fill engines that round

The same engines with each operation on decimals in the hands of `rnd`, which makes a decimal
of its exact result or raises. The default context is the one that the program runs in.
-/
namespace Trading

namespace FillEngine

namespace Rounded

variable (rnd : Decimal → Except PyError Decimal)

def immediateTryFill (feeCurrency : String) (order : Order) (book : OrderbookSnapshot)
    (timestamp : Time) : Except PyError (Option Fill) :=
  if order.symbol ≠ book.symbol then .ok none
  else do
    let remaining ← rnd (order.quantity - order.filledQuantity)
    if remaining ≤ 0 then .ok none
    else .ok ((fillPrice order book).map fun price =>
      { orderId := order.orderId, symbol := order.symbol, side := order.side, price := price
        quantity := remaining, fee := 0, feeCurrency := feeCurrency, isMaker := false
        timestamp := timestamp })

/-- Consume successive levels up to `remaining`, from `filled` and `notional` on. -/
def walkFrom (remaining : Decimal) :
    List Level → Decimal → Decimal → Except PyError (Decimal × Decimal)
  | [], filled, notional => .ok (filled, notional)
  | level :: levels, filled, notional => do
    let left ← rnd (remaining - filled)
    let take := min left level.quantity
    let filled ← rnd (filled + take)
    let cost ← rnd (take * level.price)
    let notional ← rnd (notional + cost)
    if remaining ≤ filled then .ok (filled, notional)
    else walkFrom remaining levels filled notional

/-- The fill record, charged the maker or the taker rate. -/
def build (makerFee takerFee : Decimal) (feeCurrency : String) (order : Order)
    (price quantity : Decimal) (isMaker : Bool) (timestamp : Time) : Except PyError Fill := do
  let feeRate := if isMaker then makerFee else takerFee
  let value ← rnd (price * quantity)
  let fee ← rnd (value * feeRate)
  .ok
    { orderId := order.orderId, symbol := order.symbol, side := order.side, price := price
      quantity := quantity, fee := fee, feeCurrency := feeCurrency, isMaker := isMaker
      timestamp := timestamp }

def marketFill (makerFee takerFee : Decimal) (feeCurrency : String) (order : Order)
    (book : OrderbookSnapshot) (remaining : Decimal) (timestamp : Time) :
    Except PyError (Option Fill) := do
  let levels := if order.side = .buy then book.asks else book.bids
  let walked ← walkFrom rnd remaining levels 0 0
  if walked.1 = 0 then .ok none
  else do
    let avgPrice ← rnd (walked.2 / walked.1)
    let fill ← build rnd makerFee takerFee feeCurrency order avgPrice walked.1 false timestamp
    .ok (some fill)

def limitFill (makerFee takerFee : Decimal) (feeCurrency : String) (order : Order)
    (book : OrderbookSnapshot) (remaining : Decimal) (timestamp : Time) :
    Except PyError (Option Fill) :=
  match order.price with
  | none => .ok none
  | some price =>
    let crossed : Bool := match order.side with
      | .buy => book.bestAsk.any fun best => best.price ≤ price
      | .sell => book.bestBid.any fun best => price ≤ best.price
    if crossed then do
      let fill ← build rnd makerFee takerFee feeCurrency order price remaining true timestamp
      .ok (some fill)
    else .ok none

def orderbookTryFill (makerFee takerFee : Decimal) (feeCurrency : String) (order : Order)
    (book : OrderbookSnapshot) (timestamp : Time) : Except PyError (Option Fill) :=
  if order.symbol ≠ book.symbol then .ok none
  else do
    let remaining ← rnd (order.quantity - order.filledQuantity)
    if remaining ≤ 0 then .ok none
    else match order.type with
      | .market => marketFill rnd makerFee takerFee feeCurrency order book remaining timestamp
      | .limit => limitFill rnd makerFee takerFee feeCurrency order book remaining timestamp
      | .stopMarket | .stopLimit => .ok none

def tryFill : FillEngine → Order → OrderbookSnapshot → Time → Except PyError (Option Fill)
  | .immediate feeCurrency => immediateTryFill rnd feeCurrency
  | .orderbook makerFee takerFee feeCurrency => orderbookTryFill rnd makerFee takerFee feeCurrency

theorem bind_eq_ok {α β : Type} {x : Except PyError α} {f : α → Except PyError β} {b : β} :
    x >>= f = .ok b ↔ ∃ a, x = .ok a ∧ f a = .ok b := by
  cases x with
  | error e => simp [bind, Except.bind]
  | ok a => simp [bind, Except.bind]

section Traps

variable {rnd} {rnd' : Decimal → Except PyError Decimal}
  (hrnd : ∀ x y, rnd x = .ok y → rnd' x = .ok y)

include hrnd

theorem walkFrom_of_traps {remaining : Decimal} {levels : List Level} {filled notional : Decimal}
    {walked : Decimal × Decimal} (h : walkFrom rnd remaining levels filled notional = .ok walked) :
    walkFrom rnd' remaining levels filled notional = .ok walked := by
  induction levels generalizing filled notional with
  | nil => exact h
  | cons level levels ih =>
    simp only [walkFrom, bind_eq_ok] at h ⊢
    obtain ⟨left, hleft, filled', hfilled, cost, hcost, notional', hnotional, hrest⟩ := h
    refine ⟨left, hrnd _ _ hleft, filled', hrnd _ _ hfilled, cost, hrnd _ _ hcost, notional',
      hrnd _ _ hnotional, ?_⟩
    split at hrest
    · next hdone => rwa [if_pos hdone]
    · next hopen =>
      rw [if_neg hopen]
      exact ih hrest

theorem build_of_traps {mk tk : Decimal} {cur : String} {order : Order} {price quantity : Decimal}
    {isMaker : Bool} {now : Time} {fill : Fill}
    (h : build rnd mk tk cur order price quantity isMaker now = .ok fill) :
    build rnd' mk tk cur order price quantity isMaker now = .ok fill := by
  simp only [build, bind_eq_ok] at h ⊢
  obtain ⟨value, hvalue, fee, hfee, hfill⟩ := h
  exact ⟨value, hrnd _ _ hvalue, fee, hrnd _ _ hfee, hfill⟩

theorem marketFill_of_traps {mk tk : Decimal} {cur : String} {order : Order}
    {book : OrderbookSnapshot} {remaining : Decimal} {now : Time} {fill : Option Fill}
    (h : marketFill rnd mk tk cur order book remaining now = .ok fill) :
    marketFill rnd' mk tk cur order book remaining now = .ok fill := by
  simp only [marketFill, bind_eq_ok] at h ⊢
  obtain ⟨walked, hwalked, hrest⟩ := h
  refine ⟨walked, walkFrom_of_traps hrnd hwalked, ?_⟩
  split at hrest
  · next hnone => rwa [if_pos hnone]
  · next hsome =>
    rw [if_neg hsome]
    simp only [bind_eq_ok] at hrest ⊢
    obtain ⟨avgPrice, havgPrice, f, hf, hfill⟩ := hrest
    exact ⟨avgPrice, hrnd _ _ havgPrice, f, build_of_traps hrnd hf, hfill⟩

theorem limitFill_of_traps {mk tk : Decimal} {cur : String} {order : Order}
    {book : OrderbookSnapshot} {remaining : Decimal} {now : Time} {fill : Option Fill}
    (h : limitFill rnd mk tk cur order book remaining now = .ok fill) :
    limitFill rnd' mk tk cur order book remaining now = .ok fill := by
  rw [limitFill] at h ⊢
  cases hprice : order.price with
  | none => simpa only [hprice] using h
  | some price =>
    simp only [hprice] at h ⊢
    cases hside : order.side
    all_goals
      simp only [hside] at h ⊢
      split at h
      · next hcrossed =>
        rw [if_pos hcrossed]
        simp only [bind_eq_ok] at h ⊢
        obtain ⟨f, hf, hfill⟩ := h
        exact ⟨f, build_of_traps hrnd hf, hfill⟩
      · next hopen => rwa [if_neg hopen]

/-- Traps only raise. What is returned in spite of them is returned without them. -/
theorem tryFill_of_traps {engine : FillEngine} {order : Order} {book : OrderbookSnapshot}
    {now : Time} {fill : Option Fill} (h : tryFill rnd engine order book now = .ok fill) :
    tryFill rnd' engine order book now = .ok fill := by
  cases engine with
  | immediate cur =>
    rw [tryFill, immediateTryFill] at h ⊢
    split at h
    · next hother => rwa [if_pos hother]
    · next hsame =>
      rw [if_neg hsame]
      obtain ⟨remaining, hremaining, hrest⟩ := bind_eq_ok.mp h
      exact bind_eq_ok.mpr ⟨remaining, hrnd _ _ hremaining, hrest⟩
  | orderbook mk tk cur =>
    rw [tryFill, orderbookTryFill] at h ⊢
    split at h
    · next hother => rwa [if_pos hother]
    · next hsame =>
      rw [if_neg hsame]
      obtain ⟨remaining, hremaining, hrest⟩ := bind_eq_ok.mp h
      refine bind_eq_ok.mpr ⟨remaining, hrnd _ _ hremaining, ?_⟩
      split at hrest
      · next hdone => rwa [if_pos hdone]
      · next hopen =>
        rw [if_neg hopen]
        cases htype : order.type with
        | market =>
          simp only [htype] at hrest ⊢
          exact marketFill_of_traps hrnd hrest
        | limit =>
          simp only [htype] at hrest ⊢
          exact limitFill_of_traps hrnd hrest
        | stopMarket | stopLimit => simpa only [htype] using hrest

end Traps

/-- Where nothing is rounded, these are the exact engines. -/
theorem walkFrom_exact (remaining : Decimal) (levels : List Level) (filled notional : Decimal) :
    walkFrom .ok remaining levels filled notional =
      .ok (FillEngine.walkFrom remaining levels filled notional) := by
  induction levels generalizing filled notional with
  | nil => rfl
  | cons level levels ih =>
    change (if _ then _ else walkFrom .ok remaining levels _ _) = _
    rw [ih, FillEngine.walkFrom]
    split
    · rfl
    · rfl

theorem tryFill_exact (engine : FillEngine) (order : Order) (book : OrderbookSnapshot)
    (now : Time) : tryFill .ok engine order book now = .ok (engine.tryFill order book now) := by
  have hmarket : ∀ mk tk cur remaining, marketFill .ok mk tk cur order book remaining now =
      .ok (FillEngine.marketFill mk tk cur order book remaining now) := by
    intro mk tk cur remaining
    let walked := walk (if order.side = .buy then book.asks else book.bids) remaining
    have hwalk : walkFrom .ok remaining (if order.side = .buy then book.asks else book.bids) 0 0 =
        .ok walked := walkFrom_exact ..
    rw [marketFill, hwalk]
    by_cases hnone : walked.1 = 0
    · exact (if_pos hnone).trans (congrArg Except.ok (if_pos hnone)).symm
    · exact (if_neg hnone).trans (congrArg Except.ok (if_neg hnone)).symm
  have hlimit : ∀ mk tk cur remaining, limitFill .ok mk tk cur order book remaining now =
      .ok (FillEngine.limitFill mk tk cur order book remaining now) := by
    intro mk tk cur remaining
    rw [limitFill, FillEngine.limitFill]
    cases order.price with
    | none => rfl
    | some price =>
      exact (apply_ite Except.ok _ _ _).symm
  cases engine with
  | immediate cur =>
    rw [tryFill, FillEngine.tryFill, immediateTryFill, FillEngine.immediateTryFill]
    split
    · rfl
    · exact (apply_ite Except.ok _ _ _).symm
  | orderbook mk tk cur =>
    rw [tryFill, FillEngine.tryFill, orderbookTryFill, FillEngine.orderbookTryFill]
    split
    · rfl
    · by_cases hdone : order.quantity - order.filledQuantity ≤ 0
      · exact (if_pos hdone).trans (congrArg Except.ok (if_pos hdone)).symm
      · refine (if_neg hdone).trans (Eq.trans ?_ (congrArg Except.ok (if_neg hdone)).symm)
        cases order.type with
        | market => exact hmarket mk tk cur _
        | limit => exact hlimit mk tk cur _
        | stopMarket | stopLimit => rfl

end Rounded

end FillEngine

end Trading
