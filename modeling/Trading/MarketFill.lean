import Mathlib.Order.Bounds.Basic
import Trading.FillSource

/-!
# The best a market order can get

From a sorted book the walk takes what costs a buyer least and what brings a seller
most. The larger the order, the worse its average price.
-/
namespace Trading

open Data

/-- The levels an order of side `side` trades against. -/
def OrderbookSnapshot.opposite (book : OrderbookSnapshot) (side : OrderSide) : List Level :=
  if side = .buy then book.asks else book.bids

theorem OrderbookSnapshot.visible_eq (book : OrderbookSnapshot) (side : OrderSide) :
    book.visible side = ((book.opposite side).map Level.quantity).sum := rfl

namespace OrderSide

/-- An amount of money as a trader of the side loses it. -/
def outlay : OrderSide → Decimal → Decimal
  | .buy, amount => amount
  | .sell, amount => -amount

/-- A trader of the side would as soon have the first price as the second. -/
def NoWorse : OrderSide → Decimal → Decimal → Prop
  | .buy, p, q => p ≤ q
  | .sell, p, q => q ≤ p

instance (side : OrderSide) (p q : Decimal) : Decidable (side.NoWorse p q) :=
  match side with
  | .buy => inferInstanceAs (Decidable (p ≤ q))
  | .sell => inferInstanceAs (Decidable (q ≤ p))

theorem noWorse_iff {side : OrderSide} {p q : Decimal} :
    side.NoWorse p q ↔ side.outlay p ≤ side.outlay q := by
  cases side with
  | buy => rfl
  | sell => exact neg_le_neg_iff.symm

theorem NoWorse.refl {side : OrderSide} (p : Decimal) : side.NoWorse p p :=
  noWorse_iff.mpr (le_refl _)

theorem outlay_div (side : OrderSide) (p q : Decimal) :
    side.outlay (p / q) = side.outlay p / q := by
  cases side with
  | buy => rfl
  | sell => exact (neg_div q p).symm

theorem cost_outlay (side : OrderSide) (levels : List Level) (takes : List Decimal) :
    cost (fun l => side.outlay l.price) levels takes = side.outlay (cost Level.price levels takes) := by
  cases side with
  | buy => rfl
  | sell => exact cost_neg

end OrderSide

/-- What an amount can cost when it is taken from the levels in any way they allow. -/
def notionals (levels : List Level) (quantity : Decimal) : Set Decimal :=
  { n | ∃ takes, Allocation Level.quantity levels takes ∧ takes.sum = quantity ∧
    cost Level.price levels takes = n }

namespace FillEngine

section Market

variable {mk tk : Decimal} {cur : String} {order : Order} {book : OrderbookSnapshot}
  {remaining : Decimal} {now : Time} {f : Fill}

/-- The takes of a market order, level by level. -/
def marketTakes (order : Order) (book : OrderbookSnapshot) (remaining : Decimal) : List Decimal :=
  greedy Level.quantity remaining (book.opposite order.side)

theorem marketFill_eq (hlevels : ∀ l ∈ book.opposite order.side, 0 ≤ l.quantity) :
    marketFill mk tk cur order book remaining now =
      if (marketTakes order book remaining).sum = 0 then none
      else some (build mk tk cur order
        (cost Level.price (book.opposite order.side) (marketTakes order book remaining) /
          (marketTakes order book remaining).sum)
        (marketTakes order book remaining).sum false now) := by
  have hwalk : walk (if order.side = .buy then book.asks else book.bids) remaining =
      ((marketTakes order book remaining).sum,
        cost Level.price (book.opposite order.side) (marketTakes order book remaining)) :=
    walk_greedy hlevels
  rw [marketFill, hwalk]

theorem marketFill_some (hlevels : ∀ l ∈ book.opposite order.side, 0 ≤ l.quantity)
    (h : marketFill mk tk cur order book remaining now = some f) :
    (marketTakes order book remaining).sum ≠ 0 ∧
      f.quantity = (marketTakes order book remaining).sum ∧
      f.price = cost Level.price (book.opposite order.side) (marketTakes order book remaining) /
        (marketTakes order book remaining).sum := by
  rw [marketFill_eq hlevels, Option.ite_none_left_eq_some, Option.some.injEq] at h
  obtain ⟨hne, rfl⟩ := h
  exact ⟨hne, rfl, rfl⟩

theorem sum_marketTakes (hlevels : ∀ l ∈ book.opposite order.side, 0 ≤ l.quantity)
    (hremaining : 0 ≤ remaining) :
    (marketTakes order book remaining).sum = min remaining (book.visible order.side) :=
  sum_greedy hlevels hremaining

/-- A level that offers something is something to take. -/
theorem sum_marketTakes_pos (hlevels : ∀ l ∈ book.opposite order.side, 0 < l.quantity)
    (hremaining : 0 < remaining) :
    0 < (marketTakes order book remaining).sum ↔ book.opposite order.side ≠ [] := by
  rw [sum_marketTakes (fun l hl => (hlevels l hl).le) hremaining.le, lt_min_iff]
  constructor
  · rintro ⟨-, hvisible⟩ hnone
    rw [book.visible_eq, hnone] at hvisible
    exact lt_irrefl 0 hvisible
  · intro hsome
    rw [book.visible_eq]
    refine ⟨hremaining, List.sum_pos _ (fun q hq => ?_) ?_⟩
    · obtain ⟨l, hl, rfl⟩ := List.mem_map.mp hq
      exact hlevels l hl
    · simpa using hsome

theorem marketFill_eq_none (hlevels : ∀ l ∈ book.opposite order.side, 0 < l.quantity)
    (hremaining : 0 < remaining) :
    marketFill mk tk cur order book remaining now = none ↔ book.opposite order.side = [] := by
  have hnonneg : 0 ≤ (marketTakes order book remaining).sum := by
    rw [sum_marketTakes (fun l hl => (hlevels l hl).le) hremaining.le]
    refine le_min hremaining.le (List.sum_nonneg fun q hq => ?_)
    obtain ⟨l, hl, rfl⟩ := List.mem_map.mp hq
    exact (hlevels l hl).le
  rw [marketFill_eq fun l hl => (hlevels l hl).le]
  by_cases hsome : book.opposite order.side = []
  · simp [marketTakes, hsome, greedy]
  · have hpos := (sum_marketTakes_pos hlevels hremaining).mpr hsome
    simp [hpos.ne', hsome]

section Sorted

variable (hsorted : (book.opposite order.side).Pairwise fun l m =>
    order.side.NoWorse l.price m.price)
  (hlevels : ∀ l ∈ book.opposite order.side, 0 < l.quantity)

include hsorted

theorem sorted_outlay : (book.opposite order.side).Pairwise fun l m =>
    order.side.outlay l.price ≤ order.side.outlay m.price :=
  hsorted.imp fun h => OrderSide.noWorse_iff.mp h

include hlevels

/-- No way to take what the walk takes is better for the trader. -/
theorem marketTakes_best {takes : List Decimal}
    (htakes : Allocation Level.quantity (book.opposite order.side) takes)
    (hsum : takes.sum = (marketTakes order book remaining).sum) :
    order.side.NoWorse
      (cost Level.price (book.opposite order.side) (marketTakes order book remaining))
      (cost Level.price (book.opposite order.side) takes) := by
  rw [OrderSide.noWorse_iff, ← OrderSide.cost_outlay, ← OrderSide.cost_outlay]
  exact cost_greedy_le (fun l hl => (hlevels l hl).le) (sorted_outlay hsorted) htakes hsum

theorem marketFill_price_mono {more : Decimal} {f' : Fill} (hremaining : 0 < remaining)
    (hmore : remaining ≤ more) (h : marketFill mk tk cur order book remaining now = some f)
    (h' : marketFill mk tk cur order book more now = some f') :
    order.side.NoWorse f.price f'.price := by
  have hnonneg : ∀ l ∈ book.opposite order.side, 0 ≤ l.quantity := fun l hl => (hlevels l hl).le
  obtain ⟨hne, -, hprice⟩ := marketFill_some hnonneg h
  obtain ⟨-, -, hprice'⟩ := marketFill_some hnonneg h'
  have hpos : 0 < (marketTakes order book remaining).sum := by
    refine (sum_marketTakes_pos hlevels hremaining).mpr fun hnone => hne ?_
    rw [marketTakes, hnone]
    rfl
  rw [hprice, hprice', OrderSide.noWorse_iff, OrderSide.outlay_div, OrderSide.outlay_div,
    ← OrderSide.cost_outlay, ← OrderSide.cost_outlay]
  exact average_greedy_mono hnonneg (sorted_outlay hsorted) hremaining.le hmore hpos

end Sorted

/-- A market order takes all it can and takes it in the best way there is, the cheapest
for a buyer and the dearest for a seller. A larger order trades at no better an average. -/
theorem market_fill_optimal (mk tk : Decimal) (cur : String) (order : Order)
    (book : OrderbookSnapshot) (remaining : Decimal) (now : Time)
    (hlevels : ∀ l ∈ book.opposite order.side, 0 < l.quantity)
    (hsorted : (book.opposite order.side).Pairwise fun l m => order.side.NoWorse l.price m.price)
    (hremaining : 0 < remaining) :
    (marketFill mk tk cur order book remaining now = none ↔ book.opposite order.side = []) ∧
      ∀ f, marketFill mk tk cur order book remaining now = some f →
        f.quantity = min remaining (book.visible order.side) ∧
          (order.side = .buy → IsLeast (notionals book.asks f.quantity) (f.price * f.quantity)) ∧
          (order.side = .sell →
            IsGreatest (notionals book.bids f.quantity) (f.price * f.quantity)) ∧
          ∀ more f', remaining ≤ more → marketFill mk tk cur order book more now = some f' →
            order.side.NoWorse f.price f'.price := by
  have hnonneg : ∀ l ∈ book.opposite order.side, 0 ≤ l.quantity := fun l hl => (hlevels l hl).le
  refine ⟨marketFill_eq_none hlevels hremaining, fun f h => ?_⟩
  obtain ⟨hne, hquantity, hprice⟩ := marketFill_some hnonneg h
  have hnotional : f.price * f.quantity =
      cost Level.price (book.opposite order.side) (marketTakes order book remaining) := by
    rw [hprice, hquantity, div_mul_cancel₀ _ hne]
  have hmem : f.price * f.quantity ∈ notionals (book.opposite order.side) f.quantity :=
    ⟨_, greedy_allocation hnonneg hremaining.le, hquantity.symm, hnotional.symm⟩
  have hbest : ∀ n ∈ notionals (book.opposite order.side) f.quantity,
      order.side.NoWorse (f.price * f.quantity) n := by
    rintro n ⟨takes, htakes, hsum, rfl⟩
    rw [hnotional]
    exact marketTakes_best hsorted hlevels htakes (hsum.trans hquantity)
  refine ⟨hquantity.trans (sum_marketTakes hnonneg hremaining.le), ?_, ?_, ?_⟩
  · intro hside
    simp only [OrderbookSnapshot.opposite, hside, if_true] at hmem hbest
    exact ⟨hmem, hbest⟩
  · intro hside
    simp only [OrderbookSnapshot.opposite, hside, reduceCtorEq, if_false] at hmem hbest
    exact ⟨hmem, hbest⟩
  · intro more f' hmore h'
    exact marketFill_price_mono hsorted hlevels hremaining hmore h h'

end Market

def threeAsked : OrderbookSnapshot := ⟨"BTC", [], [⟨100, 1⟩, ⟨101, 2⟩], 0, 0⟩

def buyOrder (quantity : Decimal) : Order :=
  ⟨"paper-1", "a", "BTC", .buy, .market, quantity, 0, none, none, .acked, .gtc, false, 0, 0⟩

theorem market_fill_optimal_three :
    ∃ f, marketFill 0 0 "USDT" (buyOrder 2) threeAsked 2 0 = some f ∧ f.quantity = 2 ∧
      f.price * f.quantity = 201 ∧
        IsLeast (notionals threeAsked.asks f.quantity) (f.price * f.quantity) := by
  have hfill : marketFill 0 0 "USDT" (buyOrder 2) threeAsked 2 0 =
      some ⟨"paper-1", "BTC", .buy, 201 / 2, 2, 0, "USDT", false, 0⟩ := by decide +kernel
  have hbest := (market_fill_optimal 0 0 "USDT" (buyOrder 2) threeAsked 2 0 (by decide)
    (by simp [threeAsked, buyOrder, OrderbookSnapshot.opposite, OrderSide.NoWorse]; norm_num)
    (by decide)).2 _ hfill
  exact ⟨_, hfill, rfl, by norm_num, hbest.2.1 rfl⟩

end FillEngine

end Trading
