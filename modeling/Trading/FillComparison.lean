import Trading.MarketFill
import Trading.RoundedFills

/-!
# The two engines side by side

Both engines fill the same orders on the same books. The order book engine gives a market
order no more and at no better a price, but for what is rounded on the way, and it takes a
limit order at its word where the immediate engine improves on it.
-/
namespace Trading

open Data

/-- Asks ascend, bids descend, and every level has something to offer. -/
structure OrderbookSnapshot.Sorted (book : OrderbookSnapshot) : Prop where
  asks : book.asks.Pairwise fun l m => l.price ≤ m.price
  bids : book.bids.Pairwise fun l m => m.price ≤ l.price
  positive : book.Positive

namespace OrderbookSnapshot

/-- The best level of the opposite side, if it is at the limit or better. -/
def crossing (book : OrderbookSnapshot) (side : OrderSide) (limit : Decimal) : Option Level :=
  (book.opposite side).head?.filter fun best => side.NoWorse best.price limit

namespace Sorted

variable {book : OrderbookSnapshot}

theorem opposite (h : book.Sorted) (side : OrderSide) :
    (book.opposite side).Pairwise fun l m => side.NoWorse l.price m.price := by
  cases side with
  | buy => exact h.asks
  | sell => exact h.bids

theorem quantities (h : book.Sorted) (side : OrderSide) :
    ∀ l ∈ book.opposite side, 0 < l.quantity := by
  cases side with
  | buy => exact h.positive.2
  | sell => exact h.positive.1

/-- The first level is the best one. -/
theorem best (h : book.Sorted) {side : OrderSide} {best : Level}
    (hbest : (book.opposite side).head? = some best) :
    ∀ l ∈ book.opposite side, side.NoWorse best.price l.price := by
  obtain ⟨levels, hlevels⟩ := List.head?_eq_some_iff.mp hbest
  have hsorted := h.opposite side
  rw [hlevels] at hsorted ⊢
  intro l hl
  cases List.mem_cons.mp hl with
  | inl h =>
    rw [h, OrderSide.noWorse_iff]
  | inr h => exact List.rel_of_pairwise_cons hsorted h

end Sorted

end OrderbookSnapshot

namespace FillEngine

variable {mk tk : Decimal} {cur : String} {order : Order} {book : OrderbookSnapshot}
  {limit remaining : Decimal} {now : Time}

theorem fillPrice_market (htype : order.type = .market) :
    fillPrice order book = (book.opposite order.side).head?.map Level.price := by
  unfold fillPrice OrderbookSnapshot.opposite
  cases hside : order.side <;> simp [htype, OrderbookSnapshot.bestAsk, OrderbookSnapshot.bestBid]

theorem fillPrice_limit (htype : order.type = .limit) (hlimit : order.price = some limit) :
    fillPrice order book = (book.crossing order.side limit).map Level.price := by
  unfold fillPrice OrderbookSnapshot.crossing OrderbookSnapshot.opposite
  cases hside : order.side <;> simp only [htype, hlimit] <;> rfl

theorem limitFill_eq (hlimit : order.price = some limit) :
    limitFill mk tk cur order book remaining now = (book.crossing order.side limit).map fun _ =>
      build mk tk cur order limit remaining true now := by
  unfold limitFill OrderbookSnapshot.crossing OrderbookSnapshot.opposite
  cases hside : order.side with
  | buy =>
    cases hbest : book.asks.head? with
    | none => simp [hlimit, OrderbookSnapshot.bestAsk, hbest]
    | some best =>
      by_cases hle : best.price ≤ limit <;>
        simp [hlimit, OrderbookSnapshot.bestAsk, hbest, OrderSide.NoWorse, Option.filter, hle]
  | sell =>
    cases hbest : book.bids.head? with
    | none => simp [hlimit, OrderbookSnapshot.bestBid, hbest]
    | some best =>
      by_cases hle : limit ≤ best.price <;>
        simp [hlimit, OrderbookSnapshot.bestBid, hbest, OrderSide.NoWorse, Option.filter, hle]

/-- An order is looked at when it wants something on this book. -/
def Wants (order : Order) (book : OrderbookSnapshot) : Prop :=
  order.symbol = book.symbol ∧ 0 < order.quantity - order.filledQuantity

theorem tryFill_wants {engine : FillEngine} {f : Fill}
    (h : engine.tryFill order book now = some f) : Wants order book := by
  cases engine <;>
    simp only [tryFill, immediateTryFill, orderbookTryFill, ite_not, Option.ite_none_right_eq_some,
      Option.ite_none_left_eq_some, not_le] at h <;>
    exact ⟨h.1, h.2.1⟩

theorem immediate_eq (hwants : Wants order book) :
    (FillEngine.immediate cur).tryFill order book now = (fillPrice order book).map fun price =>
      { orderId := order.orderId, symbol := order.symbol, side := order.side, price := price
        quantity := order.quantity - order.filledQuantity, fee := 0, feeCurrency := cur
        isMaker := false, timestamp := now } := by
  simp only [tryFill, immediateTryFill]
  rw [if_neg (not_not.mpr hwants.1), if_neg (not_le.mpr hwants.2)]

theorem orderbook_eq (hwants : Wants order book) :
    (FillEngine.orderbook mk tk cur).tryFill order book now =
      match order.type with
      | .market => marketFill mk tk cur order book (order.quantity - order.filledQuantity) now
      | .limit => limitFill mk tk cur order book (order.quantity - order.filledQuantity) now
      | .stopMarket | .stopLimit => none := by
  simp only [tryFill, orderbookTryFill]
  cases order.type <;>
    exact (if_neg (not_not.mpr hwants.1)).trans (if_neg (not_le.mpr hwants.2))

end FillEngine

namespace OrderSide

variable {side : OrderSide} {p q r u : Decimal}

/-- An amount off by the proportion `u` at most, as the trader would have it. -/
def tilt : OrderSide → Decimal → Decimal
  | .buy, u => 1 - u
  | .sell, u => 1 + u

/-- What a turn of the walk can gain, in proportion: money is rounded the trader's way, and
the quantity the other way. -/
def drift (side : OrderSide) (u : Decimal) : Decimal := side.tilt u / side.tilt (-u)

/-- What a walk over `n` levels can gain, with the division for the average price. -/
def slack (side : OrderSide) (u : Decimal) (n : Nat) : Decimal := side.tilt u ^ 2 * side.drift u ^ n

theorem NoWorse.trans (h : side.NoWorse p q) (h' : side.NoWorse q r) : side.NoWorse p r :=
  noWorse_iff.mpr (le_trans (noWorse_iff.mp h) (noWorse_iff.mp h'))

theorem NoWorse.mul (hr : 0 ≤ r) (h : side.NoWorse p q) : side.NoWorse (p * r) (q * r) := by
  cases side with
  | buy => exact mul_le_mul_of_nonneg_right h hr
  | sell => exact mul_le_mul_of_nonneg_right h hr

theorem NoWorse.div (hr : 0 < r) (h : side.NoWorse (p * r) q) : side.NoWorse p (q / r) := by
  cases side with
  | buy => exact (le_div_iff₀ hr).mpr h
  | sell => exact (div_le_iff₀ hr).mpr h

section Range

variable (side) (hu : 0 ≤ u) (hu' : u < 1)

include hu hu'

theorem tilt_pos : 0 < side.tilt u ∧ 0 < side.tilt (-u) := by
  cases side with
  | buy =>
    simp only [tilt]
    exact ⟨by linarith, by linarith⟩
  | sell =>
    simp only [tilt]
    exact ⟨by linarith, by linarith⟩

theorem drift_pos : 0 < side.drift u := div_pos (tilt_pos side hu hu').1 (tilt_pos side hu hu').2

/-- What is gained in some turns is no less than what is gained in none. -/
theorem drift_pow_noWorse (n : Nat) : side.NoWorse (side.drift u ^ n) 1 := by
  have hpos := drift_pos side hu hu'
  cases side with
  | buy =>
    refine pow_le_one₀ hpos.le ((div_le_one (tilt_pos _ hu hu').2).mpr ?_)
    simp only [tilt]
    linarith
  | sell =>
    refine one_le_pow₀ ((one_le_div (tilt_pos _ hu hu').2).mpr ?_)
    simp only [tilt]
    linarith

theorem slack_noWorse (n : Nat) : side.NoWorse (side.slack u n) 1 := by
  have htilt : side.NoWorse (side.tilt u ^ 2) 1 := by
    cases side with
    | buy => exact pow_le_one₀ (tilt_pos .buy hu hu').1.le (sub_le_self 1 hu)
    | sell => exact one_le_pow₀ (le_add_of_nonneg_right hu)
  have hdrift := (drift_pow_noWorse side hu hu' n).mul (pow_pos (tilt_pos side hu hu').1 2).le
  rw [one_mul, mul_comm] at hdrift
  exact hdrift.trans htilt

end Range

@[simp] theorem slack_zero (n : Nat) : side.slack 0 n = 1 := by
  cases side with
  | buy => simp [slack, drift, tilt]
  | sell => simp [slack, drift, tilt]

end OrderSide

namespace RoundsWithin

variable {u x y : Decimal} {rnd : Decimal → Except PyError Decimal} (h : RoundsWithin u rnd)
  (side : OrderSide) (hx : 0 ≤ x) (hy : rnd x = .ok y)

include h hx hy

theorem noWorse : side.NoWorse (side.tilt u * x) y := by
  cases side with
  | buy => exact h.ge hx hy
  | sell => exact h.le hx hy

theorem noBetter : side.NoWorse y (side.tilt (-u) * x) := by
  cases side with
  | buy =>
    simp only [OrderSide.tilt, sub_neg_eq_add]
    exact h.le hx hy
  | sell =>
    simp only [OrderSide.tilt, ← sub_eq_add_neg]
    exact h.ge hx hy

end RoundsWithin

namespace FillEngine

variable {mk tk : Decimal} {cur cur' : String} {order : Order} {book : OrderbookSnapshot}
  {remaining limit : Decimal} {now : Time} {u : Decimal} {rnd : Decimal → Except PyError Decimal}

/-- A turn of the walk: if the money so far is no better than so much a piece, it still is,
but for the drift. -/
theorem noWorse_turn {side : OrderSide} (hu : 0 ≤ u) (hu' : u < 1)
    {s best price filled take notional cost filled' notional' : Decimal} (hs : 0 ≤ s)
    (htilt : side.NoWorse s (side.tilt u)) (hbest : 0 ≤ best) (hprice : side.NoWorse best price)
    (htake : 0 ≤ take) (hmoney : side.NoWorse (s * best * filled) notional)
    (hcost : side.NoWorse (side.tilt u * (take * price)) cost)
    (hnotional : side.NoWorse (side.tilt u * (notional + cost)) notional')
    (hfilled : side.NoWorse filled' (side.tilt (-u) * (filled + take))) :
    side.NoWorse (s * side.drift u * best * filled') notional' := by
  obtain ⟨hpos, hneg⟩ := OrderSide.tilt_pos side hu hu'
  have hdrift := OrderSide.drift_pos side hu hu'
  have hpiece : side.NoWorse (s * best * take) cost := by
    have hbetter : side.NoWorse (s * best * take) (side.tilt u * best * take) :=
      (htilt.mul hbest).mul htake
    have hrise : side.NoWorse (side.tilt u * best * take) (side.tilt u * (take * price)) := by
      rw [show side.tilt u * best * take = best * (side.tilt u * take) by ring,
        show side.tilt u * (take * price) = price * (side.tilt u * take) by ring]
      exact hprice.mul (mul_nonneg hpos.le htake)
    exact (hbetter.trans hrise).trans hcost
  have hsum : side.NoWorse (s * best * (filled + take)) (notional + cost) := by
    rw [mul_add]
    cases side with
    | buy => exact add_le_add hmoney hpiece
    | sell => exact add_le_add hmoney hpiece
  have hscale : s * side.drift u * best * (side.tilt (-u) * (filled + take)) =
      s * best * (filled + take) * side.tilt u := by
    rw [OrderSide.drift]
    field_simp
  have hgain := hfilled.mul (r := s * side.drift u * best)
    (mul_nonneg (mul_nonneg hs hdrift.le) hbest)
  rw [mul_comm filled', mul_comm (side.tilt (-u) * _), hscale] at hgain
  have htotal := hsum.mul hpos.le
  rw [mul_comm (notional + cost)] at htotal
  exact (hgain.trans htotal).trans hnotional

section Walk

variable (hrnd : RoundsWithin u rnd) (hu : 0 ≤ u) (hu' : u < 1)

include hrnd hu hu'

omit hu' in
/-- What was left is rounded once, and once more as it is added. -/
theorem filled_le {filled left quantity filled' : Decimal} (hfilled : 0 ≤ filled)
    (hopen : filled < remaining) (hquantity : 0 ≤ min left quantity)
    (hleft : rnd (remaining - filled) = .ok left)
    (hround : rnd (filled + min left quantity) = .ok filled') :
    filled' ≤ remaining * (1 + u) ^ 2 := by
  have hwant : left ≤ (1 + u) * (remaining - filled) := hrnd.le (by linarith) hleft
  have hmin : min left quantity ≤ left := min_le_left _ _
  calc filled' ≤ (1 + u) * (filled + min left quantity) := hrnd.le (by linarith) hround
    _ ≤ (1 + u) * (filled + (1 + u) * (remaining - filled)) :=
        mul_le_mul_of_nonneg_left (by linarith) (by linarith)
    _ ≤ (1 + u) * ((1 + u) * remaining) :=
        mul_le_mul_of_nonneg_left (by linarith [mul_nonneg hu hfilled]) (by linarith)
    _ = remaining * (1 + u) ^ 2 := by ring

/-- A turn of the walk over a level gets something, for money that is no better than before,
but for the drift. -/
theorem level_noWorse {side : OrderSide} {best : Decimal} (hbest : 0 ≤ best) {level : Level}
    (hlevel : 0 < level.quantity ∧ 0 < level.price ∧ side.NoWorse best level.price)
    {s filled notional left filled' cost notional' : Decimal} (hs : 0 ≤ s)
    (htilt : side.NoWorse s (side.tilt u)) (hfilled : 0 ≤ filled) (hopen : filled < remaining)
    (hnotional : 0 ≤ notional) (hmoney : side.NoWorse (s * best * filled) notional)
    (hleft : rnd (remaining - filled) = .ok left)
    (hround : rnd (filled + min left level.quantity) = .ok filled')
    (hcost : rnd (min left level.quantity * level.price) = .ok cost)
    (hsum : rnd (notional + cost) = .ok notional') :
    0 < filled' ∧ filled' ≤ remaining * (1 + u) ^ 2 ∧ 0 ≤ notional' ∧
      side.NoWorse (s * side.drift u * best * filled') notional' := by
  obtain ⟨hquantity, hprice, hworse⟩ := hlevel
  have hleft_pos : 0 < left :=
    lt_of_lt_of_le (mul_pos (by linarith) (by linarith)) (hrnd.ge (by linarith) hleft)
  have htake : 0 < min left level.quantity := lt_min hleft_pos hquantity
  have hpaid : 0 ≤ min left level.quantity * level.price := mul_nonneg htake.le hprice.le
  have hcost_nonneg : 0 ≤ cost :=
    le_trans (mul_nonneg (by linarith) hpaid) (hrnd.ge hpaid hcost)
  refine ⟨?_, filled_le hrnd hu hfilled hopen htake.le hleft hround, ?_, ?_⟩
  · exact lt_of_lt_of_le (mul_pos (by linarith) (by linarith)) (hrnd.ge (by linarith) hround)
  · exact le_trans (mul_nonneg (by linarith) (by linarith)) (hrnd.ge (by linarith) hsum)
  · exact noWorse_turn hu hu' hs htilt hbest hworse htake.le hmoney
      (hrnd.noWorse side hpaid hcost) (hrnd.noWorse side (by linarith) hsum)
      (hrnd.noBetter side (by linarith) hround)

/-- The walk gets something wherever there is something, no more than what is asked for, and
at no better than the best price, but for the rounding. -/
theorem walkFrom_noWorse {side : OrderSide} {best : Decimal} (hbest : 0 ≤ best)
    {levels : List Level} (hlevels : ∀ l ∈ levels,
      0 < l.quantity ∧ 0 < l.price ∧ side.NoWorse best l.price)
    {s filled notional : Decimal} (hs : 0 ≤ s) (htilt : side.NoWorse s (side.tilt u))
    (hfilled : 0 ≤ filled) (hopen : filled < remaining) (hnotional : 0 ≤ notional)
    (hmoney : side.NoWorse (s * best * filled) notional) {walked : Decimal × Decimal}
    (h : Rounded.walkFrom rnd remaining levels filled notional = .ok walked) :
    (levels = [] ∧ walked.1 = filled ∨ 0 < walked.1) ∧ walked.1 ≤ remaining * (1 + u) ^ 2 ∧
      0 ≤ walked.2 ∧ side.NoWorse (s * side.drift u ^ levels.length * best * walked.1) walked.2 := by
  have hdrift := OrderSide.drift_pos side hu hu'
  induction levels generalizing s filled notional with
  | nil =>
    cases h
    refine ⟨.inl ⟨rfl, rfl⟩, ?_, hnotional, by simpa using hmoney⟩
    have hscale : (1 : Decimal) ≤ (1 + u) ^ 2 := one_le_pow₀ (le_add_of_nonneg_right hu)
    exact le_trans hopen.le (le_mul_of_one_le_right (lt_of_le_of_lt hfilled hopen).le hscale)
  | cons level levels ih =>
    simp only [Rounded.walkFrom, Rounded.bind_eq_ok] at h
    obtain ⟨left, hleft, filled', hround, cost, hcost, notional', hsum, hrest⟩ := h
    obtain ⟨hfilled', hbound, hnotional', hmoney'⟩ := level_noWorse hrnd hu hu' hbest
      (hlevels level List.mem_cons_self) hs htilt hfilled hopen hnotional hmoney hleft hround hcost
      hsum
    have hlast : s * side.drift u ^ (level :: levels).length =
        s * side.drift u * side.drift u ^ levels.length := by
      rw [List.length_cons, pow_succ]
      ring
    split at hrest
    · cases hrest
      refine ⟨.inr hfilled', hbound, hnotional', ?_⟩
      rw [hlast]
      have hturns := (OrderSide.drift_pow_noWorse side hu hu' levels.length).mul
        (r := s * side.drift u * best * filled')
        (mul_nonneg (mul_nonneg (mul_nonneg hs hdrift.le) hbest) hfilled'.le)
      rw [one_mul, show side.drift u ^ levels.length * (s * side.drift u * best * filled') =
        s * side.drift u * side.drift u ^ levels.length * best * filled' by ring] at hturns
      exact hturns.trans hmoney'
    · next hmore =>
      have hkeep : side.NoWorse (s * side.drift u) (side.tilt u) := by
        have hturn := (OrderSide.drift_pow_noWorse side hu hu' 1).mul hs
        rw [pow_one, one_mul, mul_comm] at hturn
        exact hturn.trans htilt
      obtain ⟨hgot, hbound, hsum', hend⟩ := ih (fun l hl => hlevels l (List.mem_cons_of_mem level hl))
        (mul_nonneg hs hdrift.le) hkeep hfilled'.le (not_le.mp hmore) hnotional' hmoney' hrest
      refine ⟨.inr ?_, hbound, hsum', hlast ▸ hend⟩
      rcases hgot with ⟨-, hsame⟩ | hpos
      · rw [hsame]
        exact hfilled'
      · exact hpos

/-- A market order trades on average at no better than the top of the book, but for the
rounding, and gets nothing only where there is nothing. -/
theorem marketFill_noWorse (hbook : book.Sorted) (hremaining : 0 < remaining)
    (hprices : ∀ l ∈ book.opposite order.side, 0 < l.price) {fill : Option Fill}
    (h : Rounded.marketFill rnd mk tk cur order book remaining now = .ok fill) :
    ((book.opposite order.side).head? = none ∧ fill = none) ∨
      ∃ best f, (book.opposite order.side).head? = some best ∧ fill = some f ∧
        f.quantity ≤ remaining * (1 + u) ^ 2 ∧ order.side.NoWorse
          (best.price * order.side.slack u (book.opposite order.side).length) f.price := by
  rw [Rounded.marketFill, Rounded.bind_eq_ok] at h
  obtain ⟨walked, hwalk, hrest⟩ := h
  change Rounded.walkFrom rnd remaining (book.opposite order.side) 0 0 = .ok walked at hwalk
  cases hbest : (book.opposite order.side).head? with
  | none =>
    rw [List.head?_eq_none_iff.mp hbest, Rounded.walkFrom] at hwalk
    cases hwalk
    rw [if_pos rfl] at hrest
    cases hrest
    exact .inl ⟨rfl, rfl⟩
  | some best =>
    have hhead : best ∈ book.opposite order.side := List.mem_of_mem_head? hbest
    obtain ⟨htilt, -⟩ := OrderSide.tilt_pos order.side hu hu'
    have hstart : order.side.NoWorse (order.side.tilt u * best.price * 0) 0 := by
      rw [mul_zero]
      exact .refl 0
    obtain ⟨hgot, hquantity, hnonneg, hmoney⟩ := walkFrom_noWorse hrnd hu hu' (hprices best hhead).le
      (fun l hl => ⟨hbook.quantities order.side l hl, hprices l hl, hbook.best hbest l hl⟩)
      htilt.le (.refl _) le_rfl hremaining le_rfl hstart hwalk
    have hpos : 0 < walked.1 := hgot.resolve_left fun hnone => List.ne_nil_of_mem hhead hnone.1
    rw [if_neg hpos.ne', Rounded.bind_eq_ok] at hrest
    obtain ⟨avgPrice, havgPrice, hrest⟩ := hrest
    obtain ⟨f, hbuild, hfill⟩ := Rounded.bind_eq_ok.mp hrest
    simp only [Rounded.build, Rounded.bind_eq_ok] at hbuild
    obtain ⟨_, -, _, -, hf⟩ := hbuild
    cases hfill
    cases hf
    refine .inr ⟨best, _, rfl, rfl, hquantity, ?_⟩
    have haverage := (hmoney.div hpos).mul htilt.le
    rw [mul_comm (walked.2 / walked.1)] at haverage
    have hprice := haverage.trans
      (hrnd.noWorse order.side (div_nonneg hnonneg hpos.le) havgPrice)
    rw [OrderSide.slack, show best.price * (order.side.tilt u ^ 2 *
        order.side.drift u ^ (book.opposite order.side).length) = order.side.tilt u *
          order.side.drift u ^ (book.opposite order.side).length * best.price * order.side.tilt u by
      ring]
    exact hprice

end Walk

/-- The first fill of the order is no more and at no better a price than the second, but for
rounding errors of the proportion `u`. -/
structure NoBetterWithin (u : Decimal) (order : Order) (book : OrderbookSnapshot) (f g : Fill) :
    Prop where
  quantity : f.quantity ≤ g.quantity * (1 + u) ^ 2
  price : order.side.NoWorse
    (g.price * order.side.slack u (book.opposite order.side).length) f.price
  limit : order.type = .limit → f.quantity = g.quantity ∧ order.side.NoWorse g.price f.price ∧
    ∃ limit, order.price = some limit ∧ order.side.NoWorse f.price limit ∧
      order.side.NoWorse g.price limit

/-- A limit order gets what it wants at its own price, or at the best one. -/
theorem limitFill_crossing (hlimit : order.price = some limit) {fill : Option Fill}
    (h : Rounded.limitFill rnd mk tk cur order book remaining now = .ok fill) :
    (book.crossing order.side limit = none ∧ fill = none) ∨
      ∃ best f, book.crossing order.side limit = some best ∧ fill = some f ∧
        f.quantity = remaining ∧ f.price = limit := by
  have hcrossed : (book.crossing order.side limit).isSome =
      (book.opposite order.side).head?.any fun best => order.side.NoWorse best.price limit :=
    Option.isSome_filter ..
  have hend : (if (book.crossing order.side limit).isSome then do
      let fill ← Rounded.build rnd mk tk cur order limit remaining true now
      .ok (some fill)
    else .ok none) = Except.ok fill := by
    rw [hcrossed, ← h, Rounded.limitFill, hlimit]
    unfold OrderbookSnapshot.opposite
    cases order.side with
    | buy => rfl
    | sell => rfl
  cases hbest : book.crossing order.side limit with
  | none =>
    rw [hbest, if_neg (by simp)] at hend
    cases hend
    exact .inl ⟨rfl, rfl⟩
  | some best =>
    rw [hbest, if_pos Option.isSome_some, Rounded.bind_eq_ok] at hend
    obtain ⟨f, hbuild, hfill⟩ := hend
    simp only [Rounded.build, Rounded.bind_eq_ok] at hbuild
    obtain ⟨_, -, _, -, hf⟩ := hbuild
    cases hfill
    cases hf
    exact .inr ⟨best, _, rfl, rfl, rfl, rfl⟩

variable (cur') in
/-- What the order still wants is worked out first, and alike. -/
theorem tryFill_wanted {careful : Option Fill}
    (h : Rounded.tryFill rnd (.orderbook mk tk cur) order book now = .ok careful) :
    (careful = none ∧ ∃ optimistic, optimistic = none ∧
      Rounded.tryFill rnd (.immediate cur') order book now = .ok optimistic) ∨
    ∃ remaining, 0 < remaining ∧
      (Rounded.tryFill rnd (.immediate cur') order book now =
        .ok ((fillPrice order book).map fun price =>
          { orderId := order.orderId, symbol := order.symbol, side := order.side, price := price
            quantity := remaining, fee := 0, feeCurrency := cur', isMaker := false
            timestamp := now })) ∧
      (match order.type with
        | .market => Rounded.marketFill rnd mk tk cur order book remaining now
        | .limit => Rounded.limitFill rnd mk tk cur order book remaining now
        | .stopMarket | .stopLimit => .ok none) = .ok careful := by
  rw [Rounded.tryFill, Rounded.orderbookTryFill] at h
  rw [Rounded.tryFill, Rounded.immediateTryFill]
  split at h
  · next hother =>
    cases h
    exact .inl ⟨rfl, none, rfl, if_pos hother⟩
  · next hsame =>
    rw [if_neg hsame]
    obtain ⟨remaining, hremaining, hrest⟩ := Rounded.bind_eq_ok.mp h
    rw [hremaining]
    split at hrest
    · next hdone =>
      cases hrest
      exact .inl ⟨rfl, none, rfl, if_pos hdone⟩
    · next hopen => exact .inr ⟨remaining, not_le.mp hopen, if_neg hopen, hrest⟩

variable (cur') in
theorem tryFill_noBetterWithin (hrnd : RoundsWithin u rnd) (hu : 0 ≤ u) (hu' : u < 1)
    (hbook : book.Sorted) (hprices : ∀ l ∈ book.opposite order.side, 0 < l.price)
    {careful : Option Fill}
    (h : Rounded.tryFill rnd (.orderbook mk tk cur) order book now = .ok careful) :
    ∃ optimistic, Rounded.tryFill rnd (.immediate cur') order book now = .ok optimistic ∧
      Option.Rel (NoBetterWithin u order book) careful optimistic := by
  rcases tryFill_wanted cur' h with
    ⟨rfl, _, rfl, hnone⟩ | ⟨remaining, hremaining, himmediate, horderbook⟩
  · exact ⟨none, hnone, .none⟩
  · refine ⟨_, himmediate, ?_⟩
    cases htype : order.type with
    | market =>
      rw [htype] at horderbook
      rw [fillPrice_market htype]
      rcases marketFill_noWorse hrnd hu hu' hbook hremaining hprices horderbook with
        ⟨hhead, rfl⟩ | ⟨best, f, hhead, rfl, hquantity, hprice⟩
      · rw [hhead]
        exact .none
      · rw [hhead]
        refine .some ⟨hquantity, hprice, fun hlimit => ?_⟩
        rw [htype] at hlimit
        cases hlimit
    | limit =>
      rw [htype] at horderbook
      cases hlimit : order.price with
      | none =>
        have hprice : fillPrice order book = none := by simp [fillPrice, htype, hlimit]
        have hfill : careful = none := by simpa [Rounded.limitFill, hlimit] using horderbook.symm
        rw [hprice, hfill]
        exact .none
      | some limit =>
        rw [fillPrice_limit htype hlimit]
        rcases limitFill_crossing hlimit horderbook with
          ⟨hcrossing, rfl⟩ | ⟨best, f, hcrossing, rfl, hquantity, hprice⟩
        · rw [hcrossing]
          exact .none
        · obtain ⟨hhead, hcrossed⟩ := Option.filter_eq_some_iff.mp hcrossing
          have hbetter : order.side.NoWorse best.price limit := of_decide_eq_true hcrossed
          have hpos := hprices best (List.mem_of_mem_head? hhead)
          have hslack := (OrderSide.slack_noWorse order.side hu hu'
            (book.opposite order.side).length).mul hpos.le
          rw [one_mul, mul_comm] at hslack
          rw [hcrossing]
          refine .some ⟨?_, hprice ▸ hslack.trans hbetter, fun _ =>
            ⟨hquantity, hprice ▸ hbetter, limit, hlimit, hprice ▸ .refl _, hbetter⟩⟩
          rw [hquantity]
          exact le_mul_of_one_le_right hremaining.le (one_le_pow₀ (le_add_of_nonneg_right hu))
    | stopMarket | stopLimit =>
      rw [htype] at horderbook
      cases horderbook
      have hprice : fillPrice order book = none := by simp [fillPrice, htype]
      rw [hprice]
      exact .none

/-- Wherever the order book engine returns, it fills what the immediate engine fills. Without
subnormal results on the way it fills no more of it and at no better a price than rounding
errors can explain, and without any rounding it is no better at all. A limit order is never
filled at worse than its limit. -/
theorem more_optimistic_by_rounding (mk tk : Decimal) (cur cur' : String) (order : Order)
    (book : OrderbookSnapshot) (now : Time) (hbook : book.Sorted)
    (hprices : ∀ l ∈ book.bids ++ book.asks, 0 < l.price) (careful : Option Fill) :
    let returned := fun engine => Rounded.tryFill Decimal.context engine order book now
    (Rounded.tryFill Decimal.normally (.orderbook mk tk cur) order book now = .ok careful →
      returned (.orderbook mk tk cur) = .ok careful ∧
        ∃ optimistic, returned (.immediate cur') = .ok optimistic ∧
          (careful.isSome ↔ optimistic.isSome) ∧ ∀ f g, careful = some f → optimistic = some g →
            NoBetterWithin decimalFormat.unit order book f g) ∧
    (Rounded.tryFill Decimal.exactly (.orderbook mk tk cur) order book now = .ok careful →
      returned (.orderbook mk tk cur) = .ok careful ∧
        ∃ optimistic, returned (.immediate cur') = .ok optimistic ∧
          (careful.isSome ↔ optimistic.isSome) ∧ ∀ f g, careful = some f → optimistic = some g →
            f.quantity ≤ g.quantity ∧ order.side.NoWorse g.price f.price ∧
              (order.type = .limit → f.quantity = g.quantity ∧
                ∃ limit, order.price = some limit ∧ order.side.NoWorse f.price limit ∧
                  order.side.NoWorse g.price limit)) := by
  intro returned
  have hopposite : ∀ l ∈ book.opposite order.side, 0 < l.price := by
    intro l hl
    apply hprices
    unfold OrderbookSnapshot.opposite at hl
    split at hl
    · exact List.mem_append_right _ hl
    · exact List.mem_append_left _ hl
  have hcompare : ∀ {u rnd}, RoundsWithin u rnd → 0 ≤ u → u < 1 →
      Rounded.tryFill rnd (.orderbook mk tk cur) order book now = .ok careful →
      returned (.orderbook mk tk cur) = .ok careful ∧
        ∃ optimistic, returned (.immediate cur') = .ok optimistic ∧
          (careful.isSome ↔ optimistic.isSome) ∧ ∀ f g, careful = some f → optimistic = some g →
            NoBetterWithin u order book f g := by
    intro u rnd hrnd hu hu' h
    obtain ⟨optimistic, hoptimistic, hrel⟩ :=
      tryFill_noBetterWithin cur' hrnd hu hu' hbook hopposite h
    refine ⟨Rounded.tryFill_of_traps hrnd.context h, optimistic,
      Rounded.tryFill_of_traps hrnd.context hoptimistic, ?_, ?_⟩
    · cases hrel with
      | none => rfl
      | some _ => rfl
    · rintro f g rfl rfl
      cases hrel with
      | some hno => exact hno
  refine ⟨hcompare roundsWithin_normally decimalFormat.unit_nonneg decimalFormat.unit_lt_one,
    fun h => ?_⟩
  obtain ⟨hcareful, optimistic, hoptimistic, hsame, hno⟩ :=
    hcompare roundsWithin_exactly le_rfl zero_lt_one h
  refine ⟨hcareful, optimistic, hoptimistic, hsame, fun f g hf hg => ?_⟩
  have hbetter := hno f g hf hg
  have hquantity := hbetter.quantity
  have hprice := hbetter.price
  rw [add_zero, one_pow, mul_one] at hquantity
  rw [OrderSide.slack_zero, mul_one] at hprice
  exact ⟨hquantity, hprice, fun htype =>
    ⟨(hbetter.limit htype).1, (hbetter.limit htype).2.2⟩⟩

/-- Half of it at 100 and half of it at 101, and a third of it at 100 and the rest at 101. -/
theorem more_optimistic_by_rounding_three :
    (∃ f g, Rounded.tryFill Decimal.context (.orderbook 0 0 "USDT") (buyOrder 2) threeAsked 0 =
        .ok (some f) ∧
      Rounded.tryFill Decimal.context (.immediate "USDT") (buyOrder 2) threeAsked 0 = .ok (some g) ∧
        f.quantity ≤ g.quantity ∧ g.price ≤ f.price) ∧
    ∃ f g, Rounded.tryFill Decimal.context (.orderbook 0 0 "USDT") (buyOrder 3) threeAsked 0 =
        .ok (some f) ∧
      Rounded.tryFill Decimal.context (.immediate "USDT") (buyOrder 3) threeAsked 0 = .ok (some g) ∧
        NoBetterWithin decimalFormat.unit (buyOrder 3) threeAsked f g := by
  have hbook : threeAsked.Sorted := by
    refine ⟨?_, List.Pairwise.nil, ?_⟩
    · simp [threeAsked]
      norm_num
    · simp [threeAsked, OrderbookSnapshot.Positive]
  have hprices : ∀ l ∈ threeAsked.bids ++ threeAsked.asks, 0 < l.price := by decide +kernel
  let f : Fill := ⟨"paper-1", "BTC", .buy, 201 / 2, 2, 0, "USDT", false, 0⟩
  let f' : Fill :=
    ⟨"paper-1", "BTC", .buy, 1006666666666666666666666667 / 10 ^ 25, 3, 0, "USDT", false, 0⟩
  obtain ⟨hf, optimistic, hg, hsame, hno⟩ := (more_optimistic_by_rounding 0 0 "USDT" "USDT"
    (buyOrder 2) threeAsked 0 hbook hprices (some f)).2 (by decide +kernel)
  obtain ⟨hf', optimistic', hg', hsame', hno'⟩ := (more_optimistic_by_rounding 0 0 "USDT" "USDT"
    (buyOrder 3) threeAsked 0 hbook hprices (some f')).1 (by decide +kernel)
  obtain ⟨g, rfl⟩ := Option.isSome_iff_exists.mp (hsame.mp rfl)
  obtain ⟨g', rfl⟩ := Option.isSome_iff_exists.mp (hsame'.mp rfl)
  obtain ⟨hquantity, hprice, -⟩ := hno f g rfl rfl
  exact ⟨⟨f, g, hf, hg, hquantity, hprice⟩, f', g', hf', hg', hno' f' g' rfl rfl⟩

/-- Two sevenths bought below the only ask, and more bought than is wanted. -/
theorem optimistic_after_rounding :
    let twoSevenths : Decimal := 2857142857142857142857142857 / 10 ^ 28
    let oneAsk : OrderbookSnapshot := ⟨"BTC", [], [⟨997 / 10, 1⟩], 0, 0⟩
    let wanted : Decimal := 10 ^ 27 + 3
    let twoAsks : OrderbookSnapshot := ⟨"BTC", [], [⟨100, 3 / 2⟩, ⟨101, 10 ^ 28⟩], 0, 0⟩
    let careful := Rounded.tryFill Decimal.context (.orderbook 0 0 "USDT")
    let optimistic := Rounded.tryFill Decimal.context (.immediate "USDT")
    (∃ f g, careful (buyOrder twoSevenths) oneAsk 0 = .ok (some f) ∧
      optimistic (buyOrder twoSevenths) oneAsk 0 = .ok (some g) ∧
        f.price = 9969999999999999999999999998 / 10 ^ 26 ∧ g.price = 997 / 10) ∧
    ∃ f g, careful (buyOrder wanted) twoAsks 0 = .ok (some f) ∧
      optimistic (buyOrder wanted) twoAsks 0 = .ok (some g) ∧ g.quantity < f.quantity := by
  intro twoSevenths oneAsk wanted twoAsks careful optimistic
  have hbelow : careful (buyOrder twoSevenths) oneAsk 0 = .ok (some ⟨"paper-1", "BTC", .buy,
      9969999999999999999999999998 / 10 ^ 26, twoSevenths, 0, "USDT", false, 0⟩) := by
    decide +kernel
  have hmore : careful (buyOrder wanted) twoAsks 0 = .ok (some ⟨"paper-1", "BTC", .buy, 101,
      10 ^ 27 + 4, 0, "USDT", false, 0⟩) := by
    decide +kernel
  refine ⟨⟨_, ⟨"paper-1", "BTC", .buy, 997 / 10, twoSevenths, 0, "USDT", false, 0⟩, hbelow, ?_,
    rfl, rfl⟩, _, ⟨"paper-1", "BTC", .buy, 100, wanted, 0, "USDT", false, 0⟩, hmore, ?_, ?_⟩
  · decide +kernel
  · decide +kernel
  · decide +kernel

end FillEngine

end Trading
