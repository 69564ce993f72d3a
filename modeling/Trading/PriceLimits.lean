import Trading.MarketFill
import Trading.PaperInvariants

/-!
# What an order asked for and what its fills are

An order keeps its terms. Each fill, whenever it was made, is one that the engine makes for
orders of these terms: a limit is never exceeded, a stop order is never filled.
-/
namespace Trading

open Async Data Relation PaperVenue PaperWorld

/-- The fields of an order that its request fixed. -/
structure OrderTerms where
  clientOrderId : ClientOrderId
  symbol : Symbol
  side : OrderSide
  type : OrderType
  quantity : Decimal
  price : Option Decimal
  timeInForce : TimeInForce
  reduceOnly : Bool
  createdAt : Time
  deriving DecidableEq

def Order.terms (o : Order) : OrderTerms :=
  ⟨o.clientOrderId, o.symbol, o.side, o.type, o.quantity, o.price, o.timeInForce, o.reduceOnly,
    o.createdAt⟩

theorem Order.executed_terms {order updated : Order} {fill : Fill}
    (h : order.executed fill = .ok updated) : updated.terms = order.terms := by
  obtain ⟨_, -, rfl⟩ := Order.executed_ok h
  rfl

/-- The order known under `oid` before is known after, on the same terms. -/
def KeepsTerms (c c' : PaperCore) : Prop :=
  ∀ oid o, c.1.allOrders.get oid = some o →
    ∃ o', c'.1.allOrders.get oid = some o' ∧ o'.terms = o.terms

section Terms

variable {cfg : PaperConfig} {B : OrderbookSnapshot → Prop} {c c' : PaperCore}

/-- Overwriting an order by one of the same terms. -/
theorem keepsTerms_set {v v' : PaperVenue} {tr tr' : List Notification} {oid : OrderId}
    {order updated : Order} (hall : v.allOrders.get oid = some order)
    (hset : v'.allOrders = v.allOrders.set oid updated) (hterms : updated.terms = order.terms) :
    KeepsTerms (v, tr) (v', tr') := by
  intro j o ho
  dsimp only
  rw [hset, Dict.get_set]
  by_cases hj : j = oid
  · subst hj
    cases hall.symm.trans ho
    exact ⟨updated, if_pos rfl, hterms⟩
  · exact ⟨o, (if_neg hj).trans ho, rfl⟩

theorem keepsTerms_step (hstep : PaperStep cfg B c c') (h : PaperMaps c) : KeepsTerms c c' := by
  cases hstep with
  | place v tr request now =>
    intro oid o ho
    have hother : oid ≠ paperOid (v.nextOid + 1) := by
      rintro rfl
      rw [h.fresh] at ho
      cases ho
    exact ⟨o, (Dict.get_set_other _ _ hother).trans ho, rfl⟩
  | fill hopen hbook hfill hupdated =>
    obtain ⟨hall, -, hid⟩ := h.known hopen
    have hsame := (Order.executed_orderId hupdated).trans hid
    exact keepsTerms_set hall (by rw [store, hsame]) (Order.executed_terms hupdated)
  | cancel now hopen => exact keepsTerms_set (h.known hopen).1 rfl rfl
  | observe v tr hbook => exact fun oid o ho => ⟨o, ho, rfl⟩

theorem keepsTerms_steps (hsteps : ReflTransGen (PaperStep cfg B) c c') (h : PaperMaps c) :
    KeepsTerms c c' := by
  induction hsteps with
  | refl => exact fun oid o ho => ⟨o, ho, rfl⟩
  | tail hrun hstep ih =>
    intro oid o ho
    obtain ⟨o₁, ho₁, hterms₁⟩ := ih oid o ho
    obtain ⟨o₂, ho₂, hterms₂⟩ := keepsTerms_step hstep (maps_steps hrun h) oid o₁ ho₁
    exact ⟨o₂, ho₂, hterms₂.trans hterms₁⟩

end Terms

namespace FillEngine

/-- The rate at which an order of this type is charged. -/
def feeRate : FillEngine → OrderType → Decimal
  | .immediate _, _ => 0
  | .orderbook makerFee takerFee _, type => if type = .limit then makerFee else takerFee

def feeCurrency : FillEngine → String
  | .immediate feeCurrency => feeCurrency
  | .orderbook _ _ feeCurrency => feeCurrency

/-- Whether a fill of such an order counts as a maker's. -/
def makes : FillEngine → OrderType → Bool
  | .immediate _, _ => false
  | .orderbook _ _ _, type => type = .limit

/-- A fill that the engine makes for an order of these terms. -/
structure Fits (engine : FillEngine) (terms : OrderTerms) (f : Fill) : Prop where
  symbol : f.symbol = terms.symbol
  side : f.side = terms.side
  priced : terms.type = .market ∨
    terms.type = .limit ∧ ∃ limit, terms.price = some limit ∧ terms.side.NoWorse f.price limit
  fee : f.fee = f.price * f.quantity * engine.feeRate terms.type
  feeCurrency : f.feeCurrency = engine.feeCurrency
  isMaker : f.isMaker = engine.makes terms.type

section Fits

variable {cur : String} {mk tk : Decimal} {order : Order} {book : OrderbookSnapshot} {now : Time}
  {f : Fill}

/-- At the top of the book a limit is met. -/
theorem fillPrice_priced {price : Decimal} (h : fillPrice order book = some price) :
    order.type = .market ∨
      order.type = .limit ∧ ∃ limit, order.price = some limit ∧ order.side.NoWorse price limit := by
  unfold fillPrice at h
  cases htype : order.type with
  | market => exact .inl rfl
  | limit =>
    right
    simp only [htype] at h
    cases hlimit : order.price with
    | none => simp [hlimit] at h
    | some limit =>
      refine ⟨rfl, limit, rfl, ?_⟩
      simp only [hlimit] at h
      cases hside : order.side <;>
        simp only [hside, Option.map_eq_some_iff, Option.filter_eq_some_iff,
          decide_eq_true_eq] at h <;>
        obtain ⟨best, ⟨-, hmet⟩, rfl⟩ := h <;>
        exact hmet
  | stopMarket => simp [htype] at h
  | stopLimit => simp [htype] at h

theorem immediateTryFill_fits (h : immediateTryFill cur order book now = some f) :
    (immediate cur).Fits order.terms f := by
  have hdescribes := @tryFill_describes (.immediate cur) order book now f h
  simp only [immediateTryFill, ite_not, Option.ite_none_right_eq_some,
    Option.ite_none_left_eq_some, Option.map_eq_some_iff] at h
  obtain ⟨-, -, price, hprice, rfl⟩ := h
  exact ⟨hdescribes.symbol, hdescribes.side, fillPrice_priced hprice, (mul_zero _).symm, rfl, rfl⟩

theorem orderbookTryFill_fits (h : orderbookTryFill mk tk cur order book now = some f) :
    (orderbook mk tk cur).Fits order.terms f := by
  have hdescribes := @tryFill_describes (.orderbook mk tk cur) order book now f h
  simp only [orderbookTryFill, ite_not, Option.ite_none_right_eq_some,
    Option.ite_none_left_eq_some] at h
  obtain ⟨-, -, h⟩ := h
  have hterms : order.terms.type = order.type := rfl
  cases htype : order.type <;> simp only [htype, reduceCtorEq] at h
  · simp only [marketFill, Option.ite_none_left_eq_some, Option.some.injEq] at h
    obtain ⟨-, rfl⟩ := h
    refine ⟨hdescribes.symbol, hdescribes.side, .inl htype, ?_, rfl, ?_⟩ <;>
      simp [build, feeRate, makes, hterms, htype]
  · unfold limitFill at h
    split at h
    · cases h
    · next limit hlimit =>
      simp only [Option.ite_none_right_eq_some, Option.some.injEq] at h
      obtain ⟨-, rfl⟩ := h
      refine ⟨hdescribes.symbol, hdescribes.side,
        .inr ⟨htype, limit, hlimit, .refl _⟩, ?_, rfl, ?_⟩ <;>
        simp [build, feeRate, makes, hterms, htype]

theorem tryFill_fits {engine : FillEngine} (h : engine.tryFill order book now = some f) :
    engine.Fits order.terms f := by
  cases engine with
  | immediate cur => exact immediateTryFill_fits h
  | orderbook mk tk cur => exact orderbookTryFill_fits h

end Fits

end FillEngine

section Runs

variable {cfg : PaperConfig} {B : OrderbookSnapshot → Prop} {c c' : PaperCore}

/-- Each fill fits the order it names. -/
def FillsFit (cfg : PaperConfig) (c : PaperCore) : Prop :=
  ∀ f ∈ fillsOf c.2, ∃ o, c.1.allOrders.get f.orderId = some o ∧ cfg.fillEngine.Fits o.terms f

theorem fillsFit_new : FillsFit cfg (PaperVenue.new, []) := by
  intro f hf
  cases hf

theorem FillsFit.keeps (h : FillsFit cfg c) (hkeeps : KeepsTerms c c') {f : Fill}
    (hf : f ∈ fillsOf c.2) :
    ∃ o, c'.1.allOrders.get f.orderId = some o ∧ cfg.fillEngine.Fits o.terms f := by
  obtain ⟨o, ho, hfits⟩ := h f hf
  obtain ⟨o', ho', hterms⟩ := hkeeps f.orderId o ho
  exact ⟨o', ho', hterms ▸ hfits⟩

theorem fillsFit_step (hstep : PaperStep cfg B c c') (hmaps : PaperMaps c) (h : FillsFit cfg c) :
    FillsFit cfg c' := by
  have hkeeps := keepsTerms_step hstep hmaps
  intro g hg
  cases hstep with
  | place v tr request now =>
    apply h.keeps hkeeps
    simpa using hg
  | @fill v tr oid order updated book now f hopen hbook hfill hupdated =>
    rw [fillsOf_append, fillsOf_fill, fillsOf_update, fillsOf_nil, List.mem_append,
      List.mem_singleton] at hg
    rcases hg with hg | rfl
    · exact h.keeps hkeeps hg
    · have hid : g.orderId = updated.orderId :=
        (FillEngine.tryFill_describes hfill).orderId.trans (Order.executed_orderId hupdated).symm
      refine ⟨updated, ?_, ?_⟩
      · rw [hid]
        exact Dict.get_set_same _ _ _
      · rw [Order.executed_terms hupdated]
        exact FillEngine.tryFill_fits hfill
  | cancel now hopen =>
    apply h.keeps hkeeps
    simpa using hg
  | observe v tr hbook => exact h.keeps hkeeps hg

theorem fillsFit_steps (hsteps : ReflTransGen (PaperStep cfg B) c c') (hmaps : PaperMaps c)
    (h : FillsFit cfg c) : FillsFit cfg c' := by
  induction hsteps with
  | refl => exact h
  | tail hrun hstep ih => exact fillsFit_step hstep (maps_steps hrun hmaps) ih

/-- Over books without negative levels each fill moves something. -/
theorem fills_positive_steps
    (hsteps : ReflTransGen (PaperStep cfg OrderbookSnapshot.Positive) (.new, []) c) :
    ∀ f ∈ fillsOf c.2, 0 < f.quantity := by
  induction hsteps with
  | refl =>
    intro f hf
    cases hf
  | tail hrun hstep ih =>
    have hinv := inv_steps hrun paperInv_new
    intro g hg
    cases hstep with
    | place v tr request now => exact ih g (by simpa using hg)
    | fill hopen hbook hfill hupdated =>
      rw [fillsOf_append, fillsOf_fill, fillsOf_update, fillsOf_nil, List.mem_append,
        List.mem_singleton] at hg
      rcases hg with hg | rfl
      · exact ih g hg
      · rcases hbook with hb | ⟨symbol, hb⟩
        · exact (FillEngine.tryFill_quantity hb.nonNegative hfill).1
        · exact (FillEngine.tryFill_quantity (hinv.books symbol _ hb).nonNegative hfill).1
    | cancel now hopen => exact ih g (by simpa using hg)
    | observe v tr hbook => exact ih g hg

/-- Executed amounts at prices no worse than a limit come to an average no worse. -/
theorem average_noWorse {side : OrderSide} {limit average : Decimal} {fills : List Fill}
    (hfills : fills ≠ []) (hpositive : ∀ f ∈ fills, 0 < f.quantity)
    (hlimit : ∀ f ∈ fills, side.NoWorse f.price limit)
    (haverage : average * (fills.map Fill.quantity).sum =
      (fills.map fun f => f.price * f.quantity).sum) : side.NoWorse average limit := by
  have hfilled : 0 < (fills.map Fill.quantity).sum := by
    apply List.sum_pos
    · intro q hq
      obtain ⟨f, hf, rfl⟩ := List.mem_map.mp hq
      exact hpositive f hf
    · simpa using hfills
  have hsum : (fills.map fun f => side.outlay f.price * f.quantity).sum ≤
      (fills.map fun f => side.outlay limit * f.quantity).sum := by
    apply List.sum_le_sum
    intro f hf
    exact mul_le_mul_of_nonneg_right (OrderSide.noWorse_iff.mp (hlimit f hf)) (hpositive f hf).le
  have hleft : (fills.map fun f => side.outlay f.price * f.quantity).sum =
      side.outlay average * (fills.map Fill.quantity).sum := by
    cases side with
    | buy => exact haverage.symm
    | sell =>
      simp only [OrderSide.outlay, neg_mul, haverage, List.sum_neg, List.map_map,
        Function.comp_def]
  rw [hleft, List.sum_map_mul_left] at hsum
  exact OrderSide.noWorse_iff.mpr (le_of_mul_le_mul_right hsum hfilled)

end Runs

section Runs

variable {ε : Type} (cfg : PaperConfig) (subs : Subscribers ε) (clock : Clock) (env : ε)

/-- At any point of any interleaving each fill so far is one that the engine makes for the
terms of its order, and these terms are never changed afterwards. -/
theorem fills_fit_lasting_terms (labels labels' : List (Label PaperOp)) :
    let c := Config.run (PaperOp.prog cfg subs.lift) ⟨⟨clock, .new, [], env⟩, []⟩ labels
    let d := c.run (PaperOp.prog cfg subs.lift) labels'
    FillsFit cfg c.state.core ∧ KeepsTerms c.state.core d.state.core := by
  intro c d
  have hc : Reaches (PaperOp.prog cfg subs.lift) (PaperOp.Allowed fun _ => True)
      ⟨⟨clock, .new, [], env⟩, []⟩ c := .of_run _ labels fun op _ _ => by cases op <;> trivial
  have hd : Reaches (PaperOp.prog cfg subs.lift) (PaperOp.Allowed fun _ => True) c d :=
    .of_run _ labels' fun op _ _ => by cases op <;> trivial
  obtain ⟨hrun, hlater⟩ := reaches_paperSteps hc hd
  exact ⟨fillsFit_steps hrun paperMaps_new fillsFit_new,
    keepsTerms_steps hlater (maps_steps hrun paperMaps_new)⟩

/-- Over positive books an order has paid its rate on what it executed, a limit order's
average price is within its limit, and an order that waits for a stop has not executed. -/
theorem orders_within_limits (labels : List (Label PaperOp))
    (hbooks : ∀ book, .call (.onOrderbook book) ∈ labels → book.Positive) :
    let w := (Config.run (PaperOp.prog cfg subs.lift) ⟨⟨clock, .new, [], env⟩, []⟩ labels).state
    ∀ oid o, w.venue.allOrders.get oid = some o →
      ((fillsFor oid w.trace).map Fill.fee).sum =
          cfg.fillEngine.feeRate o.type * (o.averageFillPrice.getD 0 * o.filledQuantity) ∧
        (o.type = .limit → ∀ average, o.averageFillPrice = some average →
          ∃ limit, o.price = some limit ∧ o.side.NoWorse average limit) ∧
        (o.type ≠ .market → o.type ≠ .limit →
          o.filledQuantity = 0 ∧ o.averageFillPrice = none ∧ fillsFor oid w.trace = []) := by
  intro w oid o ho
  have hrun : PaperSteps cfg OrderbookSnapshot.Positive ⟨clock, .new, [], env⟩ w :=
    steps_of_run hbooks
  have hinv : PaperInv w.core := inv_steps hrun paperInv_new
  have haccounts : o.Accounts (fillsFor oid w.trace) := hinv.accounts oid o ho
  have hfits : ∀ f ∈ fillsFor oid w.trace, cfg.fillEngine.Fits o.terms f := by
    intro f hf
    obtain ⟨hmem, hoid⟩ := List.mem_filter.mp hf
    obtain ⟨o', ho', hfit⟩ := fillsFit_steps hrun paperMaps_new fillsFit_new f hmem
    rw [of_decide_eq_true hoid] at ho'
    cases ho.symm.trans ho'
    exact hfit
  refine ⟨?_, fun htype average haverage => ?_, fun hmarket hlimit => ?_⟩
  · rw [List.map_congr_left fun f hf => (hfits f hf).fee, haccounts.notional, mul_comm,
      List.sum_map_mul_right]
    rfl
  · have hsome : fillsFor oid w.trace ≠ [] := by
      intro hnone
      rw [haccounts.unpriced.mpr hnone] at haverage
      cases haverage
    obtain ⟨f, fs, hcons⟩ := List.exists_cons_of_ne_nil hsome
    have hlimits : ∀ f ∈ fillsFor oid w.trace, ∃ limit, o.price = some limit ∧
        o.side.NoWorse f.price limit := by
      intro f hf
      rcases (hfits f hf).priced with hmarket | ⟨-, hpriced⟩
      · cases htype.symm.trans hmarket
      · exact hpriced
    obtain ⟨limit, hlimit, -⟩ := hlimits f (hcons ▸ List.mem_cons_self)
    have hwithin : ∀ f ∈ fillsFor oid w.trace, o.side.NoWorse f.price limit := by
      intro f hf
      obtain ⟨limit', hlimit', hno⟩ := hlimits f hf
      cases hlimit.symm.trans hlimit'
      exact hno
    have hpositive : ∀ f ∈ fillsFor oid w.trace, 0 < f.quantity :=
      fun f hf => fills_positive_steps hrun f (List.mem_of_mem_filter hf)
    have hnotional := haccounts.notional
    rw [haverage, Option.getD_some, haccounts.quantity] at hnotional
    exact ⟨limit, hlimit, average_noWorse hsome hpositive hwithin hnotional⟩
  · have hnone : fillsFor oid w.trace = [] := by
      apply List.eq_nil_iff_forall_not_mem.mpr
      intro f hf
      rcases (hfits f hf).priced with hmarket' | ⟨hlimit', -⟩
      · exact hmarket hmarket'
      · exact hlimit hlimit'
    have hquantity := haccounts.quantity
    rw [hnone] at hquantity
    exact ⟨hquantity, haccounts.unpriced.mpr hnone, hnone⟩

end Runs

/-- An order that would pay up to 103, on a book that asks for 100. -/
def boundedBuy : List (Label PaperOp) :=
  [.call (.onOrderbook ⟨"BTC", [], [⟨100, 2⟩], 0, 0⟩),
    .call (.placeOrder ⟨"BTC", .buy, .limit, 1, "a", some 103, .gtc, false⟩)]

theorem boundedBuy_within_limit :
    let cfg : PaperConfig := ⟨.immediate "USDT", 1000, "USDT"⟩
    let subs : Subscribers Unit := ⟨[], []⟩
    let w : PaperWorld Unit := (Config.run (PaperOp.prog cfg subs.lift)
      ⟨⟨⟨fun n => n, 0⟩, .new, [], ()⟩, []⟩ boundedBuy).state
    ∃ o limit, w.venue.allOrders.get "paper-1" = some o ∧ o.averageFillPrice = some 100 ∧
      o.price = some limit ∧ o.side.NoWorse 100 limit := by
  intro cfg subs w
  let o : Order := ⟨"paper-1", "a", "BTC", .buy, .limit, 1, 1, some 103, some 100, .filled, .gtc,
    false, 0, 1⟩
  have ho : w.venue.allOrders.get "paper-1" = some o := by decide +kernel
  have hbooks : ∀ book, .call (.onOrderbook book) ∈ boundedBuy → book.Positive := by
    intro book hbook
    have hbook' := by simpa [boundedBuy] using hbook
    subst hbook'
    simp [OrderbookSnapshot.Positive]
  obtain ⟨-, hlimit, -⟩ := orders_within_limits cfg subs ⟨fun n => n, 0⟩ () boundedBuy hbooks
    "paper-1" o ho
  obtain ⟨limit, hprice, hno⟩ := hlimit rfl 100 rfl
  exact ⟨o, limit, ho, rfl, hprice, hno⟩

end Trading
