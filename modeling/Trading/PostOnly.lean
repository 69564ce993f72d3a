import Trading.FillComparison
import Trading.PaperAlone

/-!
# Post-only orders

A post-only order must not trade when it is placed. The venue compares its price with the
book before it lets the order in. A market order is let in without regard to a price and
trades at once.
-/
namespace Trading

open Async Data PaperVenue PaperWorld

section Engines

variable {request : OrderRequest} {oid : OrderId} {status : OrderStatus} {made now : Time}
  {book : OrderbookSnapshot}

/-- The engine finds something on the book for a market order. -/
def FillEngine.Takes (engine : FillEngine) (request : OrderRequest) (book : OrderbookSnapshot) :
    Prop :=
  match engine with
  | .immediate _ => book.opposite request.side ≠ []
  | .orderbook _ _ _ => (FillEngine.walk (book.opposite request.side) request.quantity).1 ≠ 0

theorem wouldCrossImmediately_eq {price : Decimal} (hprice : request.price = some price) :
    wouldCrossImmediately request book = (book.crossing request.side price).isSome := by
  have hfilter : ∀ (best : Option Level) (p : Level → Bool),
      best.any p = (best.filter p).isSome := by
    intro best p
    cases best with
    | none => rfl
    | some level => cases hp : p level <;> simp [Option.filter, hp]
  unfold wouldCrossImmediately
  rw [hprice]
  cases hside : request.side <;> exact hfilter _ _

theorem wants_newOrder (hsymbol : book.symbol = request.symbol) :
    FillEngine.Wants (newOrder request oid status made) book ↔ 0 < request.quantity := by
  simp [FillEngine.Wants, newOrder, hsymbol]

theorem tryFill_isSome_wants {engine : FillEngine} {order : Order}
    (h : (engine.tryFill order book now).isSome) : FillEngine.Wants order book := by
  obtain ⟨fill, hfill⟩ := Option.isSome_iff_exists.mp h
  exact FillEngine.tryFill_wants hfill

theorem tryFill_market {engine : FillEngine} (htype : request.type = .market)
    (hsymbol : book.symbol = request.symbol) :
    (engine.tryFill (newOrder request oid status made) book now).isSome ↔
      0 < request.quantity ∧ engine.Takes request book := by
  rw [← @wants_newOrder _ oid status made _ hsymbol]
  have htype' : (newOrder request oid status made).type = .market := htype
  have hremaining : (newOrder request oid status made).quantity -
      (newOrder request oid status made).filledQuantity = request.quantity := sub_zero _
  suffices hmakes : FillEngine.Wants (newOrder request oid status made) book →
      ((engine.tryFill (newOrder request oid status made) book now).isSome ↔
        engine.Takes request book) from
    ⟨fun h => ⟨tryFill_isSome_wants h, (hmakes (tryFill_isSome_wants h)).mp h⟩,
      fun h => (hmakes h.1).mpr h.2⟩
  intro hwants
  cases engine with
  | immediate cur =>
    rw [FillEngine.immediate_eq hwants, FillEngine.fillPrice_market htype', Option.isSome_map,
      Option.isSome_map, List.isSome_head?]
    rfl
  | orderbook mk tk cur =>
    rw [FillEngine.orderbook_eq hwants, htype']
    dsimp only
    rw [hremaining]
    have htakes : (FillEngine.orderbook mk tk cur).Takes request book ↔
        (FillEngine.walk (book.opposite request.side) request.quantity).1 ≠ 0 := Iff.rfl
    rw [htakes, FillEngine.marketFill]
    change (if (FillEngine.walk (book.opposite request.side) request.quantity).1 = 0 then none
      else some _ : Option Fill).isSome = true ↔ _
    by_cases hnothing : (FillEngine.walk (book.opposite request.side) request.quantity).1 = 0
    · simp [hnothing]
    · simp [hnothing]

theorem tryFill_limit {engine : FillEngine} (htype : request.type = .limit)
    (hsymbol : book.symbol = request.symbol) :
    (engine.tryFill (newOrder request oid status made) book now).isSome ↔
      0 < request.quantity ∧ wouldCrossImmediately request book = true := by
  rw [← @wants_newOrder _ oid status made _ hsymbol]
  have htype' : (newOrder request oid status made).type = .limit := htype
  suffices hmakes : FillEngine.Wants (newOrder request oid status made) book →
      (engine.tryFill (newOrder request oid status made) book now).isSome =
        wouldCrossImmediately request book from
    ⟨fun h => ⟨tryFill_isSome_wants h, (hmakes (tryFill_isSome_wants h)) ▸ h⟩,
      fun h => (hmakes h.1).trans h.2⟩
  intro hwants
  cases hprice : request.price with
  | none =>
    have hprice' : (newOrder request oid status made).price = none := hprice
    have hcross : wouldCrossImmediately request book = false := by
      rw [wouldCrossImmediately, hprice]
    rw [hcross]
    cases engine with
    | immediate cur =>
      rw [FillEngine.immediate_eq hwants, FillEngine.fillPrice, htype', hprice']
      rfl
    | orderbook mk tk cur =>
      rw [FillEngine.orderbook_eq hwants, htype']
      dsimp only
      rw [FillEngine.limitFill, hprice']
      rfl
  | some price =>
    have hprice' : (newOrder request oid status made).price = some price := hprice
    rw [wouldCrossImmediately_eq hprice]
    cases engine with
    | immediate cur =>
      rw [FillEngine.immediate_eq hwants, FillEngine.fillPrice_limit htype' hprice',
        Option.isSome_map, Option.isSome_map]
      rfl
    | orderbook mk tk cur =>
      rw [FillEngine.orderbook_eq hwants, htype']
      dsimp only
      rw [FillEngine.limitFill_eq hprice', Option.isSome_map]
      rfl

theorem tryFill_stop {engine : FillEngine} (hmarket : request.type ≠ .market)
    (hlimit : request.type ≠ .limit) :
    engine.tryFill (newOrder request oid status made) book now = none := by
  by_contra hsome
  have hsome' := Option.isSome_iff_ne_none.mpr hsome
  have hwants := tryFill_isSome_wants hsome'
  have htype : (newOrder request oid status made).type = request.type := rfl
  cases engine with
  | immediate cur =>
    rw [FillEngine.immediate_eq hwants, FillEngine.fillPrice, htype] at hsome
    cases hstop : request.type <;> simp_all
  | orderbook mk tk cur =>
    rw [FillEngine.orderbook_eq hwants, htype] at hsome
    cases hstop : request.type <;> simp_all

end Engines

section Placement

variable {ε : Type} (cfg : PaperConfig) (subs : Subscribers ε)

/-- The placement left the order rejected. -/
def Rejected (request : OrderRequest) (w : PaperWorld ε) : Prop :=
  ∃ order, (placed cfg subs request w).venue.allOrders.get (nextId w) = some order ∧
    order.status = .rejected ∧ (placed cfg subs request w).venue.openOrders.get (nextId w) = none

/-- The placement left the order open as it came. -/
def Resting (request : OrderRequest) (w : PaperWorld ε) : Prop :=
  ∃ order, (placed cfg subs request w).venue.allOrders.get (nextId w) = some order ∧
    order.status = .acked ∧ order.filledQuantity = 0 ∧
    (placed cfg subs request w).venue.openOrders.get (nextId w) = some order

/-- The placement filled the order. -/
def FilledAtOnce (request : OrderRequest) (w : PaperWorld ε) : Prop :=
  ∃ fill, fill.orderId = nextId w ∧
    fillsOf (placed cfg subs request w).trace = fillsOf w.trace ++ [fill]

/-- No subscriber raises on hearing of the order that the request leads to. -/
def Heard (request : OrderRequest) (w : PaperWorld ε) : Prop :=
  ((subs.tell (nextOrder w request)).exec w.env).2.isOk = true

/-- The same request without the promise. -/
def asGtc (request : OrderRequest) : OrderRequest := { request with timeInForce := .gtc }

/-- What post-only promises: no fill, the order rejected or resting, and a limit order
rejected exactly when it would have been filled without the promise. -/
structure KeepsPostOnly (request : OrderRequest) (w : PaperWorld ε) : Prop where
  unfilled : fillsOf (placed cfg subs request w).trace = fillsOf w.trace
  outcome : Rejected cfg subs request w ∨ Resting cfg subs request w
  limit : request.type = .limit → 0 < request.quantity →
    Heard subs (asGtc request) w →
    (Rejected cfg subs request w ↔ FilledAtOnce cfg subs (asGtc request) w)

/-- A market order gets past the comparison of prices to an engine that finds something
for it. -/
structure SlipsThrough (request : OrderRequest) (book : OrderbookSnapshot)
    (w : PaperWorld ε) : Prop where
  market : request.type = .market
  wanted : 0 < request.quantity
  unpriced : wouldCrossImmediately request book = false
  takes : cfg.fillEngine.Takes request book
  heard : Heard subs request w

variable {cfg subs} {request : OrderRequest} {w : PaperWorld ε} {book : OrderbookSnapshot}

theorem placed_unfilled (h : placementFill cfg subs w request = none) :
    fillsOf (placed cfg subs request w).trace = fillsOf w.trace ∧
      (placed cfg subs request w).venue =
        enter (nextOrder w request) { w.venue with nextOid := w.venue.nextOid + 1 } := by
  have hcore := core_placeOrder_unfilled h
  refine ⟨?_, congrArg Prod.fst hcore⟩
  have htrace : (placed cfg subs request w).trace = w.trace ++ [.update (nextOrder w request)] :=
    congrArg Prod.snd hcore
  rw [htrace, fillsOf_append, fillsOf_update, fillsOf_nil, List.append_nil]

theorem filledAtOnce_iff :
    FilledAtOnce cfg subs request w ↔ (placementFill cfg subs w request).isSome := by
  constructor
  · rintro ⟨fill, -, hfills⟩
    by_contra hnone
    rw [Bool.not_eq_true, Option.isSome_eq_false_iff, Option.isNone_iff_eq_none] at hnone
    rw [(placed_unfilled hnone).1] at hfills
    simp at hfills
  · intro hsome
    obtain ⟨fill, hfill⟩ := Option.isSome_iff_exists.mp hsome
    obtain ⟨updated, -, hcore⟩ := core_placeOrder_filled hfill
    have htrace : (placed cfg subs request w).trace =
        w.trace ++ [.update (nextOrder w request)] ++ [.fill fill, .update updated] :=
      congrArg Prod.snd hcore
    refine ⟨fill, ?_, ?_⟩
    · rw [placementFill, Option.ite_none_right_eq_some, Option.bind_eq_some_iff] at hfill
      obtain ⟨-, book, -, hfill⟩ := hfill
      exact (FillEngine.tryFill_describes hfill).orderId
    · rw [htrace]
      simp

theorem rejected_of_unfilled (hsound : PaperSound w.core)
    (hnone : placementFill cfg subs w request = none)
    (hstatus : (nextOrder w request).status = .rejected) : Rejected cfg subs request w := by
  obtain ⟨-, hvenue⟩ := placed_unfilled hnone
  refine ⟨nextOrder w request, ?_, hstatus, ?_⟩
  · rw [hvenue]
    exact Dict.get_set_same _ _ _
  · have hopen : (placed cfg subs request w).venue.openOrders = w.venue.openOrders := by
      rw [hvenue, enter, hstatus]
      rfl
    rw [hopen]
    cases hget : w.venue.openOrders.get (nextId w) with
    | none => rfl
    | some order =>
      have hall := (hsound.toPaperMaps.known hget).1
      rw [nextId, hsound.toPaperMaps.fresh] at hall
      cases hall

theorem resting_of_unfilled (hnone : placementFill cfg subs w request = none)
    (hstatus : (nextOrder w request).status = .acked) : Resting cfg subs request w := by
  obtain ⟨-, hvenue⟩ := placed_unfilled hnone
  refine ⟨nextOrder w request, ?_, hstatus, rfl, ?_⟩
  · rw [hvenue]
    exact Dict.get_set_same _ _ _
  · rw [hvenue, enter, if_pos hstatus]
    exact Dict.get_set_same _ _ _

/-- A post-only order is judged by its price alone. -/
theorem nextOrder_status (hpost : request.timeInForce = .postOnly)
    (hbook : w.venue.latestBook.get request.symbol = some book) :
    (nextOrder w request).status =
      if wouldCrossImmediately request book = true then .rejected else .acked := by
  have hstatus : (nextOrder w request).status = w.venue.initialStatus request := rfl
  rw [hstatus, initialStatus, hbook, hpost]
  simp

/-- The fill of an accepted order of which everybody hears. -/
theorem placementFill_isSome (hbook : w.venue.latestBook.get request.symbol = some book) :
    (placementFill cfg subs w request).isSome ↔ (nextOrder w request).status = .acked ∧
      Heard subs request w ∧ (cfg.fillEngine.tryFill (nextOrder w request) book
        (w.clock.reading (w.clock.reads + 1))).isSome := by
  rw [placementFill, hbook]
  by_cases h : (nextOrder w request).status = .acked ∧
      ((subs.tell (nextOrder w request)).exec w.env).2.isOk = true
  · rw [if_pos h, Option.bind_some, ← and_assoc]
    exact (and_iff_right h).symm
  · rw [if_neg h, ← and_assoc]
    exact iff_of_false (by simp) fun h' => h h'.1

theorem rejected_iff (hsound : PaperSound w.core) (hpost : request.timeInForce = .postOnly)
    (hbook : w.venue.latestBook.get request.symbol = some book)
    (hnone : placementFill cfg subs w request = none) :
    Rejected cfg subs request w ↔ wouldCrossImmediately request book = true := by
  have hstatus := nextOrder_status hpost hbook
  constructor
  · rintro ⟨order, horder, hrejected, -⟩
    by_contra hcross
    rw [if_neg hcross] at hstatus
    rw [(placed_unfilled hnone).2] at horder
    have hsame : (nextOrder w request) = order :=
      Option.some.inj ((Dict.get_set_same _ _ _).symm.trans horder)
    rw [← hsame, hstatus] at hrejected
    cases hrejected
  · intro hcross
    rw [if_pos hcross] at hstatus
    exact rejected_of_unfilled hsound hnone hstatus

/-- Without the promise a limit order that crosses trades at once. -/
theorem filledAtOnce_asGtc (hsound : PaperSound w.core) (hlimit : request.type = .limit)
    (hwanted : 0 < request.quantity) (hheard : Heard subs (asGtc request) w)
    (hbook : w.venue.latestBook.get request.symbol = some book) :
    FilledAtOnce cfg subs (asGtc request) w ↔ wouldCrossImmediately request book = true := by
  have hsymbol : book.symbol = request.symbol := hsound.books _ _ hbook
  have hbook' : w.venue.latestBook.get (asGtc request).symbol = some book := hbook
  have hacked : (nextOrder w (asGtc request)).status = .acked := by
    have hstatus : (nextOrder w (asGtc request)).status =
        w.venue.initialStatus (asGtc request) := rfl
    rw [hstatus, initialStatus]
    simp [asGtc]
  have hlimit' : (asGtc request).type = .limit := hlimit
  rw [filledAtOnce_iff, placementFill_isSome hbook', nextOrder, tryFill_limit hlimit' hsymbol]
  exact ⟨fun h => h.2.2.2, fun h => ⟨hacked, hheard, hwanted, h⟩⟩

/-- A post-only order that can trade is either rejected or slips through. -/
theorem placementFill_postOnly (hsound : PaperSound w.core)
    (hpost : request.timeInForce = .postOnly)
    (hbook : w.venue.latestBook.get request.symbol = some book) :
    (placementFill cfg subs w request).isSome ↔ SlipsThrough cfg subs request book w := by
  have hsymbol := hsound.books _ _ hbook
  have hacked : (nextOrder w request).status = .acked ↔
      wouldCrossImmediately request book = false := by
    rw [nextOrder_status hpost hbook]
    cases wouldCrossImmediately request book <;> simp
  rw [placementFill_isSome hbook, hacked]
  constructor
  · rintro ⟨hcross, hheard, hfill⟩
    by_cases hmarket : request.type = .market
    · obtain ⟨hwanted, htakes⟩ := (tryFill_market hmarket hsymbol).mp hfill
      exact ⟨hmarket, hwanted, hcross, htakes, hheard⟩
    · by_cases hlimit : request.type = .limit
      · have hcrossed := ((tryFill_limit hlimit hsymbol).mp hfill).2
        rw [hcross] at hcrossed
        cases hcrossed
      · rw [nextOrder, tryFill_stop hmarket hlimit] at hfill
        cases hfill
  · intro h
    exact ⟨h.unpriced, h.heard, (tryFill_market h.market hsymbol).mpr ⟨h.wanted, h.takes⟩⟩

/-- In every state, over any book, post-only keeps its promise unless a market order slips
through. -/
theorem post_only_unless_market (cfg : PaperConfig) (subs : Subscribers ε) (clock : Clock)
    (env : ε) (labels : List (Label PaperOp)) (request : OrderRequest) (book : OrderbookSnapshot)
    (hpost : request.timeInForce = .postOnly) :
    let w := (Config.run (PaperOp.prog cfg subs.lift) ⟨⟨clock, .new, [], env⟩, []⟩ labels).state
    w.venue.latestBook.get request.symbol = some book →
      (KeepsPostOnly cfg subs request w ↔ ¬ SlipsThrough cfg subs request book w) := by
  intro w hbook
  have hsound : PaperSound w.core := sound_run cfg subs clock env labels
  rw [← placementFill_postOnly hsound hpost hbook]
  constructor
  · intro hkeeps hsome
    obtain ⟨fill, -, hfills⟩ := filledAtOnce_iff.mpr hsome
    rw [hkeeps.unfilled] at hfills
    simp at hfills
  · intro hnone
    rw [Bool.not_eq_true, Option.isSome_eq_false_iff, Option.isNone_iff_eq_none] at hnone
    have hrejected := rejected_iff hsound hpost hbook hnone
    refine ⟨(placed_unfilled hnone).1, ?_, fun hlimit hwanted hheard => ?_⟩
    · by_cases hcross : wouldCrossImmediately request book = true
      · exact .inl (hrejected.mpr hcross)
      · refine .inr (resting_of_unfilled hnone ?_)
        rw [nextOrder_status hpost hbook, if_neg hcross]
    · rw [hrejected, filledAtOnce_asGtc hsound hlimit hwanted hheard hbook]

end Placement

def onlyPost : OrderRequest := ⟨"BTC", .buy, .market, 1, "a", none, .postOnly, false⟩

def quoted : OrderbookSnapshot := ⟨"BTC", [⟨100, 5⟩], [⟨101, 5⟩], 0, 0⟩

def quotedRun : Config (PaperWorld Unit) PyError :=
  Config.run (PaperOp.prog ⟨.immediate "USDT", 1000, "USDT"⟩
      (Subscribers.lift (⟨[], []⟩ : Subscribers Unit)))
    ⟨⟨⟨fun n => n, 0⟩, .new, [], ()⟩, []⟩ [.call (.onOrderbook quoted)]

/-- A limit order below the ask rests. -/
theorem post_only_unless_market_limit :
    KeepsPostOnly ⟨.immediate "USDT", 1000, "USDT"⟩ ⟨[], []⟩
      { onlyPost with type := .limit, price := some 100 } quotedRun.state := by
  refine (post_only_unless_market ⟨.immediate "USDT", 1000, "USDT"⟩ ⟨[], []⟩ ⟨fun n => n, 0⟩ ()
    [.call (.onOrderbook quoted)] { onlyPost with type := .limit, price := some 100 } quoted
    rfl rfl).mpr ?_
  rintro ⟨hmarket, -, -, -, -⟩
  cases hmarket

/-- The market order is bought at the ask. -/
theorem post_only_market_fills :
    ¬ KeepsPostOnly ⟨.immediate "USDT", 1000, "USDT"⟩ ⟨[], []⟩ onlyPost quotedRun.state ∧
      (fillsOf (placed ⟨.immediate "USDT", 1000, "USDT"⟩ ⟨[], []⟩ onlyPost
        quotedRun.state).trace).map Fill.price = [101] := by
  have hfills : (fillsOf (placed ⟨.immediate "USDT", 1000, "USDT"⟩ ⟨[], []⟩ onlyPost
      quotedRun.state).trace).map Fill.price = [101] := by decide +kernel
  refine ⟨fun h => ?_, hfills⟩
  have hnone : fillsOf quotedRun.state.trace = [] := by decide +kernel
  rw [h.unfilled, hnone] at hfills
  cases hfills

end Trading
