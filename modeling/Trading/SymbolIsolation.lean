import Trading.Data.Locality
import Trading.SubmitOutcome

/-!
# Symbols do not interfere

The venue keeps the orders of all symbols in one pair of dictionaries. A snapshot of one
symbol goes through them, changing them as it goes, but reads and changes only the share of
its own symbol.
-/
namespace Trading

open Async Data Relation PaperVenue PaperWorld

def Order.untimed (o : Order) : Order := { o with createdAt := 0, updatedAt := 0 }

def Fill.untimed (f : Fill) : Fill := { f with timestamp := 0 }

def PaperVenue.untimed (v : PaperVenue) : PaperVenue :=
  { v with
    openOrders := v.openOrders.mapValues Order.untimed
    allOrders := v.allOrders.mapValues Order.untimed }

theorem executed_untimed (order : Order) (fill : Fill) :
    order.untimed.executed fill.untimed = (order.executed fill).map Order.untimed := by
  have haverage : order.untimed.newAverage fill.untimed = order.newAverage fill := rfl
  unfold Order.executed
  rw [haverage]
  cases order.newAverage fill with
  | error e => rfl
  | ok newAvg => rfl

/-- The engines only pass the time on. -/
theorem tryFill_untimed (engine : FillEngine) (order : Order) (book : OrderbookSnapshot)
    (now : Time) : engine.tryFill order.untimed book 0 =
      (engine.tryFill order book now).map Fill.untimed := by
  have hsymbol : order.untimed.symbol = order.symbol := rfl
  have hremaining : order.untimed.quantity - order.untimed.filledQuantity =
      order.quantity - order.filledQuantity := rfl
  cases engine with
  | immediate cur =>
    have hprice : FillEngine.fillPrice order.untimed book = FillEngine.fillPrice order book := rfl
    simp only [FillEngine.tryFill, FillEngine.immediateTryFill, hsymbol, hremaining, hprice]
    split
    · rfl
    split
    · rfl
    cases FillEngine.fillPrice order book <;> rfl
  | orderbook mk tk cur =>
    have htype : order.untimed.type = order.type := rfl
    simp only [FillEngine.tryFill, FillEngine.orderbookTryFill, hsymbol, hremaining, htype]
    split
    · rfl
    split
    · rfl
    cases order.type with
    | market =>
      simp only [FillEngine.marketFill]
      have hside : order.untimed.side = order.side := rfl
      rw [hside, apply_ite (Option.map Fill.untimed)]
      rfl
    | limit =>
      simp only [FillEngine.limitFill]
      have hprice : order.untimed.price = order.price := rfl
      have hside : order.untimed.side = order.side := rfl
      rw [hprice, hside]
      cases order.price with
      | none => rfl
      | some price =>
        dsimp only
        rw [apply_ite (Option.map Fill.untimed)]
        rfl
    | stopMarket => rfl
    | stopLimit => rfl

theorem untimed_observe (book : OrderbookSnapshot) (v : PaperVenue) :
    (observe book v).untimed = observe book v.untimed := rfl

theorem untimed_store (updated : Order) (fill : Fill) (v : PaperVenue) :
    (store updated fill v).untimed = store updated.untimed fill.untimed v.untimed := by
  have hstatus : updated.untimed.status = updated.status := rfl
  unfold store PaperVenue.untimed
  rw [hstatus, Dict.mapValues_set]
  split
  · rw [Dict.mapValues_pop]
    rfl
  · rw [Dict.mapValues_set]
    rfl

namespace PaperVenue

/-- The venue without what concerns other symbols. -/
def only (symbol : Symbol) (v : PaperVenue) : PaperVenue :=
  { nextOid := v.nextOid
    openOrders := v.openOrders.restrict fun _ o => o.symbol = symbol
    allOrders := v.allOrders.restrict fun _ o => o.symbol = symbol
    positions := v.positions.restrict fun s _ => s = symbol
    latestBook := v.latestBook.restrict fun s _ => s = symbol }

section Only

variable {v : PaperVenue} {symbol : Symbol} {book : OrderbookSnapshot} {updated : Order}
  {fill : Fill}

theorem only_observe : (observe book v).only book.symbol = observe book (v.only book.symbol) := by
  unfold observe only
  rw [Dict.restrict_set (by simp) (by simp)]

theorem only_observe_other (h : symbol ≠ book.symbol) :
    (observe book v).only symbol = v.only symbol := by
  unfold observe only
  rw [Dict.restrict_set_of_not (by simp [h.symm]) (by simp [h.symm])]

/-- The orders stored under the id of `updated` are of its symbol. -/
structure Owns (v : PaperVenue) (updated : Order) : Prop where
  openOrders : ∀ order, v.openOrders.get updated.orderId = some order →
    order.symbol = updated.symbol
  allOrders : ∀ order, v.allOrders.get updated.orderId = some order →
    order.symbol = updated.symbol

theorem only_store (h : v.Owns updated) (hfill : fill.symbol = updated.symbol) :
    (store updated fill v).only updated.symbol = store updated fill (v.only updated.symbol) := by
  have hposition : (v.only updated.symbol).position fill.symbol = v.position fill.symbol := by
    unfold position only
    rw [Dict.get_restrict, hfill]
    cases v.positions.get updated.symbol <;> simp [Option.filter]
  unfold store
  rw [hposition]
  unfold only
  dsimp only
  congr 1
  · split
    · exact Dict.restrict_pop
    · exact Dict.restrict_set (by simp) (by simpa using h.openOrders)
  · exact Dict.restrict_set (by simp) (by simpa using h.allOrders)
  · exact Dict.restrict_set (by simp [hfill]) (by simp [hfill])

theorem only_store_other (h : v.Owns updated) (hfill : fill.symbol = updated.symbol)
    (hother : symbol ≠ updated.symbol) : (store updated fill v).only symbol = v.only symbol := by
  unfold store only
  dsimp only
  have hold : ∀ d : Dict OrderId Order, (∀ order, d.get updated.orderId = some order →
      order.symbol = updated.symbol) → ∀ order, d.get updated.orderId = some order →
        decide (order.symbol = symbol) = false := by
    intro d hd order horder
    rw [hd order horder]
    exact decide_eq_false hother.symm
  congr 1
  · split
    · exact Dict.restrict_pop_of_not (hold _ h.openOrders)
    · exact Dict.restrict_set_of_not (decide_eq_false hother.symm) (hold _ h.openOrders)
  · exact Dict.restrict_set_of_not (decide_eq_false hother.symm) (hold _ h.allOrders)
  · refine Dict.restrict_set_of_not ?_ fun _ _ => ?_ <;>
      exact decide_eq_false (hfill ▸ hother.symm)

end Only

end PaperVenue

section Rule

variable (engine : FillEngine) (heard : Fill → Order → Bool) (book : OrderbookSnapshot)

/-- An attempt to fill, and whether it ends without an exception; `heard` is the answer of
the subscribers. -/
def fillOne (oid : OrderId) (v : PaperVenue) : PaperVenue × Bool :=
  match v.openOrders.get oid with
  | none => (v, true)
  | some order =>
    match engine.tryFill order book 0 with
    | none => (v, true)
    | some fill =>
      match order.executed fill with
      | .error _ => (v, false)
      | .ok updated => (store updated fill v, heard fill updated)

/-- One attempt after another, up to the first exception. -/
def fillEach : List OrderId → PaperVenue → PaperVenue × Bool
  | [], v => (v, true)
  | oid :: oids, v =>
    match fillOne engine heard book oid v with
    | (v', true) => fillEach oids v'
    | (v', false) => (v', false)

/-- What the snapshot makes of a venue that has its symbol only. -/
def handled (v : PaperVenue) : PaperVenue :=
  (fillEach engine heard book (observe book v).openOrders.keys (observe book v)).1

end Rule

section Snapshots

variable {ε : Type} (cfg : PaperConfig) (subs : Subscribers ε)

/-- The world after a snapshot. -/
def processed (book : OrderbookSnapshot) (w : PaperWorld ε) : PaperWorld ε :=
  ((onOrderbook cfg subs.lift book).exec w).1

/-- A fill that a book of `B` may lead to, and the order with the fill in it. -/
def Due (B : OrderbookSnapshot → Prop) (v : PaperVenue) (fill : Fill) (updated : Order) : Prop :=
  ∃ oid order book now, B book ∧ v.openOrders.get oid = some order ∧
    cfg.fillEngine.tryFill order book now = some fill ∧ order.executed fill = .ok updated

/-- What happens while books of `B` are processed. -/
inductive Handles (B : OrderbookSnapshot → Prop) : PaperWorld ε → PaperWorld ε → Prop
  | tick (w) : Handles B w w.tick
  | observe {book} (w) (hbook : B book) : Handles B w { w with venue := observe book w.venue }
  | fill {w fill updated} (hdue : Due cfg B w.venue fill updated) :
    Handles B w (afterFill subs fill updated w)

/-- From `w₀` on, and while books of `B` are processed, whether the subscribers hear of a
fill without raising is a matter of the fill and the order, their times aside. -/
def AnswersBy (heard : Fill → Order → Bool) (B : OrderbookSnapshot → Prop)
    (w₀ : PaperWorld ε) : Prop :=
  ∀ w, ReflTransGen (Handles cfg subs B) w₀ w → ∀ fill updated, Due cfg B w.venue fill updated →
    ((subs.tellFill fill updated).exec w.env).2.isOk = heard fill.untimed updated.untimed

/-- A world met on the way from `w₀`. -/
structure Met (B : OrderbookSnapshot → Prop) (w₀ w : PaperWorld ε) : Prop where
  reached : ReflTransGen (Handles cfg subs B) w₀ w
  maps : PaperMaps w.core

variable {cfg subs} {B : OrderbookSnapshot → Prop} {w₀ w : PaperWorld ε} {book : OrderbookSnapshot}

theorem met_tick (h : Met cfg subs B w₀ w) : Met cfg subs B w₀ w.tick :=
  ⟨h.reached.tail (.tick w), h.maps⟩

theorem met_observe (hbook : B book) (h : Met cfg subs B w₀ w) :
    Met cfg subs B w₀ { w with venue := observe book w.venue } :=
  ⟨h.reached.tail (.observe w hbook), ⟨h.maps.ids, h.maps.status, h.maps.resting, h.maps.published⟩⟩

theorem met_fill {fill : Fill} {updated : Order} (hdue : Due cfg B w.venue fill updated)
    (h : Met cfg subs B w₀ w) : Met cfg subs B w₀ (afterFill subs fill updated w) := by
  refine ⟨h.reached.tail (.fill hdue), ?_⟩
  obtain ⟨oid, order, book, now, -, hopen, -, hupdated⟩ := hdue
  exact maps_store h.maps hopen hupdated

/-- A fill concerns its order's symbol and no other. -/
theorem owns_of_fill {tr : List Notification} {v : PaperVenue} (hmaps : PaperMaps (v, tr))
    {oid : OrderId} {order updated : Order} {fill : Fill} {now : Time}
    (hopen : v.openOrders.get oid = some order)
    (hfill : cfg.fillEngine.tryFill order book now = some fill)
    (hupdated : order.executed fill = .ok updated) :
    v.Owns updated ∧ fill.symbol = updated.symbol ∧ updated.symbol = book.symbol := by
  obtain ⟨hall, -, hid⟩ := hmaps.known hopen
  have hsame : updated.orderId = oid := (Order.executed_orderId hupdated).trans hid
  have hsymbol : updated.symbol = order.symbol := by
    obtain ⟨_, -, rfl⟩ := Order.executed_ok hupdated
    rfl
  refine ⟨⟨fun o ho => ?_, fun o ho => ?_⟩, ?_, ?_⟩
  · rw [hsame, hopen] at ho
    rw [← Option.some.inj ho, hsymbol]
  · rw [hsame, hall] at ho
    rw [← Option.some.inj ho, hsymbol]
  · rw [(FillEngine.tryFill_describes hfill).symbol, hsymbol]
  · rw [hsymbol, FillEngine.tryFill_symbol hfill]

/-- Whatever the subscribers do. -/
theorem tryFill_met (hbook : B book) (h : Met cfg subs B w₀ w) (oid : OrderId) :
    Met cfg subs B w₀ ((tryFillOrder cfg subs.lift oid book).exec w).1 ∧
      ∀ symbol ≠ book.symbol,
        ((tryFillOrder cfg subs.lift oid book).exec w).1.venue.only symbol =
          w.venue.only symbol := by
  rw [alone_tryFillOrder]
  cases hopen : w.venue.openOrders.get oid with
  | none => exact ⟨h, fun _ _ => rfl⟩
  | some order =>
    dsimp only
    cases hfill : cfg.fillEngine.tryFill order book (w.clock.reading w.clock.reads) with
    | none => exact ⟨met_tick h, fun _ _ => rfl⟩
    | some fill =>
      dsimp only
      cases hupdated : order.executed fill with
      | error e => exact ⟨met_tick h, fun _ _ => rfl⟩
      | ok updated =>
        obtain ⟨howns, hsymbol, hours⟩ := owns_of_fill h.maps hopen hfill hupdated
        have hdue : Due cfg B w.tick.venue fill updated :=
          ⟨oid, order, book, _, hbook, hopen, hfill, hupdated⟩
        refine ⟨met_fill hdue (met_tick h), fun symbol hother => ?_⟩
        exact only_store_other howns hsymbol (hours ▸ hother)

variable {heard : Fill → Order → Bool}

theorem tryFill_own (hanswers : AnswersBy cfg subs heard B w₀) (hbook : B book)
    (h : Met cfg subs B w₀ w) (oid : OrderId) :
    fillOne cfg.fillEngine heard book oid (w.venue.only book.symbol).untimed =
      ((((tryFillOrder cfg subs.lift oid book).exec w).1.venue.only book.symbol).untimed,
        ((tryFillOrder cfg subs.lift oid book).exec w).2.isOk) := by
  have hget : (w.venue.only book.symbol).untimed.openOrders.get oid =
      ((w.venue.openOrders.get oid).filter fun o => o.symbol = book.symbol).map Order.untimed := by
    rw [PaperVenue.untimed, Dict.get_mapValues, only, Dict.get_restrict]
  rw [fillOne, hget, alone_tryFillOrder]
  cases hopen : w.venue.openOrders.get oid with
  | none => rfl
  | some order =>
    by_cases hsymbol : order.symbol = book.symbol
    · have hours : (some order).filter (fun o => o.symbol = book.symbol) = some order := by
        simp [Option.filter, hsymbol]
      rw [hours]
      dsimp only [Option.map_some]
      rw [tryFill_untimed _ _ _ (w.clock.reading w.clock.reads)]
      cases hfill : cfg.fillEngine.tryFill order book (w.clock.reading w.clock.reads) with
      | none => rfl
      | some fill =>
        dsimp only [Option.map_some]
        rw [executed_untimed]
        cases hupdated : order.executed fill with
        | error e => rfl
        | ok updated =>
          obtain ⟨howns, hsame, hbooked⟩ := owns_of_fill h.maps hopen hfill hupdated
          have htold := hanswers w h.reached fill updated
            ⟨oid, order, book, _, hbook, hopen, hfill, hupdated⟩
          have hstored : ((store updated fill w.venue).only book.symbol).untimed =
              store updated.untimed fill.untimed (w.venue.only book.symbol).untimed := by
            rw [← untimed_store, ← hbooked, only_store howns hsame]
          exact Prod.ext hstored.symm htold.symm
    · have hforeign : (some order).filter (fun o => o.symbol = book.symbol) = none := by
        simp [Option.filter, hsymbol]
      have hnone : cfg.fillEngine.tryFill order book (w.clock.reading w.clock.reads) = none := by
        by_contra hsome
        obtain ⟨fill, hfill⟩ := Option.ne_none_iff_exists'.mp hsome
        exact hsymbol (FillEngine.tryFill_symbol hfill)
      rw [hforeign]
      dsimp only [Option.map_none]
      rw [hnone]
      rfl

theorem fillEach_met (hbook : B book) (h : Met cfg subs B w₀ w) (oids : List OrderId) :
    Met cfg subs B w₀
        ((Co.forEach oids fun oid => tryFillOrder cfg subs.lift oid book).exec w).1 ∧
      ∀ symbol ≠ book.symbol,
        ((Co.forEach oids fun oid => tryFillOrder cfg subs.lift oid book).exec w).1.venue.only
          symbol = w.venue.only symbol := by
  have hloop := @Co.exec_forEach_inv _ _ _
    (fun w' => Met cfg subs B w₀ w' ∧
      ∀ symbol ≠ book.symbol, w'.venue.only symbol = w.venue.only symbol)
    (fun oid => tryFillOrder cfg subs.lift oid book) oids (fun oid _ w' h' => by
      obtain ⟨hmet, hother⟩ := tryFill_met hbook h'.1 oid
      exact ⟨hmet, fun symbol hs => (hother symbol hs).trans (h'.2 symbol hs)⟩) w
  exact hloop ⟨h, fun _ _ => rfl⟩

theorem fillEach_own (hanswers : AnswersBy cfg subs heard B w₀) (hbook : B book)
    (h : Met cfg subs B w₀ w) (oids : List OrderId) :
    fillEach cfg.fillEngine heard book oids (w.venue.only book.symbol).untimed =
      ((((Co.forEach oids fun oid => tryFillOrder cfg subs.lift oid book).exec w).1.venue.only
          book.symbol).untimed,
        ((Co.forEach oids fun oid => tryFillOrder cfg subs.lift oid book).exec w).2.isOk) := by
  induction oids generalizing w with
  | nil => rfl
  | cons oid oids ih =>
    have hown := tryFill_own hanswers hbook h oid
    have hmet := (tryFill_met hbook h oid).1
    rw [fillEach, hown, Co.forEach_cons, Co.exec_bind]
    rcases hexec : (tryFillOrder cfg subs.lift oid book).exec w with ⟨w', e | _⟩
    · rfl
    · rw [hexec] at hmet
      exact ih hmet

theorem processed_eq (book : OrderbookSnapshot) (w : PaperWorld ε) :
    processed cfg subs book w =
      ((Co.forEach ((observe book w.venue).only book.symbol).untimed.openOrders.keys
        fun oid => tryFillOrder cfg subs.lift oid book).exec
          { w with venue := observe book w.venue }).1 := by
  have htrace : w.trace ++ [] = w.trace := List.append_nil _
  rw [PaperVenue.untimed, Dict.keys_mapValues]
  conv_rhs => rw [← htrace]
  rfl

/-- The snapshot changes the share of its symbol as if that was all there is. -/
theorem processed_local (hanswers : AnswersBy cfg subs heard B w₀) (hbook : B book) :
    LocalAt (fun (w : PaperWorld ε) symbol => (w.venue.only symbol).untimed)
      (Met cfg subs B w₀) (processed cfg subs book) book.symbol
      (handled cfg.fillEngine heard book) := by
  refine LocalAt.of_parts (fun w h => ?_) (fun w h => ?_) fun w h symbol hother => ?_
  · rw [processed_eq]
    exact (fillEach_met hbook (met_observe hbook h) _).1
  · have hown := fillEach_own hanswers hbook (met_observe hbook h)
      ((observe book w.venue).only book.symbol).untimed.openOrders.keys
    dsimp only at hown
    rw [processed_eq, handled, ← untimed_observe, ← only_observe, hown]
  · rw [processed_eq, (fillEach_met hbook (met_observe hbook h) _).2 symbol hother,
      only_observe_other hother]

/-- Subscribers that never raise answer every fill alike. -/
theorem answersBy_of_quiet (h : subs.Quiet) : AnswersBy cfg subs (fun _ _ => true) B w₀ := by
  intro w _ fill updated _
  obtain ⟨env', htold⟩ := tellFill_quiet h fill updated w.env
  rw [htold]
  rfl

end Snapshots

/-- Equal but for the times of the orders. -/
structure SameButTimes (v v' : PaperVenue) : Prop where
  allOrders : ∀ oid, (v.allOrders.get oid).map Order.untimed =
    (v'.allOrders.get oid).map Order.untimed
  openOrders : ∀ oid, (v.openOrders.get oid).map Order.untimed =
    (v'.openOrders.get oid).map Order.untimed
  positions : ∀ symbol, v.positions.get symbol = v'.positions.get symbol
  latestBook : ∀ symbol, v.latestBook.get symbol = v'.latestBook.get symbol

/-- From `v` to `v'` nothing of another symbol has changed, times included. -/
structure LeavesOthers (symbol : Symbol) (v v' : PaperVenue) : Prop where
  allOrders : ∀ oid order, order.symbol ≠ symbol →
    (v'.allOrders.get oid = some order ↔ v.allOrders.get oid = some order)
  openOrders : ∀ oid order, order.symbol ≠ symbol →
    (v'.openOrders.get oid = some order ↔ v.openOrders.get oid = some order)
  positions : ∀ other ≠ symbol, v'.positions.get other = v.positions.get other
  latestBook : ∀ other ≠ symbol, v'.latestBook.get other = v.latestBook.get other

section Shares

variable {v v' : PaperVenue}

theorem get_ofSymbol {d : Dict OrderId Order} {oid : OrderId} {order : Order} :
    (d.restrict fun _ o => o.symbol = order.symbol).get oid = some order ↔
      d.get oid = some order := by
  simp [Dict.get_restrict, Option.filter_eq_some_iff]

theorem get_ofKey {α : Type} {d : Dict Symbol α} {symbol : Symbol} :
    (d.restrict fun s _ => s = symbol).get symbol = d.get symbol := by
  rw [Dict.get_restrict]
  cases d.get symbol <;> simp [Option.filter]

theorem get_untimed_of_shares {d d' : Dict OrderId Order}
    (h : ∀ symbol, (d.restrict fun _ o => o.symbol = symbol).mapValues Order.untimed =
      (d'.restrict fun _ o => o.symbol = symbol).mapValues Order.untimed) (oid : OrderId) :
    (d.get oid).map Order.untimed = (d'.get oid).map Order.untimed := by
  have hget : ∀ {d d' : Dict OrderId Order}, (∀ symbol,
      (d.restrict fun _ o => o.symbol = symbol).mapValues Order.untimed =
        (d'.restrict fun _ o => o.symbol = symbol).mapValues Order.untimed) → ∀ order,
      d.get oid = some order → ∃ order', d'.get oid = some order' ∧
        order'.untimed = order.untimed := by
    intro d d' h order horder
    have hshare := congrArg (fun e => Dict.get e oid) (h order.symbol)
    rw [Dict.get_mapValues, Dict.get_mapValues, get_ofSymbol.mpr horder, Option.map_some,
      eq_comm, Option.map_eq_some_iff] at hshare
    obtain ⟨order', hfound, hsame⟩ := hshare
    rw [Dict.get_restrict, Option.filter_eq_some_iff] at hfound
    exact ⟨order', hfound.1, hsame⟩
  cases horder : d.get oid with
  | some order =>
    obtain ⟨order', hfound, hsame⟩ := hget h order horder
    rw [hfound, Option.map_some, Option.map_some, hsame]
  | none =>
    cases horder' : d'.get oid with
    | none => rfl
    | some order' =>
      obtain ⟨order, hfound, -⟩ := hget (fun symbol => (h symbol).symm) order' horder'
      cases horder.symm.trans hfound

theorem same_of_shares (h : ∀ symbol, (v.only symbol).untimed = (v'.only symbol).untimed) :
    SameButTimes v v' where
  allOrders := get_untimed_of_shares fun symbol => congrArg PaperVenue.allOrders (h symbol)
  openOrders := get_untimed_of_shares fun symbol => congrArg PaperVenue.openOrders (h symbol)
  positions symbol := by
    have hshare := congrArg (fun u => u.positions.get symbol) (h symbol)
    simpa only [PaperVenue.untimed, only, get_ofKey] using hshare
  latestBook symbol := by
    have hshare := congrArg (fun u => u.latestBook.get symbol) (h symbol)
    simpa only [PaperVenue.untimed, only, get_ofKey] using hshare

theorem leavesOthers_of_shares {symbol : Symbol}
    (h : ∀ other ≠ symbol, v'.only other = v.only other) : LeavesOthers symbol v v' where
  allOrders oid order hother := by
    have hshare := congrArg (fun u => u.allOrders.get oid = some order) (h order.symbol hother)
    simp only [only, get_ofSymbol] at hshare
    rw [hshare]
  openOrders oid order hother := by
    have hshare := congrArg (fun u => u.openOrders.get oid = some order) (h order.symbol hother)
    simp only [only, get_ofSymbol] at hshare
    rw [hshare]
  positions other hother := by
    have hshare := congrArg (fun u => u.positions.get other) (h other hother)
    simpa only [only, get_ofKey] using hshare
  latestBook other hother := by
    have hshare := congrArg (fun u => u.latestBook.get other) (h other hother)
    simpa only [only, get_ofKey] using hshare

end Shares

section Isolation

variable {ε : Type}

/-- Snapshots of different symbols may come in either order, and neither touches what
concerns another symbol. -/
theorem snapshots_commute (cfg : PaperConfig) (subs : Subscribers ε) (clock : Clock) (env : ε)
    (labels : List (Label PaperOp)) (heard : Fill → Order → Bool) (a b : OrderbookSnapshot) :
    let w := (Config.run (PaperOp.prog cfg subs.lift) ⟨⟨clock, .new, [], env⟩, []⟩ labels).state
    (a.symbol ≠ b.symbol → AnswersBy cfg subs heard (fun book => book = a ∨ book = b) w →
      SameButTimes (processed cfg subs b (processed cfg subs a w)).venue
        (processed cfg subs a (processed cfg subs b w)).venue) ∧
      ∀ book, LeavesOthers book.symbol w.venue (processed cfg subs book w).venue := by
  intro w
  have hmaps : PaperMaps w.core := (sound_run cfg subs clock env labels).toPaperMaps
  constructor
  · intro hsymbol hanswers
    have ha := processed_local hanswers (.inl rfl)
    have hb := processed_local hanswers (.inr rfl)
    have hcomm := hb.comm ha hsymbol.symm ⟨.refl, hmaps⟩
    exact same_of_shares fun symbol => congrFun hcomm symbol
  · intro book
    have hmet : Met cfg subs (fun _ => True) w w := ⟨.refl, hmaps⟩
    refine leavesOthers_of_shares fun other hother => ?_
    rw [processed_eq, (fillEach_met trivial (met_observe trivial hmet) _).2 other hother,
      only_observe_other hother]

end Isolation

section Manager

variable {J ρ : Type} {cfg : PaperConfig} {journal : OrderJournal J} {before after : Subscribers ρ}
  {B : OrderbookSnapshot → Prop} {w w₀ : OmsWorld J ρ}

/-- The manager has each open order as the venue has it. -/
def Tracks (w : OmsWorld J ρ) : Prop :=
  ∀ oid order, w.venue.openOrders.get oid = some order → w.env.oms.orders.get oid = some order

theorem tracks_fill (hj : journal.Reliable) (hb : before.Quiet) (ha : after.Quiet)
    (hmaps : PaperMaps w.core) (htracks : Tracks w) {fill : Fill} {updated : Order}
    (hdue : Due cfg B w.venue fill updated) :
    ((managerSubs journal before after).tellFill fill updated |>.exec w.env).2 = .ok () ∧
      Tracks (afterFill (managerSubs journal before after) fill updated w) := by
  obtain ⟨oid, order, book, now, -, hopen, hfill, hupdated⟩ := hdue
  have hid : fill.orderId = updated.orderId :=
    (FillEngine.tryFill_describes hfill).orderId.trans (Order.executed_orderId hupdated).symm
  have hcached : w.env.oms.orders.get fill.orderId = some order := by
    rw [(FillEngine.tryFill_describes hfill).orderId, (hmaps.known hopen).2.2]
    exact htracks oid order hopen
  obtain ⟨env', htold, hcache⟩ := exec_tellFill hj hb ha hcached hupdated hid
  refine ⟨congrArg Prod.snd htold, fun j o ho => ?_⟩
  have henv : (afterFill (managerSubs journal before after) fill updated w).env = env' :=
    congrArg Prod.fst htold
  rw [henv, hcache]
  simp only [afterFill, store] at ho
  by_cases hj' : j = updated.orderId
  · rw [if_pos hj']
    split at ho
    · rw [Dict.get_pop, if_pos hj'] at ho
      cases ho
    · rwa [Dict.get_set, if_pos hj'] at ho
  · rw [if_neg hj']
    split at ho
    · rw [Dict.get_pop, if_neg hj'] at ho
      exact htracks j o ho
    · rw [Dict.get_set, if_neg hj'] at ho
      exact htracks j o ho

/-- With a journal that does not fail, a manager that tracks the venue never raises while
snapshots are processed. -/
theorem answersBy_manager (hj : journal.Reliable) (hb : before.Quiet) (ha : after.Quiet)
    (hmaps : PaperMaps w₀.core) (htracks : Tracks w₀) :
    AnswersBy cfg (managerSubs journal before after) (fun _ _ => true) B w₀ := by
  have hkept : ∀ w, ReflTransGen (Handles cfg (managerSubs journal before after) B) w₀ w →
      PaperMaps w.core ∧ Tracks w := by
    intro w hreached
    induction hreached with
    | refl => exact ⟨hmaps, htracks⟩
    | tail _ hstep ih =>
      obtain ⟨hmaps', htracks'⟩ := ih
      have hmet : Met cfg (managerSubs journal before after) B _ _ := ⟨.refl, hmaps'⟩
      cases hstep with
      | tick => exact ⟨hmaps', htracks'⟩
      | observe _ hbook => exact ⟨(met_observe hbook hmet).maps, htracks'⟩
      | fill hdue =>
        exact ⟨(met_fill hdue hmet).maps, (tracks_fill hj hb ha hmaps' htracks' hdue).2⟩
  intro w hreached fill updated hdue
  obtain ⟨hmaps', htracks'⟩ := hkept w hreached
  rw [(tracks_fill hj hb ha hmaps' htracks' hdue).1]
  rfl

end Manager

def paperImmediate : PaperConfig := ⟨.immediate "USDT", 1000, "USDT"⟩

/-- Raises on the first fill it hears of, whichever that is. -/
def raisesOnce : Subscribers Bool :=
  ⟨[], [fun _ => .act (fun _ => false) fun armed =>
    if armed then .throw ⟨"RuntimeError", "not ready"⟩ else .pure ()]⟩

def bidFor (symbol : Symbol) (cid : ClientOrderId) : OrderRequest :=
  ⟨symbol, .buy, .limit, 1, cid, some 100, .gtc, false⟩

def askFor (symbol : Symbol) : OrderbookSnapshot := ⟨symbol, [], [⟨100, 5⟩], 0, 0⟩

/-- Two orders rest for one symbol and one for another. -/
def threeBids (subs : Subscribers Bool) : Config (PaperWorld Bool) PyError :=
  Config.run (PaperOp.prog paperImmediate subs.lift) ⟨⟨⟨fun n => n, 0⟩, .new, [], true⟩, []⟩
    [.call (.placeOrder (bidFor "BTC" "a")), .call (.placeOrder (bidFor "BTC" "b")),
      .call (.placeOrder (bidFor "ETH" "c"))]

/-- Without subscribers the order of the snapshots does not matter. -/
theorem snapshots_commute_alone :
    let w := (threeBids ⟨[], []⟩).state
    let first := processed paperImmediate ⟨[], []⟩ (askFor "ETH")
      (processed paperImmediate ⟨[], []⟩ (askFor "BTC") w)
    let last := processed paperImmediate ⟨[], []⟩ (askFor "BTC")
      (processed paperImmediate ⟨[], []⟩ (askFor "ETH") w)
    SameButTimes first.venue last.venue :=
  (snapshots_commute paperImmediate ⟨[], []⟩ ⟨fun n => n, 0⟩ true
    [.call (.placeOrder (bidFor "BTC" "a")), .call (.placeOrder (bidFor "BTC" "b")),
      .call (.placeOrder (bidFor "ETH" "c"))] (fun _ _ => true) (askFor "BTC") (askFor "ETH")).1
    (by decide) (answersBy_of_quiet ⟨by simp, by simp⟩)

/-- The second order of the symbol is filled only if its snapshot comes last. -/
theorem snapshots_differ_when_raising :
    let w := (threeBids raisesOnce).state
    let first := (processed paperImmediate raisesOnce (askFor "ETH")
      (processed paperImmediate raisesOnce (askFor "BTC") w)).venue
    let last := (processed paperImmediate raisesOnce (askFor "BTC")
      (processed paperImmediate raisesOnce (askFor "ETH") w)).venue
    (first.allOrders.get "paper-2").map Order.status = some .acked ∧
      (last.allOrders.get "paper-2").map Order.status = some .filled ∧
      ¬ SameButTimes first last := by
  intro w first last
  have hfirst : (first.allOrders.get "paper-2").map Order.status = some .acked := by decide +kernel
  have hlast : (last.allOrders.get "paper-2").map Order.status = some .filled := by decide +kernel
  refine ⟨hfirst, hlast, fun hsame => ?_⟩
  have hstatus := congrArg (Option.map Order.status) (hsame.allOrders "paper-2")
  rw [Option.map_map, Option.map_map] at hstatus
  cases hfirst.symm.trans (hstatus.trans hlast)

end Trading
