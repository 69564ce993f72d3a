import Trading.OrderSystem
import Trading.PaperInvariants

/-!
# Recovering the open orders from SQLite

Operations run one after another. A fresh manager reads, for every order, the
newest journal row; the live manager holds the venue's last update. The two can
only differ through the `SUBMITTED` row, which is written after the rows of the
updates that the submission itself caused.
-/
namespace Trading

open Async Data PaperVenue PaperWorld

abbrev SqliteWorld := OmsWorld OrderTables Unit

/-- The manager is the only subscriber. -/
def sqliteSubs : Subscribers SqliteWorld :=
  omsSubscribers SQLiteOrderJournal.journal ⟨[], []⟩ ⟨[], []⟩

def OmsOp.exec (cfg : PaperConfig) (w : SqliteWorld) (op : OmsOp) : SqliteWorld :=
  ((op.prog cfg SQLiteOrderJournal.journal ⟨[], []⟩ ⟨[], []⟩).exec w).1

def runOps (cfg : PaperConfig) (w : SqliteWorld) (ops : List OmsOp) : SqliteWorld :=
  ops.foldl (OmsOp.exec cfg) w

/-- A new manager, started on the given tables. -/
def recovered (t : OrderTables) : OrderManager OrderTables :=
  ((OrderManager.start SQLiteOrderJournal.journal).exec (.new t)).1

/-- Id, status, filled quantity and average price. -/
def Order.reported (o : Order) : OrderId × OrderStatus × Decimal × Option Decimal :=
  (o.orderId, o.status, o.filledQuantity, o.averageFillPrice)

/-- A manager started on the journal reports the open orders of the live one. -/
def Recovers (w : SqliteWorld) : Prop :=
  ∀ r, r ∈ ((recovered w.env.oms.journal).live none).map Order.reported ↔
    r ∈ (w.env.oms.live none).map Order.reported

namespace SqliteWorld

/-- The reading taken last. -/
def lastReading (w : SqliteWorld) : Time := w.clock.reading (w.clock.reads - 1)

/-- The order a placement enters, acknowledged at the next reading. -/
def placedOrder (w : SqliteWorld) (request : OrderRequest) : Order :=
  newOrder request (paperOid (w.venue.nextOid + 1)) (w.venue.initialStatus request)
    (w.clock.reading w.clock.reads)

/-- The fill at the reading after that, if the order fills at once. -/
def placedFill (cfg : PaperConfig) (w : SqliteWorld) (request : OrderRequest) : Option Fill :=
  if (w.placedOrder request).status = .acked then
    (w.venue.latestBook.get request.symbol).bind fun book =>
      cfg.fillEngine.tryFill (w.placedOrder request) book (w.clock.reading (w.clock.reads + 1))
  else none

/-- The time of the last update that a placement brings about. -/
def placedStamp (cfg : PaperConfig) (w : SqliteWorld) (request : OrderRequest) : Time :=
  if (w.placedFill cfg request).isSome then w.clock.reading (w.clock.reads + 1)
  else w.clock.reading w.clock.reads

/-- The clock moves between the reading for the `SUBMITTED` row and that update. -/
def StampedLater (cfg : PaperConfig) (w : SqliteWorld) (request : OrderRequest) : Prop :=
  w.clock.reading w.clock.reads < placedStamp cfg w.tick request

/-- The world after the manager was handed `u`. -/
def handed (u : Order) (w : SqliteWorld) : SqliteWorld :=
  { w with env := { w.env with oms :=
      { orders := w.env.oms.orders.set u.orderId u
        journal := { w.env.oms.journal with orders := w.env.oms.journal.orders ++ [u] }
        received := w.env.oms.received ++ [u] } } }

/-- The world after the manager executed `f` on a cached order. -/
def executed (f : Fill) (u : Order) (w : SqliteWorld) : SqliteWorld :=
  { w with env := { w.env with oms := { w.env.oms with
      orders := w.env.oms.orders.set f.orderId u
      journal := ⟨w.env.oms.journal.orders ++ [u], w.env.oms.journal.fills ++ [f]⟩ } } }

end SqliteWorld

open SqliteWorld

theorem exec_notifyOrder (u : Order) (w : SqliteWorld) :
    (notifyOrder sqliteSubs u).exec w = (w.handed u, .ok ()) := rfl

theorem exec_notifyFill {f : Fill} {order u : Order} {w : SqliteWorld}
    (hcached : w.env.oms.orders.get f.orderId = some order) (hex : order.executed f = .ok u) :
    (notifyFill sqliteSubs f).exec w = (w.executed f u, .ok ()) := by
  have hcb : (OrderManager.onFill SQLiteOrderJournal.journal f).exec w.env.oms =
      ((w.executed f u).env.oms, .ok ()) := by
    have hwrite : ((SQLiteOrderJournal.journal.writeFill f).lift :
        Coro (OrderManager OrderTables) Unit).exec w.env.oms =
        ({ w.env.oms with journal := { w.env.oms.journal with
            fills := w.env.oms.journal.fills ++ [f] } }, .ok ()) := rfl
    rw [OrderManager.onFill, Co.bind_eq, Co.exec_bind_ok hwrite]
    simp only [Co.bind_eq, Co.exec_bind, Co.exec_get, hcached, Co.ofExcept, hex, Co.exec_pure,
      Co.exec_modify, Co.exec_lift, SQLiteOrderJournal.exec_writeOrder]
    rfl
  have hloop : notifyFill sqliteSubs f =
      (((OrderManager.onFill SQLiteOrderJournal.journal f).lift :
        Coro (OmsEnv OrderTables Unit) Unit).lift : Coro SqliteWorld Unit).bind
          fun _ => .pure () := rfl
  have hview : (Part.view (Part.view w : OmsEnv OrderTables Unit) : OrderManager OrderTables) =
      w.env.oms := rfl
  rw [hloop, Co.exec_bind, Co.exec_lift, Co.exec_lift, hview, hcb]
  rfl

theorem exec_applyFillToOrder {f : Fill} {order u : Order} {w : SqliteWorld}
    (hcached : w.env.oms.orders.get f.orderId = some order) (hex : order.executed f = .ok u) :
    (applyFillToOrder sqliteSubs order f).exec w =
      ((executed f u { w with venue := store u f w.venue
                              trace := w.trace ++ [.fill f, .update u] }).handed u, .ok ()) := by
  have hfill := exec_notifyFill (w := { w with venue := store u f w.venue
                                               trace := w.trace ++ [.fill f, .update u] })
    hcached hex
  simp only [applyFillToOrder, Co.ofExcept, hex, Co.bind_eq, Co.pure_bind]
  rw [Co.exec_bind]
  simp only [record, Co.exec_modify, Co.exec_bind, hfill, exec_notifyOrder]

/-- Manager, venue and journal between two transitions; under `g` the newest row
of every order is the order itself. -/
structure Recoverable (g : Prop) (w : SqliteWorld) : Prop where
  maps : PaperMaps w.core
  clock : w.clock.Monotone
  cache : ∀ oid, w.env.oms.orders.get oid = w.venue.allOrders.get oid
  rows : ∀ row ∈ w.env.oms.journal.orders,
    w.venue.allOrders.get row.orderId ≠ none ∧ row.updatedAt ≤ w.lastReading
  newest : g → ∀ oid, newestFor Order.updatedAt Order.orderId oid w.env.oms.journal.orders =
    w.venue.allOrders.get oid

section Invariant

variable {g : Prop} {w w' : SqliteWorld}

theorem recoverable_new (clock : Clock) (hclock : clock.Monotone) :
    Recoverable g (OmsWorld.new ⟨[], []⟩ clock ()) where
  maps := paperMaps_new
  clock := hclock
  cache _ := rfl
  rows row hrow := by cases hrow
  newest _ _ := rfl

theorem recoverable_tick (h : Recoverable g w) : Recoverable g w.tick where
  maps := h.maps
  clock := h.clock
  cache := h.cache
  rows row hrow := by
    obtain ⟨hknown, hpast⟩ := h.rows row hrow
    exact ⟨hknown, hpast.trans (h.clock _ _ (Nat.sub_le_sub_right (Nat.le_succ _) 1))⟩
  newest := h.newest

/-- An update stamped with the last reading, stored, cached and journaled. -/
theorem recoverable_update (h : Recoverable g w) {u : Order} (hclock : w'.clock = w.clock)
    (hmaps : PaperMaps w'.core)
    (hall : ∀ oid, w'.venue.allOrders.get oid =
      if oid = u.orderId then some u else w.venue.allOrders.get oid)
    (horders : w'.env.oms.orders = w.env.oms.orders.set u.orderId u)
    (hrows : w'.env.oms.journal.orders = w.env.oms.journal.orders ++ [u])
    (hu : u.updatedAt = w.lastReading) : Recoverable g w' where
  maps := hmaps
  clock := by rw [hclock]; exact h.clock
  cache oid := by rw [horders, Dict.get_set, hall, h.cache]
  rows row hrow := by
    have hlast : w'.lastReading = w.lastReading := by rw [lastReading, lastReading, hclock]
    rw [hall, hlast]
    rw [hrows] at hrow
    rcases List.mem_append.mp hrow with hrow | hrow
    · obtain ⟨hknown, hpast⟩ := h.rows row hrow
      refine ⟨?_, hpast⟩
      split
      · exact Option.some_ne_none u
      · exact hknown
    · rw [List.mem_singleton.mp hrow, if_pos rfl]
      exact ⟨Option.some_ne_none u, hu.le⟩
  newest hg oid := by
    rw [hrows, hall]
    by_cases hoid : oid = u.orderId
    · rw [if_pos hoid]
      exact newestFor_concat_same hoid.symm fun row hrow => hu ▸ (h.rows row hrow).2
    · rw [if_neg hoid, newestFor_concat_other fun e => hoid e.symm]
      exact h.newest hg oid

variable {cfg : PaperConfig}

/-- A fill stamped with the last reading, announced to its end. -/
theorem recoverable_fill (h : Recoverable g w) {oid : OrderId} {order u : Order} {f : Fill}
    (hopen : w.venue.openOrders.get oid = some order) (hid : f.orderId = order.orderId)
    (hstamp : f.timestamp = w.lastReading) (hex : order.executed f = .ok u) :
    ∃ w', (applyFillToOrder sqliteSubs order f).exec w = (w', .ok ()) ∧ Recoverable g w' ∧
      w'.venue = store u f w.venue ∧
      w'.env.oms.journal.orders = w.env.oms.journal.orders ++ [u, u] := by
  obtain ⟨hall, -, hoid⟩ := h.maps.known hopen
  have hcached : w.env.oms.orders.get f.orderId = some order := by
    rw [hid, hoid, h.cache]
    exact hall
  have hu : u.orderId = f.orderId ∧ u.updatedAt = w.lastReading :=
    ⟨(Order.executed_orderId hex).trans hid.symm, (Order.executed_updatedAt hex).trans hstamp⟩
  have hmaps := maps_store h.maps hopen hex
  have hexecuted : Recoverable g (executed f u { w with
      venue := store u f w.venue, trace := w.trace ++ [.fill f, .update u] }) :=
    recoverable_update h rfl hmaps (fun j => Dict.get_set _ _ _ _)
      (by rw [hu.1]; rfl) rfl hu.2
  refine ⟨_, exec_applyFillToOrder hcached hex, ?_, rfl, by simp [handed, executed]⟩
  refine recoverable_update hexecuted rfl hmaps (fun j => ?_) rfl rfl hu.2
  simp only [handed, executed, store, Dict.get_set]
  split <;> rfl

theorem recoverable_tryFillOrder (h : Recoverable g w) (oid : OrderId)
    (book : OrderbookSnapshot) :
    Recoverable g ((tryFillOrder cfg sqliteSubs oid book).exec w).1 := by
  simp only [tryFillOrder, Co.bind_eq, Co.exec_bind, exec_readVenue]
  cases hopen : w.venue.openOrders.get oid with
  | none => exact h
  | some order =>
    have htick := recoverable_tick h
    simp only [Co.exec_bind, exec_readNow]
    split
    · exact htick
    · next f hfill =>
      have hdesc := FillEngine.tryFill_describes hfill
      cases hex : order.executed f with
      | error e =>
        simp only [applyFillToOrder, Co.ofExcept, hex, Co.bind_eq, Co.throw_bind, Co.exec_throw]
        exact htick
      | ok u =>
        obtain ⟨w', hexec, hw', -⟩ :=
          recoverable_fill htick hopen hdesc.orderId hdesc.timestamp hex
        rw [hexec]
        exact hw'

theorem recoverable_observe (h : Recoverable g w) (snapshot : OrderbookSnapshot) :
    Recoverable g { w with venue := w.venue.observe snapshot } where
  maps := ⟨h.maps.ids, h.maps.status, h.maps.resting, h.maps.published⟩
  clock := h.clock
  cache := h.cache
  rows := h.rows
  newest := h.newest

theorem recoverable_onOrderbook (h : Recoverable g w) (snapshot : OrderbookSnapshot) :
    Recoverable g ((PaperVenue.onOrderbook cfg sqliteSubs snapshot).exec w).1 := by
  simp only [PaperVenue.onOrderbook, Co.bind_eq, Co.exec_bind, record, Co.exec_modify,
    exec_readVenue, List.append_nil]
  exact Co.exec_forEach_inv (P := Recoverable g) _
    (fun oid _ _ h => recoverable_tryFillOrder h oid snapshot) (recoverable_observe h snapshot)

theorem recoverable_cancelOrder (h : Recoverable g w) (oid : OrderId) :
    Recoverable g ((PaperVenue.cancelOrder sqliteSubs oid).exec w).1 := by
  simp only [PaperVenue.cancelOrder, Co.bind_eq, Co.exec_bind, exec_readVenue]
  cases hopen : w.venue.openOrders.get oid with
  | none => exact h
  | some order =>
    obtain ⟨-, -, hoid⟩ := h.maps.known hopen
    simp only [Co.exec_bind, exec_readNow, record, Co.exec_modify, exec_notifyOrder, Co.pure_eq,
      Co.exec_pure]
    refine recoverable_update (recoverable_tick h) rfl (maps_cancel h.maps _ hopen) ?_ rfl rfl rfl
    intro j
    simp only [handed, remove, Dict.get_set, hoid]

theorem recoverable_cancelEach (h : Recoverable g w) (orders : List Order) (count : Nat) :
    Recoverable g
      ((OrderManager.cancelEach (asVenue cfg sqliteSubs) orders count).exec w).1 := by
  induction orders generalizing count w with
  | nil => exact h
  | cons order orders ih =>
    have hcancel := recoverable_cancelOrder h order.orderId
    rw [OrderManager.cancelEach, Co.bind_eq, Co.exec_bind]
    have hsame : (asVenue cfg sqliteSubs).cancelOrder order.orderId =
        PaperVenue.cancelOrder sqliteSubs order.orderId := rfl
    rw [hsame]
    rcases hexec : (PaperVenue.cancelOrder sqliteSubs order.orderId).exec w with ⟨w', e | done⟩
    · rwa [hexec] at hcancel
    · rw [hexec] at hcancel
      exact ih hcancel _

/-- Rows up to the last reading do not exceed an update stamped with it. -/
theorem newest_rows (h : Recoverable g w) {u : Order} (hu : u.updatedAt = w.lastReading)
    (us : List Order) (hus : ∀ y ∈ us, y.updatedAt ≤ u.updatedAt) :
    newestFor Order.updatedAt Order.orderId u.orderId
      (w.env.oms.journal.orders ++ us ++ [u]) = some u := by
  apply newestFor_concat_same rfl
  intro y hy
  rcases List.mem_append.mp hy with hy | hy
  · rw [hu]
    exact (h.rows y hy).2
  · exact hus y hy

theorem executed_of_unpriced {order : Order} (h : order.averageFillPrice = none) (f : Fill) :
    ∃ u, order.executed f = .ok u ∧ u.orderId = order.orderId ∧ u.updatedAt = f.timestamp ∧
      u.status ≠ .submitted := by
  cases hex : order.executed f with
  | error e =>
    rw [Order.executed, Order.newAverage, h] at hex
    cases hex
  | ok u =>
    refine ⟨u, rfl, Order.executed_orderId hex, Order.executed_updatedAt hex, ?_⟩
    cases Order.executed_status hex with
    | inl hfilled => simp [hfilled]
    | inr hpartly => simp [hpartly]

/-- The world once a placed order is acknowledged or rejected. -/
def acknowledged (w : SqliteWorld) (request : OrderRequest) : SqliteWorld :=
  handed (w.placedOrder request) { w.tick with
    venue := enter (w.placedOrder request) { w.venue with nextOid := w.venue.nextOid + 1 }
    trace := w.trace ++ [.update (w.placedOrder request)] }

theorem recoverable_acknowledged (h : Recoverable g w) (request : OrderRequest) :
    Recoverable g (acknowledged w request) := by
  have hstatus := initialStatus_cases w.venue request
  refine recoverable_update (u := w.placedOrder request) (recoverable_tick h) rfl
    (maps_enter h.maps rfl hstatus) (fun j => ?_) rfl rfl rfl
  exact Dict.get_set _ _ _ _

theorem exec_placeOrder_acknowledged (w : SqliteWorld) (request : OrderRequest) :
    (PaperVenue.placeOrder cfg sqliteSubs request).exec w =
      (if (w.placedOrder request).status = .acked then
        (tryFillLatest cfg sqliteSubs (w.placedOrder request)).bind
          fun _ => .pure (paperOid (w.venue.nextOid + 1))
        else .pure (paperOid (w.venue.nextOid + 1))).exec (acknowledged w request) := by
  simp only [PaperVenue.placeOrder, Co.bind_eq, Co.exec_bind, record, Co.exec_modify,
    exec_readVenue, exec_readNow, exec_notifyOrder, List.append_nil]
  rfl

/-- What a placement leaves behind: its order, whose newest row is the order itself. -/
structure Placed (g : Prop) (w' : SqliteWorld) (oid : OrderId) (stamp : Time) : Prop where
  recoverable : Recoverable g w'
  order : ∃ u, w'.venue.allOrders.get oid = some u ∧ u.orderId = oid ∧ u.updatedAt = stamp ∧
    u.status ≠ .submitted ∧
    newestFor Order.updatedAt Order.orderId oid w'.env.oms.journal.orders = some u

/-- An order that does not fill at once is left as acknowledged or rejected. -/
theorem placed_acknowledged (h : Recoverable g w) (request : OrderRequest) :
    Placed g (acknowledged w request) (paperOid (w.venue.nextOid + 1))
      (w.clock.reading w.clock.reads) where
  recoverable := recoverable_acknowledged h request
  order := by
    refine ⟨w.placedOrder request, Dict.get_set_same _ _ _, rfl, rfl, ?_, ?_⟩
    · rcases initialStatus_cases w.venue request with hs | hs <;>
        simp [placedOrder, newOrder, hs]
    · have hrows := newest_rows (u := w.placedOrder request) (recoverable_tick h) rfl [] (by simp)
      rwa [List.append_nil] at hrows

theorem Placed.tick {oid : OrderId} {stamp : Time} (h : Placed g w oid stamp) :
    Placed g w.tick oid stamp :=
  ⟨recoverable_tick h.recoverable, h.order⟩

/-- An order that fills at once is left with the update that includes the fill. -/
theorem placed_filled (h : Recoverable g w) (request : OrderRequest) {book : OrderbookSnapshot}
    {f : Fill} (hopen : (acknowledged w request).venue.openOrders.get
      (w.placedOrder request).orderId = some (w.placedOrder request))
    (hfill : cfg.fillEngine.tryFill (w.placedOrder request) book
      (w.clock.reading (w.clock.reads + 1)) = some f) :
    ∃ w', (applyFillToOrder sqliteSubs (w.placedOrder request) f).exec
        (acknowledged w request).tick = (w', .ok ()) ∧
      Placed g w' (paperOid (w.venue.nextOid + 1)) f.timestamp := by
  have hdesc := FillEngine.tryFill_describes hfill
  have hunpriced : (w.placedOrder request).averageFillPrice = none := rfl
  obtain ⟨u, hex, hid, htime, hstatus⟩ := executed_of_unpriced hunpriced f
  have htick := recoverable_tick (recoverable_acknowledged h request)
  obtain ⟨w', hexec, hw', hvenue, hrows⟩ :=
    recoverable_fill htick hopen hdesc.orderId hdesc.timestamp hex
  have hoid : u.orderId = paperOid (w.venue.nextOid + 1) := hid
  refine ⟨w', hexec, hw', u, ?_, hoid, htime, hstatus, ?_⟩
  · rw [hvenue, store, ← hoid]
    exact Dict.get_set_same _ _ _
  · have hnewest := newest_rows htick (htime.trans hdesc.timestamp) [u] (by simp)
    rw [hrows, ← hoid]
    simpa using hnewest

/-- A placement always returns. -/
theorem exec_placeOrder (cfg : PaperConfig) (h : Recoverable g w) (request : OrderRequest) :
    ∃ w', (PaperVenue.placeOrder cfg sqliteSubs request).exec w =
        (w', .ok (paperOid (w.venue.nextOid + 1))) ∧
      Placed g w' (paperOid (w.venue.nextOid + 1)) (w.placedStamp cfg request) := by
  have hplaced := placed_acknowledged h request
  rw [exec_placeOrder_acknowledged]
  by_cases hacked : (w.placedOrder request).status = .acked
  · have hopen : (acknowledged w request).venue.openOrders.get (w.placedOrder request).orderId =
        some (w.placedOrder request) := by
      simp only [acknowledged, handed, enter, if_pos hacked, Dict.get_set_same]
    rw [if_pos hacked, Co.exec_bind]
    simp only [tryFillLatest, Co.bind_eq, Co.exec_bind, exec_readVenue]
    cases hbook : w.venue.latestBook.get request.symbol with
    | none =>
      have hlatest : (acknowledged w request).venue.latestBook.get
          (w.placedOrder request).symbol = none := hbook
      have hstamp : w.placedStamp cfg request = w.clock.reading w.clock.reads := by
        simp [placedStamp, placedFill, hbook]
      rw [hlatest, hstamp]
      exact ⟨_, rfl, hplaced⟩
    | some book =>
      have hlatest : (acknowledged w request).venue.latestBook.get
          (w.placedOrder request).symbol = some book := hbook
      rw [hlatest]
      simp only [tryFillOrder, Co.bind_eq, Co.exec_bind, exec_readVenue, hopen, exec_readNow]
      have hnow : (acknowledged w request).clock.reading (acknowledged w request).clock.reads =
          w.clock.reading (w.clock.reads + 1) := rfl
      rw [hnow]
      cases hfill : cfg.fillEngine.tryFill (w.placedOrder request) book
          (w.clock.reading (w.clock.reads + 1)) with
      | none =>
        have hstamp : w.placedStamp cfg request = w.clock.reading w.clock.reads := by
          simp [placedStamp, placedFill, hbook, hfill]
        rw [hstamp]
        exact ⟨_, rfl, hplaced.tick⟩
      | some f =>
        obtain ⟨w', hexec, hw'⟩ := placed_filled h request hopen hfill
        have hstamp : w.placedStamp cfg request = f.timestamp := by
          simp [placedStamp, placedFill, hbook, hfill, hacked,
            (FillEngine.tryFill_describes hfill).timestamp]
        rw [hexec, hstamp]
        exact ⟨w', rfl, hw'⟩
  · have hstamp : w.placedStamp cfg request = w.clock.reading w.clock.reads := by
      simp [placedStamp, placedFill, hacked]
    rw [if_neg hacked, hstamp]
    exact ⟨_, rfl, hplaced⟩

/-- The world after the submission was journaled; the order is cached already. -/
def journaled (row : Order) (w : SqliteWorld) : SqliteWorld :=
  { w with env := { w.env with oms := { w.env.oms with
      journal := { w.env.oms.journal with orders := w.env.oms.journal.orders ++ [row] } } } }

theorem exec_recordSubmission {row : Order} (hcached : w.env.oms.orders.get row.orderId ≠ none) :
    ((OrderManager.recordSubmission SQLiteOrderJournal.journal row).lift :
      Coro SqliteWorld Unit).exec w = (journaled row w, .ok ()) := by
  have hview : (Part.view w : OrderManager OrderTables) = w.env.oms := rfl
  have hkeep := Dict.setDefault_present hcached row
  rw [Co.exec_lift, hview, OrderManager.recordSubmission, Co.bind_eq, Co.exec_bind, Co.exec_lift,
    SQLiteOrderJournal.exec_writeOrder]
  simp only [Co.exec_modify, OrderManager.put_orders, hkeep]
  rfl

/-- The newest row stays the venue's as long as the submission is older. -/
theorem recoverable_journaled {oid : OrderId} {stamp : Time} (h : Placed g w oid stamp)
    {row : Order} (hoid : row.orderId = oid) (hrow : row.updatedAt ≤ stamp) :
    Recoverable (g ∧ row.updatedAt < stamp) (journaled row w) where
  maps := h.recoverable.maps
  clock := h.recoverable.clock
  cache := h.recoverable.cache
  rows y hy := by
    obtain ⟨u, hall, -, hstamp, -, hnewest⟩ := h.order
    rcases List.mem_append.mp hy with hy | hy
    · exact h.recoverable.rows y hy
    · obtain ⟨hknown, hpast⟩ := h.recoverable.rows u (newestFor_mem hnewest).1
      rw [List.mem_singleton.mp hy, hoid]
      refine ⟨?_, hrow.trans (hstamp ▸ hpast)⟩
      rw [show (journaled row w).venue.allOrders.get oid = some u from hall]
      exact Option.some_ne_none u
  newest hg j := by
    obtain ⟨u, hall, -, hstamp, -, hnewest⟩ := h.order
    by_cases hj : j = oid
    · rw [hj]
      exact (newestFor_concat_older hoid hnewest (hstamp ▸ hg.2)).trans hall.symm
    · refine (newestFor_concat_other fun e => hj (e.symm.trans hoid)).trans ?_
      exact h.recoverable.newest hg.1 j

theorem mem_recovered_live {t : OrderTables} {o : Order} :
    o ∈ (recovered t).live none ↔
      newestFor Order.updatedAt Order.orderId o.orderId t.orders = some o ∧
        o.status.isTerminal = false := by
  have horders : (recovered t).orders =
      .ofList Order.orderId (SQLiteOrderJournal.openOrders t none) := rfl
  have hinj : ∀ x ∈ SQLiteOrderJournal.openOrders t none,
      ∀ y ∈ SQLiteOrderJournal.openOrders t none, x.orderId = y.orderId → x = y := by
    intro x hx y hy hid
    have hnewest := (SQLiteOrderJournal.mem_openOrders.mp hx).1
    rw [hid, (SQLiteOrderJournal.mem_openOrders.mp hy).1] at hnewest
    exact (Option.some.inj hnewest).symm
  rw [OrderManager.mem_live, horders]
  constructor
  · rintro ⟨⟨oid, hget⟩, -⟩
    exact SQLiteOrderJournal.mem_openOrders.mp (Dict.mem_of_get_ofList hget).1
  · intro h
    refine ⟨⟨o.orderId, ?_⟩, h.2⟩
    rw [Dict.get_ofList_iff hinj]
    exact ⟨SQLiteOrderJournal.mem_openOrders.mpr h, rfl⟩

theorem recovers_of_recoverable (h : Recoverable True w) : Recovers w := by
  have hsame : ∀ o, o ∈ (recovered w.env.oms.journal).live none ↔ o ∈ w.env.oms.live none := by
    intro o
    rw [mem_recovered_live, OrderManager.mem_live, h.newest trivial]
    refine and_congr_left fun _ => ⟨fun hget => ⟨o.orderId, (h.cache _).trans hget⟩, ?_⟩
    rintro ⟨oid, hget⟩
    rw [h.cache] at hget
    rw [(h.maps.ids oid o hget).1]
    exact hget
  intro r
  simp only [List.mem_map, hsame]

/-- A submission stamped no earlier than the venue's updates hides them. -/
theorem not_recovers_journaled {oid : OrderId} {stamp : Time} (h : Placed g w oid stamp)
    {row : Order} (hoid : row.orderId = oid) (hsubmitted : row.status = .submitted)
    (hlate : stamp ≤ row.updatedAt) : ¬ Recovers (journaled row w) := by
  obtain ⟨u, hall, hu, hstamp, hstatus, hnewest⟩ := h.order
  intro hrec
  have hrow : row ∈ (recovered (journaled row w).env.oms.journal).live none := by
    rw [mem_recovered_live, hoid]
    exact ⟨newestFor_concat_newer hoid hnewest (hstamp ▸ hlate), by rw [hsubmitted]; rfl⟩
  obtain ⟨o, ho, hreported⟩ := List.mem_map.mp ((hrec row.reported).mp (List.mem_map_of_mem hrow))
  obtain ⟨⟨j, hget⟩, -⟩ := OrderManager.mem_live.mp ho
  have hcached : w.venue.allOrders.get j = some o := (h.recoverable.cache j).symm.trans hget
  have hj : j = oid := by
    rw [← (h.recoverable.maps.ids j o hcached).1, ← hoid]
    exact congrArg Prod.fst hreported
  rw [hj, hall] at hcached
  have hsame : u.status = row.status := by
    rw [Option.some.inj hcached]
    exact congrArg (fun r => r.2.1) hreported
  exact hstatus (hsame.trans hsubmitted)

/-- A submission whose placement left its order in the cache. -/
theorem exec_submit_of_placed {oid : OrderId} {cid : ClientOrderId} {intent : TradeIntent}
    (hplace : (PaperVenue.placeOrder cfg sqliteSubs (OrderManager.request cid intent)).exec w.tick =
      (w', .ok oid)) (hcached : w'.env.oms.orders.get oid ≠ none) :
    (OrderManager.submit (asVenue cfg sqliteSubs) SQLiteOrderJournal.journal cid intent).exec w =
      (journaled (OrderManager.submittedOrder oid cid intent (w.clock.reading w.clock.reads)) w',
        .ok (.submitted oid cid)) := by
  have hnow : (Clock.now.lift : Coro SqliteWorld Time).exec w =
      (w.tick, .ok (w.clock.reading w.clock.reads)) := rfl
  have hasVenue : ((asVenue cfg sqliteSubs).placeOrder (OrderManager.request cid intent)).exec
      w.tick = (w', .ok oid) := hplace
  have hrecord := @exec_recordSubmission w' (OrderManager.submittedOrder oid cid intent
    (w.clock.reading w.clock.reads)) hcached
  rw [OrderManager.exec_submit_placed _ hnow hasVenue, Co.exec_bind_ok hrecord]
  rfl

/-- A submission ends in its journal row, whatever the venue did. -/
theorem exec_submit (cfg : PaperConfig) (h : Recoverable g w) (cid : ClientOrderId)
    (intent : TradeIntent) :
    ∃ w' oid, (OmsOp.submit cid intent).exec cfg w =
        journaled (OrderManager.submittedOrder oid cid intent (w.clock.reading w.clock.reads)) w' ∧
      Placed g w' oid (placedStamp cfg w.tick (OrderManager.request cid intent)) := by
  obtain ⟨w', hexec, hplaced⟩ := exec_placeOrder cfg (recoverable_tick h)
    (OrderManager.request cid intent)
  have hcached : w'.env.oms.orders.get (paperOid (w.venue.nextOid + 1)) ≠ none := by
    obtain ⟨u, hall, -⟩ := hplaced.order
    exact hplaced.recoverable.cache _ ▸ hall ▸ Option.some_ne_none u
  refine ⟨w', _, ?_, hplaced⟩
  have hsubmit := exec_submit_of_placed hexec hcached
  simp only [sqliteSubs] at hsubmit
  simp only [OmsOp.exec, OmsOp.prog, Co.exec_discard, hsubmit]

/-- The placement's last update is stamped after the submission was. -/
theorem le_placedStamp (h : Recoverable g w) (request : OrderRequest) :
    w.clock.reading w.clock.reads ≤ placedStamp cfg w.tick request := by
  rw [placedStamp]
  split
  · exact h.clock _ _ (by simp [tick]; omega)
  · exact h.clock _ _ (by simp [tick])

theorem recoverable_op (h : Recoverable g w) (op : OmsOp)
    (hop : ∀ cid intent, op ≠ .submit cid intent) : Recoverable g (op.exec cfg w) := by
  cases op with
  | submit cid intent => exact absurd rfl (hop cid intent)
  | cancel oid =>
    simp only [OmsOp.exec, OmsOp.prog, Co.exec_discard]
    exact recoverable_cancelOrder h oid
  | cancelAll symbol =>
    simp only [OmsOp.exec, OmsOp.prog, Co.exec_discard]
    exact recoverable_cancelEach h (w.env.oms.live symbol) 0
  | onOrderbook snapshot => exact recoverable_onOrderbook h snapshot

theorem Recoverable.mono {g' : Prop} (h : Recoverable g w) (hg : g' → g) : Recoverable g' w :=
  { h with newest := fun hg' => h.newest (hg hg') }

/-- Every submission of the run is stamped before the updates it causes. -/
def AlwaysLater (cfg : PaperConfig) (w : SqliteWorld) (ops : List OmsOp) : Prop :=
  ∀ before cid intent after, ops = before ++ .submit cid intent :: after →
    StampedLater cfg (runOps cfg w before) (OrderManager.request cid intent)

theorem AlwaysLater.init {ops : List OmsOp} {op : OmsOp} (h : AlwaysLater cfg w (ops ++ [op])) :
    AlwaysLater cfg w ops := by
  intro before cid intent after hops
  exact h before cid intent (after ++ [op]) (by simp [hops])

theorem runOps_concat (ops : List OmsOp) (op : OmsOp) :
    runOps cfg w (ops ++ [op]) = op.exec cfg (runOps cfg w ops) := by
  rw [runOps, List.foldl_append]
  rfl

/-- Each operation keeps the invariant; a submission keeps the newest rows if it is
stamped before its updates. -/
theorem recoverable_runOps (h : Recoverable True w) (ops : List OmsOp) :
    Recoverable (AlwaysLater cfg w ops) (runOps cfg w ops) := by
  induction ops using List.reverseRecOn with
  | nil => exact h.mono fun _ => trivial
  | append_singleton ops op ih =>
    rw [runOps_concat]
    by_cases hop : ∀ cid intent, op ≠ .submit cid intent
    · exact (recoverable_op ih op hop).mono AlwaysLater.init
    · push Not at hop
      obtain ⟨cid, intent, rfl⟩ := hop
      obtain ⟨w', oid, hexec, hplaced⟩ := exec_submit cfg ih cid intent
      rw [hexec]
      refine (recoverable_journaled hplaced rfl (le_placedStamp ih _)).mono fun hlater => ?_
      exact ⟨hlater.init, hlater ops cid intent [] rfl⟩

/-- At every moment of a run a fresh manager reports the open orders of the live one
if and only if the clock moves during every submission. -/
theorem recovers_iff_alwaysLater (cfg : PaperConfig) (clock : Clock) (hclock : clock.Monotone)
    (ops : List OmsOp) :
    (∀ before after, ops = before ++ after →
        Recovers (runOps cfg (.new ⟨[], []⟩ clock ()) before)) ↔
      AlwaysLater cfg (.new ⟨[], []⟩ clock ()) ops := by
  have hnew : Recoverable True (.new ⟨[], []⟩ clock ()) := recoverable_new clock hclock
  constructor
  · intro h before cid intent after hops
    by_contra hlate
    obtain ⟨w', oid, hexec, hplaced⟩ :=
      exec_submit cfg (recoverable_runOps hnew before) cid intent
    have hrec := h (before ++ [.submit cid intent]) after (by simp [hops])
    rw [runOps_concat, hexec] at hrec
    rw [StampedLater, not_lt] at hlate
    exact not_recovers_journaled hplaced rfl rfl hlate hrec
  · intro h before after hops
    refine recovers_of_recoverable ((recoverable_runOps hnew before).mono fun _ => ?_)
    intro first cid intent rest hbefore
    exact h first cid intent (rest ++ after) (by simp [hops, hbefore])

end Invariant

/-- A market order against a book that fills it at once. -/
def buyAtOnce : List OmsOp :=
  [.onOrderbook ⟨"BTC", [], [⟨100, 10⟩], 0, 0⟩,
    .submit "c1" ⟨"BTC", .buy, .market, 5, none, .gtc, false⟩]

def runBuyAtOnce (clock : Clock) : SqliteWorld :=
  runOps ⟨.orderbook 0 0 "USDT", 1000, "USDT"⟩ (.new ⟨[], []⟩ clock ()) buyAtOnce

/-- Under a clock that stands still between two data events the filled order comes
back as a submitted one. -/
theorem filled_order_recovered_as_submitted :
    let w := runBuyAtOnce ⟨fun _ => 0, 0⟩
    (⟨fun _ => 0, 0⟩ : Clock).Monotone ∧
      (w.env.oms.live none).map Order.reported = [] ∧
      ((recovered w.env.oms.journal).live none).map Order.reported =
        [("paper-1", .submitted, 0, none)] ∧ ¬ Recovers w := by
  intro w
  have hlive : (w.env.oms.live none).map Order.reported = [] := by decide +kernel
  have hrecovered : ((recovered w.env.oms.journal).live none).map Order.reported =
      [("paper-1", .submitted, 0, none)] := by decide +kernel
  refine ⟨fun _ _ _ => le_refl _, hlive, hrecovered, fun h => ?_⟩
  have hmem := (h ("paper-1", .submitted, 0, none)).mp (by rw [hrecovered]; simp)
  rw [hlive] at hmem
  exact List.not_mem_nil hmem

theorem filled_order_recovered_when_clock_moves :
    Recovers (runBuyAtOnce ⟨fun n => n, 0⟩) := by
  refine (recovers_iff_alwaysLater _ ⟨fun n => n, 0⟩ (fun _ _ h => by simpa using h)
    buyAtOnce).mpr ?_ buyAtOnce [] (List.append_nil _).symm
  intro before cid intent after hops
  cases before with
  | nil => simp [buyAtOnce] at hops
  | cons op before =>
    cases before with
    | nil =>
      simp only [buyAtOnce, List.cons_append, List.nil_append, List.cons.injEq,
        OmsOp.submit.injEq] at hops
      obtain ⟨rfl, ⟨rfl, rfl⟩, -⟩ := hops
      unfold StampedLater
      decide +kernel
    | cons _ _ => simp [buyAtOnce] at hops

end Trading
