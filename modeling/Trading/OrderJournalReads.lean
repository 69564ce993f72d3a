import Mathlib.Data.Finset.Card
import Trading.Data.Sorting
import Trading.OrderJournal

/-!
# What order journals read back

The in-memory journal answers in the order of the writes, SQLite in the order of
the timestamps. The contract asks for the order of the timestamps.
-/
namespace Trading

open Async Data

/-- The reads that replay the past. -/
structure OrderHistory (J : Type) where
  readOrderHistory : OrderId → Coro J (List Order)
  readFillsSince : Time → Coro J (List Fill)

namespace InMemoryOrderJournal

def orderHistory (t : OrderTables) (oid : OrderId) : List Order :=
  t.orders.filter fun o => o.orderId = oid

def fillsSince (t : OrderTables) (since : Time) : List Fill :=
  t.fills.filter fun f => since ≤ f.timestamp

def history : OrderHistory OrderTables where
  readOrderHistory oid := .act id fun t => .pure (orderHistory t oid)
  readFillsSince since := .act id fun t => .pure (fillsSince t since)

/-- The working orders are the last rows that are not terminal. -/
theorem mem_openOrders {t : OrderTables} {symbol : Option Symbol} {o : Order} :
    o ∈ openOrders t symbol ↔ (orderHistory t o.orderId).getLast? = some o ∧
      o.status.isTerminal = false ∧ ∀ s, symbol = some s → o.symbol = s := by
  have hlast : ∀ oid, (Dict.ofList Order.orderId t.orders).get oid =
      (orderHistory t oid).getLast? := fun oid => by
    rw [Dict.get_ofList, orderHistory, ← List.head?_reverse, ← List.filter_reverse,
      List.head?_filter]
  have hvalues : (∃ oid, (orderHistory t oid).getLast? = some o) ↔
      (orderHistory t o.orderId).getLast? = some o := by
    constructor
    · rintro ⟨oid, h⟩
      have hid := (List.mem_filter.mp (List.mem_of_getLast? h)).2
      rwa [of_decide_eq_true hid]
    · exact fun h => ⟨o.orderId, h⟩
  simp only [openOrders, List.mem_filter, Dict.mem_values, hlast, hvalues]
  cases symbol <;> simp

end InMemoryOrderJournal

namespace SQLiteOrderJournal

/-- `ORDER BY updated_at ASC, id ASC`. -/
def orderHistory (t : OrderTables) (oid : OrderId) : List Order :=
  sortBy Order.updatedAt (t.orders.filter fun o => o.orderId = oid)

/-- `ORDER BY timestamp ASC, id ASC`. -/
def fillsSince (t : OrderTables) (since : Time) : List Fill :=
  sortBy Fill.timestamp (t.fills.filter fun f => since ≤ f.timestamp)

def history : OrderHistory OrderTables where
  readOrderHistory oid := do
    Co.yield
    let t ← Co.get
    pure (orderHistory t oid)
  readFillsSince since := do
    Co.yield
    let t ← Co.get
    pure (fillsSince t since)

theorem mem_openOrders_symbol {t : OrderTables} {symbol : Option Symbol} {o : Order} :
    o ∈ openOrders t symbol ↔ newestFor Order.updatedAt Order.orderId o.orderId t.orders = some o ∧
      o.status.isTerminal = false ∧ ∀ s, symbol = some s → o.symbol = s := by
  have hall : o ∈ openOrders t symbol ↔
      o ∈ openOrders t none ∧ ∀ s, symbol = some s → o.symbol = s := by
    cases symbol <;> simp [openOrders]
    tauto
  rw [hall, mem_openOrders, and_assoc]

end SQLiteOrderJournal

/-- A call that appends a row. -/
inductive OrderWrite where
  | order (o : Order)
  | fill (f : Fill)

namespace OrderWrite

def order? : OrderWrite → Option Order
  | .order o => some o
  | .fill _ => none

def fill? : OrderWrite → Option Fill
  | .order _ => none
  | .fill f => some f

def exec {J : Type} (journal : OrderJournal J) : OrderWrite → Coro J Unit
  | .order o => journal.writeOrder o
  | .fill f => journal.writeFill f

end OrderWrite

/-- The rows written for one order, in the order of the writes. -/
def orderRows (ws : List OrderWrite) (oid : OrderId) : List Order :=
  (ws.filterMap OrderWrite.order?).filter fun o => o.orderId = oid

def fillRows (ws : List OrderWrite) : List Fill := ws.filterMap OrderWrite.fill?

/-- The answers of the reads, the working orders as a set. -/
structure OrderAnswers where
  openOrders : Option Symbol → Except PyError (Finset Order)
  orderHistory : OrderId → Except PyError (List Order)
  fillsSince : Time → Except PyError (List Fill)

def orderTables (journal : OrderJournal OrderTables) (ws : List OrderWrite) : OrderTables :=
  ((Co.forEach ws (OrderWrite.exec journal)).exec ⟨[], []⟩).1

def orderAnswers (journal : OrderJournal OrderTables) (history : OrderHistory OrderTables)
    (ws : List OrderWrite) : OrderAnswers where
  openOrders symbol :=
    (((journal.readOpenOrders symbol).exec (orderTables journal ws)).2).map List.toFinset
  orderHistory oid := ((history.readOrderHistory oid).exec (orderTables journal ws)).2
  fillsSince since := ((history.readFillsSince since).exec (orderTables journal ws)).2

def memoryAnswers (ws : List OrderWrite) : OrderAnswers :=
  orderAnswers InMemoryOrderJournal.journal InMemoryOrderJournal.history ws

def sqliteAnswers (ws : List OrderWrite) : OrderAnswers :=
  orderAnswers SQLiteOrderJournal.journal SQLiteOrderJournal.history ws

/-- What the contract asks of the answers: the state of an order is its row with the
latest time, of several the last written; lists ascend by time. -/
structure OrderContract (ws : List OrderWrite) (answers : OrderAnswers) : Prop where
  openOrders : ∀ symbol, ∃ open_, answers.openOrders symbol = .ok open_ ∧ ∀ o, o ∈ open_ ↔
    o.status.isTerminal = false ∧ (∀ s, symbol = some s → o.symbol = s) ∧
      ∃ older newer, orderRows ws o.orderId = older ++ o :: newer ∧
        (∀ row ∈ older, row.updatedAt ≤ o.updatedAt) ∧ ∀ row ∈ newer, row.updatedAt < o.updatedAt
  orderHistory : ∀ oid, ∃ rows, answers.orderHistory oid = .ok rows ∧
    Ascends Order.updatedAt (orderRows ws oid) rows
  fillsSince : ∀ since, ∃ fills, answers.fillsSince since = .ok fills ∧
    Ascends Fill.timestamp ((fillRows ws).filter fun f => since ≤ f.timestamp) fills

/-- Every order's rows and the fills are written in the order of their times. -/
structure WrittenInOrder (ws : List OrderWrite) : Prop where
  orders : ∀ oid, (orderRows ws oid).Pairwise fun x y => x.updatedAt ≤ y.updatedAt
  fills : (fillRows ws).Pairwise fun f g => f.timestamp ≤ g.timestamp

theorem orderTables_eq {journal : OrderJournal OrderTables}
    (horder : ∀ o t, (journal.writeOrder o).exec t = ({ t with orders := t.orders ++ [o] }, .ok ()))
    (hfill : ∀ f t, (journal.writeFill f).exec t = ({ t with fills := t.fills ++ [f] }, .ok ()))
    (ws : List OrderWrite) :
    orderTables journal ws = ⟨ws.filterMap OrderWrite.order?, fillRows ws⟩ := by
  have hwrite : ∀ w t, (OrderWrite.exec journal w).exec t =
      (⟨t.orders ++ w.order?.toList, t.fills ++ w.fill?.toList⟩, .ok ()) := fun w t => by
    cases w with
    | order o => simp [OrderWrite.exec, OrderWrite.order?, OrderWrite.fill?, horder]
    | fill f => simp [OrderWrite.exec, OrderWrite.order?, OrderWrite.fill?, hfill]
  rw [orderTables, Co.exec_forEach_ok hwrite]
  induction ws using List.reverseRecOn with
  | nil => rfl
  | append_singleton ws w ih =>
    rw [List.foldl_append]
    simp only [fillRows, List.foldl_cons, List.foldl_nil] at ih ⊢
    rw [ih, List.filterMap_append, List.filterMap_append]
    cases w <;> rfl

theorem memoryTables (ws : List OrderWrite) : orderTables InMemoryOrderJournal.journal ws =
    ⟨ws.filterMap OrderWrite.order?, fillRows ws⟩ :=
  orderTables_eq (fun _ _ => rfl) (fun _ _ => rfl) ws

theorem sqliteTables (ws : List OrderWrite) : orderTables SQLiteOrderJournal.journal ws =
    ⟨ws.filterMap OrderWrite.order?, fillRows ws⟩ :=
  orderTables_eq (fun _ _ => rfl) (fun _ _ => rfl) ws

/-- SQLite meets the contract after any writes. -/
theorem sqlite_meets_contract (ws : List OrderWrite) :
    OrderContract ws (sqliteAnswers ws) where
  openOrders symbol := by
    refine ⟨(SQLiteOrderJournal.openOrders (orderTables _ ws) symbol).toFinset, rfl, fun o => ?_⟩
    rw [List.mem_toFinset, SQLiteOrderJournal.mem_openOrders_symbol, sqliteTables, newestFor,
      newest_eq_some_iff, and_comm, and_assoc]
    rfl
  orderHistory oid := by
    refine ⟨SQLiteOrderJournal.orderHistory (orderTables _ ws) oid, rfl, ?_⟩
    rw [sqliteTables]
    exact ascends_sortBy _ _
  fillsSince since := by
    refine ⟨SQLiteOrderJournal.fillsSince (orderTables _ ws) since, rfl, ?_⟩
    rw [sqliteTables]
    exact ascends_sortBy _ _

/-- The contract leaves no choice. -/
theorem OrderContract.unique {ws : List OrderWrite} {a b : OrderAnswers}
    (ha : OrderContract ws a) (hb : OrderContract ws b) : a = b := by
  have hopen : a.openOrders = b.openOrders := by
    funext symbol
    obtain ⟨xs, hxs, hx⟩ := ha.openOrders symbol
    obtain ⟨ys, hys, hy⟩ := hb.openOrders symbol
    have hsame : xs = ys := Finset.ext fun o => (hx o).trans (hy o).symm
    rw [hxs, hys, hsame]
  have hhistory : a.orderHistory = b.orderHistory := by
    funext oid
    obtain ⟨xs, hxs, hx⟩ := ha.orderHistory oid
    obtain ⟨ys, hys, hy⟩ := hb.orderHistory oid
    rw [hxs, hys, hx.unique hy]
  have hfills : a.fillsSince = b.fillsSince := by
    funext since
    obtain ⟨xs, hxs, hx⟩ := ha.fillsSince since
    obtain ⟨ys, hys, hy⟩ := hb.fillsSince since
    rw [hxs, hys, hx.unique hy]
  cases a
  cases b
  simp_all

theorem memoryHistory (ws : List OrderWrite) (oid : OrderId) :
    (memoryAnswers ws).orderHistory oid = .ok (orderRows ws oid) := by
  have hread : (memoryAnswers ws).orderHistory oid = .ok (InMemoryOrderJournal.orderHistory
      (orderTables InMemoryOrderJournal.journal ws) oid) := rfl
  rw [hread, memoryTables]
  rfl

theorem memoryFills (ws : List OrderWrite) (since : Time) :
    (memoryAnswers ws).fillsSince since =
      .ok ((fillRows ws).filter fun f => since ≤ f.timestamp) := by
  have hread : (memoryAnswers ws).fillsSince since = .ok (InMemoryOrderJournal.fillsSince
      (orderTables InMemoryOrderJournal.journal ws) since) := rfl
  rw [hread, memoryTables]
  rfl

/-- The in-memory journal meets the contract just on rows written in order. -/
theorem memory_meets_contract_iff (ws : List OrderWrite) :
    OrderContract ws (memoryAnswers ws) ↔ WrittenInOrder ws := by
  constructor
  · intro h
    refine ⟨fun oid => ?_, (pairwise_from_iff _).mp fun since => ?_⟩
    · obtain ⟨rows, hrows, hascends⟩ := h.orderHistory oid
      rw [memoryHistory] at hrows
      cases hrows
      exact hascends.sorted
    · obtain ⟨fills, hfills, hascends⟩ := h.fillsSince since
      rw [memoryFills] at hfills
      cases hfills
      exact hascends.sorted
  · intro h
    refine ⟨fun symbol => ?_, fun oid => ⟨_, memoryHistory ws oid, ?_⟩,
      fun since => ⟨_, memoryFills ws since, ?_⟩⟩
    · refine ⟨(InMemoryOrderJournal.openOrders (orderTables _ ws) symbol).toFinset, rfl,
        fun o => ?_⟩
      have hlast : (InMemoryOrderJournal.orderHistory ⟨ws.filterMap OrderWrite.order?, fillRows ws⟩
          o.orderId).getLast? = newest Order.updatedAt (orderRows ws o.orderId) :=
        (newest_of_pairwise (h.orders o.orderId)).symm
      rw [List.mem_toFinset, InMemoryOrderJournal.mem_openOrders, memoryTables, hlast,
        newest_eq_some_iff, and_comm, and_assoc]
    · exact Ascends.self_iff.mpr (h.orders oid)
    · exact Ascends.self_iff.mpr ((pairwise_from_iff _).mpr h.fills since)

/-- Both journals give the answers of the contract if and only if the rows were
written in the order of their times. -/
theorem order_journals_agree_iff (ws : List OrderWrite) :
    (memoryAnswers ws = sqliteAnswers ws ∧ OrderContract ws (memoryAnswers ws) ∧
      OrderContract ws (sqliteAnswers ws)) ↔ WrittenInOrder ws := by
  constructor
  · exact fun h => (memory_meets_contract_iff ws).mp h.2.1
  · intro h
    have hmemory := (memory_meets_contract_iff ws).mpr h
    have hsqlite := sqlite_meets_contract ws
    exact ⟨hmemory.unique hsqlite, hmemory, hsqlite⟩

def boughtAtOnce : Order :=
  ⟨"P-1", "C-1", "BTC", .buy, .market, 1, 0, none, none, .submitted, .gtc, false, 0, 0⟩

/-- Its SUBMITTED row is written after the fill, with the time read before it. -/
def filledAtOnce : List OrderWrite :=
  [.order { boughtAtOnce with
      filledQuantity := 1, averageFillPrice := some 100, status := .filled, updatedAt := 1 },
    .order boughtAtOnce]

/-- In memory the filled order is open again, its history goes back in time. -/
theorem filled_order_open_in_memory :
    ((memoryAnswers filledAtOnce).openOrders none).map Finset.card = .ok 1 ∧
      ((sqliteAnswers filledAtOnce).openOrders none).map Finset.card = .ok 0 ∧
      ¬(memoryAnswers filledAtOnce = sqliteAnswers filledAtOnce ∧
        OrderContract filledAtOnce (memoryAnswers filledAtOnce) ∧
        OrderContract filledAtOnce (sqliteAnswers filledAtOnce)) := by
  have hmemory : ((memoryAnswers filledAtOnce).openOrders none).map Finset.card = .ok 1 := by
    decide +kernel
  have hsqlite : ((sqliteAnswers filledAtOnce).openOrders none).map Finset.card = .ok 0 := by
    decide +kernel
  refine ⟨hmemory, hsqlite, fun h => ?_⟩
  rw [h.1, hsqlite] at hmemory
  cases hmemory

end Trading
