import Mathlib.Data.List.Dedup
import Trading.Data.Latest
import Trading.Venue

/-!
# Order journals

Append-only tables of order states and of fills, in memory and in SQLite.
-/
namespace Trading

open Async Data

/-- An order journal, as coroutines over its own state. -/
structure OrderJournal (J : Type) where
  writeOrder : Order → Coro J Unit
  writeFill : Fill → Coro J Unit
  readOpenOrders : Option Symbol → Coro J (List Order)

/-- Writes that may wait but succeed. -/
structure OrderJournal.Reliable {J : Type} (journal : OrderJournal J) : Prop where
  writeOrder : ∀ o, (journal.writeOrder o).NoThrow
  writeFill : ∀ f, (journal.writeFill f).NoThrow

/-- `_TERMINAL_STATUSES`. -/
def OrderStatus.isTerminal : OrderStatus → Bool
  | .filled | .cancelled | .rejected | .expired | .failed => true
  | .submitted | .acked | .partiallyFilled => false

/-- The two tables, oldest row first; a row's id is its place. -/
structure OrderTables where
  orders : List Order
  fills : List Fill

namespace InMemoryOrderJournal

/-- The last row written for each order, unless it is terminal. -/
def openOrders (t : OrderTables) (symbol : Option Symbol) : List Order :=
  (Dict.ofList Order.orderId t.orders).values.filter fun o =>
    !o.status.isTerminal && symbol.all fun s => o.symbol = s

def journal : OrderJournal OrderTables where
  writeOrder o := Co.modify fun t => { t with orders := t.orders ++ [o] }
  writeFill f := Co.modify fun t => { t with fills := t.fills ++ [f] }
  readOpenOrders symbol := .act id fun t => .pure (openOrders t symbol)

theorem reliable : journal.Reliable where
  writeOrder _ _ := trivial
  writeFill _ _ := trivial

end InMemoryOrderJournal

namespace SQLiteOrderJournal

/-- For each order id the row numbered one by `updated_at DESC, id DESC`, unless it
is terminal. All timestamps carry the same UTC offset, so the texts compared by
the query are ordered like the times. -/
def openOrders (t : OrderTables) (symbol : Option Symbol) : List Order :=
  ((t.orders.map Order.orderId).dedup.filterMap fun oid =>
    newestFor Order.updatedAt Order.orderId oid t.orders).filter fun o =>
      !o.status.isTerminal && symbol.all fun s => o.symbol = s

/-- Both the insertion and the commit are awaited. -/
def journal : OrderJournal OrderTables where
  writeOrder o := do
    Co.modify fun t => { t with orders := t.orders ++ [o] }
    Co.yield
  writeFill f := do
    Co.modify fun t => { t with fills := t.fills ++ [f] }
    Co.yield
  readOpenOrders symbol := do
    Co.yield
    let t ← Co.get
    pure (openOrders t symbol)

theorem reliable : journal.Reliable where
  writeOrder _ _ := trivial
  writeFill _ _ := trivial

@[simp] theorem exec_writeOrder (o : Order) (t : OrderTables) :
    (journal.writeOrder o).exec t = ({ t with orders := t.orders ++ [o] }, .ok ()) := rfl

theorem mem_openOrders {t : OrderTables} {o : Order} :
    o ∈ openOrders t none ↔
      newestFor Order.updatedAt Order.orderId o.orderId t.orders = some o ∧
        o.status.isTerminal = false := by
  simp only [openOrders, List.mem_filter, List.mem_filterMap, List.mem_dedup, Option.all_none,
    Bool.and_true, Bool.not_eq_true', List.mem_map]
  constructor
  · rintro ⟨⟨oid, -, hnewest⟩, hlive⟩
    rw [(newestFor_mem hnewest).2]
    exact ⟨hnewest, hlive⟩
  · rintro ⟨hnewest, hlive⟩
    exact ⟨⟨o.orderId, ⟨o, (newestFor_mem hnewest).1, rfl⟩, hnewest⟩, hlive⟩

end SQLiteOrderJournal

end Trading
