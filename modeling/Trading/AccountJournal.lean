import Mathlib.Data.List.Dedup
import Trading.Data.Latest
import Trading.Venue

/-!
# Account journals

Append-only snapshots of positions and of balances, in memory and in SQLite. The
two differ in which snapshot of a symbol is its latest.
-/
namespace Trading

open Async Data

/-- An account journal, as coroutines over its own state. -/
structure AccountJournal (J : Type) where
  writePositionSnapshot : Position → Coro J Unit
  writeBalanceSnapshot : Balance → Coro J Unit
  readLatestPosition : Symbol → Coro J (Option Position)
  readLatestBalance : Coro J (Option Balance)
  readAllLatestPositions : Coro J (List Position)

/-- A write that fails raises no more than an error. -/
structure AccountJournal.RaisesErrors {J : Type} (journal : AccountJournal J) : Prop where
  position : ∀ pos, (journal.writePositionSnapshot pos).RaisesErrors
  balance : ∀ balance, (journal.writeBalanceSnapshot balance).RaisesErrors

/-- The two tables, oldest row first; a row's id is its place. -/
structure AccountTables where
  positions : List Position
  balances : List Balance

namespace InMemoryAccountJournal

/-- A later snapshot takes a symbol's place only if its time is greater. -/
def keepLatest (latestPerSymbol : Dict Symbol Position) (p : Position) : Dict Symbol Position :=
  match latestPerSymbol.get p.symbol with
  | none => latestPerSymbol.set p.symbol p
  | some existing =>
    if existing.updatedAt < p.updatedAt then latestPerSymbol.set p.symbol p else latestPerSymbol

def allLatestPositions (t : AccountTables) : List Position :=
  (t.positions.foldl keepLatest .empty).values

def journal : AccountJournal AccountTables where
  writePositionSnapshot p := Co.modify fun t => { t with positions := t.positions ++ [p] }
  writeBalanceSnapshot b := Co.modify fun t => { t with balances := t.balances ++ [b] }
  readLatestPosition symbol := .act id fun t => .pure (latest Position.symbol symbol t.positions)
  readLatestBalance := .act id fun t => .pure t.balances.getLast?
  readAllLatestPositions := .act id fun t => .pure (allLatestPositions t)

theorem raisesErrors : journal.RaisesErrors := ⟨fun _ _ => trivial, fun _ _ => trivial⟩

theorem get_foldl_keepLatest (ps : List Position) (symbol : Symbol) :
    (ps.foldl keepLatest .empty).get symbol =
      firstNewest Position.updatedAt (ps.filter fun p => p.symbol = symbol) := by
  induction ps using List.reverseRecOn with
  | nil => rfl
  | append_singleton ps p ih =>
    rw [List.foldl_append, List.filter_append]
    by_cases h : p.symbol = symbol
    · have hp : [p].filter (fun q => q.symbol = symbol) = [p] := by simp [h]
      rw [hp, firstNewest, survivor_concat, ← firstNewest, ← ih, ← h]
      simp only [List.foldl_cons, List.foldl_nil, keepLatest, supersede]
      cases hget : (ps.foldl keepLatest .empty).get p.symbol with
      | none => exact Dict.get_set_same _ _ _
      | some existing =>
        dsimp only
        split
        · exact Dict.get_set_same _ _ _
        · exact hget
    · have hp : [p].filter (fun q => q.symbol = symbol) = [] := by simp [h]
      have hne : symbol ≠ p.symbol := fun e => h e.symm
      rw [hp, List.append_nil, ← ih]
      simp only [List.foldl_cons, List.foldl_nil, keepLatest]
      split
      · exact Dict.get_set_other _ _ hne
      · split
        · exact Dict.get_set_other _ _ hne
        · rfl

theorem mem_allLatestPositions {t : AccountTables} {p : Position} :
    p ∈ allLatestPositions t ↔ firstNewest Position.updatedAt
      (t.positions.filter fun q => q.symbol = p.symbol) = some p := by
  simp only [allLatestPositions, Dict.mem_values, get_foldl_keepLatest]
  constructor
  · rintro ⟨symbol, hfirst⟩
    have hmem := List.mem_filter.mp (firstNewest_le hfirst).1
    rwa [of_decide_eq_true hmem.2]
  · exact fun hfirst => ⟨p.symbol, hfirst⟩

end InMemoryAccountJournal

namespace SQLiteAccountJournal

/-- For each symbol the row numbered one by `updated_at DESC, id DESC`. -/
def allLatestPositions (t : AccountTables) : List Position :=
  (t.positions.map Position.symbol).dedup.filterMap fun symbol =>
    newestFor Position.updatedAt Position.symbol symbol t.positions

/-- Every statement and every commit is awaited. -/
def journal : AccountJournal AccountTables where
  writePositionSnapshot p := do
    Co.modify fun t => { t with positions := t.positions ++ [p] }
    Co.yield
  writeBalanceSnapshot b := do
    Co.modify fun t => { t with balances := t.balances ++ [b] }
    Co.yield
  readLatestPosition symbol := do
    Co.yield
    let t ← Co.get
    pure (newestFor Position.updatedAt Position.symbol symbol t.positions)
  readLatestBalance := do
    Co.yield
    let t ← Co.get
    pure (newest Balance.updatedAt t.balances)
  readAllLatestPositions := do
    Co.yield
    let t ← Co.get
    pure (allLatestPositions t)

theorem raisesErrors : journal.RaisesErrors := ⟨fun _ _ => trivial, fun _ _ => trivial⟩

theorem mem_allLatestPositions {t : AccountTables} {p : Position} :
    p ∈ allLatestPositions t ↔
      newestFor Position.updatedAt Position.symbol p.symbol t.positions = some p := by
  simp only [allLatestPositions, List.mem_filterMap, List.mem_dedup, List.mem_map]
  constructor
  · rintro ⟨symbol, -, hnewest⟩
    rwa [(newestFor_mem hnewest).2]
  · intro hnewest
    exact ⟨p.symbol, ⟨p, (newestFor_mem hnewest).1, rfl⟩, hnewest⟩

end SQLiteAccountJournal

end Trading
