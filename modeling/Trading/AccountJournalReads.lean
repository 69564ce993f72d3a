import Mathlib.Data.Finset.Card
import Trading.AccountJournal
import Trading.Data.Sorting

/-!
# What account journals read back

The latest snapshot of a symbol is the last one written, the first with the
greatest time or the last with the greatest time, depending on the read.
-/
namespace Trading

open Async Data

/-- The read that replays a symbol's past. -/
structure PositionHistory (J : Type) where
  readPositionHistory : Symbol → Time → Coro J (List Position)

def InMemoryAccountJournal.positionHistory (t : AccountTables) (symbol : Symbol) (since : Time) :
    List Position :=
  t.positions.filter fun p => p.symbol = symbol ∧ since ≤ p.updatedAt

def InMemoryAccountJournal.history : PositionHistory AccountTables where
  readPositionHistory symbol since := .act id fun t => .pure (positionHistory t symbol since)

/-- `ORDER BY updated_at ASC, id ASC`. -/
def SQLiteAccountJournal.positionHistory (t : AccountTables) (symbol : Symbol) (since : Time) :
    List Position :=
  sortBy Position.updatedAt (t.positions.filter fun p => p.symbol = symbol ∧ since ≤ p.updatedAt)

def SQLiteAccountJournal.history : PositionHistory AccountTables where
  readPositionHistory symbol since := do
    Co.yield
    let t ← Co.get
    pure (positionHistory t symbol since)

/-- A call that appends a snapshot. -/
inductive SnapshotWrite where
  | position (p : Position)
  | balance (b : Balance)

namespace SnapshotWrite

def position? : SnapshotWrite → Option Position
  | .position p => some p
  | .balance _ => none

def balance? : SnapshotWrite → Option Balance
  | .position _ => none
  | .balance b => some b

def exec {J : Type} (journal : AccountJournal J) : SnapshotWrite → Coro J Unit
  | .position p => journal.writePositionSnapshot p
  | .balance b => journal.writeBalanceSnapshot b

end SnapshotWrite

/-- The snapshots of one symbol, in the order of the writes. -/
def positionRows (ws : List SnapshotWrite) (symbol : Symbol) : List Position :=
  (ws.filterMap SnapshotWrite.position?).filter fun p => p.symbol = symbol

def balanceRows (ws : List SnapshotWrite) : List Balance := ws.filterMap SnapshotWrite.balance?

/-- The answers of the reads, the latest positions as a set. -/
structure AccountAnswers where
  latestPosition : Symbol → Except PyError (Option Position)
  latestBalance : Except PyError (Option Balance)
  allLatestPositions : Except PyError (Finset Position)
  positionHistory : Symbol → Time → Except PyError (List Position)

def accountTables (journal : AccountJournal AccountTables) (ws : List SnapshotWrite) :
    AccountTables :=
  ((Co.forEach ws (SnapshotWrite.exec journal)).exec ⟨[], []⟩).1

def accountAnswers (journal : AccountJournal AccountTables)
    (history : PositionHistory AccountTables) (ws : List SnapshotWrite) : AccountAnswers where
  latestPosition symbol := ((journal.readLatestPosition symbol).exec (accountTables journal ws)).2
  latestBalance := (journal.readLatestBalance.exec (accountTables journal ws)).2
  allLatestPositions :=
    ((journal.readAllLatestPositions.exec (accountTables journal ws)).2).map List.toFinset
  positionHistory symbol since :=
    ((history.readPositionHistory symbol since).exec (accountTables journal ws)).2

namespace AccountAnswers

def inMemory (ws : List SnapshotWrite) : AccountAnswers :=
  accountAnswers InMemoryAccountJournal.journal InMemoryAccountJournal.history ws

def sqlite (ws : List SnapshotWrite) : AccountAnswers :=
  accountAnswers SQLiteAccountJournal.journal SQLiteAccountJournal.history ws

/-- Under every symbol, all latest positions hold the latest position and no other. -/
def Consistent (answers : AccountAnswers) : Prop :=
  ∃ all, answers.allLatestPositions = .ok all ∧ ∀ symbol, ∃ latest,
    answers.latestPosition symbol = .ok latest ∧
      ∀ p, p ∈ all ∧ p.symbol = symbol ↔ latest = some p

end AccountAnswers

/-- Times never go back under a symbol, nor past the last balance; the first snapshot
of a symbol with the time of its last one does not differ from it. -/
structure SnapshotsInOrder (ws : List SnapshotWrite) : Prop where
  positions : ∀ symbol, (positionRows ws symbol).Pairwise fun p q => p.updatedAt ≤ q.updatedAt
  ties : ∀ symbol older p, positionRows ws symbol = older ++ [p] →
    ∀ q, older.find? (fun r => r.updatedAt = p.updatedAt) = some q → q = p
  balances : ∀ older b, balanceRows ws = older ++ [b] → ∀ c ∈ older, c.updatedAt ≤ b.updatedAt

theorem accountTables_eq {journal : AccountJournal AccountTables}
    (hposition : ∀ p t, (journal.writePositionSnapshot p).exec t =
      ({ t with positions := t.positions ++ [p] }, .ok ()))
    (hbalance : ∀ b t, (journal.writeBalanceSnapshot b).exec t =
      ({ t with balances := t.balances ++ [b] }, .ok ()))
    (ws : List SnapshotWrite) :
    accountTables journal ws = ⟨ws.filterMap SnapshotWrite.position?, balanceRows ws⟩ := by
  have hwrite : ∀ w t, (SnapshotWrite.exec journal w).exec t =
      (⟨t.positions ++ w.position?.toList, t.balances ++ w.balance?.toList⟩, .ok ()) := fun w t => by
    cases w with
    | position p =>
      simp [SnapshotWrite.exec, SnapshotWrite.position?, SnapshotWrite.balance?, hposition]
    | balance b =>
      simp [SnapshotWrite.exec, SnapshotWrite.position?, SnapshotWrite.balance?, hbalance]
  rw [accountTables, Co.exec_forEach_ok hwrite]
  induction ws using List.reverseRecOn with
  | nil => rfl
  | append_singleton ws w ih =>
    rw [List.foldl_append]
    simp only [balanceRows, List.foldl_cons, List.foldl_nil] at ih ⊢
    rw [ih, List.filterMap_append, List.filterMap_append]
    cases w <;> rfl

/-- Answers that pick `latest` and `entry` among the rows of a symbol and `balance`
among the balances, and list a past in `order`. -/
structure Picks (ws : List SnapshotWrite) (latest entry : List Position → Option Position)
    (balance : List Balance → Option Balance) (order : List Position → List Position)
    (answers : AccountAnswers) : Prop where
  latestPosition : ∀ symbol, answers.latestPosition symbol = .ok (latest (positionRows ws symbol))
  latestBalance : answers.latestBalance = .ok (balance (balanceRows ws))
  allLatestPositions : ∃ all, answers.allLatestPositions = .ok all ∧
    ∀ p, p ∈ all ↔ entry (positionRows ws p.symbol) = some p
  positionHistory : ∀ symbol since, answers.positionHistory symbol since =
    .ok (order ((positionRows ws symbol).filter fun p => since ≤ p.updatedAt))

theorem rows_since (ps : List Position) (symbol : Symbol) (since : Time) :
    ps.filter (fun p => p.symbol = symbol ∧ since ≤ p.updatedAt) =
      (ps.filter fun p => p.symbol = symbol).filter fun p => since ≤ p.updatedAt := by
  rw [List.filter_filter]
  simp only [Bool.decide_and, Bool.and_comm]

theorem inMemory_picks (ws : List SnapshotWrite) : Picks ws List.getLast?
    (firstNewest Position.updatedAt) List.getLast? id (.inMemory ws) := by
  have htables := @accountTables_eq InMemoryAccountJournal.journal
    (fun _ _ => rfl) (fun _ _ => rfl) ws
  refine ⟨fun symbol => ?_, ?_, ⟨_, rfl, fun p => ?_⟩, fun symbol since => ?_⟩
  · simp only [AccountAnswers.inMemory, accountAnswers, htables]
    rfl
  · simp only [AccountAnswers.inMemory, accountAnswers, htables]
    rfl
  · rw [htables, List.mem_toFinset, InMemoryAccountJournal.mem_allLatestPositions]
    rfl
  · simp only [AccountAnswers.inMemory, accountAnswers, htables, InMemoryAccountJournal.history,
      Co.exec, InMemoryAccountJournal.positionHistory, id, rows_since]
    rfl

theorem sqlite_picks (ws : List SnapshotWrite) : Picks ws (newest Position.updatedAt)
    (newest Position.updatedAt) (newest Balance.updatedAt) (sortBy Position.updatedAt)
    (.sqlite ws) := by
  have htables := @accountTables_eq SQLiteAccountJournal.journal
    (fun _ _ => rfl) (fun _ _ => rfl) ws
  refine ⟨fun symbol => ?_, ?_, ⟨_, rfl, fun p => ?_⟩, fun symbol since => ?_⟩
  · simp only [AccountAnswers.sqlite, accountAnswers, htables]
    rfl
  · simp only [AccountAnswers.sqlite, accountAnswers, htables]
    rfl
  · rw [htables, List.mem_toFinset, SQLiteAccountJournal.mem_allLatestPositions]
    rfl
  · have hread : (AccountAnswers.sqlite ws).positionHistory symbol since =
        .ok (SQLiteAccountJournal.positionHistory (accountTables SQLiteAccountJournal.journal ws)
          symbol since) := rfl
    rw [hread, htables, SQLiteAccountJournal.positionHistory, rows_since]
    rfl

section Picked

variable {ws : List SnapshotWrite} {latest entry : List Position → Option Position}
  {balance : List Balance → Option Balance} {order : List Position → List Position}
  {answers : AccountAnswers}

theorem symbol_of_rows {symbol : Symbol} {p : Position} (h : p ∈ positionRows ws symbol) :
    p.symbol = symbol := of_decide_eq_true (List.mem_filter.mp h).2

/-- The set of latest positions is consistent if both reads pick the same row. -/
theorem Picks.consistent_iff (h : Picks ws latest entry balance order answers)
    (hentry : ∀ ps p, entry ps = some p → p ∈ ps) :
    answers.Consistent ↔
      ∀ symbol, entry (positionRows ws symbol) = latest (positionRows ws symbol) := by
  obtain ⟨all, hall, hmem⟩ := h.allLatestPositions
  have hentries : ∀ symbol p, p ∈ all ∧ p.symbol = symbol ↔
      entry (positionRows ws symbol) = some p := fun symbol p => by
    rw [hmem]
    constructor
    · rintro ⟨hp, rfl⟩
      exact hp
    · intro hp
      have hsymbol := symbol_of_rows (hentry _ p hp)
      rw [hsymbol]
      exact ⟨hp, rfl⟩
  constructor
  · rintro ⟨all', hall', hsame⟩ symbol
    rw [hall] at hall'
    cases hall'
    obtain ⟨l, hl, hp⟩ := hsame symbol
    rw [h.latestPosition] at hl
    cases hl
    exact Option.ext fun p => (hentries symbol p).symm.trans (hp p)
  · intro hsame
    refine ⟨all, hall, fun symbol => ⟨_, h.latestPosition symbol, fun p => ?_⟩⟩
    rw [hentries, hsame]

/-- Answers that pick the same rows are the same. -/
theorem Picks.eq {latest' entry' : List Position → Option Position}
    {balance' : List Balance → Option Balance} {order' : List Position → List Position}
    {answers' : AccountAnswers} (h : Picks ws latest entry balance order answers)
    (h' : Picks ws latest' entry' balance' order' answers')
    (hlatest : ∀ symbol, latest (positionRows ws symbol) = latest' (positionRows ws symbol))
    (hentry : ∀ symbol, entry (positionRows ws symbol) = entry' (positionRows ws symbol))
    (hbalance : balance (balanceRows ws) = balance' (balanceRows ws))
    (horder : ∀ symbol since, order ((positionRows ws symbol).filter fun p => since ≤ p.updatedAt) =
      order' ((positionRows ws symbol).filter fun p => since ≤ p.updatedAt)) :
    answers = answers' := by
  have hpositions : answers.latestPosition = answers'.latestPosition := by
    funext symbol
    rw [h.latestPosition, h'.latestPosition, hlatest]
  have hbalances : answers.latestBalance = answers'.latestBalance := by
    rw [h.latestBalance, h'.latestBalance, hbalance]
  have hentries : answers.allLatestPositions = answers'.allLatestPositions := by
    obtain ⟨all, hall, hmem⟩ := h.allLatestPositions
    obtain ⟨all', hall', hmem'⟩ := h'.allLatestPositions
    have hsame : all = all' := Finset.ext fun p => by rw [hmem, hmem', hentry]
    rw [hall, hall', hsame]
  have hhistory : answers.positionHistory = answers'.positionHistory := by
    funext symbol since
    rw [h.positionHistory, h'.positionHistory, horder]
  cases answers
  cases answers'
  simp_all

end Picked

/-- In order, every read picks the last row written. -/
theorem SnapshotsInOrder.firstNewest_eq {ws : List SnapshotWrite} (h : SnapshotsInOrder ws)
    (symbol : Symbol) : firstNewest Position.updatedAt (positionRows ws symbol) =
      (positionRows ws symbol).getLast? := by
  rw [firstNewest_eq_getLast?_iff]
  intro older p hrows
  refine ⟨?_, h.ties symbol older p hrows⟩
  have hsorted := h.positions symbol
  rw [hrows, List.pairwise_append] at hsorted
  exact fun q hq => hsorted.2.2 q hq p (by simp)

/-- The journals agree, and each with itself, if and only if the snapshots were
written in order. -/
theorem account_journals_agree_iff (ws : List SnapshotWrite) :
    (AccountAnswers.inMemory ws = .sqlite ws ∧ (AccountAnswers.inMemory ws).Consistent ∧
      (AccountAnswers.sqlite ws).Consistent) ↔ SnapshotsInOrder ws := by
  have hmemory := inMemory_picks ws
  have hsqlite := sqlite_picks ws
  have hconsistent := hmemory.consistent_iff fun _ _ h => (firstNewest_le h).1
  constructor
  · rintro ⟨hsame, hself, -⟩
    rw [← hsame] at hsqlite
    refine ⟨fun symbol => ?_, fun symbol older p hrows => ?_, ?_⟩
    · rw [← pairwise_from_iff]
      intro since
      have hhistory := (hsqlite.positionHistory symbol since).symm.trans
        (hmemory.positionHistory symbol since)
      rw [← sortBy_eq_self_iff]
      exact Except.ok.inj hhistory
    · have hlast := hconsistent.mp hself symbol
      rw [firstNewest_eq_getLast?_iff] at hlast
      exact (hlast older p hrows).2
    · rw [← newest_eq_getLast?_iff]
      exact Except.ok.inj (hsqlite.latestBalance.symm.trans hmemory.latestBalance)
  · intro h
    have hnewest := fun symbol => newest_of_pairwise (h.positions symbol)
    refine ⟨?_, hconsistent.mpr h.firstNewest_eq, ?_⟩
    · apply hmemory.eq hsqlite
      · exact fun symbol => (hnewest symbol).symm
      · exact fun symbol => (h.firstNewest_eq symbol).trans (hnewest symbol).symm
      · exact (newest_eq_getLast?_iff.mpr h.balances).symm
      · intro symbol since
        exact ((sortBy_eq_self_iff _).mpr ((h.positions symbol).filter _)).symm
    · exact (hsqlite.consistent_iff fun _ _ h => (newest_le h).1).mpr fun _ => rfl

/-- A long position, then a snapshot of the same time in which it has grown. -/
def grownAtOnce : List SnapshotWrite :=
  [.position ⟨"BTC", .long, 1, 100, 100, 0, 0, 1, none, 0⟩,
    .position ⟨"BTC", .long, 2, 100, 100, 0, 0, 1, none, 0⟩]

/-- In memory the latest position is the second, the latest of all positions the first. -/
theorem grown_position_read_two_ways :
    (AccountAnswers.inMemory grownAtOnce).allLatestPositions =
        .ok {⟨"BTC", .long, 1, 100, 100, 0, 0, 1, none, 0⟩} ∧
      (AccountAnswers.inMemory grownAtOnce).latestPosition "BTC" =
        .ok (some ⟨"BTC", .long, 2, 100, 100, 0, 0, 1, none, 0⟩) ∧
      ¬(AccountAnswers.inMemory grownAtOnce = .sqlite grownAtOnce ∧
        (AccountAnswers.inMemory grownAtOnce).Consistent ∧
        (AccountAnswers.sqlite grownAtOnce).Consistent) := by
  have hall : (AccountAnswers.inMemory grownAtOnce).allLatestPositions =
      .ok {⟨"BTC", .long, 1, 100, 100, 0, 0, 1, none, 0⟩} := by decide +kernel
  have hlatest : (AccountAnswers.inMemory grownAtOnce).latestPosition "BTC" =
      .ok (some ⟨"BTC", .long, 2, 100, 100, 0, 0, 1, none, 0⟩) := by decide +kernel
  refine ⟨hall, hlatest, ?_⟩
  rintro ⟨-, ⟨all, hall', hsame⟩, -⟩
  obtain ⟨latest, hlatest', hp⟩ := hsame "BTC"
  rw [hall] at hall'
  cases hall'
  rw [hlatest] at hlatest'
  cases hlatest'
  have hfirst := (hp ⟨"BTC", .long, 1, 100, 100, 0, 0, 1, none, 0⟩).mp ⟨by simp, rfl⟩
  cases hfirst

end Trading
