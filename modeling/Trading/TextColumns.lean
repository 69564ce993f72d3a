import Trading.AccountJournalReads
import Trading.Instants
import Trading.OrderJournalReads

/-!
# Times in TEXT columns

SQLite compares the texts of the times. The rows that a query selects and the order in
which it returns them are those of the times themselves.
-/
namespace Trading

open Data

/-- A row with the text of its entry's time and the id that its insertion gave it. -/
structure TextRow {ν : Type} (clock : ν → Time) where
  id : Nat
  value : ν
  timestamp : String
  written : ∃ t : Datetime, clock value = t.time ∧ timestamp = t.isoformat

namespace TextRow

variable {ν : Type} {clock : ν → Time}

theorem timestamp_le_iff (r s : TextRow clock) :
    r.timestamp ≤ s.timestamp ↔ clock r.value ≤ clock s.value := by
  obtain ⟨t, htime, htext⟩ := r.written
  obtain ⟨u, utime, utext⟩ := s.written
  rw [htext, utext, htime, utime]
  exact Datetime.isoformat_le_iff_time

theorem isoformat_le_timestamp_iff (t : Datetime) (r : TextRow clock) :
    t.isoformat ≤ r.timestamp ↔ t.time ≤ clock r.value := by
  obtain ⟨u, utime, utext⟩ := r.written
  rw [utext, utime]
  exact Datetime.isoformat_le_iff_time

/-- The columns of the clauses `ORDER BY`. -/
def columns (r : TextRow clock) : String ×ₗ Nat := toLex (r.timestamp, r.id)

/-- The first row is of an earlier time, or of the same time and inserted earlier. -/
def Precedes (r s : TextRow clock) : Prop :=
  clock r.value < clock s.value ∨ clock r.value = clock s.value ∧ r.id < s.id

theorem columns_lt_iff {r s : TextRow clock} : r.columns < s.columns ↔ r.Precedes s := by
  have hlt : r.timestamp < s.timestamp ↔ clock r.value < clock s.value := by
    rw [← not_le, timestamp_le_iff, not_le]
  have heq : r.timestamp = s.timestamp ↔ clock r.value = clock s.value := by
    rw [le_antisymm_iff, timestamp_le_iff, timestamp_le_iff, ← le_antisymm_iff]
  rw [columns, columns, Prod.Lex.toLex_lt_toLex, hlt, heq]
  rfl

end TextRow

/-- A table whose ids ascend as its rows were inserted. -/
structure TextTable {ν : Type} (clock : ν → Time) where
  rows : List (TextRow clock)
  ascending : rows.Pairwise fun r s => r.id < s.id

namespace TextTable

variable {ν : Type} {clock : ν → Time}

def values (table : TextTable clock) : List ν := table.rows.map TextRow.value

/-- `ORDER BY timestamp ASC, id ASC`. -/
def select (table : TextTable clock) (p : TextRow clock → Bool) : List (TextRow clock) :=
  sortBy TextRow.columns (table.rows.filter p)

/-- `ORDER BY timestamp DESC, id DESC LIMIT 1`. -/
def selectNewest (table : TextTable clock) (p : TextRow clock → Bool) : Option (TextRow clock) :=
  (table.select p).reverse.head?

variable (table : TextTable clock) (p : TextRow clock → Bool)

theorem mem_select {r : TextRow clock} : r ∈ table.select p ↔ r ∈ table.rows ∧ p r = true := by
  rw [select, (ascends_sortBy _ _).mem_iff, List.mem_filter]

theorem ascending_filter : (table.rows.filter p).Pairwise fun r s => r.id < s.id :=
  table.ascending.filter p

theorem select_ascends : (table.select p).Pairwise TextRow.Precedes := by
  have hdistinct : (table.select p).Pairwise fun r s => r.columns ≠ s.columns := by
    have hperm : (table.select p).Perm (table.rows.filter p) := List.perm_insertionSort _ _
    rw [hperm.pairwise_iff fun h => Ne.symm h]
    refine (table.ascending_filter p).imp fun hlt heq => hlt.ne ?_
    exact congrArg (fun c => (ofLex c).2) heq
  have hsorted := (ascends_sortBy TextRow.columns (table.rows.filter p)).sorted
  refine (hsorted.and hdistinct).imp fun h => ?_
  exact TextRow.columns_lt_iff.mp (lt_of_le_of_ne h.1 h.2)

theorem selectNewest_eq_getLast? : table.selectNewest p = (table.select p).getLast? :=
  List.head?_reverse

theorem selectNewest_eq_some_iff {r : TextRow clock} :
    table.selectNewest p = some r ↔ r ∈ table.select p ∧
      ∀ s ∈ table.select p, s = r ∨ s.Precedes r := by
  rw [selectNewest_eq_getLast?]
  have hascends := table.select_ascends p
  generalize table.select p = rows at hascends
  cases rows using List.reverseRecOn with
  | nil => simp
  | append_singleton rows last =>
    have hbefore : ∀ s ∈ rows, s.Precedes last := fun s hs =>
      (List.pairwise_append.mp hascends).2.2 s hs last (List.mem_singleton_self last)
    rw [List.getLast?_concat, Option.some.injEq]
    constructor
    · rintro rfl
      refine ⟨by simp, fun s hs => ?_⟩
      cases List.mem_append.mp hs with
      | inl h => exact .inr (hbefore s h)
      | inr h => exact .inl (List.mem_singleton.mp h)
    · rintro ⟨hr, hlatest⟩
      cases List.mem_append.mp hr with
      | inl h =>
        have hlt := TextRow.columns_lt_iff.mpr (hbefore r h)
        cases hlatest last (by simp) with
        | inl heq => exact heq
        | inr hgt => exact absurd (TextRow.columns_lt_iff.mpr hgt) hlt.not_gt
      | inr h => exact (List.mem_singleton.mp h).symm

/-- Texts of times order the rows as the times do, and ties stand as they were inserted. -/
theorem text_order_is_chronological (clock : ν → Time) (table : TextTable clock) (keep : ν → Bool)
    (a b since : Datetime) :
    (a.isoformat < b.isoformat ↔ a.time < b.time) ∧
      (a.isoformat = b.isoformat ↔ a.time = b.time) ∧
      (∀ r, r ∈ table.select (fun r => keep r.value && since.isoformat ≤ r.timestamp) ↔
        r ∈ table.rows ∧ keep r.value = true ∧ since.time ≤ clock r.value) ∧
      (table.select fun r => keep r.value && since.isoformat ≤ r.timestamp).Pairwise
        TextRow.Precedes ∧
      ∀ r, table.selectNewest (fun r => keep r.value) = some r ↔
        r ∈ table.rows ∧ keep r.value = true ∧
          ∀ s ∈ table.rows, keep s.value = true → s = r ∨ s.Precedes r := by
  refine ⟨?_, ?_, fun r => ?_, table.select_ascends _, fun r => ?_⟩
  · rw [← not_le, Datetime.isoformat_le_iff_time, not_le]
  · rw [le_antisymm_iff, Datetime.isoformat_le_iff_time, Datetime.isoformat_le_iff_time,
      ← le_antisymm_iff]
  · rw [mem_select, Bool.and_eq_true, decide_eq_true_eq, TextRow.isoformat_le_timestamp_iff]
  · rw [selectNewest_eq_some_iff, mem_select, and_assoc]
    simp only [mem_select, and_imp]

variable {p} in
/-- A query returns what sorting by the times returns. -/
theorem map_select {keep : ν → Bool} (hp : ∀ r, p r = keep r.value) :
    (table.select p).map TextRow.value = sortBy clock (table.values.filter keep) := by
  have hrows : table.values.filter keep = (table.rows.filter p).map TextRow.value := by
    rw [values, List.filter_map]
    congr 2
    funext r
    exact (hp r).symm
  calc (table.select p).map TextRow.value
      = (sortBy TextRow.timestamp (table.rows.filter p)).map TextRow.value := by
        rw [select]
        congr 1
        exact sortBy_toLex _ (table.ascending_filter p)
    _ = (sortBy (fun r => clock r.value) (table.rows.filter p)).map TextRow.value := by
        rw [sortBy_congr (fun r : TextRow clock => clock r.value) TextRow.timestamp_le_iff]
    _ = sortBy clock (table.values.filter keep) := by
        rw [hrows, sortBy_map (fun r : TextRow clock => clock r.value) fun _ _ => Iff.rfl]

variable {p} in
theorem map_selectNewest {keep : ν → Bool} (hp : ∀ r, p r = keep r.value) :
    (table.selectNewest p).map TextRow.value = newest clock (table.values.filter keep) := by
  rw [selectNewest_eq_getLast?, ← List.getLast?_map, table.map_select hp, getLast?_sortBy]

/-- The row that the query numbers one among those of a key. -/
theorem newestFor_text {κ : Type} [DecidableEq κ] (key : ν → κ) (k : κ) :
    newestFor clock key k table.values =
      (table.selectNewest fun r => key r.value = k).map TextRow.value :=
  (table.map_selectNewest fun _ => rfl).symm

theorem newest_text :
    newest clock table.values = (table.selectNewest fun _ => true).map TextRow.value := by
  have hall := @map_selectNewest _ clock table (fun _ => true) (fun _ => true) fun _ => rfl
  rw [hall, List.filter_true]

end TextTable

theorem SQLiteOrderJournal.orderHistory_text (table : TextTable Order.updatedAt)
    (fills : List Fill) (oid : OrderId) :
    orderHistory ⟨table.values, fills⟩ oid =
      (table.select fun r => r.value.orderId = oid).map TextRow.value :=
  (table.map_select fun _ => rfl).symm

theorem SQLiteOrderJournal.fillsSince_text (table : TextTable Fill.timestamp) (orders : List Order)
    (since : Datetime) :
    fillsSince ⟨orders, table.values⟩ since.time =
      (table.select fun r => since.isoformat ≤ r.timestamp).map TextRow.value := by
  refine (table.map_select fun r => ?_).symm
  rw [decide_eq_decide]
  exact TextRow.isoformat_le_timestamp_iff since r

theorem SQLiteAccountJournal.positionHistory_text (table : TextTable Position.updatedAt)
    (balances : List Balance) (symbol : Symbol) (since : Datetime) :
    positionHistory ⟨table.values, balances⟩ symbol since.time =
      (table.select fun r => r.value.symbol = symbol ∧ since.isoformat ≤ r.timestamp).map
        TextRow.value := by
  refine (table.map_select fun r => ?_).symm
  rw [decide_eq_decide, TextRow.isoformat_le_timestamp_iff]

end Trading
