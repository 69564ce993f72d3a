import Trading.AccountJournal

/-!
# The position manager

A cache of the venue's positions and balance, replaced as a whole by every
reconciliation and snapshotted, position by position, into an optional journal.
-/
namespace Trading

open Async Data

structure PositionManager (J : Type) where
  cachedPositions : Dict Symbol Position
  cachedBalance : Option Balance
  journal : J

namespace PositionManager

variable {J : Type}

instance : Part J (PositionManager J) where
  view m := m.journal
  put j m := { m with journal := j }
  view_put _ _ := rfl
  put_view _ := rfl
  put_put _ _ _ := rfl

def new (j : J) : PositionManager J := ⟨.empty, none, j⟩

/-- Restore the cache from the journal, if there is one. -/
def start : Option (AccountJournal J) → Coro (PositionManager J) Unit
  | none => pure ()
  | some journal => do
    let balance ← journal.readLatestBalance.lift
    Co.modify fun m => { m with cachedBalance := balance }
    let positions ← journal.readAllLatestPositions.lift
    Co.modify fun m => { m with cachedPositions := .ofList Position.symbol positions }

def positions : Coro (PositionManager J) (List Position) := do
  let m ← Co.get
  pure m.cachedPositions.values

def position (symbol : Symbol) : Coro (PositionManager J) (Option Position) := do
  let m ← Co.get
  pure (m.cachedPositions.get symbol)

/-- Journal what the cache holds. -/
def snapshot (journal : AccountJournal J) : Coro (PositionManager J) Unit := do
  let m ← Co.get
  Co.forEach m.cachedPositions.values fun pos => (journal.writePositionSnapshot pos).lift
  let m ← Co.get
  match m.cachedBalance with
  | none => .throw ⟨"AttributeError", "'NoneType' object has no attribute 'currency'"⟩
  | some balance => (journal.writeBalanceSnapshot balance).lift

theorem raises_snapshot {journal : AccountJournal J} (h : journal.RaisesErrors) :
    (snapshot journal).RaisesErrors := by
  refine Co.raises_bind Co.raises_get fun m => Co.raises_bind
    (Co.raises_forEach fun pos _ => (h.position pos).lift) fun _ =>
    Co.raises_bind Co.raises_get fun m => ?_
  split
  · exact rfl
  · exact (h.balance _).lift

section Venue

variable {W : Type} [Part (PositionManager J) W] (venue : Venue W)

/-- The cached balance, fetched on the first access. -/
def balance : Coro W Balance := do
  let m ← (Co.get : Coro (PositionManager J) (PositionManager J)).lift
  match m.cachedBalance with
  | some balance => pure balance
  | none => do
    let balance ← venue.getBalance
    (Co.modify fun m : PositionManager J => { m with cachedBalance := some balance }).lift
    pure balance

/-- Full refresh from the venue. -/
def reconcile (journal : Option (AccountJournal J)) : Coro W Unit := do
  let positions ← venue.getPositions
  (Co.modify fun m : PositionManager J =>
    { m with cachedPositions := .ofList Position.symbol positions }).lift
  let balance ← venue.getBalance
  (Co.modify fun m : PositionManager J => { m with cachedBalance := some balance }).lift
  match journal with
  | none => pure ()
  | some journal => (snapshot journal).lift

end Venue

end PositionManager

inductive AccountJournalKind where
  | inMemory | sqlite
  deriving DecidableEq, Repr

namespace AccountJournalKind

def journal : AccountJournalKind → AccountJournal AccountTables
  | inMemory => InMemoryAccountJournal.journal
  | sqlite => SQLiteAccountJournal.journal

/-- The snapshot of a symbol that is read back. -/
def latestPosition : AccountJournalKind → List Position → Option Position
  | inMemory => firstNewest Position.updatedAt
  | sqlite => newest Position.updatedAt

def latestBalance : AccountJournalKind → List Balance → Option Balance
  | inMemory => List.getLast?
  | sqlite => newest Balance.updatedAt

/-- No older snapshot of its symbol is stamped later than `q`, and in memory the first
stamped at the same time does not differ from it. -/
def Stands (kind : AccountJournalKind) (older : List Position) (q : Position) : Prop :=
  (∀ p ∈ older, p.updatedAt ≤ q.updatedAt) ∧
    (kind = inMemory → ∀ p, older.find? (fun p => p.updatedAt = q.updatedAt) = some p → p = q)

theorem latestPosition_concat_iff (kind : AccountJournalKind) (older : List Position)
    (q : Position) : kind.latestPosition (older ++ [q]) = some q ↔ kind.Stands older q := by
  cases kind with
  | inMemory => simp only [latestPosition, firstNewest_concat_iff, Stands, forall_const]
  | sqlite => simp [latestPosition, newest_concat_iff, Stands]

theorem latestPosition_eq_none (kind : AccountJournalKind) (ps : List Position) :
    kind.latestPosition ps = none ↔ ps = [] := by
  constructor
  · intro h
    cases kind with
    | inMemory => exact survivor_eq_none h
    | sqlite => exact survivor_eq_none h
  · intro h
    cases kind <;> rw [h] <;> rfl

theorem latestBalance_concat_iff (kind : AccountJournalKind) (older : List Balance)
    (b : Balance) : kind.latestBalance (older ++ [b]) = some b ↔
      (kind = sqlite → ∀ c ∈ older, c.updatedAt ≤ b.updatedAt) := by
  cases kind with
  | inMemory => simp [latestBalance]
  | sqlite => simp [latestBalance, newest_concat_iff]

end AccountJournalKind

namespace PositionManager

/-- The manager next to whatever the venue is made of. -/
structure PmsWorld (ρ : Type) where
  pms : PositionManager AccountTables
  rest : ρ

instance {ρ : Type} : Part (PositionManager AccountTables) (PmsWorld ρ) where
  view w := w.pms
  put m w := { w with pms := m }
  view_put _ _ := rfl
  put_view _ := rfl
  put_put _ _ _ := rfl

instance {ρ : Type} : Part ρ (PmsWorld ρ) where
  view w := w.rest
  put rest w := { w with rest := rest }
  view_put _ _ := rfl
  put_view _ := rfl
  put_put _ _ _ := rfl

/-- What the venue answers to one reconciliation. -/
structure Reply where
  positions : List Position
  balance : Balance

def Reply.held (r : Reply) : Dict Symbol Position := .ofList Position.symbol r.positions

section Restart

variable {ρ : Type} (venue : Venue (PmsWorld ρ)) (kind : AccountJournalKind)

/-- `venue`, answering `r`. -/
def answering (r : Reply) : Venue (PmsWorld ρ) :=
  { venue with getPositions := pure r.positions, getBalance := pure r.balance }

/-- One completed reconciliation for every reply. -/
def reconciled (w : PmsWorld ρ) (replies : List Reply) : PmsWorld ρ :=
  replies.foldl (fun w r => ((reconcile (answering venue r) (some kind.journal)).exec w).1) w

/-- A new manager, started on the given tables. -/
def restored (t : AccountTables) : PositionManager AccountTables :=
  ((start (some kind.journal)).exec (.new t)).1

/-- A manager started on the journal holds what the live one held last. -/
def Restores (rest : ρ) (replies : List Reply) : Prop :=
  let live := (reconciled venue kind ⟨.new ⟨[], []⟩, rest⟩ replies).pms
  (∀ symbol, (restored kind live.journal).cachedPositions.get symbol =
      live.cachedPositions.get symbol) ∧
    (restored kind live.journal).cachedBalance = live.cachedBalance

theorem exec_writes (m : PositionManager AccountTables) (p : Position) :
    ((kind.journal.writePositionSnapshot p).lift : Coro (PositionManager AccountTables) Unit).exec
      m = ({ m with journal := { m.journal with positions := m.journal.positions ++ [p] } },
        .ok ()) := by
  cases kind <;> rfl

theorem exec_snapshot (m : PositionManager AccountTables) {b : Balance}
    (hb : m.cachedBalance = some b) :
    (snapshot kind.journal).exec m = ({ m with
      journal := ⟨m.journal.positions ++ m.cachedPositions.values, m.journal.balances ++ [b]⟩ },
      .ok ()) := by
  have hfold : ∀ (ps : List Position) (m : PositionManager AccountTables),
      ps.foldl (fun m p => { m with
        journal := { m.journal with positions := m.journal.positions ++ [p] } }) m =
      { m with journal := { m.journal with positions := m.journal.positions ++ ps } } := by
    intro ps
    induction ps with
    | nil => simp
    | cons p ps ih => intro m; rw [List.foldl_cons, ih]; simp
  have hloop := Co.exec_forEach_ok (fun p m => exec_writes kind m p) m.cachedPositions.values m
  rw [hfold] at hloop
  simp only [snapshot, Co.bind_eq, Co.exec_bind, Co.exec_get, hloop, hb]
  cases kind <;> rfl

theorem exec_reconcile (r : Reply) (w : PmsWorld ρ) :
    (reconcile (answering venue r) (some kind.journal)).exec w =
      (⟨⟨r.held, some r.balance, ⟨w.pms.journal.positions ++ r.held.values,
        w.pms.journal.balances ++ [r.balance]⟩⟩, w.rest⟩, .ok ()) := by
  have hsnapshot := exec_snapshot kind ⟨r.held, some r.balance, w.pms.journal⟩ rfl
  simp only [reconcile, answering, Co.bind_eq, Co.pure_eq, Co.pure_bind, Co.exec_bind, Co.exec_lift,
    Co.exec_modify, Part.view_put, Part.put_put]
  exact congrArg (fun out => (Part.put out.1 w, out.2)) hsnapshot

theorem reconciled_concat (w : PmsWorld ρ) (replies : List Reply) (r : Reply) :
    (reconciled venue kind w (replies ++ [r])).pms =
      ⟨r.held, some r.balance,
        ⟨(reconciled venue kind w replies).pms.journal.positions ++ r.held.values,
          (reconciled venue kind w replies).pms.journal.balances ++ [r.balance]⟩⟩ := by
  have hstep : reconciled venue kind w (replies ++ [r]) =
      ((reconcile (answering venue r) (some kind.journal)).exec
        (reconciled venue kind w replies)).1 := by
    rw [reconciled, List.foldl_append]
    rfl
  rw [hstep, exec_reconcile]

/-- The journal holds one snapshot for every position of every reply. -/
theorem reconciled_tables (rest : ρ) (replies : List Reply) :
    (reconciled venue kind ⟨.new ⟨[], []⟩, rest⟩ replies).pms.journal =
      ⟨replies.flatMap fun r => r.held.values, replies.map Reply.balance⟩ := by
  induction replies using List.reverseRecOn with
  | nil => rfl
  | append_singleton replies r ih =>
    rw [reconciled_concat, ih]
    simp

theorem held_symbol (r : Reply) (symbol : Symbol) (p : Position)
    (h : r.held.get symbol = some p) : p.symbol = symbol :=
  (Dict.mem_of_get_ofList h).2

/-- The snapshots of a symbol: at most one from every reply. -/
theorem snapshots_of_symbol (replies : List Reply) (symbol : Symbol) :
    (replies.flatMap fun r => r.held.values).filter (fun p => p.symbol = symbol) =
      replies.filterMap fun r => r.held.get symbol := by
  induction replies with
  | nil => rfl
  | cons r replies ih =>
    rw [List.flatMap_cons, List.filter_append, ih, Dict.values_filter (held_symbol r)]
    cases h : r.held.get symbol <;> simp [h]

theorem restored_get (t : AccountTables) (symbol : Symbol) :
    (restored kind t).cachedPositions.get symbol =
      kind.latestPosition (t.positions.filter fun p => p.symbol = symbol) := by
  have hkey : ∀ k p, kind.latestPosition (t.positions.filter fun q => q.symbol = k) = some p →
      p.symbol = k := by
    intro k p h
    have hmem : p ∈ t.positions.filter fun q => q.symbol = k := by
      cases kind with
      | inMemory => exact (firstNewest_le h).1
      | sqlite => exact (newest_le h).1
    exact of_decide_eq_true (List.mem_filter.mp hmem).2
  cases kind with
  | inMemory =>
    exact Dict.get_ofList_eq hkey (fun p => InMemoryAccountJournal.mem_allLatestPositions) symbol
  | sqlite =>
    exact Dict.get_ofList_eq hkey (fun p => SQLiteAccountJournal.mem_allLatestPositions) symbol

theorem restored_balance (t : AccountTables) :
    (restored kind t).cachedBalance = kind.latestBalance t.balances := by
  cases kind <;> rfl

/-- The last reply closes no position, and the journal takes its snapshots for the
latest ones. -/
structure LastStands (older : List Reply) (last : Reply) : Prop where
  keeps : ∀ symbol, ∀ r ∈ older, r.held.get symbol ≠ none → last.held.get symbol ≠ none
  positions : ∀ symbol q, last.held.get symbol = some q →
    kind.Stands (older.filterMap fun r => r.held.get symbol) q
  balance : kind = .sqlite → ∀ r ∈ older, r.balance.updatedAt ≤ last.balance.updatedAt

/-- One symbol is restored as it was last. -/
theorem restores_symbol_iff (older : List Reply) (last : Reply) (symbol : Symbol) :
    kind.latestPosition ((older.filterMap fun r => r.held.get symbol) ++
        (last.held.get symbol).toList) = last.held.get symbol ↔
      (∀ r ∈ older, r.held.get symbol ≠ none → last.held.get symbol ≠ none) ∧
        ∀ q, last.held.get symbol = some q →
          kind.Stands (older.filterMap fun r => r.held.get symbol) q := by
  cases hlast : last.held.get symbol with
  | none =>
    simp [AccountJournalKind.latestPosition_eq_none]
  | some q =>
    simp [AccountJournalKind.latestPosition_concat_iff]

/-- After any reconciliations, a manager started on the journal holds the positions and
the balance of the live one if and only if the last reply stands. -/
theorem restores_iff_lastStands (rest : ρ) (replies : List Reply) :
    Restores venue kind rest replies ↔
      ∀ older last, replies = older ++ [last] → LastStands kind older last := by
  cases replies using List.reverseRecOn with
  | nil =>
    have hempty : Restores venue kind rest [] := by
      refine ⟨fun symbol => ?_, ?_⟩
      · rw [restored_get]
        cases kind <;> rfl
      · cases kind <;> rfl
    simp [hempty]
  | append_singleton older last =>
    have hlive := reconciled_concat venue kind ⟨.new ⟨[], []⟩, rest⟩ older last
    have hlatest := AccountJournalKind.latestBalance_concat_iff kind
      (older.map Reply.balance) last.balance
    rw [Restores]
    simp only [hlive, reconciled_tables, restored_get, restored_balance, hlatest,
      snapshots_of_symbol, restores_symbol_iff, List.filter_append, Dict.values_filter (held_symbol _)]
    constructor
    · rintro ⟨hsymbols, hbal⟩ older' last' heq
      obtain ⟨rfl, hlast⟩ := List.append_inj' heq rfl
      cases hlast
      exact ⟨fun symbol => (hsymbols symbol).1, fun symbol => (hsymbols symbol).2,
        fun hkind r hr => hbal hkind r.balance (List.mem_map_of_mem hr)⟩
    · intro h
      have hstands := h older last rfl
      refine ⟨fun symbol => ⟨hstands.keeps symbol, hstands.positions symbol⟩, ?_⟩
      intro hkind b hb
      obtain ⟨r, hr, rfl⟩ := List.mem_map.mp hb
      exact hstands.balance hkind r hr

end Restart

/-- A venue that has nothing, before it is made to answer. -/
def emptyVenue : Venue (PmsWorld Unit) where
  placeOrder _ := .throw ⟨"VenueError", "unavailable"⟩
  cancelOrder _ := pure false
  getOrder _ := pure none
  getOpenOrders _ := pure []
  getPositions := pure []
  getBalance := pure ⟨"USDT", 0, 0, 0, 0⟩

/-- One long position, and none at the next reconciliation. -/
def openedThenClosed : List Reply :=
  [⟨[⟨"BTC", .long, 1, 100, 100, 0, 0, 1, none, 0⟩], ⟨"USDT", 1000, 1000, 0, 0⟩⟩,
    ⟨[], ⟨"USDT", 1010, 1010, 0, 1⟩⟩]

/-- The closed position comes back from either journal. -/
theorem closed_position_restored :
    let live := fun kind => (reconciled emptyVenue kind ⟨.new ⟨[], []⟩, ()⟩ openedThenClosed).pms
    let fresh := fun kind => restored kind (live kind).journal
    (live .sqlite).cachedPositions.get "BTC" = none ∧
      ((fresh .sqlite).cachedPositions.get "BTC").map Position.quantity = some 1 ∧
      ¬ Restores emptyVenue .sqlite () openedThenClosed ∧
      (live .inMemory).cachedPositions.get "BTC" = none ∧
      ((fresh .inMemory).cachedPositions.get "BTC").map Position.quantity = some 1 ∧
      ¬ Restores emptyVenue .inMemory () openedThenClosed := by
  intro live fresh
  have hsqlite : (fresh .sqlite).cachedPositions.get "BTC" ≠
      (live .sqlite).cachedPositions.get "BTC" := by decide +kernel
  have hinMemory : (fresh .inMemory).cachedPositions.get "BTC" ≠
      (live .inMemory).cachedPositions.get "BTC" := by decide +kernel
  refine ⟨by decide +kernel, by decide +kernel, fun h => hsqlite (h.1 "BTC"), by decide +kernel,
    by decide +kernel, fun h => hinMemory (h.1 "BTC")⟩

end PositionManager

end Trading
