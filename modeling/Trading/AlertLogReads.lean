import Trading.EventLogReads
import Trading.Supervisor

/-!
# What alert logs read back

The in-memory log filters a list in the order of the writes, SQLite compares texts and
sorts by the timestamps' texts.
-/
namespace Trading

open Async Data Serde

/-- An `Alert` with a full timestamp in place of a moment. -/
structure DatedAlert where
  level : AlertLevel
  component : String
  message : String
  timestamp : Datetime
  correlationKey : Option String
  deriving DecidableEq

/-- An alert log, as coroutines over its own state. -/
structure AlertLog (J : Type) where
  write : DatedAlert → Coro J Unit
  readSince : Datetime → Option AlertLevel → Option String → Coro J (List DatedAlert)

namespace InMemoryAlertLog

def alertsSince (alerts : List DatedAlert) (since : Datetime) (level : Option AlertLevel)
    (component : Option String) : List DatedAlert :=
  let result := alerts.filter fun a => since ≤ a.timestamp
  let result := match level with
    | some level => result.filter fun a => a.level = level
    | none => result
  match component with
  | some component => result.filter fun a => a.component = component
  | none => result

def log : AlertLog (List DatedAlert) where
  write alert := Co.modify fun alerts => alerts ++ [alert]
  readSince since level component := .act id fun alerts =>
    .pure (alertsSince alerts since level component)

end InMemoryAlertLog

def AlertLevel.value : AlertLevel → String
  | .info => "info"
  | .warn => "warn"
  | .alert => "alert"
  | .critical => "critical"

/-- `AlertLevel(value)`. -/
def AlertLevel.ofValue (value : String) : Except PyError AlertLevel :=
  if value = "info" then .ok .info
  else if value = "warn" then .ok .warn
  else if value = "alert" then .ok .alert
  else if value = "critical" then .ok .critical
  else .error ⟨"ValueError", "'" ++ value ++ "' is not a valid AlertLevel"⟩

theorem AlertLevel.ofValue_value (level : AlertLevel) : ofValue level.value = .ok level := by
  cases level <;> rfl

theorem AlertLevel.value_injective : Function.Injective value := by
  intro a b h
  have hlevels := congrArg ofValue h
  rw [ofValue_value, ofValue_value] at hlevels
  exact Except.ok.inj hlevels

/-- A row of the table `alerts`; its id is its place. -/
structure AlertRow where
  level : String
  component : String
  message : String
  correlationKey : Option String
  timestamp : String

namespace SQLiteAlertLog

/-- The clauses that are asked for, `ORDER BY timestamp ASC, id ASC`. -/
def selected (rows : List AlertRow) (since : String) (level component : Option String) :
    List AlertRow :=
  sortBy AlertRow.timestamp (rows.filter fun r => since ≤ r.timestamp ∧
    (∀ l ∈ level, r.level = l) ∧ ∀ c ∈ component, r.component = c)

def rowToAlert (row : AlertRow) : Except PyError DatedAlert := do
  let level ← AlertLevel.ofValue row.level
  let timestamp ← match Datetime.fromisoformat? row.timestamp with
    | some ts => .ok ts
    | none => .error ⟨"ValueError", "Invalid isoformat string: '" ++ row.timestamp ++ "'"⟩
  pure ⟨level, row.component, row.message, timestamp, row.correlationKey⟩

/-- Both the insertion and the commit are awaited. -/
def log : AlertLog (List AlertRow) where
  write alert := do
    Co.modify fun rows => rows ++ [⟨alert.level.value, alert.component, alert.message,
      alert.correlationKey, alert.timestamp.isoformat⟩]
    Co.yield
  readSince since level component := do
    Co.yield
    let rows ← Co.get
    Co.ofExcept ((selected rows since.isoformat (level.map AlertLevel.value) component).mapM
      rowToAlert)

end SQLiteAlertLog

def readAlerts {J : Type} (log : AlertLog J) (empty : J) (alerts : List DatedAlert)
    (since : Datetime) (level : Option AlertLevel) (component : Option String) :
    Except PyError (List DatedAlert) :=
  ((log.readSince since level component).exec ((Co.forEach alerts log.write).exec empty).1).2

/-- The filters of a read. -/
def DatedAlert.Matches (since : Datetime) (level : Option AlertLevel) (component : Option String)
    (a : DatedAlert) : Prop :=
  since ≤ a.timestamp ∧ (∀ l ∈ level, a.level = l) ∧ ∀ c ∈ component, a.component = c

instance (since : Datetime) (level : Option AlertLevel) (component : Option String)
    (a : DatedAlert) : Decidable (a.Matches since level component) :=
  inferInstanceAs (Decidable (_ ∧ _ ∧ _))

/-- Both logs give the alerts that match, by ascending timestamp, whatever is asked for. -/
def AlertLogsAgree (alerts : List DatedAlert) : Prop :=
  ∀ since level component, ∃ answer,
    readAlerts InMemoryAlertLog.log [] alerts since level component = .ok answer ∧
      readAlerts SQLiteAlertLog.log [] alerts since level component = .ok answer ∧
        Ascends DatedAlert.timestamp (alerts.filter fun a => a.Matches since level component) answer

theorem inMemory_alerts (alerts : List DatedAlert) (since : Datetime) (level : Option AlertLevel)
    (component : Option String) :
    readAlerts InMemoryAlertLog.log [] alerts since level component =
      .ok (alerts.filter fun a => a.Matches since level component) := by
  have hwrite : ∀ a rows, (InMemoryAlertLog.log.write a).exec rows = (rows ++ [id a], .ok ()) :=
    fun _ _ => rfl
  have hfilters : InMemoryAlertLog.alertsSince alerts since level component =
      alerts.filter fun a => a.Matches since level component := by
    cases level <;> cases component <;>
      simp [InMemoryAlertLog.alertsSince, DatedAlert.Matches, Bool.and_comm, Bool.and_assoc]
  rw [readAlerts, exec_writes hwrite, List.map_id]
  exact congrArg Except.ok hfilters

/-- The row of an alert. -/
def DatedAlert.row (a : DatedAlert) : AlertRow :=
  ⟨a.level.value, a.component, a.message, a.correlationKey, a.timestamp.isoformat⟩

theorem rowToAlert_row (a : DatedAlert) : SQLiteAlertLog.rowToAlert a.row = .ok a := by
  simp only [SQLiteAlertLog.rowToAlert, DatedAlert.row, AlertLevel.ofValue_value,
    Datetime.fromisoformat?_isoformat]
  rfl

theorem row_matches_iff (a : DatedAlert) (since : Datetime) (level : Option AlertLevel)
    (component : Option String) :
    (since.isoformat ≤ a.row.timestamp ∧ (∀ l ∈ level.map AlertLevel.value, a.row.level = l) ∧
      ∀ c ∈ component, a.row.component = c) ↔ a.Matches since level component := by
  have hlevel : (∀ l ∈ level.map AlertLevel.value, a.row.level = l) ↔
      ∀ l ∈ level, a.level = l := by
    cases level <;> simp [DatedAlert.row, AlertLevel.value_injective.eq_iff]
  rw [hlevel, DatedAlert.row, Datetime.isoformat_le_iff]
  rfl

/-- SQLite gives the alerts by ascending timestamp after any writes. -/
theorem sqlite_alerts (alerts : List DatedAlert) (since : Datetime) (level : Option AlertLevel)
    (component : Option String) :
    readAlerts SQLiteAlertLog.log [] alerts since level component =
      .ok (sortBy DatedAlert.timestamp
        (alerts.filter fun a => a.Matches since level component)) := by
  have hwrite : ∀ a rows, (SQLiteAlertLog.log.write a).exec rows = (rows ++ [a.row], .ok ()) :=
    fun _ _ => rfl
  have hsort : ∀ as : List DatedAlert, sortBy AlertRow.timestamp (as.map DatedAlert.row) =
      (sortBy DatedAlert.timestamp as).map DatedAlert.row :=
    sortBy_map _ fun _ _ => Datetime.isoformat_le_iff
  have hselected : SQLiteAlertLog.selected (alerts.map DatedAlert.row) since.isoformat
      (level.map AlertLevel.value) component = (sortBy DatedAlert.timestamp
        (alerts.filter fun a => a.Matches since level component)).map DatedAlert.row := by
    rw [SQLiteAlertLog.selected, List.filter_map, hsort]
    simp only [Function.comp_def, row_matches_iff]
  have hread : (SQLiteAlertLog.selected (alerts.map DatedAlert.row) since.isoformat
      (level.map AlertLevel.value) component).mapM SQLiteAlertLog.rowToAlert =
        .ok (sortBy DatedAlert.timestamp
          (alerts.filter fun a => a.Matches since level component)) := by
    rw [hselected, mapM_eq_ok_iff, List.forall₂_map_left_iff, List.forall₂_same]
    exact fun a _ => rowToAlert_row a
  rw [readAlerts, exec_writes hwrite, ← hread]
  exact congrArg Prod.snd (Co.exec_ofExcept _ _)

theorem alert_logs_agree (alerts : List DatedAlert) :
    AlertLogsAgree alerts ↔ alerts.Pairwise fun a b => a.timestamp ≤ b.timestamp := by
  constructor
  · intro h
    rw [← pairwise_from_iff DatedAlert.timestamp]
    intro since
    obtain ⟨_, hmemory, -, hanswer⟩ := h since none none
    rw [inMemory_alerts] at hmemory
    cases hmemory
    have hsorted := hanswer.sorted
    simpa [DatedAlert.Matches] using hsorted
  · intro h since level component
    have hanswer : Ascends DatedAlert.timestamp
        (alerts.filter fun a => a.Matches since level component)
        (alerts.filter fun a => a.Matches since level component) :=
      Ascends.self_iff.mpr (h.filter _)
    refine ⟨_, inMemory_alerts alerts since level component, ?_, hanswer⟩
    rw [sqlite_alerts, (sortBy_eq_iff _).mpr hanswer]

/-- The event logs agree on a type just where they are readable as it, the alert logs
just where the alerts were written in the order of their timestamps. -/
theorem logs_agree_iff {C D P : Type} (classes : EventClasses C) (texts : Texts D Datetime P)
    (events : List (LoggedEvent classes D)) (c : C) (alerts : List DatedAlert) :
    (EventLogsAgree classes texts events c ↔ ReadableAs classes events c) ∧
      (AlertLogsAgree alerts ↔ alerts.Pairwise fun a b => a.timestamp ≤ b.timestamp) :=
  ⟨event_logs_agree texts events c, alert_logs_agree alerts⟩

def isoTexts : Texts String Datetime Json where
  __ := plainTexts
  isoformat := Datetime.isoformat
  fromisoformat j := match j with
    | .str s => match Datetime.fromisoformat? s with
      | some ts => .ok ts
      | none => .error ⟨"ValueError", "Invalid isoformat string: '" ++ s ++ "'"⟩
    | _ => .error ⟨"TypeError", "fromisoformat: argument must be str"⟩
  fromisoformat_isoformat t := by
    simp only [Datetime.fromisoformat?_isoformat]

inductive TickClass where
  | tick | bookTick
  deriving DecidableEq

/-- `BookTick` is a subclass of `Tick`; both have a timestamp only. -/
def tickClasses : EventClasses TickClass where
  dataclass c := {
    cls := match c with
      | .tick => "Tick"
      | .bookTick => "BookTick"
    fields := .cons ⟨"timestamp", by decide⟩ none .datetime .nil
    distinct := ⟨List.not_mem_nil, trivial, trivial⟩ }
  isSubclass c d := c = d ∨ d = .tick
  refl c := by simp

def tickAt (c : TickClass) (t : Datetime) : LoggedEvent tickClasses String where
  cls := c
  value := .instance (tickClasses.name c) [("timestamp", .datetime t)]
  timestamp := t
  holds := ⟨_, rfl, _, _, rfl, .inl ⟨t, rfl⟩, rfl⟩
  stamped := rfl

def alertAt (t : Datetime) : DatedAlert := ⟨.info, "oms", "", t, none⟩

/-- The later entry is written first: only SQLite puts it last. An event of the subclass is
read as a `Tick` only in memory. -/
theorem logs_disagree :
    let ticks := [tickAt .tick (second 1), tickAt .tick (second 0)]
    let alerts := [alertAt (second 1), alertAt (second 0)]
    InMemoryEventLog.answer tickClasses ticks .tick (second 0) =
        .ok (ticks.map LoggedEvent.toEventObject) ∧
      SQLiteEventLog.answer tickClasses isoTexts ticks .tick (second 0) =
        .ok (ticks.reverse.map LoggedEvent.toEventObject) ∧
      InMemoryEventLog.answer tickClasses [tickAt .bookTick (second 0)] .tick (second 0) =
        .ok [(tickAt .bookTick (second 0)).toEventObject] ∧
      SQLiteEventLog.answer tickClasses isoTexts [tickAt .bookTick (second 0)] .tick (second 0) =
        .ok [] ∧
      readAlerts InMemoryAlertLog.log [] alerts (second 0) none none = .ok alerts ∧
      readAlerts SQLiteAlertLog.log [] alerts (second 0) none none = .ok alerts.reverse ∧
      ¬ EventLogsAgree tickClasses isoTexts ticks .tick ∧
      ¬ EventLogsAgree tickClasses isoTexts [tickAt .bookTick (second 0)] .tick ∧
      ¬ AlertLogsAgree alerts := by
  intro ticks alerts
  have hmemory : InMemoryEventLog.answer tickClasses ticks .tick (second 0) =
      .ok (ticks.map LoggedEvent.toEventObject) := rfl
  have hsqlite : SQLiteEventLog.answer tickClasses isoTexts ticks .tick (second 0) =
      .ok (ticks.reverse.map LoggedEvent.toEventObject) := rfl
  have hsub : InMemoryEventLog.answer tickClasses [tickAt .bookTick (second 0)] .tick (second 0) =
      .ok [(tickAt .bookTick (second 0)).toEventObject] := rfl
  have hnone : SQLiteEventLog.answer tickClasses isoTexts [tickAt .bookTick (second 0)] .tick
      (second 0) = .ok [] := rfl
  have hlist : readAlerts InMemoryAlertLog.log [] alerts (second 0) none none = .ok alerts := rfl
  have hrows : readAlerts SQLiteAlertLog.log [] alerts (second 0) none none =
      .ok alerts.reverse := rfl
  refine ⟨hmemory, hsqlite, hsub, hnone, hlist, hrows, fun h => ?_, fun h => ?_, fun h => ?_⟩
  · obtain ⟨answer, hm, hs, -⟩ := h (second 0)
    have hsame := hmemory.symm.trans (hm.trans (hs.symm.trans hsqlite))
    simp [ticks, tickAt, second] at hsame
  · obtain ⟨answer, hm, hs, -⟩ := h (second 0)
    have hsame := hsub.symm.trans (hm.trans (hs.symm.trans hnone))
    simp at hsame
  · obtain ⟨answer, hm, hs, -⟩ := h (second 0) none none
    have hsame := hlist.symm.trans (hm.trans (hs.symm.trans hrows))
    simp [alerts, alertAt, second] at hsame

end Trading
