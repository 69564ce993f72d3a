import Trading.Async.Coroutine
import Trading.Data.Sorting
import Trading.Data.Traversal
import Trading.Datetime
import Trading.SerdeRoundTrip

/-!
# What event logs read back

The in-memory log asks for instances and answers in the order of the writes, SQLite asks
for the name of the class and answers in the order of the timestamps' texts.
-/
namespace Trading

open Async Data Serde

/-- The classes of the events; two of them may share a name. -/
structure EventClasses (C : Type) where
  dataclass : C → Dataclass
  isSubclass : C → C → Bool
  refl : ∀ c, isSubclass c c

/-- An object, and the class that it was made of. -/
@[ext]
structure EventObject (C D : Type) where
  cls : C
  value : PyVal D Datetime

/-- `getattr(event, "timestamp", None)`. -/
def EventObject.timestamp? {C D : Type} (event : EventObject C D) : Option (PyVal D Datetime) :=
  match event.value with
  | .instance _ fields => fields.lookup "timestamp"
  | _ => none

/-- An event log, as coroutines over its own state. -/
structure EventLog (J C D : Type) where
  write : EventObject C D → Coro J Unit
  readSince : C → Datetime → Coro J (List (EventObject C D))

variable {C D P : Type} (classes : EventClasses C) (texts : Texts D Datetime P)

namespace EventClasses

def name (c : C) : String := (classes.dataclass c).cls

abbrev type (c : C) : FieldType := .record (classes.dataclass c).cls (classes.dataclass c).fields

end EventClasses

namespace InMemoryEventLog

/-- Whether the loop of a read takes the event. -/
def takes (c : C) (since : Datetime) (event : EventObject C D) : Except PyError Bool :=
  if classes.isSubclass event.cls c then
    match event.timestamp? with
    | none | some (.raw .null) => .ok false
    | some (.datetime ts) => .ok (!(ts < since))
    | some ts => .error ⟨"TypeError",
        "'<' not supported between instances of '" ++ ts.typeName ++ "' and 'datetime.datetime'"⟩
  else .ok false

def log : EventLog (List (EventObject C D)) C D where
  write event := match event.timestamp? with
    | some _ => Co.modify fun events => events ++ [event]
    | none => .throw ⟨"TypeError",
        "event must have a 'timestamp' field; got " ++ classes.name event.cls⟩
  readSince c since := do
    let events ← Co.get
    Co.ofExcept (events.filterM (takes classes c since))

end InMemoryEventLog

/-- A row of the table `events`; its id is its place. -/
structure EventRow (P : Type) where
  eventType : String
  payload : P
  timestamp : String

namespace SQLiteEventLog

/-- `WHERE event_type = ? AND timestamp >= ? ORDER BY timestamp ASC, id ASC`. -/
def selected (rows : List (EventRow P)) (eventType since : String) : List (EventRow P) :=
  sortBy EventRow.timestamp (rows.filter fun r => r.eventType = eventType ∧ since ≤ r.timestamp)

/-- The row's payload as an object of the class. -/
def decoded (c : C) (row : EventRow P) : Except PyError (EventObject C D) :=
  (decodeDataclass texts (classes.dataclass c) row.payload).map fun value => ⟨c, value⟩

/-- Both the insertion and the commit are awaited. -/
def log : EventLog (List (EventRow P)) C D where
  write event := match event.timestamp? with
    | some (.datetime ts) => do
      let payload ← Co.ofExcept (encodeDataclass texts event.value)
      Co.modify fun rows => rows ++ [⟨classes.name event.cls, payload, ts.isoformat⟩]
      Co.yield
    | _ => .throw ⟨"TypeError",
        "event must have a 'timestamp: datetime' attribute; got " ++ classes.name event.cls⟩
  readSince c since := do
    Co.yield
    let rows ← Co.get
    Co.ofExcept ((selected rows (classes.name c) since.isoformat).mapM (decoded classes texts c))

end SQLiteEventLog

/-- What the contract asks of an event: a dataclass with a field `timestamp: datetime`. -/
structure LoggedEvent (classes : EventClasses C) (D : Type) extends EventObject C D where
  timestamp : Datetime
  holds : (classes.type cls).Holds value
  stamped : toEventObject.timestamp? = some (.datetime timestamp)

def readEvents {J : Type} (log : EventLog J C D) (empty : J) (events : List (LoggedEvent classes D))
    (c : C) (since : Datetime) : Except PyError (List (EventObject C D)) :=
  ((log.readSince c since).exec ((Co.forEach events fun e => log.write e.toEventObject).exec
    empty).1).2

namespace InMemoryEventLog

def answer (events : List (LoggedEvent classes D)) (c : C) (since : Datetime) :
    Except PyError (List (EventObject C D)) :=
  readEvents classes (log classes) [] events c since

end InMemoryEventLog

namespace SQLiteEventLog

def answer (events : List (LoggedEvent classes D)) (c : C) (since : Datetime) :
    Except PyError (List (EventObject C D)) :=
  readEvents classes (log classes texts) [] events c since

end SQLiteEventLog

/-- The events of the type from `since` on, by ascending timestamp. -/
def EventContract (events : List (LoggedEvent classes D)) (c : C) (since : Datetime)
    (answer : List (EventObject C D)) : Prop :=
  ∃ entries, answer = entries.map LoggedEvent.toEventObject ∧ Ascends LoggedEvent.timestamp
    (events.filter fun e => classes.isSubclass e.cls c ∧ since ≤ e.timestamp) entries

/-- Both logs give the answer of the contract, whatever the time asked for. -/
def EventLogsAgree (events : List (LoggedEvent classes D)) (c : C) : Prop :=
  ∀ since, ∃ answer, InMemoryEventLog.answer classes events c since = .ok answer ∧
    SQLiteEventLog.answer classes texts events c since = .ok answer ∧
      EventContract classes events c since answer

/-- The instances of the type were written in the order of their timestamps, they and what
shares the name are of the type itself, and their texts give them back. -/
structure ReadableAs (events : List (LoggedEvent classes D)) (c : C) : Prop where
  inOrder : (events.filter fun e => classes.isSubclass e.cls c).Pairwise
    fun x y => x.timestamp ≤ y.timestamp
  exact : ∀ e ∈ events, classes.isSubclass e.cls c ∨ classes.name e.cls = classes.name c →
    e.cls = c ∧ (classes.type c).Recovers e.value

section Written

variable {classes}

theorem LoggedEvent.ext {e e' : LoggedEvent classes D} (h : e.toEventObject = e'.toEventObject) :
    e = e' := by
  obtain ⟨object, ts, _, hstamped⟩ := e
  obtain ⟨object', ts', _, hstamped'⟩ := e'
  cases h
  have hts := hstamped.symm.trans hstamped'
  cases hts
  rfl

/-- Writes that each append one row. -/
theorem exec_writes {α κ : Type} {write : α → Coro (List κ) Unit} {row : α → κ}
    (h : ∀ x rows, (write x).exec rows = (rows ++ [row x], .ok ())) (xs : List α) :
    ((Co.forEach xs write).exec []).1 = xs.map row := by
  rw [Co.exec_forEach_ok h]
  simp only [List.foldl_append_eq_append, List.nil_append, ← List.flatMap_def, ← List.map_eq_flatMap]

theorem takes_ok (c : C) (since : Datetime) (e : LoggedEvent classes D) :
    InMemoryEventLog.takes classes c since e.toEventObject =
      .ok (classes.isSubclass e.cls c ∧ since ≤ e.timestamp) := by
  rw [InMemoryEventLog.takes, e.stamped]
  by_cases hsub : classes.isSubclass e.cls c <;> simp [hsub, ← not_lt]

/-- What the in-memory log answers. -/
theorem inMemory_answer (events : List (LoggedEvent classes D)) (c : C) (since : Datetime) :
    InMemoryEventLog.answer classes events c since = .ok ((events.filter fun e =>
      classes.isSubclass e.cls c ∧ since ≤ e.timestamp).map LoggedEvent.toEventObject) := by
  have hwrite : ∀ (e : LoggedEvent classes D) objects,
      ((InMemoryEventLog.log classes).write e.toEventObject).exec objects =
        (objects ++ [e.toEventObject], .ok ()) := fun e objects => by
    simp only [InMemoryEventLog.log, e.stamped]
    rfl
  rw [InMemoryEventLog.answer, readEvents, exec_writes hwrite]
  simp only [InMemoryEventLog.log, Co.bind_eq, Co.exec_bind, Co.exec_get, Co.exec_ofExcept]
  exact filterM_map fun e _ => takes_ok c since e

/-- The row of an event. -/
def LoggedEvent.row (e : LoggedEvent classes D) : EventRow P :=
  ⟨classes.name e.cls, texts.dumps (toJsonable texts e.value), e.timestamp.isoformat⟩

theorem row_timestamp_le_iff (x y : LoggedEvent classes D) :
    (x.row texts).timestamp ≤ (y.row texts).timestamp ↔ x.timestamp ≤ y.timestamp :=
  Datetime.isoformat_le_iff

/-- The rows of a read are those of the events that share the name, by their timestamps. -/
theorem selected_rows (events : List (LoggedEvent classes D)) (c : C) (since : Datetime) :
    SQLiteEventLog.selected (events.map (LoggedEvent.row texts)) (classes.name c)
        since.isoformat =
      (sortBy LoggedEvent.timestamp (events.filter fun e =>
        classes.name e.cls = classes.name c ∧ since ≤ e.timestamp)).map (LoggedEvent.row texts) := by
  have hsort : ∀ es : List (LoggedEvent classes D),
      sortBy EventRow.timestamp (es.map (LoggedEvent.row texts)) =
        (sortBy LoggedEvent.timestamp es).map (LoggedEvent.row texts) :=
    sortBy_map _ (row_timestamp_le_iff texts)
  rw [SQLiteEventLog.selected, List.filter_map, hsort]
  simp only [Function.comp_def, LoggedEvent.row, Datetime.isoformat_le_iff]

/-- What the SQLite log answers. -/
theorem sqlite_answer (events : List (LoggedEvent classes D)) (c : C) (since : Datetime) :
    SQLiteEventLog.answer classes texts events c since =
      ((sortBy LoggedEvent.timestamp (events.filter fun e =>
        classes.name e.cls = classes.name c ∧ since ≤ e.timestamp)).map (LoggedEvent.row texts)).mapM
          (SQLiteEventLog.decoded classes texts c) := by
  have hwrite : ∀ (e : LoggedEvent classes D) rows,
      ((SQLiteEventLog.log classes texts).write e.toEventObject).exec rows =
        (rows ++ [e.row texts], .ok ()) := fun e rows => by
    obtain ⟨vs, hvalue, -⟩ := e.holds
    simp only [SQLiteEventLog.log, e.stamped, LoggedEvent.row]
    rw [hvalue]
    rfl
  rw [SQLiteEventLog.answer, readEvents, exec_writes hwrite, ← selected_rows]
  exact congrArg Prod.snd (Co.exec_ofExcept _ _)

/-- A row gives its event back as an object of its own class if it recovers. -/
theorem decoded_row_iff (e : LoggedEvent classes D) (c : C) :
    SQLiteEventLog.decoded classes texts c (e.row texts) = .ok e.toEventObject ↔
      e.cls = c ∧ (classes.type c).Recovers e.value := by
  have hdecode : decodeDataclass texts (classes.dataclass c) (e.row texts).payload =
      fromJsonable texts (classes.type c) (toJsonable texts e.value) := by
    simp only [decodeDataclass, LoggedEvent.row, texts.loads_dumps, bind, Except.bind]
  have hobject : ∀ r : Except PyError (PyVal D Datetime),
      r.map (fun value => (⟨c, value⟩ : EventObject C D)) = .ok e.toEventObject ↔
        e.cls = c ∧ r = .ok e.value := fun r => by
    cases r with
    | error _ => simp [Except.map]
    | ok v =>
      rw [Except.map, Except.ok.injEq, Except.ok.injEq, EventObject.ext_iff, eq_comm]
  rw [SQLiteEventLog.decoded, hdecode, hobject]
  apply and_congr_right
  rintro rfl
  exact fromJsonable_iff texts _ e.value (classes.dataclass e.cls).distinct e.holds

theorem decoded_cls {c : C} {row : EventRow P} {object : EventObject C D}
    (h : SQLiteEventLog.decoded classes texts c row = .ok object) : object.cls = c := by
  rw [SQLiteEventLog.decoded] at h
  cases hdecode : decodeDataclass texts (classes.dataclass c) row.payload with
  | error _ =>
    rw [hdecode] at h
    cases h
  | ok _ =>
    rw [hdecode] at h
    cases h
    rfl

section Selection

variable {events : List (LoggedEvent classes D)} {c : C} {since : Datetime}
  {entries : List (LoggedEvent classes D)}

/-- Where name and type select the same events, these are answered if they come back. -/
theorem sqlite_answers_of_same (hentries : Ascends LoggedEvent.timestamp
      (events.filter fun e => classes.isSubclass e.cls c ∧ since ≤ e.timestamp) entries)
    (hsame : ∀ e ∈ events, since ≤ e.timestamp →
      (classes.name e.cls = classes.name c ↔ classes.isSubclass e.cls c)) :
    SQLiteEventLog.answer classes texts events c since =
        .ok (entries.map LoggedEvent.toEventObject) ↔
      ∀ e ∈ events, since ≤ e.timestamp → classes.isSubclass e.cls c →
        e.cls = c ∧ (classes.type c).Recovers e.value := by
  have hfilter : events.filter (fun e => classes.name e.cls = classes.name c ∧ since ≤ e.timestamp)
      = events.filter fun e => classes.isSubclass e.cls c ∧ since ≤ e.timestamp := by
    apply List.filter_congr
    intro e he
    rw [decide_eq_decide]
    exact and_congr_left (hsame e he)
  have hmem : ∀ e, e ∈ entries ↔
      e ∈ events ∧ classes.isSubclass e.cls c ∧ since ≤ e.timestamp := fun e => by
    rw [hentries.mem_iff, List.mem_filter, decide_eq_true_iff]
  rw [sqlite_answer, hfilter, (sortBy_eq_iff _).mpr hentries, mapM_eq_ok_iff,
    List.forall₂_map_left_iff, List.forall₂_map_right_iff, List.forall₂_same]
  simp only [decoded_row_iff, hmem, and_imp]
  exact forall₂_congr fun e _ => imp.swap

/-- An answer with the events themselves: name and type have selected the same ones, since
all that has the name is answered and no more than what has the type. -/
theorem same_of_answers (hentries : Ascends LoggedEvent.timestamp
      (events.filter fun e => classes.isSubclass e.cls c ∧ since ≤ e.timestamp) entries)
    (h : SQLiteEventLog.answer classes texts events c since =
      .ok (entries.map LoggedEvent.toEventObject)) :
    ∀ e ∈ events, since ≤ e.timestamp →
      (classes.name e.cls = classes.name c ↔ classes.isSubclass e.cls c) := by
  have hcls : ∀ e ∈ events, classes.isSubclass e.cls c ∧ since ≤ e.timestamp → e.cls = c :=
    fun e he hsub => by
      have hmem := (hentries.mem_iff e).mpr (List.mem_filter.mpr ⟨he, decide_eq_true hsub⟩)
      obtain ⟨row, -, hrow⟩ := exists_of_mem_mapM ((sqlite_answer texts _ _ _).symm.trans h)
        (List.mem_map_of_mem hmem)
      exact decoded_cls texts hrow
  have hlength : (events.filter fun e => classes.name e.cls = classes.name c ∧
      since ≤ e.timestamp).length = (events.filter fun e => classes.isSubclass e.cls c ∧
        since ≤ e.timestamp).length := by
    have hrows := (mapM_eq_ok_iff.mp ((sqlite_answer texts _ _ _).symm.trans h)).length_eq
    rw [← (sortBy_eq_iff _).mpr hentries] at hrows
    simpa only [List.length_map, length_sortBy] using hrows
  intro e he hsince
  constructor
  · intro hname
    have hselected := imp_of_length_filter (fun x hx hq => ?_) hlength he
      (decide_eq_true ⟨hname, hsince⟩)
    · exact (of_decide_eq_true hselected).1
    · have hq := of_decide_eq_true hq
      exact decide_eq_true ⟨congrArg classes.name (hcls x hx hq), hq.2⟩
  · exact fun hsub => congrArg classes.name (hcls e he ⟨hsub, hsince⟩)

/-- The SQLite log answers with the events themselves if and only if whatever has the type
or its name is of the type itself and comes back. -/
theorem sqlite_answers_iff (hentries : Ascends LoggedEvent.timestamp
      (events.filter fun e => classes.isSubclass e.cls c ∧ since ≤ e.timestamp) entries) :
    SQLiteEventLog.answer classes texts events c since =
        .ok (entries.map LoggedEvent.toEventObject) ↔
      ∀ e ∈ events, since ≤ e.timestamp → classes.isSubclass e.cls c ∨
        classes.name e.cls = classes.name c → e.cls = c ∧ (classes.type c).Recovers e.value := by
  constructor
  · intro h
    have hsame := same_of_answers texts hentries h
    intro e he hsince hnamed
    have hsub : classes.isSubclass e.cls c :=
      hnamed.elim id fun hname => (hsame e he hsince).mp hname
    exact (sqlite_answers_of_same texts hentries hsame).mp h e he hsince hsub
  · intro h
    have hsame : ∀ e ∈ events, since ≤ e.timestamp →
        (classes.name e.cls = classes.name c ↔ classes.isSubclass e.cls c) :=
      fun e he hsince => by
        constructor
        · intro hname
          rw [(h e he hsince (.inr hname)).1]
          exact classes.refl c
        · exact fun hsub => congrArg classes.name (h e he hsince (.inl hsub)).1
    exact (sqlite_answers_of_same texts hentries hsame).mpr
      fun e he hsince hsub => h e he hsince (.inl hsub)

end Selection

/-- Both logs give the answers of the contract for a type if and only if its instances were
written in order and name, type and text all tell the same. -/
theorem event_logs_agree (events : List (LoggedEvent classes D)) (c : C) :
    EventLogsAgree classes texts events c ↔ ReadableAs classes events c := by
  have hinstances : ∀ since, events.filter (fun e => classes.isSubclass e.cls c ∧
      since ≤ e.timestamp) = (events.filter fun e => classes.isSubclass e.cls c).filter
        fun e => since ≤ e.timestamp := fun since => by
    rw [List.filter_filter]
    apply List.filter_congr
    intro e _
    rw [Bool.decide_and, Bool.and_comm, Bool.decide_eq_true]
  constructor
  · intro h
    refine ⟨(pairwise_from_iff LoggedEvent.timestamp).mp fun since => ?_, fun e he hnamed => ?_⟩
    · obtain ⟨_, hmemory, -, entries, rfl, hentries⟩ := h since
      rw [inMemory_answer] at hmemory
      have hsame := List.map_injective_iff.mpr (fun _ _ => LoggedEvent.ext) (Except.ok.inj hmemory)
      rw [← hinstances, hsame]
      exact hentries.sorted
    · obtain ⟨_, -, hsqlite, entries, rfl, hentries⟩ := h e.timestamp
      exact (sqlite_answers_iff texts hentries).mp hsqlite e he le_rfl hnamed
  · intro h since
    have hentries : Ascends LoggedEvent.timestamp
        (events.filter fun e => classes.isSubclass e.cls c ∧ since ≤ e.timestamp)
        (events.filter fun e => classes.isSubclass e.cls c ∧ since ≤ e.timestamp) := by
      rw [hinstances, Ascends.self_iff]
      exact (pairwise_from_iff LoggedEvent.timestamp).mpr h.inOrder since
    exact ⟨_, inMemory_answer events c since, (sqlite_answers_iff texts hentries).mpr
      fun e he _ hnamed => h.exact e he hnamed, _, rfl, hentries⟩

end Written

end Trading
