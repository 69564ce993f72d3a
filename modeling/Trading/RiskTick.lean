import Trading.RiskManager
import Trading.RuntimeParts

/-!
# A risk tick and the quarantine

A tick is followed from the breakers over the bus into the supervisor, with no other task in
between. The breakers and the components are watched: each call of one is noted when it is
made. However many triggers there are, the system is quarantined once, and only by one that
asks for it.
-/
namespace Trading

open Async RuntimeWorld

/-- The actions on which the supervisor quarantines. -/
def TriggerAction.isSevere : TriggerAction → Bool
  | .rejectNew | .cancelAll => false
  | .quarantine | .flatten => true

theorem isSevere_iff (action : TriggerAction) :
    action.isSevere = true ↔ action = .quarantine ∨ action = .flatten := by
  cases action <;> decide

/-- A call of a breaker, with its place and its answer, or of a component. -/
inductive TickNote where
  | asked (i : Nat) (context : RiskContext) (answer : Except PyError (Option Trigger))
  | cancelAll
  | written (event : SystemStateChanged)
  | alerted (a : Alert)

namespace TickNote

def asked? : TickNote → Option (Nat × RiskContext)
  | .asked i context _ => some (i, context)
  | _ => none

def trigger? : TickNote → Option Trigger
  | .asked _ _ (.ok (some trigger)) => some trigger
  | _ => none

def written? : TickNote → Option SystemStateChanged
  | .written event => some event
  | _ => none

def alerted? : TickNote → Option Alert
  | .alerted a => some a
  | _ => none

end TickNote

section Watched

variable {ε : Type}

abbrev TickEnv (ε : Type) := Noted (List TickNote) ε

abbrev TickWorld (ε : Type) := RuntimeWorld (TickEnv ε)

def CircuitBreaker.noting (breaker : CircuitBreaker ε) (i : Nat) : CircuitBreaker (TickEnv ε) where
  evaluate context e :=
    let answer := breaker.evaluate context e.rest
    (⟨e.log ++ [.asked i context answer.2], answer.1⟩, answer.2)

def RiskManager.noting (risk : RiskManager ε) : RiskManager (TickEnv ε) where
  positions := risk.positions.lift
  balance := risk.balance.lift
  openOrders := risk.openOrders.lift
  breakers := risk.breakers.zipIdx.map fun entry => entry.1.noting entry.2

def Components.noting (comps : Components ε) : Components (TickEnv ε) :=
  { (comps.lift : Components (TickEnv ε)) with
    writeEvent := fun event => do
      record (.written event)
      (comps.writeEvent event).lift
    alert := fun a => do
      record (.alerted a)
      (comps.alert a).lift
    cancelAll := do
      record .cancelAll
      comps.cancelAll.lift }

/-- The same system, with nothing noted so far. -/
def RuntimeWorld.noting (w : RuntimeWorld ε) : TickWorld ε :=
  ⟨w.supervisor, w.bus.lift, w.trace, ⟨[], w.env⟩⟩

end Watched

def askedOf (notes : List TickNote) : List (Nat × RiskContext) := notes.filterMap TickNote.asked?

/-- What the breakers answered that is a trigger. -/
def triggersOf (notes : List TickNote) : List Trigger := notes.filterMap TickNote.trigger?

/-- The transitions logged and the alerts sent. -/
def writtenOf (notes : List TickNote) : List SystemStateChanged :=
  notes.filterMap TickNote.written?

def alertsOf (notes : List TickNote) : List Alert := notes.filterMap TickNote.alerted?

@[simp] theorem askedOf_append (ns ms : List TickNote) :
    askedOf (ns ++ ms) = askedOf ns ++ askedOf ms := List.filterMap_append
@[simp] theorem triggersOf_append (ns ms : List TickNote) :
    triggersOf (ns ++ ms) = triggersOf ns ++ triggersOf ms := List.filterMap_append
@[simp] theorem writtenOf_append (ns ms : List TickNote) :
    writtenOf (ns ++ ms) = writtenOf ns ++ writtenOf ms := List.filterMap_append
@[simp] theorem alertsOf_append (ns ms : List TickNote) :
    alertsOf (ns ++ ms) = alertsOf ns ++ alertsOf ms := List.filterMap_append

/-- One quarantine: its transition is the only one logged, after a cancellation attempt, and
one critical alert was sent. -/
structure QuarantinedOnce (notes : List TickNote) : Prop where
  transition : ∃ before event after, notes = before ++ .written event :: after ∧
    .cancelAll ∈ before ∧ event.oldState = .running ∧ event.newState = .quarantine ∧
    writtenOf notes = [event]
  alert : ∃ a, alertsOf notes = [a] ∧ a.level = .critical

/-- No quarantine: no transition was logged and no alert sent. -/
structure Uneventful (notes : List TickNote) : Prop where
  transitions : writtenOf notes = []
  alerts : alertsOf notes = []

theorem QuarantinedOnce.append {notes more : List TickNote} (h : QuarantinedOnce notes)
    (hmore : Uneventful more) : QuarantinedOnce (notes ++ more) where
  transition := by
    obtain ⟨before, event, after, hnotes, hcancel, hold, hnew, honly⟩ := h.transition
    refine ⟨before, event, after ++ more, by rw [hnotes]; simp, hcancel, hold, hnew, ?_⟩
    rw [writtenOf_append, honly, hmore.transitions, List.append_nil]
  alert := by
    obtain ⟨a, ha, hlevel⟩ := h.alert
    exact ⟨a, by rw [alertsOf_append, ha, hmore.alerts, List.append_nil], hlevel⟩

theorem Uneventful.append {notes more : List TickNote} (h : Uneventful notes)
    (hmore : Uneventful more) : Uneventful (notes ++ more) where
  transitions := by rw [writtenOf_append, h.transitions, hmore.transitions, List.append_nil]
  alerts := by rw [alertsOf_append, h.alerts, hmore.alerts, List.append_nil]

/-- An uneventful stretch, then a cancellation attempt, the transition and the alert. -/
theorem Uneventful.quarantine {notes : List TickNote} (h : Uneventful notes)
    {event : SystemStateChanged} {a : Alert} (hold : event.oldState = .running)
    (hnew : event.newState = .quarantine) (ha : a.level = .critical) :
    QuarantinedOnce (notes ++ [.cancelAll, .written event, .alerted a]) where
  transition := by
    refine ⟨notes ++ [.cancelAll], event, [.alerted a], by simp, by simp, hold, hnew, ?_⟩
    rw [writtenOf_append, h.transitions]
    rfl
  alert := by
    refine ⟨a, ?_, ha⟩
    rw [alertsOf_append, h.alerts]
    rfl

variable {ε : Type}

/-- What the tick needs of the bus: it is up, the supervisor follows it, and the other
subscribers keep to the components' environment and raise errors at most. -/
structure Attended (bus : EventBus (TickEnv ε)) : Prop where
  live : bus.Live
  known : bus.Knows ε
  errors : ∀ sub ∈ bus.subs, sub.RaisesErrors

/-- The system has got to `w` with these calls, a quarantine among them or not. -/
structure Stage (bus : EventBus (TickEnv ε)) (w : TickWorld ε) (notes : List TickNote)
    (quarantined : Bool) : Prop where
  log : w.env.log = notes
  bus : w.bus = bus
  state : w.state = if quarantined then .quarantine else .running
  shape : if quarantined then QuarantinedOnce notes else Uneventful notes

section Worlds

variable {bus : EventBus (TickEnv ε)} {w : TickWorld ε} {notes : List TickNote} {q : Bool}

/-- `w` after some more calls, which left the environment at `rest`. -/
def RuntimeWorld.after (w : TickWorld ε) (more : List TickNote) (rest : ε) : TickWorld ε :=
  { w with env := ⟨w.env.log ++ more, rest⟩ }

theorem Stage.after (h : Stage bus w notes q) {more : List TickNote} (hmore : Uneventful more)
    (rest : ε) : Stage bus (w.after more rest) (notes ++ more) q where
  log := congrArg (· ++ more) h.log
  bus := h.bus
  state := h.state
  shape := by
    have hshape := h.shape
    cases q with
    | false => exact Uneventful.append hshape hmore
    | true => exact QuarantinedOnce.append hshape hmore

theorem Stage.rest (h : Stage bus w notes q) (rest : ε) : Stage bus (w.after [] rest) notes q := by
  have hnone : Uneventful [] := ⟨rfl, rfl⟩
  have hrest := h.after hnone rest
  rwa [List.append_nil] at hrest

theorem after_after (more more' : List TickNote) (rest rest' : ε) :
    (w.after more rest).after more' rest' = w.after (more ++ more') rest' := by
  simp [RuntimeWorld.after]

/-- What only knows the components' environment. -/
theorem exec_unnoted {α : Type} (p : Coro ε α) (w : TickWorld ε) :
    ((p.lift : Coro (TickEnv ε) α).lift : Coro (TickWorld ε) α).exec w =
      (w.after [] (p.exec w.env.rest).1, (p.exec w.env.rest).2) := by
  rw [Co.exec_lift, Co.exec_lift]
  simp [RuntimeWorld.after, Part.view, Part.put]

/-- A call that is noted when it is made. -/
theorem exec_noted {α : Type} (note : TickNote) (p : Coro ε α) (w : TickWorld ε) :
    (((record note : Coro (TickEnv ε) Unit).bind fun _ => p.lift).lift :
        Coro (TickWorld ε) α).exec w =
      (w.after [note] (p.exec w.env.rest).1, (p.exec w.env.rest).2) := by
  have hrecord : ((record note : Coro (TickEnv ε) Unit).lift : Coro (TickWorld ε) Unit).exec w =
      (w.after [note] w.env.rest, .ok ()) := rfl
  rw [Co.lift_bind, Co.exec_bind_ok hrecord, exec_unnoted, after_after]
  rfl

/-- Another subscriber may change its own environment, and nothing else. -/
theorem exec_dispatch_external (handler : BreakerTripped → Coro (TickWorld ε) Unit)
    (event : Event) {accepts : Event → Bool} {callback : Event → Coro (TickEnv ε) Unit}
    (hknown : ∀ event, ∃ p : Coro ε Unit, callback event = p.lift)
    (herrors : ∀ event, Co.RaisesErrors (callback event)) (w : TickWorld ε) :
    ∃ rest, (EventBus.dispatch handler event (.external accepts callback)).exec w =
      (w.after [] rest, .ok ()) := by
  rw [EventBus.dispatch]
  split
  · have hraises := (herrors event).lift (W := TickWorld ε)
    obtain ⟨p, hp⟩ := hknown event
    rw [Co.exec_suppress fun exc hexc => hraises.exec hexc, hp, exec_unnoted]
    exact ⟨_, rfl⟩
  · exact ⟨w.env.rest, by simp [RuntimeWorld.after]⟩

/-- Publishing an event that is no trip only runs the other subscribers. -/
theorem exec_publish_stateChanged (hbus : Attended w.bus) (event : SystemStateChanged) :
    ∃ rest, (EventBus.publish (ε := TickEnv ε) (fun _ => pure ())
      (.systemStateChanged event)).exec w = (w.after [] rest, .ok ()) := by
  have hturn : ∀ sub ∈ w.bus.subs, ∀ w', (∃ rest, w' = w.after [] rest) →
      ∃ w'', (EventBus.dispatch (fun _ => pure ()) (.systemStateChanged event) sub).exec w' =
        (w'', .ok ()) ∧ ∃ rest, w'' = w.after [] rest := by
    rintro sub hsub _ ⟨rest, rfl⟩
    cases sub with
    | external accepts callback =>
      obtain ⟨rest', hexec⟩ := exec_dispatch_external (fun _ => pure ())
        (.systemStateChanged event) (hbus.known accepts callback hsub) (hbus.errors _ hsub)
        (w.after [] rest)
      exact ⟨_, hexec, rest', after_after _ _ _ _⟩
    | onBreakerTripped => exact ⟨_, rfl, rest, rfl⟩
  have hstart : ∃ rest, w = w.after [] rest := ⟨w.env.rest, by simp [RuntimeWorld.after]⟩
  obtain ⟨_, hloop, rest, rfl⟩ := Co.exec_forEach_succeeds w.bus.subs hturn hstart
  exact ⟨rest, (exec_publish_live (ε := TickEnv ε) _ _ (w := w) hbus.live.started
    hbus.live.stopped).trans hloop⟩

section Handler

variable [Part Clock ε] {comps : Components ε} (hwrite : ∀ event, (comps.writeEvent event).NoThrow)

theorem exec_readClock (w : TickWorld ε) :
    ∃ rest now, Supervisor.readNow.exec w = (w.after [] rest, .ok now) := by
  have hclock : (Supervisor.readNow : Coro (TickWorld ε) Time) =
      ((Clock.now.lift : Coro ε Time).lift : Coro (TickEnv ε) Time).lift := by
    rw [Supervisor.readNow, Co.lift_lift Clock.now]
    rfl
  rw [hclock, exec_unnoted]
  exact ⟨_, _, rfl⟩

omit [Part Clock ε] in
/-- A cancellation attempt comes back, whatever becomes of it, if it raises an error at most. -/
theorem exec_tryCancelAll (hcancel : Co.RaisesErrors comps.cancelAll) (w : TickWorld ε) :
    ∃ rest, (Supervisor.tryCancelAll comps.noting).exec w =
      (w.after [.cancelAll] rest, .ok ()) := by
  have hcall : (comps.noting.cancelAll.lift : Coro (TickWorld ε) Nat).exec w =
      (w.after [.cancelAll] (comps.cancelAll.exec w.env.rest).1,
        (comps.cancelAll.exec w.env.rest).2) := exec_noted _ _ w
  rw [Supervisor.tryCancelAll, Co.exec_suppress, hcall]
  · exact ⟨_, rfl⟩
  · rw [hcall]
    exact fun exc hexc => hcancel.exec hexc

include hwrite

omit [Part Clock ε] in
theorem exec_announce (hbus : Attended w.bus) (event : SystemStateChanged) :
    ∃ rest, (Supervisor.announce comps.noting event).exec w =
      (w.after [.written event] rest, .ok ()) := by
  obtain ⟨a, hquiet⟩ := (hwrite event).exec w.env.rest
  have hlog : ((comps.noting.writeEvent event).lift : Coro (TickWorld ε) Unit).exec w =
      (w.after [.written event] ((comps.writeEvent event).exec w.env.rest).1, .ok a) := by
    rw [show comps.noting.writeEvent event = (record _).bind fun _ => _ from rfl, exec_noted, hquiet]
  simp only [Supervisor.announce, Co.bind_eq]
  rw [Co.exec_bind_ok hlog, Co.exec_bind_ok (Co.exec_get _)]
  split
  · obtain ⟨rest, hpublish⟩ := exec_publish_stateChanged (w := w.after [.written event] _) hbus event
    refine ⟨rest, hpublish.trans ?_⟩
    rw [after_after]
    rfl
  · exact ⟨_, rfl⟩

theorem exec_transition (hbus : Attended w.bus) (seen newState : SystemState) (reason : String) :
    ∃ rest now, (Supervisor.transition comps.noting seen newState reason).exec w =
      ((w.moved seen ⟨w.state, newState, reason, now⟩).after
        [.written ⟨w.state, newState, reason, now⟩] rest, .ok ()) := by
  obtain ⟨rest, now, hnow⟩ := exec_readClock w
  let event : SystemStateChanged := ⟨w.state, newState, reason, now⟩
  obtain ⟨rest', hannounce⟩ :=
    exec_announce (w := (w.after [] rest).moved seen event) hwrite hbus event
  refine ⟨rest', now, ?_⟩
  simp only [Supervisor.transition, Co.bind_eq]
  rw [Co.exec_bind_ok (Co.exec_get w), Co.exec_bind_ok hnow, Co.exec_bind_ok (Co.exec_modify _ _),
    hannounce]
  simp [RuntimeWorld.after, RuntimeWorld.moved, event]

omit hwrite in
/-- Not running, a quarantine is ignored. -/
theorem exec_quarantine_ignored {ε : Type} [Part Clock ε] {comps : Components ε}
    {w : RuntimeWorld ε} (hstate : w.state ≠ .running) (reason : String)
    (breakerName : Option String) :
    (Supervisor.quarantine comps reason breakerName).exec w = (w, .ok ()) := by
  rw [Supervisor.quarantine, Co.bind_eq, Co.exec_bind_ok (Co.exec_get w), if_pos hstate]
  rfl

theorem exec_quarantine (halert : ∀ a, (comps.alert a).NoThrow)
    (hcancel : Co.RaisesErrors comps.cancelAll) (hbus : Attended w.bus)
    (hstate : w.state = .running) (reason : String) (breakerName : Option String) :
    ∃ event a rest, (Supervisor.quarantine comps.noting reason breakerName).exec w =
        ((w.moved .running event).after [.cancelAll, .written event, .alerted a] rest, .ok ()) ∧
      event.oldState = .running ∧ event.newState = .quarantine ∧ a.level = .critical := by
  obtain ⟨rest₁, hattempt⟩ := exec_tryCancelAll hcancel w
  obtain ⟨rest₂, now, hset⟩ := exec_transition (w := w.after [.cancelAll] rest₁) hwrite hbus
    .running .quarantine reason
  let event : SystemStateChanged := ⟨w.state, .quarantine, reason, now⟩
  let w₂ := ((w.after [.cancelAll] rest₁).moved .running event).after [.written event] rest₂
  have hmove : (Supervisor.transition comps.noting .running .quarantine reason).exec
      (w.after [.cancelAll] rest₁) = (w₂, .ok ()) := hset
  obtain ⟨rest₃, later, hclock⟩ := exec_readClock w₂
  let a := Supervisor.quarantineAlert reason breakerName later
  obtain ⟨u, hquiet⟩ := (halert a).exec rest₃
  have hsend : ((comps.noting.alert a).lift : Coro (TickWorld ε) Unit).exec (w₂.after [] rest₃) =
      ((w₂.after [] rest₃).after [.alerted a] ((comps.alert a).exec rest₃).1, .ok u) := by
    rw [show comps.noting.alert a = (record _).bind fun _ => _ from rfl, exec_noted]
    exact congrArg _ (congrArg Prod.snd hquiet)
  refine ⟨event, a, ((comps.alert a).exec rest₃).1, ?_, hstate, rfl, rfl⟩
  have hrunning : ¬ w.state ≠ .running := not_not.mpr hstate
  simp only [Supervisor.quarantine, Co.bind_eq]
  rw [Co.exec_bind_ok (Co.exec_get w), if_neg hrunning, Co.exec_bind_ok hattempt,
    Co.exec_bind_ok hmove, Co.exec_bind_ok hclock, hsend]
  simp [w₂, RuntimeWorld.after, RuntimeWorld.moved]

end Handler

end Worlds

section Stages

variable [Part Clock ε] {comps : Components ε} (hwrite : ∀ event, (comps.writeEvent event).NoThrow)
  (halert : ∀ a, (comps.alert a).NoThrow) (hcancel : Co.RaisesErrors comps.cancelAll)
  {bus : EventBus (TickEnv ε)} (hbus : Attended bus) {w : TickWorld ε} {notes : List TickNote}
  {q : Bool}

include hcancel

omit [Part Clock ε] in
theorem stage_tryCancelAll (h : Stage bus w notes q) :
    ∃ w', (Supervisor.tryCancelAll comps.noting).exec w = (w', .ok ()) ∧
      Stage bus w' (notes ++ [.cancelAll]) q := by
  obtain ⟨rest, hexec⟩ := exec_tryCancelAll hcancel w
  exact ⟨_, hexec, h.after ⟨rfl, rfl⟩ rest⟩

include hwrite halert hbus

theorem stage_quarantine (h : Stage bus w notes q) (reason : String)
    (breakerName : Option String) :
    ∃ w' more, (Supervisor.quarantine comps.noting reason breakerName).exec w = (w', .ok ()) ∧
      Stage bus w' (notes ++ more) true ∧ triggersOf more = [] ∧ askedOf more = [] := by
  cases q with
  | true =>
    have hstate : w.state ≠ .running := by
      rw [h.state]
      simp
    refine ⟨w, [], exec_quarantine_ignored hstate reason breakerName, ?_, rfl, rfl⟩
    rwa [List.append_nil]
  | false =>
    obtain ⟨event, a, rest, hexec, hold, hnew, hlevel⟩ :=
      exec_quarantine hwrite halert hcancel (h.bus ▸ hbus) h.state reason breakerName
    refine ⟨_, _, hexec, ⟨congrArg (· ++ _) h.log, h.bus, hnew, ?_⟩, rfl, rfl⟩
    exact Uneventful.quarantine h.shape hold hnew hlevel

/-- The supervisor's turn: a severe trip leaves the system quarantined, another trip leaves
the state alone. -/
theorem stage_onBreakerTripped (h : Stage bus w notes q) (event : BreakerTripped) :
    ∃ w' more, (Supervisor.onBreakerTripped comps.noting event).exec w = (w', .ok ()) ∧
      Stage bus w' (notes ++ more) (q || event.action.isSevere) ∧ triggersOf more = [] ∧
      askedOf more = [] := by
  rw [Supervisor.onBreakerTripped]
  cases event.action with
  | rejectNew => exact ⟨w, [], rfl, by simpa [TriggerAction.isSevere] using h, rfl, rfl⟩
  | cancelAll =>
    obtain ⟨w', hexec, h'⟩ := stage_tryCancelAll hcancel h
    exact ⟨w', _, hexec, by simpa [TriggerAction.isSevere] using h', rfl, rfl⟩
  | quarantine =>
    simpa [TriggerAction.isSevere] using
      stage_quarantine hwrite halert hcancel hbus h event.reason (some event.breakerName)
  | flatten =>
    obtain ⟨w₁, hattempt, h₁⟩ := stage_tryCancelAll hcancel h
    obtain ⟨w', more, hexec, h', htriggers, hasked⟩ :=
      stage_quarantine hwrite halert hcancel hbus h₁ event.reason (some event.breakerName)
    refine ⟨w', .cancelAll :: more, ?_, ?_, htriggers, hasked⟩
    · simp only [Co.bind_eq]
      rw [Co.exec_bind_ok hattempt, hexec]
    · simpa [TriggerAction.isSevere] using h'

/-- Every subscriber's turn, the supervisor's among them or not. -/
theorem stage_dispatch (event : BreakerTripped) (subs : List (Subscription (TickEnv ε)))
    (hsubs : ∀ sub ∈ subs, sub ∈ bus.subs) (h : Stage bus w notes q) :
    ∃ w' more q', (Co.forEach subs (EventBus.dispatch (Supervisor.onBreakerTripped comps.noting)
        (.breakerTripped event))).exec w = (w', .ok ()) ∧
      Stage bus w' (notes ++ more) q' ∧ triggersOf more = [] ∧ askedOf more = [] ∧
      (q' = true ↔ q = true ∨ .onBreakerTripped ∈ subs ∧ event.action.isSevere = true) := by
  induction subs generalizing w notes q with
  | nil => exact ⟨w, [], q, rfl, by rwa [List.append_nil], rfl, rfl, by simp⟩
  | cons sub subs ih =>
    have hsub := hsubs sub List.mem_cons_self
    have hrest : ∀ sub ∈ subs, sub ∈ bus.subs := fun s hs => hsubs s (List.mem_cons_of_mem _ hs)
    cases sub with
    | external accepts callback =>
      obtain ⟨rest, hturn⟩ := exec_dispatch_external (Supervisor.onBreakerTripped comps.noting)
        (.breakerTripped event) (hbus.known accepts callback hsub) (hbus.errors _ hsub) w
      obtain ⟨w', more, q', hloop, h', htriggers, hasked, hq⟩ := ih hrest (h.rest rest)
      refine ⟨w', more, q', ?_, h', htriggers, hasked, by simpa using hq⟩
      rw [Co.forEach_cons, Co.exec_bind_ok hturn, hloop]
    | onBreakerTripped =>
      obtain ⟨w₁, more₁, hhandler, h₁, htriggers₁, hasked₁⟩ :=
        stage_onBreakerTripped hwrite halert hcancel hbus h event
      obtain ⟨w', more, q', hloop, h', htriggers, hasked, hq⟩ := ih hrest h₁
      have hturn : (EventBus.dispatch (Supervisor.onBreakerTripped comps.noting)
          (.breakerTripped event) (.onBreakerTripped : Subscription (TickEnv ε))).exec w =
            (w₁, .ok ()) := by
        rw [EventBus.dispatch, Co.exec_suppress, hhandler]
        simp [hhandler]
      refine ⟨w', more₁ ++ more, q', ?_, by rwa [← List.append_assoc], ?_, ?_, ?_⟩
      · rw [Co.forEach_cons, Co.exec_bind_ok hturn, hloop]
      · rw [triggersOf_append, htriggers₁, htriggers, List.append_nil]
      · rw [askedOf_append, hasked₁, hasked, List.append_nil]
      · rw [hq, Bool.or_eq_true]
        simp only [List.mem_cons, true_or, true_and]
        tauto

theorem stage_publish (h : Stage bus w notes q) (event : BreakerTripped) :
    ∃ w' more q', (Supervisor.publish comps.noting (.breakerTripped event)).exec w =
        (w', .ok ()) ∧
      Stage bus w' (notes ++ more) q' ∧ triggersOf more = [] ∧ askedOf more = [] ∧
      (q' = true ↔ q = true ∨ event.action.isSevere = true) := by
  have hup : w.bus.Live := h.bus ▸ hbus.live
  obtain ⟨w', more, q', hloop, h', htriggers, hasked, hq⟩ :=
    stage_dispatch hwrite halert hcancel hbus event w.bus.subs (fun _ hs => h.bus ▸ hs) h
  refine ⟨w', more, q', ?_, h', htriggers, hasked, ?_⟩
  · rw [exec_publishEvent_up comps.noting _ ⟨hup.started, hup.stopped⟩, hloop]
  · rw [hq, and_iff_right hup.subscribed]

omit hwrite halert hcancel hbus

/-- The breakers `asked` so far have had the system quarantined if and only if some trigger
of theirs asked for it. -/
def Told (bus : EventBus (TickEnv ε)) (w : TickWorld ε) (asked : List (Nat × RiskContext)) :
    Prop :=
  ∃ notes q, Stage bus w notes q ∧ askedOf notes = asked ∧
    (q = true ↔ ∃ t ∈ triggersOf notes, t.action.isSevere = true)

include hwrite halert hcancel hbus

theorem told_tickBreaker {asked : List (Nat × RiskContext)} (context : RiskContext)
    {breaker : CircuitBreaker ε}
    (htotal : ∀ e, ∃ answer, (breaker.evaluate context e).2 = .ok answer) (i : Nat)
    (h : Told bus w asked) :
    ∃ w', (RiskManager.tickBreaker comps.noting context (breaker.noting i)).exec w =
        (w', .ok ()) ∧ Told bus w' (asked ++ [(i, context)]) := by
  obtain ⟨notes, q, hstage, hasked, hq⟩ := h
  obtain ⟨answer, hanswer⟩ := htotal w.env.rest
  have hrun : (((breaker.noting i).run context).lift :
      Coro (TickWorld ε) (Option Trigger)).exec w =
        (w.after [.asked i context (.ok answer)] (breaker.evaluate context w.env.rest).1,
          .ok answer) := by
    rw [Co.exec_lift, CircuitBreaker.run]
    simp only [Co.exec, Co.exec_ofExcept, CircuitBreaker.noting]
    rw [show (Part.view w : TickEnv ε).rest = w.env.rest from rfl, hanswer]
    rfl
  have hnoted : Stage bus (w.after [.asked i context (.ok answer)] _)
      (notes ++ [.asked i context (.ok answer)]) q :=
    hstage.after ⟨rfl, rfl⟩ (breaker.evaluate context w.env.rest).1
  rw [RiskManager.tickBreaker, Co.bind_eq, Co.exec_bind_ok hrun]
  cases answer with
  | none =>
    refine ⟨_, rfl, _, q, hnoted, by rw [askedOf_append, hasked]; rfl, ?_⟩
    rw [hq, triggersOf_append]
    simp [triggersOf, TickNote.trigger?]
  | some trigger =>
    obtain ⟨rest, now, hnow⟩ := exec_readClock
      (w.after [.asked i context (.ok (some trigger))] (breaker.evaluate context w.env.rest).1)
    obtain ⟨w', more, q', hpublish, hstage', htriggers, hmore, hq'⟩ :=
      stage_publish hwrite halert hcancel hbus (hnoted.rest rest)
        ⟨trigger.breakerName, trigger.action, trigger.reason, now⟩
    refine ⟨w', ?_, _, q', hstage', ?_, ?_⟩
    · simp only [Co.bind_eq]
      rw [Co.exec_bind_ok hnow, hpublish]
    · rw [askedOf_append, askedOf_append, hasked, hmore, List.append_nil]
      rfl
    · have htold : triggersOf (notes ++ [.asked i context (.ok (some trigger))] ++ more) =
          triggersOf notes ++ [trigger] := by
        rw [triggersOf_append, htriggers, triggersOf_append, List.append_nil]
        rfl
      rw [hq', hq, htold]
      simp only [List.mem_append, List.mem_singleton, or_and_right, exists_or, exists_eq_left]

/-- One breaker after the other, each in its place. -/
theorem told_breakers (context : RiskContext) (breakers : List (CircuitBreaker ε))
    (htotal : ∀ breaker ∈ breakers, ∀ e, ∃ answer, (breaker.evaluate context e).2 = .ok answer)
    (i : Nat) {asked : List (Nat × RiskContext)} (h : Told bus w asked) :
    ∃ w', (Co.forEach ((breakers.zipIdx i).map fun entry => entry.1.noting entry.2)
        (RiskManager.tickBreaker comps.noting context)).exec w = (w', .ok ()) ∧
      Told bus w' (asked ++ (List.range' i breakers.length).map fun j => (j, context)) := by
  induction breakers generalizing i w asked with
  | nil => exact ⟨w, rfl, by simpa using h⟩
  | cons breaker breakers ih =>
    obtain ⟨w₁, hturn, h₁⟩ := told_tickBreaker hwrite halert hcancel hbus context
      (htotal breaker List.mem_cons_self) i h
    obtain ⟨w', hloop, h'⟩ :=
      ih (fun b hb => htotal b (List.mem_cons_of_mem _ hb)) (i + 1) h₁
    refine ⟨w', ?_, ?_⟩
    · rw [List.zipIdx_cons, List.map_cons, Co.forEach_cons, Co.exec_bind_ok hturn, hloop]
    · rwa [List.length_cons, List.range'_succ, List.map_cons, List.append_cons]

end Stages

theorem buildContext_noting [Part Clock ε] (risk : RiskManager ε) :
    risk.noting.buildContext = (risk.buildContext.lift : Coro (TickEnv ε) RiskContext) := by
  simp only [RiskManager.buildContext, RiskManager.noting, Co.bind_eq, Co.lift_bind]
  rw [Co.lift_lift Clock.now]
  rfl

theorem attended_noting {w : RuntimeWorld ε} (hlive : w.bus.Live)
    (hsubs : ∀ sub ∈ w.bus.subs, sub.RaisesErrors) : Attended w.noting.bus where
  live := ⟨hlive.started, hlive.stopped, List.mem_map.mpr ⟨_, hlive.subscribed, rfl⟩⟩
  known := EventBus.knows_wired w.bus.subs
  errors := raises_wired hsubs

/-- From a running system a tick asks every breaker once, in order, on the context it has
built. If some answer is a severe trigger the system is quarantined once, and otherwise left
running. -/
theorem tick_quarantines_iff [Part Clock ε] (comps : Components ε) (risk : RiskManager ε)
    (w : RuntimeWorld ε) (hwrite : ∀ event, (comps.writeEvent event).NoThrow)
    (halert : ∀ a, (comps.alert a).NoThrow) (hcancel : Co.RaisesErrors comps.cancelAll)
    (hsubs : ∀ sub ∈ w.bus.subs, sub.RaisesErrors)
    (htotal : ∀ breaker ∈ risk.breakers, ∀ context e,
      ∃ answer, (breaker.evaluate context e).2 = .ok answer)
    (hlive : w.bus.Live) (hrunning : w.state = .running) (context : RiskContext)
    (hcontext : (risk.buildContext.exec w.env).2 = .ok context) :
    let w' := ((risk.noting.tick comps.noting).exec w.noting).1
    let Severe := ∃ t ∈ triggersOf w'.env.log, t.action = .quarantine ∨ t.action = .flatten
    ((risk.noting.tick comps.noting).exec w.noting).2 = .ok () ∧
      askedOf w'.env.log = (List.range risk.breakers.length).map (fun i => (i, context)) ∧
      (w'.state = .quarantine ↔ Severe) ∧ (Severe → QuarantinedOnce w'.env.log) ∧
      (¬Severe → w'.state = .running ∧ Uneventful w'.env.log) := by
  have hcontext' : (risk.noting.buildContext.lift : Coro (TickWorld ε) RiskContext).exec w.noting =
      (w.noting.after [] (risk.buildContext.exec w.env).1, .ok context) := by
    rw [buildContext_noting, exec_unnoted]
    exact congrArg _ hcontext
  have hstart : Told w.noting.bus (w.noting.after [] (risk.buildContext.exec w.env).1) [] :=
    ⟨[], false, ⟨rfl, rfl, hrunning, ⟨rfl, rfl⟩⟩, rfl, by simp [triggersOf]⟩
  obtain ⟨w', hloop, notes, q, hstage, hasked, hq⟩ :=
    told_breakers hwrite halert hcancel (attended_noting hlive hsubs) context risk.breakers
      (fun breaker hbreaker => htotal breaker hbreaker context) 0 hstart
  have htick : (risk.noting.tick comps.noting).exec w.noting = (w', .ok ()) := by
    rw [RiskManager.tick, Co.bind_eq, Co.exec_bind_ok hcontext']
    exact hloop
  have hstate := hstage.state
  have hshape := hstage.shape
  simp only [isSevere_iff] at hq
  dsimp only
  rw [htick, hstage.log, hasked, ← hq]
  refine ⟨rfl, by rw [List.range_eq_range']; rfl, ?_⟩
  cases q with
  | true =>
    refine ⟨?_, fun _ => hshape, fun h => absurd rfl h⟩
    simp [hstate]
  | false =>
    refine ⟨?_, fun h => absurd h (by simp), fun _ => ⟨hstate, hshape⟩⟩
    simp [hstate]

/-- Cancellations fail, as they do when the venue is down. -/
def unreachableVenue : Components (Clock × Unit) :=
  { idleComponents with cancelAll := .throw ⟨"ConnectionError", "venue unreachable"⟩ }

def alwaysTrips (trigger : Trigger) : CircuitBreaker (Clock × Unit) :=
  ⟨fun _ e => (e, .ok (some trigger))⟩

/-- A mild trigger and two severe ones. -/
def trippingRisk : RiskManager (Clock × Unit) :=
  { positions := .pure [], balance := .pure ⟨"USDT", 0, 0, 0, 0⟩, openOrders := .pure []
    breakers := [alwaysTrips ⟨"Leverage", .rejectNew, "leverage"⟩,
      alwaysTrips ⟨"Drawdown", .flatten, "drawdown"⟩,
      alwaysTrips ⟨"Heartbeat", .quarantine, "silent"⟩] }

def Event.isTrip : Event → Bool
  | .breakerTripped _ => true
  | _ => false

/-- The system after `start()`, next to a subscriber that raises at every trip. -/
def startedBeside (exc : PyError) : RuntimeWorld (Clock × Unit) :=
  ((Supervisor.start unreachableVenue).exec
    (.new [.external Event.isTrip fun _ => .throw exc] (⟨fun n => n, 0⟩, ()))).1

def badSubscriber : PyError := ⟨"ValueError", "bad subscriber"⟩

theorem tick_quarantines_once :
    let w' := ((trippingRisk.noting.tick unreachableVenue.noting).exec
      (startedBeside badSubscriber).noting).1
    w'.state = .quarantine ∧ QuarantinedOnce w'.env.log := by
  intro w'
  have hlive : (startedBeside badSubscriber).bus.Live := by
    refine ⟨by decide +kernel, by decide +kernel, ?_⟩
    exact List.mem_cons_of_mem _ List.mem_cons_self
  have hcancel : Co.RaisesErrors unreachableVenue.cancelAll := by
    show PyError.isException _ = true
    decide
  have hsubs : ∀ sub ∈ (startedBeside badSubscriber).bus.subs, sub.RaisesErrors := by
    refine List.forall_mem_cons.mpr ⟨fun _ => ?_, List.forall_mem_singleton.mpr trivial⟩
    show PyError.isException _ = true
    decide
  have htotal : ∀ breaker ∈ trippingRisk.breakers, ∀ context e,
      ∃ answer, (breaker.evaluate context e).2 = .ok answer := by
    simp [trippingRisk, alwaysTrips]
  obtain ⟨-, -, hstate, honce, -⟩ := tick_quarantines_iff unreachableVenue trippingRisk
    (startedBeside badSubscriber) (fun _ => trivial) (fun _ => trivial) hcancel hsubs htotal hlive
    (by decide +kernel) _ rfl
  have hsevere : ∃ t ∈ triggersOf w'.env.log, t.action = .quarantine ∨ t.action = .flatten := by
    decide +kernel
  exact ⟨hstate.mpr hsevere, honce hsevere⟩

/-- A subscriber ahead of the supervisor that raises `CancelledError` ends the tick with the
first trigger, and a `cancel_all` that does so ends the quarantine before its transition. -/
theorem cancelled_tick_leaves_running :
    let cancelled : PyError := ⟨"CancelledError", ""⟩
    let beside := ((trippingRisk.noting.tick unreachableVenue.noting).exec
      (startedBeside cancelled).noting).1
    let during := ((trippingRisk.noting.tick
      { unreachableVenue with cancelAll := .throw cancelled }.noting).exec
        (startedBeside badSubscriber).noting).1
    (beside.state = .running ∧
        triggersOf beside.env.log = [⟨"Leverage", .rejectNew, "leverage"⟩]) ∧
      (during.state = .running ∧
        (∃ t ∈ triggersOf during.env.log, t.action = .flatten) ∧ writtenOf during.env.log = []) := by
  decide +kernel

end Trading
