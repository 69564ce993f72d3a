import Trading.Async.Alone
import Trading.SupervisorRules

/-!
# Components that only know a part

Components wired over an environment work in any larger one; what they do there is a
lift. So a record can be kept beside them that only the instrumented calls touch.
-/
namespace Trading

open Async RuntimeWorld

variable {S W : Type} [Part S W]

def Lifecycle.lift (component : Lifecycle S) : Lifecycle W :=
  ⟨component.start.lift, component.stop.lift⟩

def TickTask.lift : TickTask S → TickTask W
  | .ended outcome => .ended outcome
  | .sleeping rest next => .sleeping rest.lift next.lift
  | .calling rest next => .calling rest.lift next.lift

theorem TickTask.awaited_lift (task : TickTask S) :
    (task.lift : TickTask W).awaited = task.awaited.lift := by
  induction task with
  | ended outcome => cases outcome <;> rfl
  | sleeping rest next ih =>
    rw [TickTask.lift, awaited, awaited, ih, Co.bind_eq, Co.bind_eq, Co.lift_bind,
      Co.lift_tryCatch, Co.lift_bind]
    congr 1
    · congr 1
      funext exc
      split
      · rfl
      · rfl
    · funext cancelled
      cases cancelled with
      | false => rfl
      | true => rfl
  | calling rest next ih =>
    rw [TickTask.lift, awaited, awaited, ih, Co.bind_eq, Co.bind_eq, Co.lift_bind,
      Co.lift_suppress]
    rfl

def Components.lift (comps : Components S) : Components W where
  orderJournal := comps.orderJournal.lift
  accountJournal := comps.accountJournal.lift
  eventLog := comps.eventLog.lift
  alertLog := comps.alertLog.lift
  alertRouter := comps.alertRouter.lift
  venueLifecycle := comps.venueLifecycle.lift
  marketData := comps.marketData.lift
  omsLifecycle := comps.omsLifecycle.map Lifecycle.lift
  pmsLifecycle := comps.pmsLifecycle.map Lifecycle.lift
  venue := comps.venue.lift
  writeEvent event := (comps.writeEvent event).lift
  alert a := (comps.alert a).lift
  cancelAll := comps.cancelAll.lift
  reconcile := comps.reconcile.lift
  tickTask := comps.tickTask.lift

def Subscription.lift : Subscription S → Subscription W
  | .external accepts callback => .external accepts fun event => (callback event).lift
  | .onBreakerTripped => .onBreakerTripped

def EventBus.lift (bus : EventBus S) : EventBus W :=
  { subs := bus.subs.map Subscription.lift, started := bus.started, stopped := bus.stopped }

/-- Every callback on the bus only knows the part. -/
def EventBus.Knows (S : Type) [Part S W] (bus : EventBus W) : Prop :=
  ∀ accepts callback, .external accepts callback ∈ bus.subs →
    ∀ event, ∃ p : Coro S Unit, callback event = p.lift

theorem EventBus.knows_wired (subs : List (Subscription S)) :
    EventBus.Knows S (.wired (subs.map Subscription.lift) : EventBus W) := by
  intro accepts callback hmem event
  obtain ⟨sub, -, hsub⟩ := List.mem_map.mp hmem
  cases sub with
  | external accepts' callback' =>
    cases hsub
    exact ⟨callback' event, rfl⟩
  | onBreakerTripped => cases hsub

theorem raises_wired {subs : List (Subscription S)} (h : ∀ sub ∈ subs, sub.RaisesErrors) :
    ∀ sub ∈ (EventBus.wired (subs.map Subscription.lift) : EventBus W).subs, sub.RaisesErrors := by
  intro sub hsub
  obtain ⟨sub', hsub', rfl⟩ := List.mem_map.mp hsub
  have hraises := h sub' hsub'
  cases sub' with
  | external accepts callback => exact fun event => (hraises event).lift
  | onBreakerTripped => trivial

theorem EventBus.Knows.subscribe {bus : EventBus W} (h : bus.Knows S) (flag flag' : Bool) :
    EventBus.Knows S (⟨bus.subs ++ [.onBreakerTripped], flag, flag'⟩ : EventBus W) := by
  intro accepts callback hmem event
  apply h accepts callback
  simpa using hmem

theorem Components.mem_lifecycles_lift {comps : Components S} {component : Lifecycle W}
    (h : component ∈ (comps.lift : Components W).lifecycles) :
    ∃ c ∈ comps.lifecycles, component = c.lift := by
  have hmap : (comps.lift : Components W).lifecycles = comps.lifecycles.map Lifecycle.lift := by
    simp [Components.lifecycles, Components.lift, Option.toList_map]
  rw [hmap] at h
  obtain ⟨c, hc, rfl⟩ := List.mem_map.mp h
  exact ⟨c, hc, rfl⟩

/-- Where neither the callback nor the supervisor raises more than an error, the dispatch
goes on. -/
theorem exec_dispatch {ε W : Type} [Part (EventBus ε) W] [Part ε W]
    {handler : BreakerTripped → Coro W Unit} {event : Event} {sub : Subscription ε}
    (hhandler : ∀ e, Co.RaisesErrors (handler e)) (hsub : sub.RaisesErrors) (w : W) :
    (EventBus.dispatch handler event sub).exec w =
      (((EventBus.dispatch handler event sub).exec w).1, .ok ()) := by
  cases sub with
  | external accepts callback =>
    rw [EventBus.dispatch]
    split
    · exact (Co.raises_suppress (hsub event).lift).exec_unit w
    · rfl
  | onBreakerTripped =>
    cases event with
    | breakerTripped e => exact (Co.raises_suppress (hhandler e)).exec_unit w
    | _ => rfl

/-- A bus that is not up raises, one that is up goes through its subscribers. -/
theorem exec_publish_live {ε W : Type} [Part (EventBus ε) W] [Part ε W]
    (handler : BreakerTripped → Coro W Unit) (event : Event) {w : W}
    (hstarted : (Part.view w : EventBus ε).started = true)
    (hstopped : (Part.view w : EventBus ε).stopped = false) :
    (EventBus.publish (ε := ε) handler event).exec w =
      (Co.forEach (Part.view w : EventBus ε).subs (EventBus.dispatch handler event)).exec w := by
  rw [EventBus.publish, Co.bind_eq, Co.exec_bind_ok (Co.exec_lift_ok (Co.exec_get _))]
  simp only [hstarted, hstopped, Part.put_view]
  rfl

theorem exec_publish_dead {ε W : Type} [Part (EventBus ε) W] [Part ε W]
    (handler : BreakerTripped → Coro W Unit) (event : Event) {w : W}
    (hdead : ¬((Part.view w : EventBus ε).started = true ∧
      (Part.view w : EventBus ε).stopped = false)) :
    ((EventBus.publish (ε := ε) handler event).exec w).1 = w := by
  rw [EventBus.publish, Co.bind_eq, Co.exec_bind_ok (Co.exec_lift_ok (Co.exec_get _)),
    Part.put_view]
  split
  · rfl
  · next hstopped =>
    have hstarted : (Part.view w : EventBus ε).started = false := by
      simp only [Bool.not_eq_true] at hstopped
      simpa [hstopped] using hdead
    rw [hstarted]
    rfl

/-- Where no subscriber raises more than an error, no more comes out of the bus. -/
theorem exec_publish_errors {ε W : Type} [Part (EventBus ε) W] [Part ε W]
    {handler : BreakerTripped → Coro W Unit} (hhandler : ∀ e, Co.RaisesErrors (handler e))
    (event : Event) {w : W} (hsubs : ∀ sub ∈ (Part.view w : EventBus ε).subs, sub.RaisesErrors)
    {exc : PyError} (hexc : ((EventBus.publish (ε := ε) handler event).exec w).2 = .error exc) :
    Catchable.catchable exc = true := by
  rw [EventBus.publish, Co.bind_eq, Co.exec_bind_ok (Co.exec_lift_ok (Co.exec_get _))] at hexc
  split at hexc
  · cases hexc
    rfl
  · split at hexc
    · cases hexc
      rfl
    · obtain ⟨w', hloop, -⟩ := Co.exec_forEach_succeeds (P := fun _ : W => True) _
        (fun sub hsub s _ => ⟨_, exec_dispatch hhandler (hsubs sub hsub) s, trivial⟩)
        (s := Part.put (Part.view w : EventBus ε) w) trivial
      rw [hloop] at hexc
      cases hexc

/-- The handler does not look at heartbeats. -/
theorem publish_heartbeat {ε W : Type} [Part (EventBus ε) W] [Part ε W]
    (handler : BreakerTripped → Coro W Unit) (beat : Heartbeat) :
    EventBus.publish (ε := ε) handler (.heartbeat beat) =
      EventBus.publish (ε := ε) (fun _ => pure ()) (.heartbeat beat) := by
  have hdispatch : EventBus.dispatch (ε := ε) handler (.heartbeat beat) =
      EventBus.dispatch (fun _ => pure ()) (.heartbeat beat) := by
    funext sub
    cases sub <;> rfl
  rw [EventBus.publish, EventBus.publish, hdispatch]

/-- What comes out of a heartbeat is an error at most. -/
theorem exec_heartbeat_errors {ε : Type} [Part Clock ε] {comps : Components ε}
    {w : RuntimeWorld ε} (hsubs : ∀ sub ∈ w.bus.subs, sub.RaisesErrors) {exc : PyError}
    (hexc : ((do
        let now ← Supervisor.readNow
        Supervisor.publish comps (.heartbeat ⟨"Supervisor", now⟩) :
      Coro (RuntimeWorld ε) Unit).exec w).2 = .error exc) : Catchable.catchable exc = true := by
  obtain ⟨e, now, hnow⟩ : ∃ e now, (Supervisor.readNow : Coro (RuntimeWorld ε) Time).exec w =
      ({ w with env := e }, .ok now) := ⟨_, _, rfl⟩
  rw [Co.bind_eq, Co.exec_bind_ok hnow, Supervisor.publish, publish_heartbeat] at hexc
  exact exec_publish_errors (fun _ => Co.raises_pure ()) _ hsubs hexc

theorem exec_publishEvent_up {ε : Type} [Part Clock ε] (comps : Components ε) (event : Event)
    {w : RuntimeWorld ε} (hup : w.bus.started = true ∧ w.bus.stopped = false) :
    (Supervisor.publish comps event).exec w =
      (Co.forEach w.bus.subs
        (EventBus.dispatch (ε := ε) (Supervisor.onBreakerTripped comps) event)).exec w :=
  exec_publish_live (ε := ε) (Supervisor.onBreakerTripped comps) event (w := w) hup.1 hup.2

theorem exec_publishEvent_down {ε : Type} [Part Clock ε] (comps : Components ε) (event : Event)
    {w : RuntimeWorld ε} (hdown : ¬(w.bus.started = true ∧ w.bus.stopped = false)) :
    ((Supervisor.publish comps event).exec w).1 = w :=
  exec_publish_dead (ε := ε) (Supervisor.onBreakerTripped comps) event (w := w) hdown

/-- The bus is up, and the supervisor on it. -/
def RuntimeWorld.opened {ε : Type} (w : RuntimeWorld ε) : RuntimeWorld ε :=
  { w with bus := ⟨w.bus.subs ++ [.onBreakerTripped], true, false⟩
           supervisor := { w.supervisor with busRunning := true } }

theorem exec_openBus_ok {ε : Type} {w w' : RuntimeWorld ε}
    (h : (Supervisor.openBus : Coro (RuntimeWorld ε) Unit).exec w = (w', .ok ())) :
    w' = w.opened := by
  cases hstopped : w.bus.stopped with
  | true =>
    have hstart : ((EventBus.start : Coro (EventBus ε) Unit).lift :
        Coro (RuntimeWorld ε) Unit).exec w =
          (w, .error ⟨"RuntimeError", "EventBus already stopped; cannot restart"⟩) := by
      simp [EventBus.start, Co.exec_bind, Part.view, hstopped, Part.put]
    rw [Supervisor.openBus, Co.bind_eq, Co.exec_bind_error hstart] at h
    cases h
  | false =>
    have hstart : ((EventBus.start : Coro (EventBus ε) Unit).lift :
        Coro (RuntimeWorld ε) Unit).exec w =
          ({ w with bus := { w.bus with started := true } }, .ok ()) := by
      simp [EventBus.start, Co.exec_bind, Part.view, hstopped, Part.put]
    rw [Supervisor.openBus, Co.bind_eq, Co.exec_bind_ok hstart, Co.bind_eq,
      Co.exec_bind_ok (Co.exec_modify _ _)] at h
    simp only [EventBus.subscribe, Co.bind_eq, Co.exec_lift, Co.exec_bind, Co.exec_get, Part.view,
      hstopped, Bool.false_eq_true, if_false, Co.exec_modify, Part.put] at h
    cases h
    rfl

section Started

open Contract

variable {ε : Type} {comps : Components ε} {w w' : RuntimeWorld ε}
  {t : List (Subscription ε) × SystemState}

/-- Who is on the bus, and how far the system has got. -/
def RuntimeWorld.stage (w : RuntimeWorld ε) : List (Subscription ε) × SystemState :=
  (w.bus.subs, w.state)

/-- No component knows either. -/
theorem keeps_stage {α : Type} (p : Coro ε α) : (alone (RuntimeWorld ε)).Keeps
    (fun _ _ w => w.stage = t) (p.lift : Coro (RuntimeWorld ε) α) := by
  rw [keeps_alone]
  intro w h
  rw [Co.exec_lift]
  exact h

theorem starts_stage : ∀ component ∈ comps.lifecycles, (alone (RuntimeWorld ε)).Keeps
    (fun _ _ w => w.stage = t) (component.start.lift : Coro (RuntimeWorld ε) Unit) :=
  fun component _ => keeps_stage component.start

variable [Part Clock ε]

theorem exec_transition_stage {seen newState : SystemState} {reason : String}
    {r : Except PyError Unit}
    (h : (Supervisor.transition comps seen newState reason).exec w = (w', r)) :
    w'.stage = (w.bus.subs, newState) := by
  obtain ⟨e, now, hmoved⟩ := Supervisor.exec_transition_eq comps seen newState reason w
  have hannounce : (alone (RuntimeWorld ε)).Keeps (fun _ _ w' => w'.stage = (w.bus.subs, newState))
      (Supervisor.announce comps ⟨w.state, newState, reason, now⟩) :=
    keeps_announce (fun _ _ _ _ _ _ _ _ => keeps_stage _) (keeps_stage _)
  exact hannounce.of_exec (hmoved.symm.trans h) rfl

/-- A start that completes went through its stages, with the supervisor on the bus. -/
theorem exec_start_ok (h : (Supervisor.start comps).exec w = (w', .ok ())) : ∃ w₁ w₂ w₃,
    (Supervisor.startComponents comps).exec w = (w₁, .ok ()) ∧
      ((Supervisor.initialReconciliation comps).lift : Coro (RuntimeWorld ε) Unit).exec w₁ =
        (w₂, .ok ()) ∧
      (Supervisor.transition comps .reconciling .running "reconciliation complete").exec w₂ =
        (w₃, .ok ()) ∧
      w' = { w₃ with supervisor := { w₃.supervisor with tickTask := true } } ∧
      w₁.stage = (w.bus.subs ++ [.onBreakerTripped], .reconciling) := by
  rw [Supervisor.start, Co.bind_eq, Co.exec_bind_ok (Co.exec_get w)] at h
  split at h
  · cases h
  · obtain ⟨w₁, ⟨⟩, hcomponents, hrun⟩ := Co.exec_bind_eq_ok h
    obtain ⟨w₂, ⟨⟩, hreconcile, hrun⟩ := Co.exec_bind_eq_ok hrun
    obtain ⟨w₃, ⟨⟩, hmove, hlast⟩ := Co.exec_bind_eq_ok hrun
    cases hlast
    refine ⟨w₁, w₂, w₃, hcomponents, hreconcile, hmove, rfl, ?_⟩
    obtain ⟨w₄, ⟨⟩, hpersist, hrest⟩ := Co.exec_bind_eq_ok hcomponents
    obtain ⟨w₅, ⟨⟩, hbus, hrest⟩ := Co.exec_bind_eq_ok hrest
    obtain ⟨w₆, ⟨⟩, hmove', hconnect⟩ := Co.exec_bind_eq_ok hrest
    have h₄ : w₄.stage = w.stage := (keeps_startPersistence starts_stage).of_exec hpersist rfl
    have h₅ : w₅.bus.subs = w₄.bus.subs ++ [.onBreakerTripped] :=
      congrArg (fun w => w.bus.subs) (exec_openBus_ok hbus)
    have h₆ : w₆.stage = (w₅.bus.subs, .reconciling) := exec_transition_stage hmove'
    have h₁ : w₁.stage = w₆.stage := (keeps_connect starts_stage).of_exec hconnect rfl
    have hsubs : w₄.bus.subs = w.bus.subs := congrArg Prod.fst h₄
    rw [h₁, h₆, h₅, hsubs]

/-- It has put the system to RUNNING. -/
theorem stage_started (h : (Supervisor.start comps).exec w = (w', .ok ())) :
    w'.stage = (w.bus.subs ++ [.onBreakerTripped], .running) := by
  obtain ⟨w₁, w₂, w₃, -, hreconcile, hmove, rfl, h₁⟩ := exec_start_ok h
  have h₂ : w₂.stage = w₁.stage := (keeps_stage _).of_exec hreconcile rfl
  have h₃ : w₃.stage = (w₂.bus.subs, .running) := exec_transition_stage hmove
  have hsubs : w₂.bus.subs = w.bus.subs ++ [.onBreakerTripped] :=
    congrArg Prod.fst (h₂.trans h₁)
  exact h₃.trans (congrArg (·, _) hsubs)

end Started

/-- The environment of the components, and a record that they do not know. -/
structure Noted (L ε : Type) where
  log : L
  rest : ε

section Noted

variable {L ε : Type}

instance : Part L (Noted L ε) where
  view w := w.log
  put l w := { w with log := l }
  view_put _ _ := rfl
  put_view _ := rfl
  put_put _ _ _ := rfl

instance : Part ε (Noted L ε) where
  view w := w.rest
  put e w := { w with rest := e }
  view_put _ _ := rfl
  put_view _ := rfl
  put_put _ _ _ := rfl

instance [clock : Part Clock ε] : Part Clock (Noted L ε) := clock.trans inferInstance

def record {α : Type} (a : α) : Coro (Noted (List α) ε) Unit :=
  Co.modify fun w => { w with log := w.log ++ [a] }

/-- Outside of a transition nothing is written. -/
theorem Components.Calls.of_write [Part Clock ε] {comps : Components ε}
    {write : SystemStateChanged → Coro ε Unit} {α : Type} {p : Coro ε α}
    (h : Components.Calls { comps with writeEvent := write } p) : comps.Calls p := by
  cases h with
  | now => exact .now
  | cancelAll => exact .cancelAll
  | alert a => exact .alert a
  | initialReconciliation => exact .initialReconciliation
  | reReconciliation => exact .reReconciliation
  | tickTask => exact .tickTask

/-- Whatever lifted components are asked to do is a lift. -/
theorem Components.Calls.lifted [Part Clock ε] {comps : Components ε} {α : Type}
    {p : Coro (Noted L ε) α} (h : (comps.lift : Components (Noted L ε)).Calls p) :
    ∃ q : Coro ε α, p = q.lift := by
  cases h with
  | now => exact ⟨Clock.now.lift, (Co.lift_lift _).symm⟩
  | cancelAll => exact ⟨comps.cancelAll, rfl⟩
  | alert a => exact ⟨comps.alert a, rfl⟩
  | initialReconciliation =>
    refine ⟨Supervisor.initialReconciliation comps, ?_⟩
    simp [Supervisor.initialReconciliation, Co.lift_bind, Components.lift, Venue.lift]
  | reReconciliation =>
    refine ⟨Supervisor.reReconciliation comps, ?_⟩
    simp [Supervisor.reReconciliation, Co.lift_bind, Components.lift, Venue.lift]
  | tickTask => exact ⟨comps.tickTask.awaited, comps.tickTask.awaited_lift⟩

end Noted

end Trading
