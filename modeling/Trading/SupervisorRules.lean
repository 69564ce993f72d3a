import Trading.Async.Contract
import Trading.Supervisor

/-!
# Rules for the supervisor's operations

An assertion kept by the components' programs, the bookkeeping and the transitions
that an operation may make is kept by the operation.
-/
namespace Trading

open Async RuntimeWorld Contract

variable {ε ℓ : Type} {C : Contract (RuntimeWorld ε) ℓ}
  {I : ℓ → RuntimeWorld ε → RuntimeWorld ε → Prop} {moves : SystemState → SystemState → Prop}

/-- What the supervisor notes besides transitions. -/
def Effect.isRemark : Effect → Bool
  | .stopBus | .acknowledged => true
  | .transition _ | .asked _ _ | .placeOrder _ _ => false

theorem Effect.transitionsOf_remark {e : Effect} (h : e.isRemark = true) :
    transitionsOf [e] = [] := by
  cases e with
  | transition t => cases h
  | _ => rfl

theorem transitions_note {w : RuntimeWorld ε} {e : Effect} (h : e.isRemark = true) :
    (w.note e).transitions = w.transitions := by
  rw [transitions, note_trace, transitionsOf_append, Effect.transitionsOf_remark h,
    List.append_nil, transitions]

namespace Components

def lifecycles (comps : Components ε) : List (Lifecycle ε) :=
  [comps.orderJournal, comps.accountJournal, comps.eventLog, comps.alertLog, comps.alertRouter,
    comps.venueLifecycle, comps.marketData] ++
    comps.omsLifecycle.toList ++ comps.pmsLifecycle.toList

/-- What the supervisor has its components do outside of a transition, from when it has
started them until it stops them. -/
inductive Calls [Part Clock ε] (comps : Components ε) : {α : Type} → Coro ε α → Prop where
  | now : Calls comps (Clock.now.lift : Coro ε Time)
  | cancelAll : Calls comps comps.cancelAll
  | alert (a : Alert) : Calls comps (comps.alert a)
  | initialReconciliation : Calls comps (Supervisor.initialReconciliation comps)
  | reReconciliation : Calls comps (Supervisor.reReconciliation comps)
  | tickTask : Calls comps comps.tickTask.awaited

end Components

/-- The subscribers that `I` allows on the bus keep it. -/
def CallbacksKeep (C : Contract (RuntimeWorld ε) ℓ)
    (I : ℓ → RuntimeWorld ε → RuntimeWorld ε → Prop) : Prop :=
  ∀ l s₀ s, I l s₀ s → ∀ accepts callback, .external accepts callback ∈ s.bus.subs →
    ∀ event, C.Keeps I ((callback event).lift : Coro (RuntimeWorld ε) Unit)

theorem keeps_publish (hcallbacks : CallbacksKeep C I)
    {handler : BreakerTripped → Coro (RuntimeWorld ε) Unit} (hhandler : ∀ e, C.Keeps I (handler e))
    (event : Event) : C.Keeps I (EventBus.publish (ε := ε) handler event) := by
  intro l s₀ s hI
  have hloop : C.Keeps I (Co.forEach s.bus.subs (EventBus.dispatch (ε := ε) handler event)) := by
    apply keeps_forEach
    intro sub hsub
    cases sub with
    | external accepts callback =>
      rw [EventBus.dispatch]
      split
      · exact keeps_suppress (hcallbacks l s₀ s hI accepts callback hsub event)
      · exact keeps_pure ()
    | onBreakerTripped =>
      cases event with
      | breakerTripped e => exact keeps_suppress (hhandler e)
      | _ => exact keeps_pure ()
  have hread : C.Follows (fun _ => I) (fun _ => I) (EventBus.publish (ε := ε) handler event) l s₀ s ↔
      C.Follows (fun _ => I) (fun _ => I)
        (if s.bus.stopped then .throw ⟨"RuntimeError", "EventBus stopped; cannot publish"⟩
        else if !s.bus.started then
          .throw ⟨"RuntimeError", "EventBus not started; cannot publish"⟩
        else Co.forEach s.bus.subs (EventBus.dispatch (ε := ε) handler event)) l s₀ s := Iff.rfl
  rw [hread]
  split
  · exact hI
  · split
    · exact hI
    · exact hloop l s₀ s hI

theorem keeps_announce (hcallbacks : CallbacksKeep C I) {comps : Components ε}
    {event : SystemStateChanged}
    (hwrite : C.Keeps I ((comps.writeEvent event).lift : Coro (RuntimeWorld ε) Unit)) :
    C.Keeps I (Supervisor.announce comps event) := by
  refine keeps_bind hwrite fun _ => keeps_bind keeps_get fun w => ?_
  split
  · exact keeps_publish hcallbacks (fun _ => keeps_pure ()) _
  · exact keeps_pure ()

section Guards

variable [Part Clock ε] (comps : Components ε)

/-- What has to keep `I`: the components, the subscribers, the bookkeeping, and the
transitions that `moves` allows, from the state that was seen to the new one. -/
structure Guards (C : Contract (RuntimeWorld ε) ℓ)
    (I : ℓ → RuntimeWorld ε → RuntimeWorld ε → Prop)
    (moves : SystemState → SystemState → Prop) : Prop where
  component : ∀ {α : Type} {p : Coro ε α}, comps.Calls p →
    C.Keeps I (p.lift : Coro (RuntimeWorld ε) α)
  callbacks : CallbacksKeep C I
  flags : ∀ l s₀ s b t, (b = true → s.supervisor.busRunning = true) → I l s₀ s →
    I l s₀ { s with supervisor := { s.supervisor with busRunning := b, tickTask := t } }
  note : ∀ l s₀ s (e : Effect), e.isRemark = true → e ≠ .stopBus → I l s₀ s → I l s₀ (s.note e)
  transition : ∀ {seen newState : SystemState}, moves seen newState → ∀ reason,
    C.Keeps I (Supervisor.transition comps seen newState reason)

omit [Part Clock ε] in
/-- Besides, starting the components and the bus. -/
structure GuardsOpen (C : Contract (RuntimeWorld ε) ℓ)
    (I : ℓ → RuntimeWorld ε → RuntimeWorld ε → Prop) : Prop where
  component : ∀ component ∈ comps.lifecycles,
    C.Keeps I (component.start.lift : Coro (RuntimeWorld ε) Unit)
  bus : C.Keeps I (Supervisor.openBus (ε := ε))

omit [Part Clock ε] in
/-- Besides, stopping the components and the bus. -/
structure GuardsClose (C : Contract (RuntimeWorld ε) ℓ)
    (I : ℓ → RuntimeWorld ε → RuntimeWorld ε → Prop) : Prop where
  component : ∀ component ∈ comps.lifecycles,
    C.Keeps I (component.stop.lift : Coro (RuntimeWorld ε) Unit)
  note : ∀ l s₀ s, I l s₀ s → I l s₀ (s.note .stopBus)
  bus : C.Keeps I ((EventBus.stop : Coro (EventBus ε) Unit).lift : Coro (RuntimeWorld ε) Unit)

namespace GuardsClose

variable {comps} (h : GuardsClose comps C I)

include h

omit [Part Clock ε]

theorem safeStop {component : Lifecycle ε} (hmem : component ∈ comps.lifecycles) :
    C.Keeps I (Supervisor.safeStop component) :=
  keeps_suppress (h.component component hmem)

theorem safeStopIfLifecycle {component : Option (Lifecycle ε)}
    (hmem : ∀ c ∈ component, c ∈ comps.lifecycles) :
    C.Keeps I (Supervisor.safeStopIfLifecycle component) := by
  cases component with
  | none => exact keeps_pure ()
  | some component => exact h.safeStop (hmem component rfl)

end GuardsClose

section Starts

variable {comps} (h : ∀ component ∈ comps.lifecycles,
  C.Keeps I (component.start.lift : Coro (RuntimeWorld ε) Unit))

include h

omit [Part Clock ε]

theorem keeps_startIfLifecycle {component : Option (Lifecycle ε)}
    (hmem : ∀ c ∈ component, c ∈ comps.lifecycles) :
    C.Keeps I (Supervisor.startIfLifecycle component) := by
  cases component with
  | none => exact keeps_pure ()
  | some component => exact h component (hmem component rfl)

theorem keeps_startPersistence : C.Keeps I (Supervisor.startPersistence comps) :=
  keeps_bind (h _ (by simp [Components.lifecycles])) fun _ =>
    keeps_bind (h _ (by simp [Components.lifecycles])) fun _ =>
    keeps_bind (h _ (by simp [Components.lifecycles])) fun _ =>
    keeps_bind (h _ (by simp [Components.lifecycles])) fun _ =>
    h _ (by simp [Components.lifecycles])

theorem keeps_connect : C.Keeps I (Supervisor.connect comps) :=
  keeps_bind (keeps_startIfLifecycle h (by simp +contextual [Components.lifecycles])) fun _ =>
    keeps_bind (keeps_startIfLifecycle h (by simp +contextual [Components.lifecycles])) fun _ =>
    keeps_bind (h _ (by simp [Components.lifecycles])) fun _ =>
    h _ (by simp [Components.lifecycles])

end Starts

namespace Guards

variable {comps} (h : Guards comps C I moves)

include h

theorem tryCancelAll : C.Keeps I (Supervisor.tryCancelAll comps) :=
  keeps_suppress (h.component .cancelAll)

theorem stopTickTask : C.Keeps I (Supervisor.stopTickTask comps) := by
  apply keeps_bind keeps_get
  intro w
  split
  · exact keeps_bind (keeps_suppressOnly (h.component .tickTask)) fun _ =>
      keeps_modify fun l s₀ s => h.flags l s₀ s _ false id
  · exact keeps_pure ()

theorem startComponents (hopen : GuardsOpen comps C I) (hmove : moves .booting .reconciling) :
    C.Keeps I (Supervisor.startComponents comps) :=
  keeps_bind (keeps_startPersistence hopen.component) fun _ => keeps_bind hopen.bus fun _ =>
    keeps_bind (h.transition hmove _) fun _ => keeps_connect hopen.component

theorem enterRunning (hrun : moves .reconciling .running) :
    C.Keeps I (Supervisor.enterRunning comps) :=
  keeps_bind (h.component .initialReconciliation) fun _ => keeps_bind (h.transition hrun _)
    fun _ => keeps_modify fun l s₀ s => h.flags l s₀ s _ true id

theorem start (hopen : GuardsOpen comps C I) (hmove : moves .booting .reconciling)
    (hrun : moves .reconciling .running) : C.Keeps I (Supervisor.start comps) := by
  apply keeps_bind keeps_get
  intro w
  split
  · exact keeps_throw _
  · exact keeps_bind (h.startComponents hopen hmove) fun _ => h.enterRunning hrun

omit h in
/-- A second `start()` raises at once. -/
theorem start_again (hbegun : ∀ l s₀ s, I l s₀ s → s.state ≠ .booting) :
    C.Keeps I (Supervisor.start comps) := by
  intro l s₀ s hI
  rw [Supervisor.start, Co.bind_eq, follows_bind, follows_get, if_pos (hbegun l s₀ s hI)]
  exact hI

theorem stopComponents (hclose : GuardsClose comps C I) (hmove : moves .draining .stopped) :
    C.Keeps I (Supervisor.stopComponents comps) := by
  have hstop : ∀ component ∈ comps.lifecycles, C.Keeps I (Supervisor.safeStop component) :=
    fun component hmem => hclose.safeStop hmem
  refine keeps_bind (hstop _ (by simp [Components.lifecycles])) fun _ =>
    keeps_bind (hstop _ (by simp [Components.lifecycles])) fun _ =>
    keeps_bind (keeps_modify fun l s₀ s => h.flags l s₀ s false _ Bool.noConfusion) fun _ =>
    keeps_bind (keeps_modify hclose.note) fun _ =>
    keeps_bind (keeps_suppress hclose.bus) fun _ =>
    keeps_bind (hclose.safeStopIfLifecycle (by simp +contextual [Components.lifecycles])) fun _ =>
    keeps_bind (hclose.safeStopIfLifecycle (by simp +contextual [Components.lifecycles])) fun _ =>
    keeps_bind (h.transition hmove _) fun _ => ?_
  exact keeps_bind (hstop _ (by simp [Components.lifecycles])) fun _ =>
    keeps_bind (hstop _ (by simp [Components.lifecycles])) fun _ =>
    keeps_bind (hstop _ (by simp [Components.lifecycles])) fun _ =>
    keeps_bind (hstop _ (by simp [Components.lifecycles])) fun _ =>
    hstop _ (by simp [Components.lifecycles])

theorem stop (hclose : GuardsClose comps C I)
    (hdrain : ∀ seen, seen ≠ .stopped → seen ≠ .draining → moves seen .draining)
    (hstopped : moves .draining .stopped) (drain : Bool) :
    C.Keeps I (Supervisor.stop comps drain) := by
  apply keeps_bind keeps_get
  intro w
  split
  · exact keeps_pure ()
  · next hup =>
    obtain ⟨hns, hnd⟩ := not_or.mp hup
    refine keeps_bind h.stopTickTask fun _ =>
      keeps_bind (h.transition (hdrain _ hns hnd) _) fun _ => ?_
    have hcomponents := h.stopComponents hclose hstopped
    split
    · exact keeps_bind h.tryCancelAll fun _ => hcomponents
    · exact hcomponents

theorem quarantine (hmove : moves .running .quarantine) (reason : String)
    (breakerName : Option String) :
    C.Keeps I (Supervisor.quarantine comps reason breakerName) := by
  apply keeps_bind keeps_get
  intro w
  split
  · exact keeps_pure ()
  · exact keeps_bind h.tryCancelAll fun _ =>
      keeps_bind (h.transition hmove _) fun _ => keeps_bind (h.component .now) fun now =>
      h.component (.alert _)

theorem acknowledge (hmove : moves .quarantine .reconciling) (hrun : moves .reconciling .running) :
    C.Keeps I (Supervisor.acknowledge comps) := by
  apply keeps_bind keeps_get
  intro w
  split
  · exact keeps_throw _
  · refine keeps_bind (h.transition hmove _) fun _ => keeps_bind (h.component .reReconciliation)
      fun _ => keeps_bind (h.transition hrun _) fun _ => keeps_modify fun l s₀ s hI => ?_
    split
    · exact h.note l s₀ s .acknowledged rfl Effect.noConfusion hI
    · exact hI

theorem onBreakerTripped (hmove : moves .running .quarantine) (event : BreakerTripped) :
    C.Keeps I (Supervisor.onBreakerTripped comps event) := by
  rw [Supervisor.onBreakerTripped]
  cases event.action with
  | rejectNew => exact keeps_pure ()
  | cancelAll => exact h.tryCancelAll
  | quarantine => exact h.quarantine hmove _ _
  | flatten => exact keeps_bind h.tryCancelAll fun _ => h.quarantine hmove _ _

theorem publishEvent (hmove : moves .running .quarantine) (event : Event) :
    C.Keeps I (Supervisor.publish comps event) :=
  keeps_publish h.callbacks (h.onBreakerTripped hmove) event

/-- All operations at once, if the transitions that they check are allowed. -/
theorem op (hstart : C.Keeps I (Supervisor.start comps)) (hclose : GuardsClose comps C I)
    (hrun : moves .reconciling .running) (hquarantine : moves .running .quarantine)
    (hack : moves .quarantine .reconciling)
    (hdrain : ∀ seen, seen ≠ .stopped → seen ≠ .draining → moves seen .draining)
    (hstopped : moves .draining .stopped) (op : SupervisorOp) : C.Keeps I (op.prog comps) := by
  cases op with
  | start => exact hstart
  | stop drain => exact h.stop hclose hdrain hstopped drain
  | quarantine reason breakerName => exact h.quarantine hquarantine reason breakerName
  | acknowledge => exact h.acknowledge hack hrun
  | deliver event => exact h.onBreakerTripped hquarantine event
  | publish event => exact h.publishEvent hquarantine event

end Guards

end Guards

/-- What `I` has to survive where the environment does not matter to it. -/
structure Survives (C : Contract (RuntimeWorld ε) ℓ)
    (I : ℓ → RuntimeWorld ε → RuntimeWorld ε → Prop)
    (moves : SystemState → SystemState → Prop) : Prop where
  wait : ∀ l s₀ s, I l s₀ s → ∃ l', C.guar l s₀ l' s ∧ ∀ t, C.rely s t → I l' t t
  env : ∀ l s₀ s e, I l s₀ s → I l s₀ { s with env := e }
  flags : ∀ l s₀ s b t, I l s₀ s →
    I l s₀ { s with supervisor := { s.supervisor with busRunning := b, tickTask := t } }
  note : ∀ l s₀ s (e : Effect), e.isRemark = true → I l s₀ s → I l s₀ (s.note e)
  moved : ∀ l s₀ s seen event, moves seen event.newState → event.oldState = s.state →
    I l s₀ s → I l s₀ (s.moved seen event)

/-- Besides, whatever becomes of the bus. -/
def SurvivesBus (I : ℓ → RuntimeWorld ε → RuntimeWorld ε → Prop) : Prop :=
  ∀ l s₀ s b, I l s₀ s → I l s₀ { s with bus := b }

namespace Survives

variable (h : Survives C I moves)

include h

theorem component {α : Type} (p : Coro ε α) :
    C.Keeps I (p.lift : Coro (RuntimeWorld ε) α) :=
  keeps_lift p h.env h.wait

theorem openBus (hbus : SurvivesBus I) : C.Keeps I (Supervisor.openBus (ε := ε)) :=
  keeps_bind (keeps_lift _ hbus h.wait) fun _ =>
    keeps_bind (keeps_modify fun l s₀ s => h.flags l s₀ s true _) fun _ =>
      keeps_lift _ hbus h.wait

theorem guardsOpen (hbus : SurvivesBus I) (comps : Components ε) : GuardsOpen comps C I where
  component _ _ := h.component _
  bus := h.openBus hbus

theorem guardsClose (hbus : SurvivesBus I) (comps : Components ε) : GuardsClose comps C I where
  component _ _ := h.component _
  note l s₀ s := h.note l s₀ s .stopBus rfl
  bus := keeps_lift _ hbus h.wait

theorem callbacks : CallbacksKeep C I := fun _ _ _ _ _ _ _ _ => h.component _

variable [Part Clock ε] (comps : Components ε)

theorem guards : Guards comps C I moves where
  component _ := h.component _
  callbacks := h.callbacks
  flags l s₀ s b t _ := h.flags l s₀ s b t
  note l s₀ s e he _ := h.note l s₀ s e he
  transition hmove reason := by
    intro l s₀ s hI
    have hset : ∀ e now, I l s₀ (({ s with env := e } : RuntimeWorld ε).moved _
        ⟨s.state, _, reason, now⟩) := fun e now =>
      h.moved l s₀ { s with env := e } _ ⟨s.state, _, reason, now⟩ hmove rfl (h.env l s₀ s e hI)
    exact keeps_announce h.callbacks (h.component _) l s₀ _ (hset _ _)

end Survives

end Trading
