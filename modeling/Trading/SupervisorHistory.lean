import Mathlib.Data.List.Induction
import Trading.SupervisorRules

/-!
# Operations one after another

Without interleaving a running system has a live bus. A reconciliation that fails
leaves the system in `RECONCILING`: neither boot nor acknowledgement handles it.
-/
namespace Trading

open Async RuntimeWorld

variable {ε : Type} [Part Clock ε] (comps : Components ε)

def SupervisorOp.exec (w : RuntimeWorld ε) (op : SupervisorOp) : RuntimeWorld ε :=
  ((op.prog comps).exec w).1

def runHistory (w : RuntimeWorld ε) (ops : List SupervisorOp) : RuntimeWorld ε :=
  ops.foldl (SupervisorOp.exec comps) w

/-- What an assertion about one world has to survive when nobody interferes. -/
abbrev SurvivesAlone (P : RuntimeWorld ε → Prop) (moves : SystemState → SystemState → Prop) :
    Prop :=
  Survives (Contract.alone (RuntimeWorld ε)) (fun _ _ => P) moves

section Assertions

omit [Part Clock ε]

theorem survives_live : SurvivesAlone (fun w : RuntimeWorld ε => w.bus.Live) fun _ _ => True where
  wait := Contract.alone_wait
  env _ _ _ _ h := h
  flags _ _ _ _ _ h := h
  note _ _ _ _ _ h := h
  moved _ _ _ _ _ _ _ h := h

/-- State and bus, while nothing moves the state. -/
theorem survives_idle (s : SystemState) (b : EventBus ε) :
    SurvivesAlone (fun w : RuntimeWorld ε => w.state = s ∧ w.bus = b) fun _ _ => False where
  wait := Contract.alone_wait
  env _ _ _ _ h := h
  flags _ _ _ _ _ h := h
  note _ _ _ _ _ h := h
  moved _ _ _ _ _ hmove := hmove.elim

/-- Shut down, or on the way. -/
theorem survives_down :
    SurvivesAlone (fun w : RuntimeWorld ε => w.state = .draining ∨ w.state = .stopped)
      fun _ new => new = .draining ∨ new = .stopped where
  wait := Contract.alone_wait
  env _ _ _ _ h := h
  flags _ _ _ _ _ h := h
  note _ _ _ _ _ h := h
  moved _ _ _ _ _ hmove _ _ := hmove

end Assertions

/-- Where the system is up the bus is live, and before it was started it is not stopped. -/
structure Wired (w : RuntimeWorld ε) : Prop where
  booting : w.state = .booting → w.bus.stopped = false
  up : w.state ≠ .booting → w.state ≠ .draining → w.state ≠ .stopped → w.bus.Live

section Wiring

variable {w : RuntimeWorld ε}

omit [Part Clock ε] in
theorem wired_of_live (h : w.bus.Live) : Wired w := ⟨fun _ => h.stopped, fun _ _ _ => h⟩

omit [Part Clock ε] in
theorem Wired.idle (h : Wired w) {w' : RuntimeWorld ε}
    (hidle : w'.state = w.state ∧ w'.bus = w.bus) : Wired w' := by
  constructor
  · rw [hidle.1, hidle.2]
    exact h.booting
  · rw [hidle.1, hidle.2]
    exact h.up

omit [Part Clock ε] in
theorem wired_of_down (h : w.state = .draining ∨ w.state = .stopped) : Wired w := by
  constructor
  · intro hb
    rw [hb] at h
    simp at h
  · intro _ hd hs
    exact absurd h (not_or.mpr ⟨hd, hs⟩)

/-- A transition arrives, even if announcing it raises. -/
theorem exec_transition_arrives (seen newState : SystemState) (reason : String) :
    ((Supervisor.transition comps seen newState reason).exec w).1.state = newState ∧
      ((Supervisor.transition comps seen newState reason).exec w).1.bus = w.bus := by
  obtain ⟨e, now, hset⟩ := Supervisor.exec_transition_eq comps seen newState reason w
  rw [hset]
  have hidle := survives_idle (ε := ε) newState w.bus
  exact (keeps_announce hidle.callbacks (hidle.component _)).exec ⟨rfl, rfl⟩

omit [Part Clock ε] in
theorem exec_openBus (hstopped : w.bus.stopped = false) :
    ∃ w', (Supervisor.openBus (ε := ε)).exec w = (w', .ok ()) ∧ w'.bus.Live := by
  refine ⟨{ w with supervisor := { w.supervisor with busRunning := true }
                   bus := ⟨w.bus.subs ++ [.onBreakerTripped], true, w.bus.stopped⟩ }, ?_, ?_⟩
  · simp [Supervisor.openBus, EventBus.start, EventBus.subscribe, Co.exec_bind, hstopped, Part.view,
      Part.put]
  · exact ⟨rfl, hstopped, List.mem_append_right _ List.mem_cons_self⟩

/-- From a bus that was not stopped boot makes a live one, unless the persistence fails
before it gets there. -/
theorem startComponents_live (hstopped : w.bus.stopped = false) :
    ((Supervisor.startComponents comps).exec w).1.bus.Live ∨
      ((Supervisor.startComponents comps).exec w).1.state = w.state ∧
        ((Supervisor.startComponents comps).exec w).1.bus = w.bus ∧
        ∃ exc, ((Supervisor.startComponents comps).exec w).2 = .error exc := by
  have hsurvives := survives_idle (ε := ε) w.state w.bus
  have hpersistence : (Contract.alone (RuntimeWorld ε)).Keeps
      (fun _ _ w' => w'.state = w.state ∧ w'.bus = w.bus) (Supervisor.startPersistence comps) :=
    keeps_startPersistence fun component _ => hsurvives.component component.start
  have hidle := hpersistence.exec ⟨rfl, rfl⟩
  rw [Supervisor.startComponents, Co.bind_eq, Co.exec_bind]
  rcases hexec : (Supervisor.startPersistence comps).exec w with ⟨w₁, exc | u⟩
  · rw [hexec] at hidle
    exact .inr ⟨hidle.1, hidle.2, exc, rfl⟩
  · rw [hexec] at hidle
    have hopened : w₁.bus.stopped = false := by
      rw [hidle.2]
      exact hstopped
    obtain ⟨w₂, hopen, hlive⟩ := exec_openBus hopened
    left
    simp only [Co.bind_eq]
    rw [Co.exec_bind_ok hopen]
    exact (Contract.keeps_bind ((survives_live.guards comps).transition trivial _) fun _ =>
      keeps_connect fun component _ => survives_live.component component.start).exec hlive

/-- What boot does once its components are up leaves the bus alone. -/
theorem wired_start (h : Wired w) : Wired ((Supervisor.start comps).exec w).1 := by
  rw [Supervisor.start, Co.bind_eq, Co.exec_bind_ok (Co.exec_get w)]
  by_cases hboot : w.state = .booting
  · have hcomponents := startComponents_live comps (h.booting hboot)
    rw [if_neg (not_not.mpr hboot), Co.bind_eq, Co.exec_bind]
    rcases hexec : (Supervisor.startComponents comps).exec w with ⟨w₁, exc | u⟩
    · rw [hexec] at hcomponents
      rcases hcomponents with hlive | ⟨hstate, hbus, -⟩
      · exact wired_of_live hlive
      · exact h.idle ⟨hstate, hbus⟩
    · rw [hexec] at hcomponents
      rcases hcomponents with hlive | ⟨-, -, exc, hok⟩
      · exact wired_of_live (((survives_live.guards comps).enterRunning trivial).exec hlive)
      · cases hok
  · rw [if_pos hboot]
    exact h

theorem wired_stop (h : Wired w) (drain : Bool) :
    Wired ((Supervisor.stop comps drain).exec w).1 := by
  rw [Supervisor.stop, Co.bind_eq, Co.exec_bind_ok (Co.exec_get w)]
  by_cases hdown : w.state = .stopped ∨ w.state = .draining
  · rw [if_pos hdown]
    exact h
  · have hidle := ((survives_idle w.state w.bus).guards comps).stopTickTask.exec ⟨rfl, rfl⟩
    rw [if_neg hdown, Co.bind_eq, Co.exec_bind]
    rcases hexec : (Supervisor.stopTickTask comps).exec w with ⟨w₁, exc | u⟩
    · rw [hexec] at hidle
      exact h.idle hidle
    · have harrives := (@exec_transition_arrives ε _ comps w₁ w.state .draining
        s!"shutdown drain={Supervisor.pyBool drain}").1
      have hclose := (survives_down.guards comps).stopComponents
        (survives_down.guardsClose (fun _ _ _ _ h => h) comps) (.inr rfl)
      refine wired_of_down ?_
      simp only [Co.bind_eq]
      rw [Co.exec_bind]
      rcases hmove : (Supervisor.transition comps w.state .draining
        s!"shutdown drain={Supervisor.pyBool drain}").exec w₁ with ⟨w₂, exc | u⟩
      · rw [hmove] at harrives
        exact .inl harrives
      · rw [hmove] at harrives
        cases drain with
        | true =>
          exact (Contract.keeps_bind (survives_down.guards comps).tryCancelAll fun _ => hclose).exec
            (.inl harrives)
        | false => exact hclose.exec (.inl harrives)

/-- Out of `RUNNING` a quarantine is ignored. -/
theorem idle_quarantine {s : SystemState} (hs : s ≠ .running) (b : EventBus ε) (reason : String)
    (breakerName : Option String) :
    (Contract.alone (RuntimeWorld ε)).Keeps (fun _ _ w => w.state = s ∧ w.bus = b)
      (Supervisor.quarantine comps reason breakerName) := by
  intro l s₀ w hw
  have hskip : w.state ≠ .running := by
    rw [hw.1]
    exact hs
  simp only [Supervisor.quarantine, Co.bind_eq, Contract.follows_bind, Contract.follows_get,
    if_pos hskip]
  exact hw

/-- Out of `RUNNING` a trip changes neither state nor bus. -/
theorem idle_onBreakerTripped {s : SystemState} (hs : s ≠ .running) (b : EventBus ε)
    (event : BreakerTripped) :
    (Contract.alone (RuntimeWorld ε)).Keeps (fun _ _ w => w.state = s ∧ w.bus = b)
      (Supervisor.onBreakerTripped comps event) := by
  have hidle := (survives_idle (ε := ε) s b).guards comps
  rw [Supervisor.onBreakerTripped]
  cases event.action with
  | rejectNew => exact Contract.keeps_pure ()
  | cancelAll => exact hidle.tryCancelAll
  | quarantine => exact idle_quarantine comps hs b _ _
  | flatten =>
    exact Contract.keeps_bind hidle.tryCancelAll fun _ => idle_quarantine comps hs b _ _

omit [Part Clock ε] in
/-- A coroutine that moves the state of a running system only. -/
theorem Wired.trip (h : Wired w) {p : Coro (RuntimeWorld ε) Unit}
    (hlive : (Contract.alone (RuntimeWorld ε)).Keeps (fun _ _ w => w.bus.Live) p)
    (hidle : w.state ≠ .running → (Contract.alone (RuntimeWorld ε)).Keeps
      (fun _ _ v => v.state = w.state ∧ v.bus = w.bus) p) : Wired (p.exec w).1 := by
  by_cases hrunning : w.state = .running
  · have hup := h.up (by simp [hrunning]) (by simp [hrunning]) (by simp [hrunning])
    exact wired_of_live (hlive.exec hup)
  · exact h.idle ((hidle hrunning).exec ⟨rfl, rfl⟩)

theorem wired_acknowledge (h : Wired w) : Wired ((Supervisor.acknowledge comps).exec w).1 := by
  by_cases hquarantine : w.state = .quarantine
  · have hup := h.up (by simp [hquarantine]) (by simp [hquarantine]) (by simp [hquarantine])
    exact wired_of_live (((survives_live.guards comps).acknowledge trivial trivial).exec hup)
  · rw [Supervisor.acknowledge, Co.bind_eq, Co.exec_bind_ok (Co.exec_get w), if_pos hquarantine]
    exact h

theorem wired_op (h : Wired w) (op : SupervisorOp) : Wired (op.exec comps w) := by
  cases op with
  | start => exact wired_start comps h
  | stop drain => exact wired_stop comps h drain
  | quarantine reason breakerName =>
    exact h.trip ((survives_live.guards comps).quarantine trivial _ _) fun hs =>
      idle_quarantine comps hs _ _ _
  | acknowledge => exact wired_acknowledge comps h
  | deliver event =>
    exact h.trip ((survives_live.guards comps).onBreakerTripped trivial event) fun hs =>
      idle_onBreakerTripped comps hs _ event
  | publish event =>
    exact h.trip ((survives_live.guards comps).publishEvent trivial event) fun hs =>
      keeps_publish (survives_idle w.state w.bus).callbacks (idle_onBreakerTripped comps hs w.bus) event

end Wiring

/-- The outcome of the reconciliation that an operation gets to, if it gets to one. -/
def SupervisorOp.reconciliation (w : RuntimeWorld ε) : SupervisorOp → Option (Except PyError Unit)
  | .start =>
    if w.state = .booting then
      match (Supervisor.startComponents comps).exec w with
      | (_, .error _) => none
      | (w', .ok _) => some ((Supervisor.initialReconciliation comps).exec w'.env).2
    else none
  | .acknowledge =>
    if w.state = .quarantine then
      match (Supervisor.transition comps .quarantine .reconciling "human ack").exec w with
      | (_, .error _) => none
      | (w', .ok _) => some ((Supervisor.reReconciliation comps).exec w'.env).2
    else none
  | _ => none

/-- A failed reconciliation ends in `QUARANTINE`, where `acknowledge()` may be called, and
only a clean one is followed by a step to `RUNNING`. -/
structure SupervisorOp.Safe (w : RuntimeWorld ε) (op : SupervisorOp) : Prop where
  failed : ∀ exc, op.reconciliation comps w = some (.error exc) →
    (op.exec comps w).state = .quarantine
  running : (∃ t ∈ (op.exec comps w).transitions.drop w.transitions.length,
    t.newState = .running) → op.reconciliation comps w = some (.ok ())

section Reconciling

variable {w : RuntimeWorld ε}

omit [Part Clock ε] in
/-- No step to `RUNNING` since the first `n` transitions. -/
theorem survives_notRunning (n : Nat) :
    SurvivesAlone (fun w : RuntimeWorld ε => n ≤ w.transitions.length ∧
      ∀ t ∈ w.transitions.drop n, t.newState ≠ .running) fun _ new => new ≠ .running where
  wait := Contract.alone_wait
  env _ _ _ _ h := h
  flags _ _ _ _ _ h := h
  note _ _ _ _ he h := by rwa [transitions_note he]
  moved _ _ s seen event hmove _ h := by
    have hmoved : (s.moved seen event).transitions = s.transitions ++ [⟨event, seen⟩] :=
      transitionsOf_append _ _
    rw [hmoved, List.drop_append_of_le_length h.1, List.length_append]
    refine ⟨h.1.trans (Nat.le_add_right _ _), fun t ht => ?_⟩
    rcases List.mem_append.mp ht with ht | ht
    · exact h.2 t ht
    · rw [List.mem_singleton.mp ht]
      exact hmove

theorem startComponents_reconciling {w' : RuntimeWorld ε} {u : Unit}
    (h : (Supervisor.startComponents comps).exec w = (w', .ok u)) : w'.state = .reconciling := by
  simp only [Supervisor.startComponents, Co.bind_eq] at h
  obtain ⟨_, _, -, h⟩ := Co.exec_bind_eq_ok h
  obtain ⟨w₂, _, -, h⟩ := Co.exec_bind_eq_ok h
  obtain ⟨w₃, _, hmove, h⟩ := Co.exec_bind_eq_ok h
  have harrives := (@exec_transition_arrives ε _ comps w₂ .booting .reconciling
    "components started").1
  rw [hmove] at harrives
  have hsurvives := survives_idle (ε := ε) .reconciling w₃.bus
  have hconnect : (Contract.alone (RuntimeWorld ε)).Keeps
      (fun _ _ w => w.state = .reconciling ∧ w.bus = w₃.bus) (Supervisor.connect comps) :=
    keeps_connect fun component _ => hsurvives.component component.start
  have hkept := hconnect.exec ⟨harrives, rfl⟩
  rw [h] at hkept
  exact hkept.1

omit [Part Clock ε] in
/-- A reconciliation that fails ends the operation that it is a part of. -/
theorem exec_failed_calls {before : Coro (RuntimeWorld ε) Unit} {calls : Coro ε Unit}
    {rest : Unit → Coro (RuntimeWorld ε) Unit} {w' : RuntimeWorld ε} {u : Unit} {exc : PyError}
    (hbefore : before.exec w = (w', .ok u)) (hfails : (calls.exec w'.env).2 = .error exc) :
    ((before.bind fun _ => (calls.lift : Coro (RuntimeWorld ε) Unit).bind rest).exec w).1 =
      { w' with env := (calls.exec w'.env).1 } := by
  have hcalls : (calls.lift : Coro (RuntimeWorld ε) Unit).exec w' =
      ({ w' with env := (calls.exec w'.env).1 }, .error exc) := by
    rw [← hfails]
    exact Co.exec_lift _ w'
  rw [Co.exec_bind_ok hbefore, Co.exec_bind_error hcalls]

/-- A boot whose reconciliation fails is left in `RECONCILING`. -/
theorem start_failed {exc : PyError}
    (h : SupervisorOp.start.reconciliation comps w = some (.error exc)) :
    (SupervisorOp.start.exec comps w).state = .reconciling := by
  simp only [SupervisorOp.reconciliation] at h
  split at h
  · next hboot =>
    rcases hexec : (Supervisor.startComponents comps).exec w with ⟨w', e | u⟩
    · rw [hexec] at h
      cases h
    · rw [hexec] at h
      have hstate := startComponents_reconciling comps hexec
      simp only [SupervisorOp.exec, SupervisorOp.prog, Supervisor.start, Co.bind_eq]
      rw [Co.exec_bind_ok (Co.exec_get w), if_neg (not_not.mpr hboot), Supervisor.enterRunning,
        Co.bind_eq, exec_failed_calls hexec (Option.some.inj h)]
      exact hstate
  · cases h

theorem acknowledge_failed {exc : PyError}
    (h : SupervisorOp.acknowledge.reconciliation comps w = some (.error exc)) :
    (SupervisorOp.acknowledge.exec comps w).state = .reconciling := by
  simp only [SupervisorOp.reconciliation] at h
  split at h
  · next hquarantine =>
    have harrives := (@exec_transition_arrives ε _ comps w .quarantine .reconciling "human ack").1
    rcases hexec : (Supervisor.transition comps .quarantine .reconciling "human ack").exec w with
      ⟨w', e | u⟩
    · rw [hexec] at h
      cases h
    · rw [hexec] at h harrives
      simp only [SupervisorOp.exec, SupervisorOp.prog, Supervisor.acknowledge, Co.bind_eq]
      rw [Co.exec_bind_ok (Co.exec_get w), if_neg (not_not.mpr hquarantine),
        exec_failed_calls hexec (Option.some.inj h)]
      exact harrives
  · cases h

omit [Part Clock ε] in
/-- What comes after a reconciliation is only reached when its calls succeed. -/
theorem clean_of_moves {before : Coro (RuntimeWorld ε) Unit} {calls : Coro ε Unit}
    {rest : Unit → Coro (RuntimeWorld ε) Unit} {n : Nat}
    (hnone : ∀ t ∈ (before.exec w).1.transitions.drop n, t.newState ≠ .running) {t : Transition}
    (ht : t ∈ ((before.bind fun _ =>
      (calls.lift : Coro (RuntimeWorld ε) Unit).bind rest).exec w).1.transitions.drop n)
    (hnew : t.newState = .running) :
    ∃ w' u, before.exec w = (w', .ok u) ∧ (calls.exec w'.env).2 = .ok () := by
  rcases hexec : before.exec w with ⟨w', exc | u⟩
  · rw [hexec] at hnone
    rw [Co.exec_bind_error hexec] at ht
    exact absurd hnew (hnone t ht)
  · rw [hexec] at hnone
    refine ⟨w', u, rfl, ?_⟩
    cases hresult : (calls.exec w'.env).2 with
    | error exc =>
      rw [exec_failed_calls hexec hresult] at ht
      exact absurd hnew (hnone t ht)
    | ok u => rfl

/-- Whatever fails, a step to `RUNNING` is one of an operation whose reconciliation
was clean. -/
theorem running_after_clean (op : SupervisorOp)
    (h : ∃ t ∈ (op.exec comps w).transitions.drop w.transitions.length, t.newState = .running) :
    op.reconciliation comps w = some (.ok ()) := by
  have hsurvives := survives_notRunning (ε := ε) w.transitions.length
  have hrule := hsurvives.guards comps
  have hopen := hsurvives.guardsOpen (fun _ _ _ _ h => h) comps
  have hnone : w.transitions.length ≤ w.transitions.length ∧
      ∀ t ∈ w.transitions.drop w.transitions.length, t.newState ≠ .running := by
    simp
  have hreconciling : SystemState.reconciling ≠ .running := by decide
  obtain ⟨t, ht, hnew⟩ := h
  cases op with
  | start =>
    have hup := (hrule.startComponents hopen hreconciling).exec hnone
    simp only [SupervisorOp.exec, SupervisorOp.prog, Supervisor.start, Co.bind_eq] at ht
    rw [Co.exec_bind_ok (Co.exec_get w)] at ht
    by_cases hboot : w.state = .booting
    · rw [if_neg (not_not.mpr hboot), Supervisor.enterRunning, Co.bind_eq] at ht
      obtain ⟨w', u, hexec, hclean⟩ := clean_of_moves hup.2 ht hnew
      rw [SupervisorOp.reconciliation, if_pos hboot, hexec]
      exact congrArg some hclean
    · rw [if_pos hboot] at ht
      exact absurd hnew (hnone.2 t ht)
  | acknowledge =>
    have hup := (@Guards.transition _ _ _ _ _ _ _ hrule .quarantine _ hreconciling
      "human ack").exec hnone
    simp only [SupervisorOp.exec, SupervisorOp.prog, Supervisor.acknowledge, Co.bind_eq] at ht
    rw [Co.exec_bind_ok (Co.exec_get w)] at ht
    by_cases hquarantine : w.state = .quarantine
    · rw [if_neg (not_not.mpr hquarantine)] at ht
      obtain ⟨w', u, hexec, hclean⟩ := clean_of_moves hup.2 ht hnew
      rw [SupervisorOp.reconciliation, if_pos hquarantine, hexec]
      exact congrArg some hclean
    · rw [if_pos hquarantine] at ht
      exact absurd hnew (hnone.2 t ht)
  | stop drain =>
    have hclose := hsurvives.guardsClose (fun _ _ _ _ h => h) comps
    have hdown := (hrule.stop hclose (fun _ _ _ => by decide) (by decide) drain).exec hnone
    exact absurd hnew (hdown.2 t ht)
  | quarantine reason breakerName =>
    exact absurd hnew (((hrule.quarantine (by decide) _ _).exec hnone).2 t ht)
  | deliver event =>
    exact absurd hnew (((hrule.onBreakerTripped (by decide) event).exec hnone).2 t ht)
  | publish event =>
    exact absurd hnew (((hrule.publishEvent (by decide) event).exec hnone).2 t ht)

/-- Every operation of a history is safe if and only if no call of a reconciliation
raises in it. -/
theorem safe_iff_no_reconciliation_fails (subs : List (Subscription ε)) (env : ε)
    (ops : List SupervisorOp) :
    (∀ before op after, ops = before ++ op :: after →
        op.Safe comps (runHistory comps (.new subs env) before)) ↔
      ∀ before op after, ops = before ++ op :: after → ∀ exc,
        op.reconciliation comps (runHistory comps (.new subs env) before) ≠ some (.error exc) := by
  constructor
  · intro h before op after hops exc hfails
    have hquarantine := (h before op after hops).failed exc hfails
    cases op with
    | start =>
      rw [start_failed comps hfails] at hquarantine
      cases hquarantine
    | acknowledge =>
      rw [acknowledge_failed comps hfails] at hquarantine
      cases hquarantine
    | stop | quarantine | deliver | publish => cases hfails
  · intro h before op after hops
    exact ⟨fun exc hfails => absurd hfails (h before op after hops exc),
      running_after_clean comps op⟩

/-- Components that get through the given number of reconciliations. -/
def unreliableComponents : Components (Clock × Nat) :=
  { idleComponents with
    reconcile := .act (fun e => (e.1, e.2 - 1)) fun e =>
      if e.2 = 0 then .throw ⟨"VenueError", "unavailable"⟩ else .pure () }

def runUnreliable (answers : Nat) (ops : List SupervisorOp) : RuntimeWorld (Clock × Nat) :=
  runHistory unreliableComponents (.new [] (⟨fun n => n, 0⟩, answers)) ops

/-- The failed boot is not quarantined, and after the failed acknowledgement there is
no other one. -/
theorem failed_reconciliation_not_quarantined :
    (SupervisorOp.start.reconciliation unreliableComponents (runUnreliable 0 []) =
        some (.error ⟨"VenueError", "unavailable"⟩) ∧
      (runUnreliable 0 [.start]).state = .reconciling) ∧
    (SupervisorOp.acknowledge.reconciliation unreliableComponents
          (runUnreliable 1 [.start, .quarantine "manual" none]) =
        some (.error ⟨"VenueError", "unavailable"⟩) ∧
      (runUnreliable 1 [.start, .quarantine "manual" none, .acknowledge]).state =
        .reconciling ∧
      ((Supervisor.acknowledge unreliableComponents).exec
          (runUnreliable 1 [.start, .quarantine "manual" none, .acknowledge])).2 =
        .error ⟨"RuntimeError",
          "acknowledge() only valid in QUARANTINE, currently RECONCILING"⟩) := by
  decide +kernel

end Reconciling

end Trading
