import Trading.IdleSystem
import Trading.RiskTick
import Trading.SupervisorHistory

/-!
# The watchdog of the idle system

The loop that is watched is the loop that asks. So what the heartbeat breaker measures is
the time that a round itself takes, from its heartbeat to its question.
-/
namespace Trading

open Async Data Contract RuntimeWorld

/-- It never saw any equity. -/
structure DrawdownState.Flat (s : DrawdownState) : Prop where
  unlatched : s.latched = false
  zero : ∀ sample ∈ s.equityHistory, sample.2 = 0

theorem DrawdownState.Flat.concat {s : DrawdownState} (h : s.Flat) {context : RiskContext}
    (hequity : context.balance.total = 0) :
    ∀ sample ∈ s.equityHistory ++ [DrawdownBreaker.sample context], sample.2 = 0 := by
  intro sample hsample
  rw [List.mem_append, List.mem_singleton] at hsample
  rcases hsample with hold | rfl
  · exact h.zero sample hold
  · exact hequity

/-- Without equity nothing is lost. The breaker raises where there is no date a day before. -/
theorem evaluate_flat {texts : ReasonTexts} {context : RiskContext} {s : DrawdownState}
    (h : s.Flat) (hequity : context.balance.total = 0) :
    ∃ s' answer, (drawdownBreaker texts).evaluate context s = (s', answer) ∧ s'.Flat ∧
      if Time.InRange (context.now - idleDrawdown.window) then answer = .ok none
      else ∃ exc, answer = .error exc := by
  have hzero := h.concat hequity
  by_cases hrange : Time.InRange (context.now - idleDrawdown.window)
  · let history := recent Prod.fst (context.now - idleDrawdown.window)
      (s.equityHistory ++ [DrawdownBreaker.sample context])
    obtain ⟨peak, hpeak, hgreatest⟩ := DrawdownBreaker.exists_peak (b := idleDrawdown) (by decide)
      s.equityHistory (DrawdownBreaker.sample context)
    have hnone : ¬ 0 < peak := by
      obtain ⟨i, hi, -, hequal⟩ := hgreatest.1
      rw [← hequal, hzero i hi]
      exact lt_irrefl 0
    have hjudged : idleDrawdown.judge texts.str texts.percent context.balance.total history s =
        ({ s with equityHistory := history }, .ok none) :=
      DrawdownBreaker.judge_of_no_loss texts.str texts.percent hpeak (fun hloss => hnone hloss.1)
        fun _ hfails => hnone hfails.1
    have hpruned : ∀ i ∈ history, i.2 = 0 := fun i hi => hzero i (mem_recent.mp hi).1
    refine ⟨{ s with equityHistory := history }, _, ?_, ⟨h.unlatched, hpruned⟩, by rw [if_pos hrange]⟩
    rw [← hjudged]
    change idleDrawdown.evaluate texts.str texts.percent context s = _
    rw [DrawdownBreaker.evaluate, h.unlatched, if_neg Bool.false_ne_true, Time.checked,
      if_pos hrange]
    rfl
  · refine ⟨_, _, DrawdownBreaker.evaluate_of_no_date texts.str texts.percent h.unlatched hrange,
      ⟨h.unlatched, hzero⟩, ?_⟩
    rw [if_neg hrange]
    exact ⟨_, rfl⟩

theorem onEvent_flat {texts : ReasonTexts} {s : DrawdownState} (h : s.Flat) (event : Event) :
    ((drawdownBreaker texts).onEvent event s).Flat := by
  change (DrawdownBreaker.onStateChange event s).Flat
  rw [DrawdownBreaker.onStateChange_eq]
  split
  · exact ⟨rfl, by simp⟩
  · exact h

section Trip

variable {ε : Type} [Part Clock ε] {comps : Components ε} {w : RuntimeWorld ε}
  (hcancel : Co.RaisesErrors comps.cancelAll)

include hcancel

/-- Whatever fails on the way, a running system gets there. -/
theorem quarantine_arrives (hrunning : w.state = .running) (reason : String)
    (breakerName : Option String) :
    ((Supervisor.quarantine comps reason breakerName).exec w).1.state = .quarantine := by
  have hattempt := Co.exec_suppress (s := w) fun exc hexc =>
    (hcancel.lift (W := RuntimeWorld ε)).exec hexc
  have hidle := (survives_idle (ε := ε) .quarantine w.bus).guards comps
  simp only [Supervisor.quarantine, Co.bind_eq]
  rw [Co.exec_bind_ok (Co.exec_get w), if_neg (not_not.mpr hrunning), Supervisor.tryCancelAll,
    Co.exec_bind_ok hattempt, Co.exec_lift]
  have harrives := @exec_transition_arrives ε _ comps
    (Part.put (comps.cancelAll.exec (Part.view w)).1 w) .running .quarantine reason
  rw [Co.exec_bind]
  rcases hmove : (Supervisor.transition comps .running .quarantine reason).exec
    (Part.put (comps.cancelAll.exec (Part.view w)).1 w) with ⟨w₂, exc | u⟩
  · rw [hmove] at harrives
    exact harrives.1
  · rw [hmove] at harrives
    exact ((keeps_bind (hidle.component .now) fun _ => hidle.component (.alert _)).exec harrives).1

theorem publish_quarantines (hsubs : ∀ sub ∈ w.bus.subs, sub.RaisesErrors) (hlive : w.bus.Live)
    (hrunning : w.state = .running) {event : BreakerTripped} (haction : event.action = .quarantine) :
    ((Supervisor.publish comps (.breakerTripped event)).exec w).1.state = .quarantine := by
  let turn : Subscription ε → Coro (RuntimeWorld ε) Unit :=
    EventBus.dispatch (Supervisor.onBreakerTripped comps) (.breakerTripped event)
  have hhandler : ∀ s : RuntimeWorld ε, ((turn .onBreakerTripped).exec s).1 =
      ((Supervisor.quarantine comps event.reason (some event.breakerName)).exec s).1 := by
    intro s
    simp only [turn, EventBus.dispatch, Co.exec_suppress_fst, Supervisor.onBreakerTripped, haction]
  have hexternal : ∀ accepts callback (s : RuntimeWorld ε),
      ((turn (.external accepts callback)).exec s).1.state = s.state := by
    intro accepts callback s
    simp only [turn, EventBus.dispatch]
    split
    · rw [Co.exec_suppress_fst, Co.exec_lift]
      rfl
    · rfl
  have hkeep : ∀ sub ∈ w.bus.subs, ∀ s : RuntimeWorld ε, s.state = .running →
      (turn sub).exec s = (((turn sub).exec s).1, .ok ()) ∧
          ((turn sub).exec s).1.state = .running ∨
        ((turn sub).exec s).1.state = .quarantine := by
    intro sub hsub s hs
    cases sub with
    | external accepts callback =>
      refine .inl ⟨?_, (hexternal accepts callback s).trans hs⟩
      simp only [turn, EventBus.dispatch]
      split
      · exact (Co.raises_suppress ((hsubs _ hsub (.breakerTripped event)).lift)).exec_unit s
      · rfl
    | onBreakerTripped =>
      right
      rw [hhandler]
      exact quarantine_arrives hcancel hs _ _
  have hstay : ∀ sub ∈ w.bus.subs, ∀ s : RuntimeWorld ε, s.state = .quarantine →
      ((turn sub).exec s).1.state = .quarantine := by
    intro sub _ s hs
    cases sub with
    | external accepts callback => exact (hexternal accepts callback s).trans hs
    | onBreakerTripped =>
      have hskip : s.state ≠ .running := by simp [hs]
      rw [hhandler, exec_quarantine_ignored hskip]
      exact hs
  rw [exec_publishEvent_up comps _ ⟨hlive.started, hlive.stopped⟩]
  exact Co.exec_forEach_reaches (P := fun s => s.state = .running) hlive.subscribed
    (fun s hs => by rw [hhandler]; exact quarantine_arrives hcancel hs _ _) hkeep hstay hrunning

end Trip

section Round

variable {J K ρ : Type} {orderJournal : OrderJournal J} {accountJournal : AccountJournal K}
  {others : Components ρ} {texts : ReasonTexts} {w : RuntimeWorld (BuiltEnv J K ρ)}

/-- The breakers are on the bus, and the drawdown breaker never saw any equity. -/
def Watched (texts : ReasonTexts) : RuntimeWorld (BuiltEnv J K ρ) → Prop :=
  Standing texts fun e => e.drawdown.Flat

theorem heard_get (t : Time) (s : HeartbeatState) :
    ((heartbeatBreaker texts).onEvent (.heartbeat ⟨"Supervisor", t⟩) s).get "Supervisor" =
      some t := by
  simp [heartbeatBreaker, HeartbeatBreaker.stateful, HeartbeatBreaker.onHeartbeat, idleHeartbeat]

/-- The next `n` readings are taken. -/
def BuiltEnv.ticked (e : BuiltEnv J K ρ) (n : Nat) : BuiltEnv J K ρ :=
  { e with clock := { e.clock with reads := e.clock.reads + n } }

/-- The heartbeat reaches its breaker if the bus is up. -/
theorem exec_beat (hw : Watched texts w) :
    ∃ beats, ((do let now ← Supervisor.readNow
                  Supervisor.publish (builtComponents orderJournal accountJournal others)
                    (.heartbeat ⟨"Supervisor", now⟩)) :
        Coro (RuntimeWorld (BuiltEnv J K ρ)) Unit).suppress.exec w =
          ({ w with env := { w.env.ticked 1 with heartbeats := beats } }, .ok ()) ∧
      (w.bus.started = true ∧ w.bus.stopped = false →
        beats.get "Supervisor" = some (w.env.clock.reading w.env.clock.reads)) := by
  obtain ⟨handlers, hsubs, hhandlers⟩ := hw.1
  have hnow : (Supervisor.readNow : Coro (RuntimeWorld (BuiltEnv J K ρ)) Time).exec w =
      ({ w with env := w.env.ticked 1 }, .ok (w.env.clock.reading w.env.clock.reads)) := rfl
  rw [Co.exec_suppress fun exc hexc => exec_heartbeat_errors hw.1.raises hexc, Co.bind_eq,
    Co.exec_bind_ok hnow]
  by_cases hup : w.bus.started = true ∧ w.bus.stopped = false
  · let beat : Event := .heartbeat ⟨"Supervisor", w.env.clock.reading w.env.clock.reads⟩
    let turn : Subscription (BuiltEnv J K ρ) → Coro (RuntimeWorld (BuiltEnv J K ρ)) Unit :=
      EventBus.dispatch
        (Supervisor.onBreakerTripped (builtComponents orderJournal accountJournal others)) beat
    let beats : HeartbeatState := (heartbeatBreaker texts).onEvent beat w.env.heartbeats
    let w₁ : RuntimeWorld (BuiltEnv J K ρ) :=
      { w with env := { w.env.ticked 1 with heartbeats := beats } }
    have hheard : (Co.forEach (builtSubscriptions texts) turn).exec
        { w with env := w.env.ticked 1 } = (w₁, .ok ()) := rfl
    have hdeaf : ∃ w', (Co.forEach handlers turn).exec w₁ = (w', .ok ()) ∧ w' = w₁ := by
      apply Co.exec_forEach_succeeds (P := (· = w₁)) handlers _ rfl
      rintro sub hsub s rfl
      rw [hhandlers sub hsub]
      exact ⟨_, rfl, rfl⟩
    obtain ⟨w', hloop, hw'⟩ := hdeaf
    refine ⟨beats, ?_, fun _ => heard_get _ _⟩
    rw [exec_publishEvent_up (w := { w with env := w.env.ticked 1 }) _ _ hup, hsubs,
      Co.forEach_append, Co.exec_bind_ok hheard, hloop, hw']
  · refine ⟨w.env.heartbeats, ?_, fun h => absurd h hup⟩
    rw [exec_publishEvent_down (w := { w with env := w.env.ticked 1 }) _ _ hup]
    rfl

theorem frames_snapshot_balance (journal : AccountJournal K) :
    (PositionManager.snapshot journal).Frames fun m => m.cachedBalance := by
  have hwrite : ∀ {α : Type} (p : Coro K α), (p.lift : Coro (PositionManager K) α).Frames
      fun m => m.cachedBalance := fun p => Co.frames_lift p fun _ _ => rfl
  refine Co.frames_bind Co.frames_get fun m => Co.frames_bind ?_ fun _ =>
    Co.frames_bind Co.frames_get fun m => ?_
  · exact Co.frames_forEach fun _ _ => hwrite _
  · split
    · exact Co.frames_throw _
    · exact hwrite _

/-- The venue's zero balance is cached, also where the journal fails. -/
theorem exec_refresh (haccounts : accountJournal.RaisesErrors) (w : RuntimeWorld (BuiltEnv J K ρ)) :
    ∃ m : PositionManager K, ((builtComponents orderJournal accountJournal others).reconcile.lift :
        Coro (RuntimeWorld (BuiltEnv J K ρ)) Unit).suppress.exec w =
          ({ w with env := { w.env.ticked 1 with pms := m } }, .ok ()) ∧
      ∃ b, m.cachedBalance = some b ∧ b.total = 0 := by
  let b : Balance := ⟨"USDT", 0, 0, 0, w.env.clock.reading w.env.clock.reads⟩
  let m : PositionManager K := { w.env.pms with cachedPositions := .empty, cachedBalance := some b }
  have hraises : Co.RaisesErrors
      (builtComponents orderJournal accountJournal others : Components (BuiltEnv J K ρ)).reconcile :=
    Co.raises_bind trivial fun _ => Co.raises_bind (fun _ => trivial) fun _ =>
      Co.raises_bind (fun _ => trivial) fun _ => Co.raises_bind (fun _ => trivial) fun _ =>
      (PositionManager.raises_snapshot haccounts).lift
  refine ⟨((PositionManager.snapshot accountJournal).exec m).1, ?_, b, ?_, rfl⟩
  · have hstages : ((builtComponents orderJournal accountJournal others).reconcile).exec w.env =
        ((PositionManager.snapshot accountJournal).lift : Coro (BuiltEnv J K ρ) Unit).exec
          { w.env.ticked 1 with pms := m } := rfl
    have hview : (Part.view w : BuiltEnv J K ρ) = w.env := rfl
    rw [Co.exec_suppress fun exc hexc => hraises.lift.exec hexc, Co.exec_lift, hview, hstages,
      Co.exec_lift]
    rfl
  · exact (frames_snapshot_balance accountJournal).exec m

theorem exec_context {b : Balance} (hb : w.env.pms.cachedBalance = some b) :
    ∃ context, ((builtRisk texts : RiskManager (BuiltEnv J K ρ)).buildContext.lift :
        Coro (RuntimeWorld (BuiltEnv J K ρ)) RiskContext).exec w =
          ({ w with env := w.env.ticked 1 }, .ok context) ∧ context.balance = b ∧
      context.now = w.env.clock.reading w.env.clock.reads := by
  have hpositions : ((builtRisk texts).positions : Coro (BuiltEnv J K ρ) (List Position)).exec w.env =
      (w.env, .ok w.env.pms.cachedPositions.values) := rfl
  have hbalance : ((builtRisk texts).balance : Coro (BuiltEnv J K ρ) Balance).exec w.env =
      (w.env, .ok b) := by
    have hread : ((Co.get : Coro (PositionManager K) (PositionManager K)).lift :
        Coro (BuiltEnv J K ρ) (PositionManager K)).exec w.env = (w.env, .ok w.env.pms) := rfl
    simp only [builtRisk, PositionManager.balance, Co.bind_eq]
    rw [Co.exec_bind_ok hread, hb]
    rfl
  refine ⟨⟨w.env.clock.reading w.env.clock.reads, w.env.pms.cachedPositions.values, b,
    w.env.oms.live none, .empty⟩, Co.exec_lift_ok (s := w.env.ticked 1) ?_, rfl, rfl⟩
  rw [RiskManager.buildContext, Co.bind_eq]
  refine (Co.exec_bind_ok hpositions).trans ?_
  rw [Co.bind_eq, Co.exec_bind_ok hbalance]
  rfl

/-- The drawdown breaker has nothing to say, or raises. -/
theorem exec_drawdownTurn {context : RiskContext} (hflat : w.env.drawdown.Flat)
    (hequity : context.balance.total = 0) :
    ∃ s r, (RiskManager.tickBreaker (builtComponents orderJournal accountJournal others) context
        (drawdownBreaker texts).circuitBreaker).exec w =
          ({ w with env := { w.env with drawdown := s } }, r) ∧ s.Flat ∧
      if Time.InRange (context.now - idleDrawdown.window) then r = .ok ()
      else ∃ exc, r = .error exc := by
  obtain ⟨s, answer, heval, hs, hanswer⟩ := @evaluate_flat texts context _ hflat hequity
  let breaker : CircuitBreaker (BuiltEnv J K ρ) := (drawdownBreaker texts).circuitBreaker
  have hasked : (breaker.run context).exec w.env =
      ({ w.env with drawdown := ((drawdownBreaker texts).evaluate context w.env.drawdown).1 },
        ((drawdownBreaker texts).evaluate context w.env.drawdown).2) := Co.exec_ofExcept _ _
  rw [heval] at hasked
  have hrun : ((breaker.run context).lift : Coro (RuntimeWorld (BuiltEnv J K ρ)) _).exec w =
      ({ w with env := { w.env with drawdown := s } }, answer) := by
    have hview : (Part.view w : BuiltEnv J K ρ) = w.env := rfl
    rw [Co.exec_lift, hview, hasked]
    rfl
  split at hanswer
  · next hrange =>
    subst hanswer
    refine ⟨s, .ok (), ?_, hs, by rw [if_pos hrange]⟩
    rw [RiskManager.tickBreaker, Co.bind_eq, Co.exec_bind_ok hrun]
    rfl
  · next hrange =>
    obtain ⟨exc, rfl⟩ := hanswer
    refine ⟨s, .error exc, Co.exec_bind_error hrun, hs, ?_⟩
    rw [if_neg hrange]
    exact ⟨exc, rfl⟩

/-- The heartbeat breaker is asked last; a trigger is published. -/
theorem exec_heartbeatTurn (context : RiskContext) (w : RuntimeWorld (BuiltEnv J K ρ)) :
    let silent := ∃ t, w.env.heartbeats.get "Supervisor" = some t ∧
      idleHeartbeat.threshold < context.now - t
    let turn := (RiskManager.tickBreaker (builtComponents orderJournal accountJournal others) context
      (heartbeatBreaker texts).circuitBreaker).exec w
    (¬silent ∧ turn = (w, .ok ())) ∨ (silent ∧ ∃ event, event.action = .quarantine ∧
      turn = (Supervisor.publish (builtComponents orderJournal accountJournal others)
        (.breakerTripped event)).exec { w with env := w.env.ticked 1 }) := by
  intro silent turn
  let breaker : CircuitBreaker (BuiltEnv J K ρ) := (heartbeatBreaker texts).circuitBreaker
  let answer := idleHeartbeat.examine texts.seconds texts.total context.now w.env.heartbeats
    "Supervisor"
  have hsilent : answer.isSome ↔ silent := HeartbeatBreaker.examine_isSome
  have hasked : idleHeartbeat.evaluate texts.seconds texts.total context w.env.heartbeats =
      answer := by
    simp [HeartbeatBreaker.evaluate, idleHeartbeat, answer]
  have hrun : ((breaker.run context).lift : Coro (RuntimeWorld (BuiltEnv J K ρ)) _).exec w =
      (w, .ok answer) := by
    rw [← hasked]
    rfl
  cases hanswer : answer with
  | none =>
    rw [hanswer] at hrun hsilent
    exact .inl ⟨fun h => Bool.noConfusion (hsilent.mpr h), Co.exec_bind_ok hrun⟩
  | some trigger =>
    obtain ⟨t, -, -, -, haction⟩ := HeartbeatBreaker.examine_eq_some hanswer
    rw [hanswer] at hrun hsilent
    exact .inr ⟨hsilent.mp rfl, ⟨trigger.breakerName, trigger.action, trigger.reason,
      w.env.clock.reading w.env.clock.reads⟩, haction, Co.exec_bind_ok hrun⟩

/-- The bus hands events on. -/
def EventBus.Up {ε : Type} (bus : EventBus ε) : Prop := bus.started = true ∧ bus.stopped = false

/-- A round that begins at the `n`-th reading takes longer than a heartbeat may be old: it is
stamped at first, and asked for after the reconciliation. It is not asked for where the
drawdown breaker raises, on the first day of all. -/
def Clock.StallsAt (clock : Clock) (n : Nat) : Prop :=
  idleHeartbeat.threshold < clock.reading (n + 2) - clock.reading n ∧
    Time.InRange (clock.reading (n + 2) - idleDrawdown.window)

instance (clock : Clock) (n : Nat) : Decidable (clock.StallsAt n) :=
  inferInstanceAs (Decidable (_ ∧ _))

/-- The next round is such a one. -/
def Stalls (w : RuntimeWorld (BuiltEnv J K ρ)) : Prop := w.env.clock.StallsAt w.env.clock.reads

/-- What a round comes to: three readings, and what the heartbeat breaker publishes. -/
theorem tick_cases (haccounts : accountJournal.RaisesErrors) (hw : Watched texts w) :
    let w' := IdleOp.perform orderJournal accountJournal others texts w .tick
    ∃ e : BuiltEnv J K ρ, e.drawdown.Flat ∧ e.clock = (w.env.ticked 3).clock ∧
      ((w.bus.Up → ¬Stalls w) ∧ w' = { w with env := e } ∨
        (w.bus.Up → Stalls w) ∧ ∃ event, event.action = .quarantine ∧
          w' = ((Supervisor.publish (builtComponents orderJournal accountJournal others)
            (.breakerTripped event)).exec { w with env := e.ticked 1 }).1) := by
  intro w'
  let comps : Components (BuiltEnv J K ρ) := builtComponents orderJournal accountJournal others
  obtain ⟨beats, hbeat, hfresh⟩ :=
    @exec_beat J K ρ orderJournal accountJournal others texts w hw
  let w₁ : RuntimeWorld (BuiltEnv J K ρ) :=
    { w with env := { w.env.ticked 1 with heartbeats := beats } }
  obtain ⟨m, hrefresh, b, hb, hzero⟩ :=
    @exec_refresh J K ρ orderJournal accountJournal others haccounts w₁
  let w₂ : RuntimeWorld (BuiltEnv J K ρ) := { w₁ with env := { w₁.env.ticked 1 with pms := m } }
  obtain ⟨context, hcontext, hbalance, hnow⟩ := @exec_context J K ρ texts w₂ b hb
  obtain ⟨s, r, hdrawdown, hs, hr⟩ := @exec_drawdownTurn J K ρ orderJournal accountJournal others
    texts { w₂ with env := w₂.env.ticked 1 } context hw.2 (hbalance ▸ hzero)
  let e : BuiltEnv J K ρ := { w₂.env.ticked 1 with drawdown := s }
  have hstages : (IdleOp.tick.prog orderJournal accountJournal others texts).exec w =
      ((builtRisk texts).tick comps).suppress.exec w₂ := by
    rw [IdleOp.prog, Supervisor.tickOnce, Co.bind_eq, Co.exec_bind_ok hbeat, Co.bind_eq,
      Co.exec_bind_ok hrefresh]
  have hround : w' = (((RiskManager.tickBreaker comps context
      (drawdownBreaker texts).circuitBreaker).bind fun _ => (RiskManager.tickBreaker comps context
        (heartbeatBreaker texts).circuitBreaker).bind fun _ => .pure ()).exec
          { w₂ with env := w₂.env.ticked 1 }).1 := by
    have hend := congrArg Prod.fst hstages
    rw [Co.exec_suppress_fst, RiskManager.tick, Co.bind_eq, Co.exec_bind_ok hcontext] at hend
    exact hend
  have hsilent : w.bus.Up → ((∃ t, beats.get "Supervisor" = some t ∧
      idleHeartbeat.threshold < context.now - t) ↔
        idleHeartbeat.threshold <
          w.env.clock.reading (w.env.clock.reads + 2) - w.env.clock.reading w.env.clock.reads) := by
    intro hup
    rw [hfresh hup, hnow]
    simp only [Option.some.injEq, exists_eq_left']
    rfl
  refine ⟨e, hs, rfl, ?_⟩
  split at hr
  · next hrange =>
    subst hr
    have hasked : w' = ((RiskManager.tickBreaker comps context
        (heartbeatBreaker texts).circuitBreaker).exec { w with env := e }).1 := by
      rw [Co.exec_bind_ok hdrawdown, Co.exec_discard] at hround
      exact hround
    have hdate : Time.InRange
        (w.env.clock.reading (w.env.clock.reads + 2) - idleDrawdown.window) := hnow ▸ hrange
    rcases @exec_heartbeatTurn J K ρ orderJournal accountJournal others texts context
        { w with env := e } with
      ⟨hheard, hturn⟩ | ⟨hmissed, event, haction, hturn⟩
    · exact .inl ⟨fun hup hstalls => hheard ((hsilent hup).mpr hstalls.1),
        hasked.trans (congrArg Prod.fst hturn)⟩
    · exact .inr ⟨fun hup => ⟨(hsilent hup).mp hmissed, hdate⟩, event, haction,
        hasked.trans (congrArg Prod.fst hturn)⟩
  · next hrange =>
    obtain ⟨exc, rfl⟩ := hr
    have hdate : ¬ Time.InRange
        (w.env.clock.reading (w.env.clock.reads + 2) - idleDrawdown.window) := hnow ▸ hrange
    rw [Co.exec_bind_error hdrawdown] at hround
    exact .inl ⟨fun _ hstalls => hdate hstalls.2, hround⟩

instance (w : RuntimeWorld (BuiltEnv J K ρ)) : Decidable (Stalls w) :=
  inferInstanceAs (Decidable (w.env.clock.StallsAt _))

theorem EventBus.Live.up {ε : Type} {bus : EventBus ε} (h : bus.Live) : bus.Up :=
  ⟨h.started, h.stopped⟩

/-- A round changes the state of the system only if it stalls, and then to `QUARANTINE`. -/
theorem tick_state (haccounts : accountJournal.RaisesErrors) (hw : Watched texts w) (hwired : Wired w) :
    (IdleOp.perform orderJournal accountJournal others texts w .tick).state =
      if w.state = .running ∧ Stalls w then .quarantine else w.state := by
  obtain ⟨e, -, -, hround⟩ := @tick_cases J K ρ orderJournal accountJournal others texts w haccounts hw
  have hlive : w.state = .running → w.bus.Live := by
    intro hrunning
    exact hwired.up (by simp [hrunning]) (by simp [hrunning]) (by simp [hrunning])
  rcases hround with ⟨hcalm, heq⟩ | ⟨hstalls, event, haction, heq⟩
  · rw [heq, if_neg fun h => hcalm (hlive h.1).up h.2]
    rfl
  · rw [heq]
    by_cases hrunning : w.state = .running
    · rw [if_pos ⟨hrunning, hstalls (hlive hrunning).up⟩]
      exact publish_quarantines (w := { w with env := e.ticked 1 })
        (Blind.raises_cancelAll (J := J)) hw.1.raises (hlive hrunning) hrunning haction
    · rw [if_neg fun h => hrunning h.1]
      have hidle : (alone (RuntimeWorld (BuiltEnv J K ρ))).Keeps
          (fun _ _ w' => w'.state = w.state ∧ w'.bus = w.bus)
          (Supervisor.publish (builtComponents orderJournal accountJournal others)
            (.breakerTripped event)) :=
        keeps_publish (survives_idle w.state w.bus).callbacks
          (idle_onBreakerTripped _ hrunning w.bus) _
      exact (hidle.exec (s := { w with env := e.ticked 1 }) ⟨rfl, rfl⟩).1

theorem upholds_flat : Upholds orderJournal texts (alone (RuntimeWorld (BuiltEnv J K ρ)))
    (fun e => e.drawdown.Flat) fun e => e.drawdown where
  blind := ⟨fun _ _ => rfl, fun _ _ => rfl, fun _ _ => rfl⟩
  shown _ _ hsame h := hsame ▸ h
  wait := alone_wait
  restore := keeps_standing (v := fun e => e.drawdown) (fun _ _ hsame h => hsame ▸ h) alone_wait
    (Co.frames_lift _ fun _ _ => rfl)
  drawdown event _ h := @onEvent_flat texts _ h event
  heartbeats _ _ h := h

theorem watched_op (hw : Watched texts w) (op : SupervisorOp) :
    Watched texts (op.exec (builtComponents orderJournal accountJournal others) w) :=
  (upholds_flat.supervise op).exec hw

section Accounts

variable (haccounts : accountJournal.RaisesErrors)

include haccounts

theorem watched_tick (hw : Watched texts w) :
    Watched texts (IdleOp.perform orderJournal accountJournal others texts w .tick) := by
  obtain ⟨e, hflat, -, hround⟩ :=
    @tick_cases J K ρ orderJournal accountJournal others texts w haccounts hw
  rcases hround with ⟨-, heq⟩ | ⟨-, event, -, heq⟩
  · rw [heq]
    exact ⟨hw.1, hflat⟩
  · rw [heq]
    exact (upholds_flat.guards.publishEvent trivial _).exec (s := { w with env := e.ticked 1 })
      ⟨hw.1, hflat⟩

theorem wired_tick (hw : Watched texts w) (hwired : Wired w) :
    Wired (IdleOp.perform orderJournal accountJournal others texts w .tick) := by
  obtain ⟨e, -, -, hround⟩ :=
    @tick_cases J K ρ orderJournal accountJournal others texts w haccounts hw
  rcases hround with ⟨-, heq⟩ | ⟨-, event, -, heq⟩
  · rw [heq]
    exact hwired.idle ⟨rfl, rfl⟩
  · rw [heq]
    have hasked : Wired ({ w with env := e.ticked 1 } : RuntimeWorld (BuiltEnv J K ρ)) :=
      hwired.idle ⟨rfl, rfl⟩
    exact wired_op _ hasked (.publish (.breakerTripped event))

/-- A round that does not stall leaves a running system running, three readings later. -/
theorem tick_calm (hw : Watched texts w) (hwired : Wired w) (hrunning : w.state = .running)
    (hcalm : ¬Stalls w) :
    let w' := IdleOp.perform orderJournal accountJournal others texts w .tick
    w'.state = .running ∧ w'.env.clock = (w.env.ticked 3).clock := by
  intro w'
  obtain ⟨e, -, hclock, hround⟩ :=
    @tick_cases J K ρ orderJournal accountJournal others texts w haccounts hw
  have hlive : w.bus.Live := hwired.up (by simp [hrunning]) (by simp [hrunning]) (by simp [hrunning])
  rcases hround with ⟨-, heq⟩ | ⟨hstalls, -⟩
  · exact ⟨(congrArg RuntimeWorld.state heq).trans hrunning,
      (congrArg (fun w : RuntimeWorld (BuiltEnv J K ρ) => w.env.clock) heq).trans hclock⟩
  · exact absurd (hstalls hlive.up) hcalm

variable (orderJournal accountJournal others)

/-- Several rounds, one after another. -/
theorem rounds_state (hw : Watched texts w) (hwired : Wired w) (n : Nat) :
    ((List.replicate n .tick).foldl
        (IdleOp.perform orderJournal accountJournal others texts) w).state =
      if w.state = .running ∧ ∃ k < n, w.env.clock.StallsAt (w.env.clock.reads + 3 * k) then
        .quarantine
      else w.state := by
  induction n generalizing w with
  | zero => simp
  | succ n ih =>
    let w' := IdleOp.perform orderJournal accountJournal others texts w .tick
    have hstate : w'.state = _ := tick_state haccounts hw hwired
    rw [List.replicate_succ, List.foldl_cons,
      ih (watched_tick haccounts hw) (wired_tick haccounts hw hwired)]
    change (if w'.state = .running ∧ ∃ k < n, w'.env.clock.StallsAt (w'.env.clock.reads + 3 * k)
      then SystemState.quarantine else w'.state) = _
    by_cases hrunning : w.state = .running
    · by_cases hstalls : Stalls w
      · rw [if_pos ⟨hrunning, hstalls⟩] at hstate
        have hover : w'.state ≠ .running := by simp [hstate]
        rw [if_neg fun h => hover h.1, if_pos ⟨hrunning, 0, Nat.succ_pos n, hstalls⟩, hstate]
      · obtain ⟨hstill, hclock⟩ : w'.state = .running ∧ w'.env.clock = (w.env.ticked 3).clock :=
          tick_calm haccounts hw hwired hrunning hstalls
        have hlater : (∃ k < n, w'.env.clock.StallsAt (w'.env.clock.reads + 3 * k)) ↔
            ∃ k < n + 1, w.env.clock.StallsAt (w.env.clock.reads + 3 * k) := by
          have hfirst : ¬w.env.clock.StallsAt (w.env.clock.reads + 3 * 0) := hstalls
          rw [Nat.exists_lt_succ_left, or_iff_right hfirst, hclock]
          simp only [BuiltEnv.ticked, Nat.mul_add, Nat.mul_one, Nat.add_assoc, Nat.add_comm 3]
          rfl
        simp only [hlater, hstill, hrunning]
    · rw [if_neg fun h => hrunning h.1] at hstate
      rw [hstate, if_neg fun h => hrunning h.1, if_neg fun h => hrunning h.1]

variable (texts)

/-- The invariants hold whatever the supervisor is asked to do. -/
theorem idle_run (j : J) (k : K) (clock : Clock) (rest : ρ) (ops : List IdleOp) :
    let w := ops.foldl (IdleOp.perform orderJournal accountJournal others texts)
      (buildSupervisor texts j k clock rest)
    Watched texts w ∧ Wired w := by
  intro w
  apply List.foldlRecOn (motive := fun w => Watched texts w ∧ Wired w)
  · have hfresh : (drawdownBreaker texts).initial.Flat := ⟨rfl, fun _ h => absurd h List.not_mem_nil⟩
    exact ⟨⟨subscribed_built j k clock rest, hfresh⟩, fun _ => rfl, fun h => absurd rfl h⟩
  · rintro w ⟨hw, hwired⟩ op -
    cases op with
    | tick => exact ⟨watched_tick haccounts hw, wired_tick haccounts hw hwired⟩
    | supervise op => exact ⟨watched_op hw op, wired_op _ hwired op⟩

omit haccounts in
/-- Whatever came before, after any number of rounds a running system is quarantined if and
only if one of them took too long by itself. How long the loop slept between them is never
noticed, and there is no other reason to trip: the drawdown breaker, which a trip of its own
would have latched, is open. -/
theorem quarantined_iff_round_stalls (haccounts : accountJournal.RaisesErrors) (j : J) (k : K)
    (clock : Clock) (rest : ρ) (ops : List IdleOp) (n : Nat) :
    let w := ops.foldl (IdleOp.perform orderJournal accountJournal others texts)
      (buildSupervisor texts j k clock rest)
    let w' := (List.replicate n .tick).foldl
      (IdleOp.perform orderJournal accountJournal others texts) w
    (w'.state =
      if w.state = .running ∧ ∃ k < n, w.env.clock.StallsAt (w.env.clock.reads + 3 * k) then
        .quarantine
      else w.state) ∧ w'.env.drawdown.latched = false := by
  intro w w'
  obtain ⟨hw, hwired⟩ := idle_run orderJournal accountJournal others texts haccounts j k clock rest ops
  refine ⟨rounds_state orderJournal accountJournal others haccounts hw hwired n, ?_⟩
  have hrounds := idle_run orderJournal accountJournal others texts haccounts j k clock rest
    (ops ++ List.replicate n .tick)
  rw [List.foldl_append] at hrounds
  exact hrounds.1.2.unlatched

end Accounts

end Round

/-- How the reasons are printed does not matter here. -/
def noTexts : ReasonTexts := ⟨fun _ => "", fun _ => "", fun _ _ => "", fun _ => ""⟩

/-- After some operations, with these readings of the clock. -/
def idleAfter (reading : Nat → Time) (ops : List IdleOp) :
    RuntimeWorld (BuiltEnv OrderTables AccountTables Unit) :=
  ops.foldl (IdleOp.perform SQLiteOrderJournal.journal SQLiteAccountJournal.journal idleComponents
    noTexts) (buildSupervisor noTexts ⟨[], []⟩ ⟨[], []⟩ ⟨reading, 0⟩ ())

/-- Rounds a day apart, and a round that takes twelve seconds. -/
theorem quarantined_by_slow_round :
    (idleAfter (fun n => (n + 2) / 3 * 86400000000) (.supervise .start :: .replicate 5 .tick)).state =
        .running ∧
      (idleAfter (fun n => n * 6000000) [.supervise .start, .tick]).state = .quarantine := by
  have hrounds : ∀ reading n,
      (idleAfter reading ([.supervise .start] ++ .replicate n .tick)).state =
        if (idleAfter reading [.supervise .start]).state = .running ∧
            ∃ k < n, (idleAfter reading [.supervise .start]).env.clock.StallsAt
              ((idleAfter reading [.supervise .start]).env.clock.reads + 3 * k) then .quarantine
        else (idleAfter reading [.supervise .start]).state := by
    intro reading n
    have hstate := (quarantined_iff_round_stalls SQLiteOrderJournal.journal
      SQLiteAccountJournal.journal idleComponents noTexts SQLiteAccountJournal.raisesErrors ⟨[], []⟩
      ⟨[], []⟩ ⟨reading, 0⟩ () [.supervise .start] n).1
    rw [idleAfter, List.foldl_append]
    exact hstate
  refine ⟨(hrounds _ 5).trans ?_, (hrounds _ 1).trans ?_⟩
  · decide +kernel
  · decide +kernel

end Trading
