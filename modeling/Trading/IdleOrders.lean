import Trading.ExecutorGate
import Trading.IdleSystem

/-!
# The idle system and the order journal

A database may hold the orders of an earlier run. The idle system restores the open ones
into its cache, and that is all that ever happens to them.
-/
namespace Trading

open Async Data Contract RuntimeWorld

section Orders

variable {K ρ : Type} (accountJournal : AccountJournal K) (others : Components ρ)
  (texts : ReasonTexts)

/-- `submit_intent` of the executor that is wired here. -/
def submitIdle (cid : ClientOrderId) (intent : TradeIntent) :
    Coro (RuntimeWorld (BuiltEnv OrderTables K ρ)) SubmitResult :=
  Executor.submitIntent (builtComponents SQLiteOrderJournal.journal accountJournal others)
    (builtRisk texts) SQLiteOrderJournal.journal cid intent

/-- What any task may call at any moment. -/
inductive IdleCall where
  | submitIntent (cid : ClientOrderId) (intent : TradeIntent)
  | idle (op : IdleOp)

def IdleCall.prog : IdleCall → Coro (RuntimeWorld (BuiltEnv OrderTables K ρ)) Unit
  | .submitIntent cid intent =>
    (submitIdle accountJournal others texts cid intent).bind fun _ => .pure ()
  | .idle op => op.prog SQLiteOrderJournal.journal accountJournal others texts

variable {accountJournal others texts}

/-- The tables are as they were found; the cache is empty or holds their open orders. -/
structure Restored (tables : OrderTables) (m : OrderManager OrderTables) : Prop where
  journal : m.journal = tables
  orders : m.orders = .empty ∨
    m.orders = .ofList Order.orderId (SQLiteOrderJournal.openOrders tables none)

/-- Whoever acts while the journal is read leaves the tables alone. -/
theorem upholds_restored (tables : OrderTables) : Upholds (K := K) (ρ := ρ)
    SQLiteOrderJournal.journal texts (invariance (Standing texts fun e => Restored tables e.oms))
    (fun e => Restored tables e.oms) fun e => e.oms where
  blind := ⟨fun _ _ => rfl, fun _ _ => rfl, fun _ _ => rfl⟩
  shown _ _ hsame h := hsame ▸ h
  wait := invariance_wait
  restore := by
    intro l s₀ s hs
    refine ⟨l, fun _ => hs, fun t ht => ?_⟩
    obtain ⟨hbus, hjournal, -⟩ := ht hs
    exact ⟨hbus, hjournal, .inr (congrArg (fun tables => Dict.ofList Order.orderId
      (SQLiteOrderJournal.openOrders tables none)) hjournal)⟩
  drawdown _ _ h := h
  heartbeats _ _ h := h

/-- The venue raises, and nothing is recorded. -/
theorem submit_refused (cid : ClientOrderId) (intent : TradeIntent) :
    OrderManager.submit
        (builtComponents SQLiteOrderJournal.journal accountJournal others).venue.watched
        SQLiteOrderJournal.journal cid intent =
      (Clock.now.lift : Coro (RuntimeWorld (BuiltEnv OrderTables K ρ)) Time).bind fun _ =>
        (Co.modify fun w => w.note (.placeOrder w.quarantined (OrderManager.request cid intent))).bind
          fun _ => .pure (.submissionFailed "NullVenue does not accept orders" true) := rfl

section Keeps

variable {ℓ ν : Type} {C : Contract (RuntimeWorld (BuiltEnv OrderTables K ρ)) ℓ}
  {P : BuiltEnv OrderTables K ρ → Prop} {v : BuiltEnv OrderTables K ρ → ν}
  (h : Upholds SQLiteOrderJournal.journal texts C P v)

include h

theorem Upholds.buildContext : C.Keeps (fun _ _ => Standing texts P) ((builtRisk texts :
    RiskManager (BuiltEnv OrderTables K ρ)).buildContext.lift :
      Coro (RuntimeWorld (BuiltEnv OrderTables K ρ)) RiskContext) := by
  have hbalance : (PositionManager.balance (J := K) (NullVenue.asVenue {}) :
      Coro (BuiltEnv OrderTables K ρ) Balance).Frames v := by
    refine Co.frames_bind (Co.frames_lift _ h.blind.pms) fun m => ?_
    split
    · exact Co.frames_pure _
    · exact Co.frames_bind h.blind.frames_getBalance fun _ =>
        Co.frames_bind (Co.frames_lift _ h.blind.pms) fun _ => Co.frames_pure _
  apply h.frames
  refine Co.frames_bind (Co.frames_lift _ h.blind.pms) fun _ => Co.frames_bind hbalance fun _ =>
    Co.frames_bind (fun _ => ⟨rfl, trivial⟩) fun _ =>
    Co.frames_bind (Co.frames_lift _ h.blind.clock) fun _ => Co.frames_pure _

end Keeps

/-- Asking a breaker changes its own state only. -/
theorem frames_run {breaker : CircuitBreaker (BuiltEnv OrderTables K ρ)}
    (hbreaker : breaker ∈ (builtRisk texts : RiskManager (BuiltEnv OrderTables K ρ)).breakers)
    (context : RiskContext) : (breaker.run context).Frames fun e => e.oms := by
  simp only [builtRisk, List.mem_cons, List.not_mem_nil, or_false] at hbreaker
  rcases hbreaker with rfl | rfl
  · exact fun _ => ⟨rfl, Co.frames_ofExcept _⟩
  · exact fun _ => ⟨rfl, trivial⟩

theorem keeps_idleTick (tables : OrderTables) :
    (invariance (Standing texts fun e => Restored tables e.oms)).Keeps
      (fun _ _ => Standing texts fun e => Restored tables e.oms)
      (IdleOp.tick.prog SQLiteOrderJournal.journal accountJournal others texts) := by
  have h := @upholds_restored K ρ texts tables
  refine keeps_bind (keeps_suppress ?_) fun _ => keeps_bind (keeps_suppress ?_) fun _ =>
    keeps_suppress ?_
  · exact keeps_bind h.now fun _ => h.guards.publishEvent trivial _
  · exact h.frames h.blind.frames_reconcile
  · exact h.guards.riskTick _ _ trivial h.buildContext fun breaker hbreaker context =>
      h.frames (frames_run hbreaker context)

theorem keeps_submitIdle (tables : OrderTables) (cid : ClientOrderId) (intent : TradeIntent) :
    (invariance (Standing texts fun e => Restored tables e.oms)).Keeps
      (fun _ _ => Standing texts fun e => Restored tables e.oms)
      (submitIdle accountJournal others texts cid intent : Coro (RuntimeWorld _) SubmitResult) := by
  have h := @upholds_restored K ρ texts tables
  have hfirst : ∀ context (breakers : List (CircuitBreaker (BuiltEnv OrderTables K ρ))),
      (∀ breaker ∈ breakers, (breaker.run context).Frames fun e => e.oms) →
      (RiskManager.firstTrigger context breakers).Frames fun e => e.oms := by
    intro context breakers hbreakers
    induction breakers with
    | nil => exact Co.frames_pure _
    | cons breaker breakers ih =>
      refine Co.frames_bind (hbreakers breaker List.mem_cons_self) fun trigger => ?_
      cases trigger with
      | none => exact ih fun b hb => hbreakers b (List.mem_cons_of_mem breaker hb)
      | some trigger => exact Co.frames_pure _
  refine keeps_bind (keeps_bind h.buildContext fun context => keeps_bind
    (keeps_modify fun _ _ _ hs => hs) fun _ => keeps_bind (h.frames (hfirst context _ fun breaker
      hbreaker => frames_run hbreaker context)) fun trigger => ?_) fun decision => ?_
  · cases trigger with
    | none => exact keeps_pure _
    | some trigger => exact keeps_pure _
  · cases decision with
    | rejected reason breakerName => exact keeps_pure _
    | approved =>
      rw [submit_refused]
      exact keeps_bind h.now fun _ => keeps_bind (keeps_modify fun _ _ _ hs => hs) fun _ =>
        keeps_pure _

/-- Rejected by a breaker, or refused by the venue. -/
def SubmitResult.Refused (result : SubmitResult) : Prop :=
  (∃ reason breakerName, result = .riskRejected reason breakerName) ∨
    result = .submissionFailed "NullVenue does not accept orders" true

/-- What the drawdown breaker can raise at a time: there is no date a day before, or some loss
is too large for a decimal. -/
def Unmeasured (now : Time) (exc : PyError) : Prop :=
  Time.checked (now - idleDrawdown.window) = .error exc ∨
    ∃ peak equity, 0 < peak ∧ DrawdownBreaker.drawdown peak equity = .error exc

/-- How a submission ends at once: refused, or with what the drawdown breaker raises. -/
inductive EndsAtOnce (clock : Clock) {σ : Type} : Co.Outcome σ PyError SubmitResult → Prop where
  | refused (result : SubmitResult) (h : result.Refused) : EndsAtOnce clock (.done result)
  | raised (exc : PyError) (n : Nat) (hn : clock.reads ≤ n)
      (h : Unmeasured (clock.reading n) exc) : EndsAtOnce clock (.failed exc)

/-- The breakers answer at once, or the drawdown breaker raises. -/
theorem block_idleBreakers (context : RiskContext) (e : BuiltEnv OrderTables K ρ) :
    (∃ e' trigger, (RiskManager.firstTrigger context (builtRisk texts).breakers).block e =
      (e', .done trigger)) ∨
    ∃ e' exc, (RiskManager.firstTrigger context (builtRisk texts).breakers).block e =
      (e', .failed exc) ∧ Unmeasured context.now exc := by
  let breaker : CircuitBreaker (BuiltEnv OrderTables K ρ) := (drawdownBreaker texts).circuitBreaker
  let heartbeat : CircuitBreaker (BuiltEnv OrderTables K ρ) :=
    (heartbeatBreaker texts).circuitBreaker
  change (∃ e' trigger, (RiskManager.firstTrigger context [breaker, heartbeat]).block e = _) ∨
    ∃ e' exc, (RiskManager.firstTrigger context [breaker, heartbeat]).block e = _ ∧ _
  cases hanswer : (breaker.evaluate context e).2 with
  | error exc =>
    have hrun : (breaker.run context).block e =
        ((breaker.evaluate context e).1, .failed exc) := by
      change (Co.ofExcept (breaker.evaluate context e).2).block _ = _
      rw [hanswer]
      rfl
    right
    refine ⟨_, exc, Co.block_bind_failed hrun, ?_⟩
    exact (DrawdownBreaker.evaluate_error texts.str texts.percent (by decide) hanswer).imp id
      fun ⟨peak, h⟩ => ⟨peak, _, h⟩
  | ok answer =>
    left
    rw [RiskManager.block_firstTrigger context [heartbeat] hanswer]
    split
    · exact ⟨_, _, rfl⟩
    · have hheard : (heartbeat.evaluate context (breaker.evaluate context e).1).2 = .ok _ := rfl
      rw [RiskManager.block_firstTrigger context [] hheard]
      split
      · exact ⟨_, _, rfl⟩
      · exact ⟨_, _, rfl⟩

theorem block_idleContext (e : BuiltEnv OrderTables K ρ) : ∃ e' context n,
    (builtRisk texts : RiskManager (BuiltEnv OrderTables K ρ)).buildContext.block e =
      (e', .done context) ∧ e.clock.reads ≤ n ∧ context.now = e.clock.reading n := by
  have hpositions : ((builtRisk texts).positions :
      Coro (BuiltEnv OrderTables K ρ) (List Position)).block e =
        (e, .done e.pms.cachedPositions.values) := rfl
  have hbalance : ∃ e' b, ((builtRisk texts).balance :
      Coro (BuiltEnv OrderTables K ρ) Balance).block e = (e', .done b) ∧
        e'.clock.reading = e.clock.reading ∧ e.clock.reads ≤ e'.clock.reads := by
    have hget : ((Co.get : Coro (PositionManager K) (PositionManager K)).lift :
        Coro (BuiltEnv OrderTables K ρ) (PositionManager K)).block e = (e, .done e.pms) := rfl
    simp only [builtRisk, PositionManager.balance, Co.bind_eq]
    rw [Co.block_bind_done hget]
    cases e.pms.cachedBalance with
    | none => exact ⟨_, _, rfl, rfl, Nat.le_succ _⟩
    | some b => exact ⟨_, _, rfl, rfl, le_refl _⟩
  obtain ⟨e', b, hb, hreading, hreads⟩ := hbalance
  simp only [RiskManager.buildContext, Co.bind_eq]
  rw [Co.block_bind_done hpositions, Co.block_bind_done hb]
  exact ⟨_, _, e'.clock.reads, rfl, hreads, congrFun hreading _⟩

/-- The answer comes at once. -/
theorem block_submitIdle (cid : ClientOrderId) (intent : TradeIntent)
    (w : RuntimeWorld (BuiltEnv OrderTables K ρ)) :
    EndsAtOnce w.env.clock ((submitIdle accountJournal others texts cid intent).block w).2 := by
  obtain ⟨e, context, n, hbuild, hn, hnow⟩ := @block_idleContext K ρ texts w.env
  have hcontext : ((builtRisk texts).buildContext.lift :
      Coro (RuntimeWorld (BuiltEnv OrderTables K ρ)) RiskContext).block w =
        (Part.put e w, .done context) := Co.block_lift_done hbuild
  let w₁ : RuntimeWorld (BuiltEnv OrderTables K ρ) := (Part.put e w : RuntimeWorld _).note
    (.asked (Part.put e w : RuntimeWorld _).quarantined
      (RiskManager.answers context (builtRisk texts).breakers e))
  have hnote : (Co.modify fun w : RuntimeWorld (BuiltEnv OrderTables K ρ) => w.note (.asked
      w.quarantined (RiskManager.answers context (builtRisk texts).breakers w.env)) :
        Coro _ Unit).block (Part.put e w) = (w₁, .done ()) := rfl
  rcases @block_idleBreakers K ρ texts context w₁.env with
    ⟨e', trigger, hfirst⟩ | ⟨e', exc, hfirst, hexc⟩
  · have hasked : ((RiskManager.firstTrigger context (builtRisk texts).breakers).lift :
        Coro (RuntimeWorld (BuiltEnv OrderTables K ρ)) (Option Trigger)).block w₁ =
          (Part.put e' w₁, .done trigger) := Co.block_lift_done hfirst
    cases trigger with
    | some trigger =>
      have hcheck : ((builtRisk texts).check intent).block w =
          (Part.put e' w₁, .done (.rejected trigger.reason (some trigger.breakerName))) := by
        simp only [RiskManager.check, Co.bind_eq]
        rw [Co.block_bind_done hcontext, Co.block_bind_done hnote, Co.block_bind_done hasked]
        rfl
      rw [submitIdle, Executor.submitIntent, Co.bind_eq, Co.block_bind_done hcheck]
      exact .refused _ (.inl ⟨_, _, rfl⟩)
    | none =>
      have hcheck : ((builtRisk texts).check intent).block w =
          (Part.put e' w₁, .done .approved) := by
        simp only [RiskManager.check, Co.bind_eq]
        rw [Co.block_bind_done hcontext, Co.block_bind_done hnote, Co.block_bind_done hasked]
        rfl
      rw [submitIdle, Executor.submitIntent, Co.bind_eq, Co.block_bind_done hcheck]
      exact .refused _ (.inr rfl)
  · have hasked : ((RiskManager.firstTrigger context (builtRisk texts).breakers).lift :
        Coro (RuntimeWorld (BuiltEnv OrderTables K ρ)) (Option Trigger)).block w₁ =
          (Part.put e' w₁, .failed exc) := Co.block_lift_failed hfirst
    have hcheck : ((builtRisk texts).check intent).block w = (Part.put e' w₁, .failed exc) := by
      simp only [RiskManager.check, Co.bind_eq]
      rw [Co.block_bind_done hcontext, Co.block_bind_done hnote, Co.block_bind_failed hasked]
    rw [submitIdle, Executor.submitIntent, Co.bind_eq, Co.block_bind_failed hcheck]
    exact .raised exc n hn (hnow ▸ hexc)

/-- Whatever is called, in whatever interleaving: the order journal stays as it was found, the
cache holds at most its open orders, and every submission is turned away at once. -/
theorem idle_orders_untouched (accountJournal : AccountJournal K) (others : Components ρ)
    (texts : ReasonTexts) (tables : OrderTables) (k : K) (clock : Clock) (rest : ρ)
    (labels : List (Label IdleCall)) :
    let c := Config.run (IdleCall.prog accountJournal others texts)
      ⟨buildSupervisor texts tables k clock rest, []⟩ labels
    Restored tables c.state.env.oms ∧ ∀ cid intent, EndsAtOnce c.state.env.clock
      ((submitIdle accountJournal others texts cid intent).block c.state).2 := by
  intro c
  have hrun : Reaches (IdleCall.prog accountJournal others texts) (fun _ _ => True)
      ⟨buildSupervisor texts tables k clock rest, []⟩ c := .of_run _ labels fun _ _ _ => trivial
  have hstanding : Standing texts (fun e => Restored tables e.oms) c.state := by
    apply Reaches.invariant _ _ hrun
    · intro op
      cases op with
      | submitIntent cid intent =>
        exact keeps_bind (keeps_submitIdle tables cid intent) fun _ => keeps_pure ()
      | idle op =>
        cases op with
        | tick => exact keeps_idleTick tables
        | supervise op => exact (upholds_restored tables).supervise op
    · exact ⟨subscribed_built tables k clock rest, rfl, .inl rfl⟩
  exact ⟨hstanding.2, fun cid intent => block_submitIdle cid intent c.state⟩

end Orders

end Trading
