import Trading.Executor
import Trading.OrderSystem
import Trading.SupervisorRules

/-!
# The gate during a quarantine

Between the breakers' answers and the call of `place_order` no other task runs, so an
order gets through a quarantine exactly when no breaker objects to it at that moment.
-/
namespace Trading

open Async RuntimeWorld Contract

/-- No order was placed while the system was quarantined. -/
def GateHolds (es : List Effect) : Prop := ∀ request, .placeOrder true request ∉ es

/-- Each time the breakers were asked during a quarantine, one of them objected, be it by
raising. -/
def BreakersObject (es : List Effect) : Prop :=
  ∀ answers, .asked true answers ∈ es → ∃ answer ∈ answers, answer ≠ .ok none

def Matched (es : List Effect) : Prop := GateHolds es ↔ BreakersObject es

theorem gateHolds_append (es fs : List Effect) :
    GateHolds (es ++ fs) ↔ GateHolds es ∧ GateHolds fs := by
  simp only [GateHolds, List.mem_append, not_or]
  exact forall_and

theorem breakersObject_append (es fs : List Effect) :
    BreakersObject (es ++ fs) ↔ BreakersObject es ∧ BreakersObject fs := by
  simp only [BreakersObject, List.mem_append, or_imp]
  exact forall_and

theorem Matched.append {es fs : List Effect} (h : Matched es) (h' : Matched fs) :
    Matched (es ++ fs) := by
  rw [Matched, gateHolds_append, breakersObject_append]
  exact and_congr h h'

theorem matched_nil : Matched [] := by
  simp [Matched, GateHolds, BreakersObject]

theorem matched_remark {e : Effect} (h : e.isRemark = true) : Matched [e] := by
  cases e with
  | transition | asked | placeOrder => cases h
  | _ => simp [Matched, GateHolds, BreakersObject]

theorem matched_transition (t : Transition) : Matched [.transition t] := by
  simp [Matched, GateHolds, BreakersObject]

/-- An objection, and no order. -/
theorem matched_rejected {q : Bool} {answers : List (Except PyError (Option Trigger))}
    (h : ∃ answer ∈ answers, answer ≠ .ok none) : Matched [.asked q answers] := by
  have hobject : BreakersObject [.asked q answers] := by
    intro answers' hasked
    cases List.mem_singleton.mp hasked
    exact h
  have hgate : GateHolds [.asked q answers] := by
    simp [GateHolds]
  exact iff_of_true hgate hobject

/-- No objection, and an order under the same gate. -/
theorem matched_approved {q : Bool} {answers : List (Except PyError (Option Trigger))}
    (h : ∀ a ∈ answers, a = .ok none) (request : OrderRequest) :
    Matched [.asked q answers, .placeOrder q request] := by
  cases q with
  | false => simp [Matched, GateHolds, BreakersObject]
  | true =>
    have hopen : ¬ GateHolds [.asked true answers, .placeOrder true request] := by
      simp [GateHolds]
    have hsilent : ¬ BreakersObject [.asked true answers, .placeOrder true request] := by
      intro hobject
      obtain ⟨answer, hmem, hanswer⟩ := hobject answers List.mem_cons_self
      exact hanswer (h answer hmem)
    exact iff_of_false hopen hsilent

section Runs

variable {ε : Type}

/-- `w'` is `w` after effects in which orders and answers match. -/
def Advances (w w' : RuntimeWorld ε) : Prop := ∃ es, w'.trace = w.trace ++ es ∧ Matched es

theorem Advances.refl (w : RuntimeWorld ε) : Advances w w :=
  ⟨[], (List.append_nil _).symm, matched_nil⟩

theorem Advances.more {w w' w'' : RuntimeWorld ε} (h : Advances w w') {es : List Effect}
    (hes : w''.trace = w'.trace ++ es) (hmatched : Matched es) : Advances w w'' := by
  obtain ⟨ds, hds, hbefore⟩ := h
  exact ⟨ds ++ es, by rw [hes, hds, List.append_assoc], hbefore.append hmatched⟩

theorem Advances.trans {w w' w'' : RuntimeWorld ε} (h : Advances w w') (h' : Advances w' w'') :
    Advances w w'' := by
  obtain ⟨es, hes, hmatched⟩ := h'
  exact h.more hes hmatched

def advance : Contract (RuntimeWorld ε) Unit :=
  Contract.ofPreorder Advances Advances.refl Advances.trans

theorem survives_advance :
    Survives advance (fun _ => Advances (ε := ε)) fun _ _ => True where
  wait l _ _ h := ⟨l, h, fun t _ => Advances.refl t⟩
  env _ _ _ _ h := h
  flags _ _ _ _ _ h := h
  note _ _ _ _ he h := h.more rfl (matched_remark he)
  moved _ _ _ _ _ _ _ h := h.more rfl (matched_transition _)

section Operations

variable [Part Clock ε] (comps : Components ε) (risk : RiskManager ε)

theorem keeps_supervisorOp (op : SupervisorOp) :
    advance.Keeps (fun _ => Advances) (op.prog comps) := by
  have hbus : SurvivesBus (fun _ : Unit => Advances (ε := ε)) := fun _ _ _ _ h => h
  have hguards := survives_advance.guards comps
  exact hguards.op (hguards.start (survives_advance.guardsOpen hbus comps) trivial trivial)
    (survives_advance.guardsClose hbus comps) trivial trivial trivial (fun _ _ _ => trivial)
    trivial op

/-- A tick, if asking the caches and the breakers is harmless. -/
theorem Guards.riskTick {ℓ : Type} {C : Contract (RuntimeWorld ε) ℓ}
    {I : ℓ → RuntimeWorld ε → RuntimeWorld ε → Prop} {moves : SystemState → SystemState → Prop}
    (h : Guards comps C I moves) (hmove : moves .running .quarantine)
    (hcontext : C.Keeps I (risk.buildContext.lift : Coro (RuntimeWorld ε) RiskContext))
    (hbreakers : ∀ breaker ∈ risk.breakers, ∀ context,
      C.Keeps I ((breaker.run context).lift : Coro (RuntimeWorld ε) (Option Trigger))) :
    C.Keeps I (risk.tick comps) := by
  rw [RiskManager.tick]
  refine keeps_bind hcontext fun context => keeps_forEach fun breaker hbreaker => ?_
  apply keeps_bind (hbreakers breaker hbreaker context)
  intro trigger
  cases trigger with
  | none => exact keeps_pure ()
  | some trigger =>
    exact keeps_bind (h.component .now) fun _ => h.publishEvent hmove _

theorem keeps_tick : advance.Keeps (fun _ => Advances) (risk.tick comps) := by
  have h := survives_advance (ε := ε)
  exact (h.guards comps).riskTick comps risk trivial (h.component _) fun _ _ _ => h.component _

omit [Part Clock ε] in
/-- The breakers decide by the first objection among their answers, and without waiting. -/
theorem follows_firstTrigger {C : Contract (RuntimeWorld ε) Unit}
    {Q : Option Trigger → Unit → RuntimeWorld ε → RuntimeWorld ε → Prop}
    {X : PyError → Unit → RuntimeWorld ε → RuntimeWorld ε → Prop} (context : RiskContext)
    (breakers : List (CircuitBreaker ε)) {s₀ s : RuntimeWorld ε}
    (happroved : (∀ a ∈ RiskManager.answers context breakers s.env, a = .ok none) →
      ∀ e, Q none () s₀ { s with env := e })
    (hobjected : (∃ a ∈ RiskManager.answers context breakers s.env, a ≠ .ok none) →
      ∀ e, (∀ trigger, Q (some trigger) () s₀ { s with env := e }) ∧
        ∀ exc, X exc () s₀ { s with env := e }) :
    C.Follows Q X ((RiskManager.firstTrigger context breakers).lift) () s₀ s := by
  induction breakers generalizing s with
  | nil => exact happroved (fun _ h => absurd h List.not_mem_nil) s.env
  | cons breaker breakers ih =>
    rw [RiskManager.answers] at happroved hobjected
    have hview : (Part.view s : ε) = s.env := rfl
    simp only [RiskManager.firstTrigger, CircuitBreaker.run, Co.bind_eq, Co.bind, Co.lift,
      follows_act, hview]
    cases hanswer : (breaker.evaluate context s.env).2 with
    | error exc =>
      rw [hanswer] at hobjected
      have herror : (.error exc : Except PyError (Option Trigger)) ≠ .ok none := by simp
      exact (hobjected ⟨_, List.mem_cons_self, herror⟩ _).2 exc
    | ok answer =>
      rw [hanswer] at happroved hobjected
      cases answer with
      | none =>
        apply @ih { s with env := (breaker.evaluate context s.env).1 }
        · exact fun h => happroved (List.forall_mem_cons.mpr ⟨rfl, h⟩)
        · rintro ⟨a, ha, hne⟩
          exact hobjected ⟨a, List.mem_cons_of_mem _ ha, hne⟩
      | some trigger =>
        have hsome : (.ok (some trigger) : Except PyError (Option Trigger)) ≠ .ok none := by simp
        exact (hobjected ⟨_, List.mem_cons_self, hsome⟩ _).1 trigger

/-- Reading the clock takes no other task's turn. -/
theorem follows_readClock {C : Contract (RuntimeWorld ε) Unit}
    {Q : Time → Unit → RuntimeWorld ε → RuntimeWorld ε → Prop}
    {X : PyError → Unit → RuntimeWorld ε → RuntimeWorld ε → Prop} {s₀ s : RuntimeWorld ε}
    (h : ∀ e now, Q now () s₀ { s with env := e }) :
    C.Follows Q X (Clock.now.lift : Coro (RuntimeWorld ε) Time) () s₀ s :=
  h _ _

variable {J : Type} [Part (OrderManager J) ε] (journal : OrderJournal J)

/-- An order follows the answers that approved it. -/
theorem follows_approvedSubmit {s₀ s s' : RuntimeWorld ε} (h : Advances s₀ s)
    {answers : List (Except PyError (Option Trigger))} (happroved : ∀ a ∈ answers, a = .ok none)
    (hasked : s'.trace = s.trace ++ [.asked s.quarantined answers]) (cid : ClientOrderId)
    (intent : TradeIntent) :
    (advance (ε := ε)).Follows (fun _ _ => Advances) (fun _ _ => Advances)
      (OrderManager.submit comps.venue.watched journal cid intent) () s₀ s' := by
  have hrule := survives_advance (ε := ε)
  have hplaced : ∀ e request, Advances s₀
      ({ s' with env := e }.note (.placeOrder s'.quarantined request)) := by
    intro e request
    have hgate : s'.quarantined = s.quarantined := by
      simp [RuntimeWorld.quarantined, quarantinedAfter, hasked]
    refine h.more ?_ (matched_approved (q := s.quarantined) happroved request)
    simp [hasked, hgate]
  have hcall : ∀ request, (advance (ε := ε)).Keeps (fun _ => Advances)
      ((comps.venue.placeOrder request).lift) := fun request => hrule.component _
  have hrecord : ∀ order, (advance (ε := ε)).Keeps (fun _ => Advances)
      ((OrderManager.recordSubmission journal order).lift) :=
    fun order => keeps_lift _ (fun _ _ _ _ h => h) hrule.wait
  rw [OrderManager.submit, Co.bind_eq, follows_bind]
  apply follows_readClock
  intro e submittedAt
  rw [Co.bind_eq, follows_bind, Venue.watched]
  apply Follows.caught
  simp only [Co.bind_eq, follows_bind, follows_modify]
  refine (hcall _ () s₀ _ (hplaced e _)).mono (fun oid l s₀ s h => ?_) fun _ _ _ _ h => ⟨h, h⟩
  exact keeps_bind (hrecord _) (fun _ => keeps_pure _) l s₀ s h

/-- What the breakers let through reaches the venue in the same block. -/
theorem keeps_submitIntent (cid : ClientOrderId) (intent : TradeIntent) :
    (advance (ε := ε)).Keeps (fun _ => Advances)
      (Executor.submitIntent comps risk journal cid intent) := by
  have hrule := survives_advance (ε := ε)
  intro l s₀ s h
  simp only [Executor.submitIntent, RiskManager.check, Co.bind_eq, follows_bind]
  refine (hrule.component _ l s₀ s h).mono (fun context l s₀ s h => ?_) fun _ _ _ _ h => h
  simp only [follows_bind, follows_modify]
  have hasked : ∀ e : ε, ({ s.note (.asked s.quarantined
      (RiskManager.answers context risk.breakers s.env)) with env := e } : RuntimeWorld ε).trace =
        s.trace ++ [.asked s.quarantined (RiskManager.answers context risk.breakers s.env)] :=
    fun _ => rfl
  apply follows_firstTrigger
  · intro happroved e
    exact follows_approvedSubmit comps journal h happroved (hasked e) cid intent
  · intro hobjected e
    have hrejected := h.more (hasked e) (matched_rejected hobjected)
    exact ⟨fun _ => hrejected, fun _ => hrejected⟩

theorem keeps_executorOp (op : ExecutorOp) :
    (advance (ε := ε)).Keeps (fun _ => Advances) (op.prog comps risk journal) := by
  cases op with
  | submitIntent cid intent =>
    exact keeps_bind (keeps_submitIntent comps risk journal cid intent) fun _ => keeps_pure ()
  | riskTick => exact keeps_tick comps risk
  | supervise op => exact keeps_supervisorOp comps op

/-- In any interleaving, no order is placed during a quarantine if and only if each time
the breakers are asked in one of them objects. -/
theorem gate_holds_iff_breakers_object (subs : List (Subscription ε)) (env : ε)
    (labels : List (Label ExecutorOp)) :
    let c := Config.run (ExecutorOp.prog comps risk journal) ⟨.new subs env, []⟩ labels
    GateHolds c.state.trace ↔ BreakersObject c.state.trace := by
  intro c
  have hrun : Reaches (ExecutorOp.prog comps risk journal) (fun _ _ => True)
      ⟨.new subs env, []⟩ c := .of_run _ labels fun _ _ _ => trivial
  obtain ⟨⟨es, hes, hmatched⟩, -⟩ :=
    @Reaches.preorder _ _ _ Advances Advances.refl Advances.trans _ _ _ _ _
      (fun op t _ _ => (keeps_executorOp comps risk journal op).task t) hrun .refl
  rw [hes]
  exact hmatched

end Operations

end Runs

abbrev PaperTrading := OmsWorld OrderTables Unit

def paperSubscribers : Subscribers PaperTrading :=
  omsSubscribers InMemoryOrderJournal.journal ⟨[], []⟩ ⟨[], []⟩

def paperExchange : Venue PaperTrading :=
  PaperVenue.asVenue ⟨.immediate "USDT", 1000, "USDT"⟩ paperSubscribers

/-- The order manager over the paper venue; what it does not need is idle. -/
def paperComponents : Components PaperTrading :=
  { idleComponents with
    venue := paperExchange
    cancelAll := OrderManager.cancelAll (J := OrderTables) paperExchange none }

/-- A breaker on the balance, which is not low. -/
def paperRisk : RiskManager PaperTrading where
  positions := paperExchange.getPositions
  balance := paperExchange.getBalance
  openOrders := (OrderManager.openOrders none : Coro (OrderManager OrderTables) _).lift
  breakers := [⟨fun context e =>
    (e, .ok (if context.balance.total < 900 then some ⟨"Drawdown", .flatten, "drawdown"⟩
      else none))⟩]

def buyOne : TradeIntent := ⟨"BTC", .buy, .market, 1, none, .gtc, false⟩

/-- The order is placed while the system is quarantined. -/
theorem manual_quarantine_lets_orders_through :
    let c := Config.run (ExecutorOp.prog paperComponents paperRisk InMemoryOrderJournal.journal)
      ⟨.new [] (OmsWorld.new ⟨[], []⟩ ⟨fun n => n, 0⟩ ()), []⟩
      [.call (.supervise .start), .call (.supervise (.quarantine "manual" none)),
        .call (.submitIntent "c1" buyOne)]
    c.state.state = .quarantine ∧ c.tasks.length = 0 ∧
      .placeOrder true (OrderManager.request "c1" buyOne) ∈ c.state.trace := by
  decide +kernel

end Trading
