import Trading.Async.Frame
import Trading.ExecutorGate
import Trading.PaperSteps
import Trading.PositionManager
import Trading.RuntimeParts

/-!
# The cap on a position's notional

The breaker reads the cache of the position manager, which shows the venue as the last
reconciliation found it. Fills and prices that came after it are not seen, so the cap
holds for what was over it at that moment.
-/
namespace Trading

open Async Data Contract RuntimeWorld PaperVenue PaperWorld

/-- A cap that is not positive raises `ValueError`. -/
structure PositionNotionalBreaker where
  maxNotionalUsd : Decimal
  action : TriggerAction := .rejectNew
  breakerName : String := "PositionNotionalBreaker"
  positive : 0 < maxNotionalUsd

def Position.notional (pos : Position) : Decimal := |pos.quantity| * pos.markPrice

namespace PositionNotionalBreaker

variable (breaker : PositionNotionalBreaker)

/-- `str` is how Python prints a decimal. -/
def evaluate (str : Decimal → String) (context : RiskContext) : Option Trigger :=
  (context.positions.find? fun pos => breaker.maxNotionalUsd < pos.notional).map fun pos =>
    { breakerName := breaker.breakerName, action := breaker.action
      reason := s!"{pos.symbol} notional {str pos.notional} > {str breaker.maxNotionalUsd}" }

/-- It keeps no state. -/
def circuitBreaker {ε : Type} (str : Decimal → String) : CircuitBreaker ε where
  evaluate context e := (e, .ok (breaker.evaluate str context))

/-- What the risk manager makes of the answer. -/
def decision (str : Decimal → String) (context : RiskContext) : Decision :=
  match breaker.evaluate str context with
  | some trigger => .rejected trigger.reason (some trigger.breakerName)
  | none => .approved

theorem evaluate_eq_none_iff (str : Decimal → String) (context : RiskContext) :
    breaker.evaluate str context = none ↔
      ¬∃ pos ∈ context.positions, breaker.maxNotionalUsd < pos.notional := by
  simp [evaluate]

theorem evaluate_name {str : Decimal → String} {context : RiskContext} {trigger : Trigger}
    (h : breaker.evaluate str context = some trigger) :
    trigger.breakerName = breaker.breakerName := by
  obtain ⟨pos, -, rfl⟩ := Option.map_eq_some_iff.mp h
  rfl

end PositionNotionalBreaker

/-- The position manager, the venue as its last reconciliation found it (a ghost), and
whatever else there is. -/
structure Accounts (K ρ : Type) where
  pms : PositionManager K
  seen : Option PaperVenue
  rest : ρ

abbrev CapWorld (J K ρ : Type) := OmsWorld J (Accounts K ρ)

section Parts

variable {J K ρ : Type}

instance : Part (PositionManager K) (CapWorld J K ρ) where
  view w := w.env.rest.pms
  put m w := { w with env := { w.env with rest := { w.env.rest with pms := m } } }
  view_put _ _ := rfl
  put_view _ := rfl
  put_put _ _ _ := rfl

instance : Part ρ (CapWorld J K ρ) where
  view w := w.env.rest.rest
  put r w := { w with env := { w.env with rest := { w.env.rest with rest := r } } }
  view_put _ _ := rfl
  put_view _ := rfl
  put_put _ _ _ := rfl

end Parts

section System

variable {J K ρ : Type} (cfg : PaperConfig) (orderJournal : OrderJournal J)
  (accountJournal : Option (AccountJournal K)) (others : Components ρ)
  (breaker : PositionNotionalBreaker) (str : Decimal → String)

/-- The order manager alone follows the venue. -/
def capSubscribers : Subscribers (CapWorld J K ρ) := omsSubscribers orderJournal ⟨[], []⟩ ⟨[], []⟩

def capVenue : Venue (CapWorld J K ρ) := PaperVenue.asVenue cfg (capSubscribers orderJournal)

/-- The venue as a reconciliation asks it: what it is at that moment is noted. -/
def notedVenue : Venue (CapWorld J K ρ) :=
  { capVenue cfg orderJournal with
    getPositions := do
      Co.modify fun w =>
        { w with env := { w.env with rest := { w.env.rest with seen := some w.venue } } }
      PaperVenue.getPositions }

/-- What is not wired here is `others`: the connections, the feeds, the logs and the router. -/
def capComponents : Components (CapWorld J K ρ) :=
  { (others.lift : Components (CapWorld J K ρ)) with
    omsLifecycle := some ⟨(OrderManager.start orderJournal).lift, pure ()⟩
    pmsLifecycle := some ⟨(PositionManager.start accountJournal).lift, pure ()⟩
    venue := capVenue cfg orderJournal
    cancelAll := OrderManager.cancelAll (J := J) (capVenue cfg orderJournal) none
    reconcile := PositionManager.reconcile (notedVenue cfg orderJournal) accountJournal }

def capRisk : RiskManager (CapWorld J K ρ) where
  positions := (PositionManager.positions : Coro (PositionManager K) (List Position)).lift
  balance := PositionManager.balance (J := K) (capVenue cfg orderJournal)
  openOrders := (OrderManager.openOrders none : Coro (OrderManager J) (List Order)).lift
  breakers := [breaker.circuitBreaker str]

/-- One round of the tick loop; what a step raises is logged and dropped. -/
def Supervisor.tickOnce {ε : Type} [Part Clock ε] (comps : Components ε) (risk : RiskManager ε) :
    Coro (RuntimeWorld ε) Unit := do
  (do let now ← Supervisor.readNow
      Supervisor.publish comps (.heartbeat ⟨"Supervisor", now⟩)).suppress
  (comps.reconcile.lift : Coro (RuntimeWorld ε) Unit).suppress
  (risk.tick comps).suppress

inductive CapOp where
  | onOrderbook (snapshot : OrderbookSnapshot)
  | tick
  | submitIntent (cid : ClientOrderId) (intent : TradeIntent)
  deriving DecidableEq, Repr

/-- `submit_intent` of the executor over these components. -/
def submitCapped (cid : ClientOrderId) (intent : TradeIntent) :
    Coro (RuntimeWorld (CapWorld J K ρ)) SubmitResult :=
  Executor.submitIntent (capComponents cfg orderJournal accountJournal others)
    (capRisk cfg orderJournal breaker str) orderJournal cid intent

def CapOp.prog : CapOp → Coro (RuntimeWorld (CapWorld J K ρ)) Unit
  | .onOrderbook snapshot =>
    (PaperVenue.onOrderbook cfg (capSubscribers orderJournal) snapshot :
      Coro (CapWorld J K ρ) Unit).lift
  | .tick => Supervisor.tickOnce (capComponents cfg orderJournal accountJournal others)
      (capRisk cfg orderJournal breaker str)
  | .submitIntent cid intent =>
    (submitCapped cfg orderJournal accountJournal others breaker str cid intent).bind
      fun _ => .pure ()

/-- No order, no position and no reconciliation yet. -/
def capSystem (supervisor : Supervisor) (bus : EventBus ρ) (j : J) (k : K) (clock : Clock)
    (rest : ρ) : RuntimeWorld (CapWorld J K ρ) :=
  ⟨supervisor, bus.lift, [], .new j clock ⟨.new k, none, rest⟩⟩

end System

section Reads

variable {ε ν : Type} {v : ε → ν} {cfg : PaperConfig}

theorem frames_readVenue : (readVenue : Coro (PaperWorld ε) PaperVenue).Frames fun w => v w.env :=
  fun _ => ⟨rfl, trivial⟩

theorem frames_readNow : (readNow : Coro (PaperWorld ε) Time).Frames fun w => v w.env :=
  fun _ => ⟨rfl, trivial⟩

theorem frames_buildPositions (entries : List (Symbol × PositionState)) :
    (buildPositions entries : Coro (PaperWorld ε) _).Frames fun w => v w.env := by
  induction entries with
  | nil => exact Co.frames_pure _
  | cons e entries ih =>
    rw [buildPositions]
    split
    · exact ih
    · apply Co.frames_bind
      · exact Co.frames_bind frames_readVenue fun _ => Co.frames_bind frames_readNow fun _ =>
          Co.frames_pure _
      · exact fun _ => Co.frames_bind ih fun _ => Co.frames_pure _

theorem frames_getPositions :
    (PaperVenue.getPositions : Coro (PaperWorld ε) _).Frames fun w => v w.env :=
  Co.frames_bind frames_readVenue fun _ => frames_buildPositions _

theorem frames_getBalance : (getBalance cfg : Coro (PaperWorld ε) _).Frames fun w => v w.env :=
  Co.frames_bind frames_readVenue fun _ => Co.frames_bind frames_readNow fun _ => Co.frames_pure _

theorem frames_getOpenOrders (symbol : Option Symbol) :
    (getOpenOrders symbol : Coro (PaperWorld ε) _).Frames fun w => v w.env :=
  Co.frames_bind frames_readVenue fun _ => Co.frames_pure _

end Reads

/-- Some open position exceeds `max`. -/
def PaperVenue.Over (max : Decimal) (v : PaperVenue) : Prop :=
  ∃ e ∈ v.positions.entries, e.2.netQty ≠ 0 ∧
    max < |e.2.netQty| * v.markPrice e.1 e.2.entryPrice

instance (max : Decimal) (v : PaperVenue) : Decidable (v.Over max) :=
  inferInstanceAs (Decidable (∃ e ∈ _, _))

/-- `ps` are the open ones among the entries of `v`. -/
def Lists (v : PaperVenue) (entries : List (Symbol × PositionState)) (ps : List Position) :
    Prop :=
  ps.map (fun p => (p.symbol, p.notional)) =
    (entries.filter fun e => e.2.netQty ≠ 0).map fun e =>
      (e.1, |e.2.netQty| * v.markPrice e.1 e.2.entryPrice)

/-- Building the positions waits for nobody. -/
theorem follows_buildPositions {ε ℓ : Type} {C : Contract (PaperWorld ε) ℓ}
    {Q : List Position → ℓ → PaperWorld ε → PaperWorld ε → Prop}
    {X : PyError → ℓ → PaperWorld ε → PaperWorld ε → Prop} {l : ℓ} {s₀ s : PaperWorld ε}
    (entries : List (Symbol × PositionState))
    (h : ∀ ps clock, Lists s.venue entries ps → Q ps l s₀ { s with clock := clock }) :
    C.Follows Q X (buildPositions entries) l s₀ s := by
  induction entries generalizing Q s with
  | nil => exact h [] s.clock rfl
  | cons e entries ih =>
    obtain ⟨symbol, state⟩ := e
    rw [buildPositions]
    split
    · next hflat =>
      apply ih
      intro ps clock hps
      apply h ps clock
      rw [Lists, List.filter_cons_of_neg (by simpa using hflat)]
      exact hps
    · next hopen =>
      simp only [buildPosition, Co.bind_eq, follows_bind, follows_readVenue, follows_readNow]
      change C.Follows Q X (Co.bind (buildPositions entries) _) l s₀ s.tick
      rw [follows_bind]
      apply ih
      intro ps clock hps
      apply h _ clock
      rw [Lists, List.filter_cons_of_pos (by simpa using hopen), List.map_cons, List.map_cons,
        Position.notional, abs_abs]
      exact congrArg _ hps

/-- What is listed shows in the cache. -/
theorem Lists.over_cached {v : PaperVenue} {ps : List Position}
    (h : Lists v v.positions.entries ps) (max : Decimal) :
    (∃ pos ∈ (Dict.ofList Position.symbol ps).values, max < pos.notional) ↔ v.Over max := by
  have hsymbols : (ps.map Position.symbol).Nodup := by
    have hnames := congrArg (List.map Prod.fst) h
    rw [List.map_map, List.map_map] at hnames
    have hsub : ((v.positions.entries.filter fun e => e.2.netQty ≠ 0).map Prod.fst).Nodup :=
      v.positions.nodup.sublist (List.filter_sublist.map Prod.fst)
    exact hnames ▸ hsub
  have hvalues : ∀ pos, pos ∈ (Dict.ofList Position.symbol ps).values ↔ pos ∈ ps := by
    intro pos
    rw [Dict.mem_values]
    have hinj : ∀ x ∈ ps, ∀ y ∈ ps, x.symbol = y.symbol → x = y :=
      fun x hx y hy => List.inj_on_of_nodup_map hsymbols hx hy
    simp only [Dict.get_ofList_iff hinj]
    constructor
    · rintro ⟨_, hpos, -⟩
      exact hpos
    · exact fun hpos => ⟨_, hpos, rfl⟩
  have hnotionals := congrArg (List.map Prod.snd) h
  rw [List.map_map, List.map_map] at hnotionals
  have hmem : ∀ n, (∃ pos ∈ ps, pos.notional = n) ↔ ∃ e ∈ v.positions.entries, e.2.netQty ≠ 0 ∧
      |e.2.netQty| * v.markPrice e.1 e.2.entryPrice = n := by
    intro n
    have hlists := congrArg (n ∈ ·) hnotionals
    simpa [and_assoc] using hlists
  constructor
  · rintro ⟨pos, hpos, hover⟩
    obtain ⟨e, he, hopen, hn⟩ := (hmem pos.notional).mp ⟨pos, (hvalues pos).mp hpos, rfl⟩
    exact ⟨e, he, hopen, hn ▸ hover⟩
  · rintro ⟨e, he, hopen, hover⟩
    obtain ⟨pos, hpos, hn⟩ := (hmem _).mpr ⟨e, he, hopen, rfl⟩
    exact ⟨pos, (hvalues pos).mpr hpos, hn ▸ hover⟩

/-- The cache shows what was over a cap when the venue was last asked. -/
def Accounts.Fresh {K ρ : Type} (a : Accounts K ρ) : Prop :=
  ∀ max, (∃ pos ∈ a.pms.cachedPositions.values, max < pos.notional) ↔
    ∃ v, a.seen = some v ∧ v.Over max

section Keeps

variable {J K ρ : Type} {cfg : PaperConfig} {orderJournal : OrderJournal J}

/-- No block of `p` leaves the cache stale to the ghost. -/
abbrev StaysFresh {α : Type} (p : Coro (CapWorld J K ρ) α) : Prop :=
  (invariance fun w : CapWorld J K ρ => w.env.rest.Fresh).Keeps (fun _ _ w => w.env.rest.Fresh) p

/-- The order manager does not know the accounts. -/
theorem keeps_callback {α : Type} (p : Coro (OrderManager J) α) :
    StaysFresh ((p.lift : Coro (OmsEnv J (Accounts K ρ)) α).lift : Coro (CapWorld J K ρ) α) := by
  rw [Co.lift_lift]
  exact @keeps_lift _ _ _ _ _ _ _ _ p (fun _ _ _ _ h => h) invariance_wait

theorem keeps_notifyOrder (order : Order) :
    StaysFresh (notifyOrder (capSubscribers orderJournal) order : Coro (CapWorld J K ρ) Unit) :=
  keeps_bind (keeps_callback _) fun _ => keeps_pure ()

theorem announces_cap :
    Announces (invariance fun w : CapWorld J K ρ => w.env.rest.Fresh) cfg (fun _ => True)
      (capSubscribers orderJournal) (fun _ _ w => w.env.rest.Fresh)
      (fun _ _ _ w => w.env.rest.Fresh) where
  tick h := h
  raised _ h := h
  observe _ h := h
  fill {l s₀} _ _ _ _ _ _ _ _ _ _ _ h :=
    keeps_bind (keeps_bind (keeps_callback _) fun _ => keeps_pure ())
      (fun _ => keeps_notifyOrder _) l s₀ _ h
  cancel {l s₀} _ _ _ _ _ h := keeps_notifyOrder _ l s₀ _ h

theorem keeps_onOrderbook (snapshot : OrderbookSnapshot) :
    StaysFresh (PaperVenue.onOrderbook cfg (capSubscribers orderJournal) snapshot :
      Coro (CapWorld J K ρ) Unit) :=
  fun _ _ _ h => announces_cap.onOrderbook trivial h

theorem keeps_placeOrder (request : OrderRequest) :
    StaysFresh ((capVenue cfg orderJournal).placeOrder request : Coro (CapWorld J K ρ) OrderId) :=
  fun _ _ _ h => Announces.placeOrder (fun _ _ w => w.env.rest.Fresh) (fun _ => announces_cap)
    (fun h => h) request (fun _ _ h => keeps_notifyOrder _ _ _ _ h) h

theorem keeps_cancelEach (orders : List Order) (count : Nat) :
    StaysFresh (OrderManager.cancelEach (capVenue cfg orderJournal) orders count :
      Coro (CapWorld J K ρ) Nat) := by
  induction orders generalizing count with
  | nil => exact keeps_pure count
  | cons order orders ih =>
    have hcancel : StaysFresh ((capVenue cfg orderJournal).cancelOrder order.orderId :
        Coro (CapWorld J K ρ) Bool) :=
      fun _ _ _ h => (@announces_cap J K ρ cfg orderJournal).cancelOrder order.orderId h
    exact keeps_bind hcancel fun _ => ih _

/-- The cached positions and the ghost. -/
def CapWorld.accounted (w : CapWorld J K ρ) : Dict Symbol Position × Option PaperVenue :=
  (w.env.rest.pms.cachedPositions, w.env.rest.seen)

/-- What frames the cache and the ghost keeps them fresh. -/
theorem keeps_of_shown {α : Type} {p : Coro (CapWorld J K ρ) α} (hp : p.Frames CapWorld.accounted) :
    StaysFresh p := by
  apply keeps_of_frames hp _ invariance_wait
  intro l s₀ s s' hshown h
  simp only [CapWorld.accounted, Prod.mk.injEq] at hshown
  rw [Accounts.Fresh, hshown.1, hshown.2]
  exact h

theorem keeps_getPositions :
    StaysFresh (PaperVenue.getPositions : Coro (CapWorld J K ρ) (List Position)) :=
  keeps_of_shown (frames_getPositions
    (v := fun e : OmsEnv J (Accounts K ρ) => (e.rest.pms.cachedPositions, e.rest.seen)))

theorem keeps_getBalance : StaysFresh (getBalance cfg : Coro (CapWorld J K ρ) Balance) :=
  keeps_of_shown (frames_getBalance
    (v := fun e : OmsEnv J (Accounts K ρ) => (e.rest.pms.cachedPositions, e.rest.seen)))

theorem keeps_getOpenOrders (symbol : Option Symbol) :
    StaysFresh (getOpenOrders symbol : Coro (CapWorld J K ρ) (List Order)) :=
  keeps_of_shown (frames_getOpenOrders symbol
    (v := fun e : OmsEnv J (Accounts K ρ) => (e.rest.pms.cachedPositions, e.rest.seen)))

theorem frames_snapshot (journal : AccountJournal K) :
    (PositionManager.snapshot journal).Frames fun m => m.cachedPositions := by
  have hwrite : ∀ {α : Type} (p : Coro K α), (p.lift : Coro (PositionManager K) α).Frames
      fun m => m.cachedPositions := fun p => Co.frames_lift p fun _ _ => rfl
  refine Co.frames_bind Co.frames_get fun m => Co.frames_bind ?_ fun _ =>
    Co.frames_bind Co.frames_get fun m => ?_
  · exact Co.frames_forEach fun _ _ => hwrite _
  · split
    · exact Co.frames_throw _
    · exact hwrite _

/-- The venue is noted and its positions cached in one block. -/
theorem keeps_refresh {rest : Coro (CapWorld J K ρ) Unit} (hrest : StaysFresh rest) :
    StaysFresh ((Co.modify fun w : CapWorld J K ρ => { w with env := { w.env with rest :=
        { w.env.rest with seen := some w.venue } } }).bind fun _ =>
      PaperVenue.getPositions.bind fun ps =>
      ((Co.modify fun m : PositionManager K =>
        { m with cachedPositions := .ofList Position.symbol ps }).lift :
          Coro (CapWorld J K ρ) Unit).bind fun _ => rest) := by
  intro l s₀ s _
  simp only [follows_bind, follows_modify, PaperVenue.getPositions, Co.bind_eq, follows_readVenue]
  apply follows_buildPositions
  intro ps clock hps
  apply hrest l s₀ _
  intro max
  apply (hps.over_cached max).trans
  constructor
  · exact fun h => ⟨s.venue, rfl, h⟩
  · rintro ⟨v, hv, h⟩
    cases hv
    exact h

theorem keeps_reconcile (accountJournal : Option (AccountJournal K)) :
    StaysFresh (PositionManager.reconcile (notedVenue cfg orderJournal) accountJournal :
      Coro (CapWorld J K ρ) Unit) := by
  have hbalance : ∀ b, StaysFresh ((Co.modify fun m : PositionManager K =>
        { m with cachedBalance := some b }).lift : Coro (CapWorld J K ρ) Unit) :=
    fun b => keeps_modify fun _ _ _ h => h
  have hsnapshot : ∀ journal : AccountJournal K,
      StaysFresh ((PositionManager.snapshot journal).lift : Coro (CapWorld J K ρ) Unit) :=
    fun journal =>
      keeps_of_shown ((frames_snapshot journal).lift.prod (Co.frames_lift _ fun _ _ => rfl))
  cases accountJournal with
  | none =>
    exact keeps_refresh (keeps_bind keeps_getBalance fun b =>
      keeps_bind (hbalance b) fun _ => keeps_pure ())
  | some journal =>
    exact keeps_refresh (keeps_bind keeps_getBalance fun b =>
      keeps_bind (hbalance b) fun _ => hsnapshot journal)

/-- The accounts are fresh, and the subscribers of the bus those it was wired with. -/
def Capped (bus : EventBus ρ) (w : RuntimeWorld (CapWorld J K ρ)) : Prop :=
  w.env.env.rest.Fresh ∧ w.bus.subs = (bus.lift : EventBus (CapWorld J K ρ)).subs

abbrev StaysCapped (bus : EventBus ρ) {α : Type} (p : Coro (RuntimeWorld (CapWorld J K ρ)) α) :
    Prop :=
  (invariance (Capped bus)).Keeps (fun _ _ => Capped bus) p

variable {bus : EventBus ρ} {accountJournal : Option (AccountJournal K)} {others : Components ρ}

theorem StaysFresh.lift {α : Type} {p : Coro (CapWorld J K ρ) α} (h : StaysFresh p) :
    StaysCapped bus (p.lift : Coro (RuntimeWorld (CapWorld J K ρ)) α) :=
  keeps_lift_invariance (fun _ _ hsubs => hsubs) h

/-- What only knows the rest. -/
theorem keeps_other {α : Type} (p : Coro ρ α) :
    StaysFresh (p.lift : Coro (CapWorld J K ρ) α) :=
  keeps_lift p (fun _ _ _ _ h => h) invariance_wait

theorem keeps_orderManager {α : Type} (p : Coro (OrderManager J) α) :
    StaysFresh (p.lift : Coro (CapWorld J K ρ) α) :=
  keeps_lift p (fun _ _ _ _ h => h) invariance_wait

theorem keeps_clock : StaysFresh (Clock.now.lift : Coro (CapWorld J K ρ) Time) :=
  keeps_lift _ (fun _ _ _ _ h => h) invariance_wait

theorem callbacks_capped : CallbacksKeep (invariance (Capped bus))
    (fun _ _ (w : RuntimeWorld (CapWorld J K ρ)) => Capped bus w) := by
  intro l s₀ s h accepts callback hmem event
  rw [h.2] at hmem
  obtain ⟨sub, -, hsub⟩ := List.mem_map.mp hmem
  cases sub with
  | external accepts' callback' =>
    cases hsub
    exact (keeps_other _).lift
  | onBreakerTripped => cases hsub

theorem calls_fresh {α : Type} {p : Coro (CapWorld J K ρ) α}
    (h : (capComponents cfg orderJournal accountJournal others).Calls p) : StaysFresh p := by
  cases h with
  | now => exact keeps_clock
  | cancelAll => exact keeps_bind (keeps_orderManager _) fun _ => keeps_cancelEach _ 0
  | alert a => exact keeps_other _
  | initialReconciliation =>
    exact keeps_bind (keeps_getOpenOrders none) fun _ => keeps_bind keeps_getPositions fun _ =>
      keeps_bind keeps_getBalance fun _ => keeps_reconcile accountJournal
  | reReconciliation =>
    exact keeps_bind (keeps_getOpenOrders none) fun _ => keeps_bind keeps_getPositions fun _ =>
      keeps_reconcile accountJournal
  | tickTask =>
    rw [capComponents, Components.lift, TickTask.awaited_lift]
    exact keeps_other _

theorem guards_capped : Guards (capComponents cfg orderJournal accountJournal others)
    (invariance (Capped bus)) (fun _ _ (w : RuntimeWorld (CapWorld J K ρ)) => Capped bus w)
    fun _ _ => True where
  component h := (calls_fresh h).lift
  callbacks := callbacks_capped
  flags _ _ _ _ _ _ h := h
  note _ _ _ _ _ _ h := h
  transition _ _ l s₀ _ h :=
    keeps_announce callbacks_capped (keeps_other _).lift l s₀ _ h

variable {breaker : PositionNotionalBreaker} {str : Decimal → String}

theorem keeps_buildContext : StaysFresh
    ((capRisk cfg orderJournal breaker str).buildContext : Coro (CapWorld J K ρ) RiskContext) := by
  have hbalance : StaysFresh (PositionManager.balance (J := K) (capVenue cfg orderJournal) :
      Coro (CapWorld J K ρ) Balance) := by
    refine keeps_bind (fun _ _ _ h => h) fun m => ?_
    split
    · exact keeps_pure _
    · exact keeps_bind keeps_getBalance fun _ =>
        keeps_bind (fun _ _ _ h => h) fun _ => keeps_pure _
  exact keeps_bind (fun _ _ _ h => h) fun _ => keeps_bind hbalance fun _ =>
    keeps_bind (keeps_orderManager _) fun _ => keeps_bind keeps_clock fun _ => keeps_pure _

theorem keeps_tickOnce : StaysCapped bus (Supervisor.tickOnce
    (capComponents cfg orderJournal accountJournal others)
    (capRisk cfg orderJournal breaker str) : Coro (RuntimeWorld (CapWorld J K ρ)) Unit) := by
  refine keeps_bind (keeps_suppress ?_) fun _ => keeps_bind (keeps_suppress ?_) fun _ =>
    keeps_suppress ?_
  · exact keeps_bind keeps_clock.lift fun _ => guards_capped.publishEvent trivial _
  · exact (keeps_reconcile accountJournal).lift
  · apply guards_capped.riskTick _ _ trivial keeps_buildContext.lift
    intro b hb context
    rw [List.mem_singleton.mp hb]
    exact fun _ _ _ h => h

theorem keeps_submitCapped (cid : ClientOrderId) (intent : TradeIntent) : StaysCapped bus
    (submitCapped cfg orderJournal accountJournal others breaker str cid intent :
      Coro (RuntimeWorld (CapWorld J K ρ)) SubmitResult) := by
  have hcheck : StaysCapped bus ((capRisk cfg orderJournal breaker str).check intent :
      Coro (RuntimeWorld (CapWorld J K ρ)) Decision) := by
    refine keeps_bind keeps_buildContext.lift fun context => keeps_bind (fun _ _ _ h => h)
      fun _ => keeps_bind ?_ fun trigger => ?_
    · exact StaysFresh.lift (keeps_bind (fun _ _ _ h => h) fun trigger => by
        cases trigger <;> exact keeps_pure _)
    · cases trigger <;> exact keeps_pure _
  refine keeps_bind hcheck fun decision => ?_
  cases decision with
  | rejected reason breakerName => exact keeps_pure _
  | approved =>
    refine keeps_bind keeps_clock.lift fun now => keeps_bind (keeps_caught ?_) fun placed => ?_
    · exact keeps_bind (fun _ _ _ h => h) fun _ => (keeps_placeOrder _).lift
    · cases placed with
      | error exc => exact keeps_pure _
      | ok oid =>
        exact keeps_bind (keeps_lift _ (fun _ _ _ _ h => h) invariance_wait) fun _ => keeps_pure _

theorem keeps_capOp (op : CapOp) : StaysCapped bus
    (op.prog cfg orderJournal accountJournal others breaker str :
      Coro (RuntimeWorld (CapWorld J K ρ)) Unit) := by
  cases op with
  | onOrderbook snapshot => exact (keeps_onOrderbook snapshot).lift
  | tick => exact keeps_tickOnce
  | submitIntent cid intent =>
    exact keeps_bind (keeps_submitCapped cid intent) fun _ => keeps_pure ()

theorem block_balance (w : CapWorld J K ρ) : ∃ w' b,
    ((capRisk cfg orderJournal breaker str).balance : Coro (CapWorld J K ρ) Balance).block w =
      (w', .done b) := by
  have hget : ((Co.get : Coro (PositionManager K) (PositionManager K)).lift :
      Coro (CapWorld J K ρ) (PositionManager K)).block w = (w, .done w.env.rest.pms) := rfl
  simp only [capRisk, PositionManager.balance, Co.bind_eq]
  rw [Co.block_bind_done hget]
  cases w.env.rest.pms.cachedBalance with
  | none => exact ⟨_, _, rfl⟩
  | some b => exact ⟨_, _, rfl⟩

/-- The context is there before anybody else can act. -/
theorem block_buildContext (w : CapWorld J K ρ) : ∃ w' context,
    ((capRisk cfg orderJournal breaker str).buildContext).block w = (w', .done context) ∧
      context.positions = w.env.rest.pms.cachedPositions.values := by
  have hpositions : ((capRisk cfg orderJournal breaker str).positions :
      Coro (CapWorld J K ρ) (List Position)).block w =
        (w, .done w.env.rest.pms.cachedPositions.values) := rfl
  obtain ⟨w', b, hbalance⟩ := @block_balance J K ρ cfg orderJournal breaker str w
  simp only [RiskManager.buildContext, Co.bind_eq]
  rw [Co.block_bind_done hpositions, Co.block_bind_done hbalance]
  exact ⟨_, _, rfl, rfl⟩

theorem block_firstTrigger {ε : Type} (context : RiskContext) (e : ε) :
    (RiskManager.firstTrigger context [breaker.circuitBreaker str]).block e =
      (e, .done (breaker.evaluate str context)) := by
  have hanswer : ((breaker.circuitBreaker str).evaluate context e).2 =
      .ok (breaker.evaluate str context) := rfl
  rw [RiskManager.block_firstTrigger context [] hanswer]
  cases breaker.evaluate str context with
  | none => rfl
  | some trigger => rfl

/-- One breaker's answer decides. -/
theorem block_check (intent : TradeIntent) (w : RuntimeWorld (CapWorld J K ρ)) :
    ∃ w' context, context.positions = w.env.env.rest.pms.cachedPositions.values ∧
      ((capRisk cfg orderJournal breaker str).check intent).block w =
        (w', .done (breaker.decision str context)) := by
  obtain ⟨e, context, hbuild, hpositions⟩ :=
    @block_buildContext J K ρ cfg orderJournal breaker str w.env
  have hcontext : ((capRisk cfg orderJournal breaker str).buildContext.lift :
      Coro (RuntimeWorld (CapWorld J K ρ)) RiskContext).block w =
        (Part.put e w, .done context) := Co.block_lift_done hbuild
  have hasked : ∀ w₁ : RuntimeWorld (CapWorld J K ρ), ((RiskManager.firstTrigger context
      (capRisk cfg orderJournal breaker str).breakers).lift :
        Coro (RuntimeWorld (CapWorld J K ρ)) (Option Trigger)).block w₁ =
          (Part.put w₁.env w₁, .done (breaker.evaluate str context)) :=
    fun w₁ => Co.block_lift_done (block_firstTrigger context w₁.env)
  have hnote : ∀ (g : RuntimeWorld (CapWorld J K ρ) → RuntimeWorld (CapWorld J K ρ)) w₁,
      (Co.modify g : Coro _ Unit).block w₁ = (g w₁, .done ()) := fun _ _ => rfl
  have hdecided : ∃ w', ((capRisk cfg orderJournal breaker str).check intent).block w =
      (w', .done (breaker.decision str context)) := by
    simp only [RiskManager.check, Co.bind_eq]
    rw [Co.block_bind_done hcontext, Co.block_bind_done (hnote _ _),
      Co.block_bind_done (hasked _), PositionNotionalBreaker.decision]
    cases breaker.evaluate str context with
    | none => exact ⟨_, rfl⟩
    | some trigger => exact ⟨_, rfl⟩
  obtain ⟨w', hblock⟩ := hdecided
  exact ⟨w', context, hpositions, hblock⟩

/-- What the order manager returns is no rejection by a breaker. -/
theorem submit_not_riskRejected {W : Type} [Part Clock W] [Part (OrderManager J) W]
    (venue : Venue W) (cid : ClientOrderId) (intent : TradeIntent) (w w' : W) (reason : String)
    (breakerName : Option String) :
    (OrderManager.submit venue orderJournal cid intent).block w ≠
      (w', .done (.riskRejected reason breakerName)) := by
  intro hblock
  have hfollows : (Contract.alone W).Follows
      (fun r _ _ _ => r ≠ .riskRejected reason breakerName) (fun _ _ _ _ => True)
      (OrderManager.submit venue orderJournal cid intent) () w w := by
    rw [OrderManager.submit, Co.bind_eq, follows_bind]
    refine (Contract.alone_keeps _ () w w trivial).mono (fun now l s₀ s h => ?_)
      fun _ _ _ _ h => h
    rw [Co.bind_eq, follows_bind]
    apply Contract.Follows.caught
    apply (Contract.alone_keeps _ l s₀ s h).mono
    · intro oid l s₀ s h
      change (Contract.alone W).Follows _ _ (Co.bind (Co.lift (OrderManager.recordSubmission
        orderJournal (OrderManager.submittedOrder oid cid intent now))) fun _ => _) l s₀ s
      rw [follows_bind]
      apply (Contract.alone_keeps _ l s₀ s h).mono
      · intro _ _ _ _ _
        exact SubmitResult.noConfusion
      · exact fun _ _ _ _ h => h
    · intro exc l s₀ s _
      exact ⟨SubmitResult.noConfusion, trivial⟩
  have hresult := hfollows.block
  rw [hblock] at hresult
  exact hresult rfl

end Keeps

/-- A cap of 150. -/
def smallCap : PositionNotionalBreaker where
  maxNotionalUsd := 150
  positive := by decide

def bookAround (mid : Decimal) : CapOp :=
  .onOrderbook ⟨"BTC", [⟨mid - 1, 9⟩], [⟨mid + 1, 9⟩], 0, 0⟩

end Trading
