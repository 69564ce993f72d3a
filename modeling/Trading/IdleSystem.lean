import Trading.DrawdownBreaker
import Trading.Executor
import Trading.HeartbeatBreaker
import Trading.PositionCap

/-!
# The idle entrypoint

`build_supervisor` wires the real managers, breakers and journals to a venue, a market data
source and a strategy that do nothing. What is left is a loop that watches itself: each
round publishes a heartbeat, and asks a breaker how long ago the last heartbeat was.
-/
namespace Trading

open Async Data Contract RuntimeWorld

/-- `NullVenue`: it ignores its subscribers. -/
structure NullVenue where
  currency : String := "USDT"

namespace NullVenue

variable {W : Type} [Part Clock W] (venue : NullVenue)

def getBalance : Coro W Balance := do
  let now ← Clock.now.lift
  pure ⟨venue.currency, 0, 0, 0, now⟩

def asVenue : Venue W where
  placeOrder _ := .throw ⟨"NotImplementedError", "NullVenue does not accept orders"⟩
  cancelOrder _ := pure false
  getOrder _ := pure none
  getOpenOrders _ := pure []
  getPositions := pure []
  getBalance := venue.getBalance

end NullVenue

/-- The clock, the managers, the state of the breakers, and what the journals' connections,
the logs and the alert router keep. -/
structure BuiltEnv (J K ρ : Type) where
  clock : Clock
  oms : OrderManager J
  pms : PositionManager K
  drawdown : DrawdownState
  heartbeats : HeartbeatState
  rest : ρ

section Parts

variable {J K ρ : Type}

instance : Part Clock (BuiltEnv J K ρ) where
  view e := e.clock
  put c e := { e with clock := c }
  view_put _ _ := rfl
  put_view _ := rfl
  put_put _ _ _ := rfl

instance : Part (OrderManager J) (BuiltEnv J K ρ) where
  view e := e.oms
  put m e := { e with oms := m }
  view_put _ _ := rfl
  put_view _ := rfl
  put_put _ _ _ := rfl

instance : Part (PositionManager K) (BuiltEnv J K ρ) where
  view e := e.pms
  put m e := { e with pms := m }
  view_put _ _ := rfl
  put_view _ := rfl
  put_put _ _ _ := rfl

instance : Part DrawdownState (BuiltEnv J K ρ) where
  view e := e.drawdown
  put s e := { e with drawdown := s }
  view_put _ _ := rfl
  put_view _ := rfl
  put_put _ _ _ := rfl

instance : Part HeartbeatState (BuiltEnv J K ρ) where
  view e := e.heartbeats
  put s e := { e with heartbeats := s }
  view_put _ _ := rfl
  put_view _ := rfl
  put_put _ _ _ := rfl

instance : Part ρ (BuiltEnv J K ρ) where
  view e := e.rest
  put r e := { e with rest := r }
  view_put _ _ := rfl
  put_view _ := rfl
  put_put _ _ _ := rfl

end Parts

/-- How Python prints what the reasons of the two breakers contain. -/
structure ReasonTexts where
  str : Decimal → String
  percent : Decimal → String
  seconds : Nat → Time → String
  total : Time → String

/-- Five percent within a day. -/
def idleDrawdown : DrawdownBreaker where
  threshold := 1 / 20
  window := 24 * 3600 * 1000000
  valid := by decide +kernel

/-- The supervisor, at most ten seconds. -/
def idleHeartbeat : HeartbeatBreaker where
  components := ["Supervisor"]
  threshold := 10 * 1000000

def Event.isStateChange : Event → Bool
  | .systemStateChanged _ => true
  | _ => false

def Event.isHeartbeat : Event → Bool
  | .heartbeat _ => true
  | _ => false

section Wiring

variable {J K ρ : Type} (orderJournal : OrderJournal J) (accountJournal : AccountJournal K)
  (others : Components ρ) (texts : ReasonTexts)

def drawdownBreaker : StatefulBreaker DrawdownState := idleDrawdown.stateful texts.str texts.percent

def heartbeatBreaker : StatefulBreaker HeartbeatState :=
  idleHeartbeat.stateful texts.seconds texts.total

/-- What is not wired here is `others`: the connections, the logs and the router. -/
def builtComponents : Components (BuiltEnv J K ρ) :=
  { (others.lift : Components (BuiltEnv J K ρ)) with
    venueLifecycle := noLifecycle
    marketData := noLifecycle
    omsLifecycle := some ⟨(OrderManager.start orderJournal).lift, pure ()⟩
    pmsLifecycle := some ⟨(PositionManager.start (some accountJournal)).lift, pure ()⟩
    venue := NullVenue.asVenue {}
    cancelAll := OrderManager.cancelAll (J := J) (NullVenue.asVenue {}) none
    reconcile := PositionManager.reconcile (NullVenue.asVenue {}) (some accountJournal) }

def builtRisk : RiskManager (BuiltEnv J K ρ) where
  positions := (PositionManager.positions : Coro (PositionManager K) (List Position)).lift
  balance := PositionManager.balance (J := K) (NullVenue.asVenue {})
  openOrders := (OrderManager.openOrders none : Coro (OrderManager J) (List Order)).lift
  breakers := [(drawdownBreaker texts).circuitBreaker, (heartbeatBreaker texts).circuitBreaker]

/-- The breakers subscribe where they are built. -/
def builtSubscriptions : List (Subscription (BuiltEnv J K ρ)) :=
  [(drawdownBreaker texts).subscription Event.isStateChange,
    (heartbeatBreaker texts).subscription Event.isHeartbeat]

/-- `build_supervisor`. -/
def buildSupervisor (j : J) (k : K) (clock : Clock) (rest : ρ) : RuntimeWorld (BuiltEnv J K ρ) :=
  .new (builtSubscriptions texts)
    ⟨clock, .new j, .new k, (drawdownBreaker texts).initial, (heartbeatBreaker texts).initial, rest⟩

/-- A round of the tick loop, and whatever the supervisor is asked to do. -/
inductive IdleOp where
  | tick
  | supervise (op : SupervisorOp)

def IdleOp.prog : IdleOp → Coro (RuntimeWorld (BuiltEnv J K ρ)) Unit
  | .tick => Supervisor.tickOnce (builtComponents orderJournal accountJournal others)
      (builtRisk texts)
  | .supervise op => op.prog (builtComponents orderJournal accountJournal others)

def IdleOp.perform (w : RuntimeWorld (BuiltEnv J K ρ)) (op : IdleOp) :
    RuntimeWorld (BuiltEnv J K ρ) :=
  ((op.prog orderJournal accountJournal others texts).exec w).1

end Wiring

section Rules

variable {J K ρ ℓ ν : Type} {orderJournal : OrderJournal J} {accountJournal : AccountJournal K}
  {others : Components ρ} {texts : ReasonTexts}

/-- The breakers are on the bus, besides them the supervisor at most. -/
def Subscribed (texts : ReasonTexts) (bus : EventBus (BuiltEnv J K ρ)) : Prop :=
  ∃ handlers, bus.subs = builtSubscriptions texts ++ handlers ∧
    ∀ sub ∈ handlers, sub = .onBreakerTripped

theorem subscribed_built (j : J) (k : K) (clock : Clock) (rest : ρ) :
    Subscribed texts (buildSupervisor texts j k clock rest).bus :=
  ⟨[], by simp [buildSupervisor, RuntimeWorld.new, EventBus.wired], by simp⟩

namespace Subscribed

variable {bus : EventBus (BuiltEnv J K ρ)} (h : Subscribed texts bus)

include h

theorem subscribe : Subscribed texts { bus with subs := bus.subs ++ [.onBreakerTripped] } := by
  obtain ⟨handlers, hsubs, hhandlers⟩ := h
  refine ⟨handlers ++ [.onBreakerTripped], ?_, ?_⟩
  · rw [hsubs, List.append_assoc]
  · intro sub hsub
    rw [List.mem_append, List.mem_singleton] at hsub
    exact hsub.elim (hhandlers sub) id

/-- A callback on the bus is a handler of one of the two breakers. -/
theorem callback {accepts : Event → Bool}
    {callback : Event → Coro (BuiltEnv J K ρ) Unit}
    (hmem : .external accepts callback ∈ bus.subs) (event : Event) :
    callback event = (Co.modify ((drawdownBreaker texts).onEvent event)).lift ∨
      callback event = (Co.modify ((heartbeatBreaker texts).onEvent event)).lift := by
  obtain ⟨handlers, hsubs, hhandlers⟩ := h
  rw [hsubs, List.mem_append] at hmem
  rcases hmem with hbuilt | hhandler
  · simp only [builtSubscriptions, StatefulBreaker.subscription, List.mem_cons,
      Subscription.external.injEq, List.not_mem_nil, or_false] at hbuilt
    rcases hbuilt with ⟨-, rfl⟩ | ⟨-, rfl⟩
    · exact .inl rfl
    · exact .inr rfl
  · cases hhandlers _ hhandler

/-- None of them raises. -/
theorem raises : ∀ sub ∈ bus.subs, sub.RaisesErrors := by
  intro sub hsub
  cases sub with
  | external accepts callback =>
    intro event
    rcases h.callback hsub event with hdrawdown | hheartbeat
    · rw [hdrawdown]
      exact fun _ => trivial
    · rw [hheartbeat]
      exact fun _ => trivial
  | onBreakerTripped => trivial

end Subscribed

/-- A view that shows neither the clock nor the accounts nor what is not wired here. -/
structure Blind {ν : Type} (v : BuiltEnv J K ρ → ν) : Prop where
  clock : ∀ (c : Clock) e, v (Part.put c e) = v e
  pms : ∀ (m : PositionManager K) e, v (Part.put m e) = v e
  rest : ∀ (r : ρ) e, v (Part.put r e) = v e

namespace Blind

variable {ν : Type} {v : BuiltEnv J K ρ → ν} (hv : Blind v)

include hv

theorem frames_getBalance :
    (NullVenue.getBalance {} : Coro (BuiltEnv J K ρ) Balance).Frames v :=
  Co.frames_bind (Co.frames_lift _ hv.clock) fun _ => Co.frames_pure _

theorem frames_reconcile : (PositionManager.reconcile (NullVenue.asVenue {}) (some accountJournal) :
    Coro (BuiltEnv J K ρ) Unit).Frames v :=
  Co.frames_bind (Co.frames_pure _) fun _ => Co.frames_bind (Co.frames_lift _ hv.pms) fun _ =>
    Co.frames_bind hv.frames_getBalance fun _ => Co.frames_bind (Co.frames_lift _ hv.pms) fun _ =>
    Co.frames_lift _ hv.pms

omit hv in
/-- The null venue confirms no cancellation. -/
theorem frames_cancelAll : (OrderManager.cancelAll (J := J) (NullVenue.asVenue {}) none :
    Coro (BuiltEnv J K ρ) Nat).Frames v := by
  have heach : ∀ (orders : List Order) count, (OrderManager.cancelEach (NullVenue.asVenue {})
      orders count : Coro (BuiltEnv J K ρ) Nat).Frames v := by
    intro orders
    induction orders with
    | nil => exact fun count => Co.frames_pure count
    | cons order orders ih => exact fun count => ih count
  exact fun e => ⟨rfl, heach _ _⟩

omit hv in
theorem raises_cancelAll : (OrderManager.cancelAll (J := J) (NullVenue.asVenue {}) none :
    Coro (BuiltEnv J K ρ) Nat).RaisesErrors := by
  have heach : ∀ (orders : List Order) count, (OrderManager.cancelEach (NullVenue.asVenue {})
      orders count : Coro (BuiltEnv J K ρ) Nat).RaisesErrors := by
    intro orders
    induction orders with
    | nil => exact fun _ => trivial
    | cons order orders ih => exact fun count => ih count
  exact fun _ => heach _ _

end Blind

theorem lifecycles_cases {component : Lifecycle (BuiltEnv J K ρ)}
    (h : component ∈ (builtComponents orderJournal accountJournal others).lifecycles) :
    (∃ c : Lifecycle ρ, component = c.lift) ∨ component = noLifecycle ∨
      component = ⟨(OrderManager.start orderJournal).lift, pure ()⟩ ∨
      component = ⟨(PositionManager.start (some accountJournal)).lift, pure ()⟩ := by
  simp only [Components.lifecycles, builtComponents, Components.lift, Option.toList, List.mem_append,
    List.mem_cons, List.not_mem_nil, or_false] at h
  rcases h with (((rfl | rfl | rfl | rfl | rfl | rfl | rfl) | rfl) | rfl)
  · exact .inl ⟨_, rfl⟩
  · exact .inl ⟨_, rfl⟩
  · exact .inl ⟨_, rfl⟩
  · exact .inl ⟨_, rfl⟩
  · exact .inl ⟨_, rfl⟩
  · exact .inr (.inl rfl)
  · exact .inr (.inl rfl)
  · exact .inr (.inr (.inl rfl))
  · exact .inr (.inr (.inr rfl))

/-- The breakers are subscribed, and `P` holds of the environment. -/
def Standing (texts : ReasonTexts) (P : BuiltEnv J K ρ → Prop)
    (w : RuntimeWorld (BuiltEnv J K ρ)) : Prop := Subscribed texts w.bus ∧ P w.env

theorem keeps_standing {C : Contract (RuntimeWorld (BuiltEnv J K ρ)) ℓ} {P : BuiltEnv J K ρ → Prop}
    {v : BuiltEnv J K ρ → ν} (hview : ∀ e e', v e' = v e → P e → P e')
    (hwait : ∀ l s₀ s, Standing texts P s → ∃ l', C.guar l s₀ l' s ∧
      ∀ t, C.rely s t → Standing texts P t)
    {α : Type} {p : Coro (BuiltEnv J K ρ) α} (hp : p.Frames v) :
    C.Keeps (fun _ _ => Standing texts P) (p.lift : Coro (RuntimeWorld (BuiltEnv J K ρ)) α) := by
  have hshown : (p.lift : Coro (RuntimeWorld (BuiltEnv J K ρ)) α).Frames
      fun w => (v w.env, w.bus) := hp.lift.prod (Co.frames_lift p fun _ _ => rfl)
  apply keeps_of_frames hshown _ hwait
  intro l s₀ s s' hsame hs
  simp only [Prod.mk.injEq] at hsame
  exact ⟨hsame.2 ▸ hs.1, hview _ _ hsame.1 hs.2⟩

/-- What an assertion has to survive that sees the environment through a blind view. -/
structure Upholds (orderJournal : OrderJournal J) (texts : ReasonTexts)
    (C : Contract (RuntimeWorld (BuiltEnv J K ρ)) ℓ) (P : BuiltEnv J K ρ → Prop)
    (v : BuiltEnv J K ρ → ν) : Prop where
  blind : Blind v
  shown : ∀ e e', v e' = v e → P e → P e'
  wait : ∀ l s₀ s, Standing texts P s → ∃ l', C.guar l s₀ l' s ∧
    ∀ t, C.rely s t → Standing texts P t
  restore : C.Keeps (fun _ _ => Standing texts P)
    (((OrderManager.start orderJournal).lift : Coro (BuiltEnv J K ρ) Unit).lift :
      Coro (RuntimeWorld (BuiltEnv J K ρ)) Unit)
  drawdown : ∀ event e, P e → P { e with drawdown := (drawdownBreaker texts).onEvent event e.drawdown }
  heartbeats : ∀ s e, P e → P { e with heartbeats := s }

namespace Upholds

variable {C : Contract (RuntimeWorld (BuiltEnv J K ρ)) ℓ} {P : BuiltEnv J K ρ → Prop}
  {v : BuiltEnv J K ρ → ν} (h : Upholds orderJournal texts C P v)

include h

theorem frames {α : Type} {p : Coro (BuiltEnv J K ρ) α} (hp : p.Frames v) :
    C.Keeps (fun _ _ => Standing texts P) (p.lift : Coro (RuntimeWorld (BuiltEnv J K ρ)) α) :=
  keeps_standing h.shown h.wait hp

theorem other {α : Type} (p : Coro ρ α) : C.Keeps (fun _ _ => Standing texts P)
    ((p.lift : Coro (BuiltEnv J K ρ) α).lift : Coro (RuntimeWorld (BuiltEnv J K ρ)) α) :=
  h.frames (Co.frames_lift p h.blind.rest)

theorem now : C.Keeps (fun _ _ => Standing texts P)
    (Supervisor.readNow : Coro (RuntimeWorld (BuiltEnv J K ρ)) Time) :=
  h.frames (Co.frames_lift _ h.blind.clock)

/-- What the supervisor asks for, outside of a transition. -/
theorem calls {α : Type} {p : Coro (BuiltEnv J K ρ) α}
    (hp : (builtComponents orderJournal accountJournal others).Calls p) :
    C.Keeps (fun _ _ => Standing texts P) (p.lift : Coro (RuntimeWorld (BuiltEnv J K ρ)) α) := by
  cases hp with
  | now => exact h.now
  | cancelAll => exact h.frames Blind.frames_cancelAll
  | alert a => exact h.other _
  | initialReconciliation =>
    exact h.frames (Co.frames_bind (Co.frames_pure _) fun _ => Co.frames_bind (Co.frames_pure _)
      fun _ => Co.frames_bind h.blind.frames_getBalance fun _ => h.blind.frames_reconcile)
  | reReconciliation =>
    exact h.frames (Co.frames_bind (Co.frames_pure _) fun _ => Co.frames_bind (Co.frames_pure _)
      fun _ => h.blind.frames_reconcile)
  | tickTask => exact others.tickTask.awaited_lift (W := BuiltEnv J K ρ) ▸ h.other _

theorem callbacks : CallbacksKeep C (fun _ _ => Standing texts P) := by
  intro l s₀ s hs accepts callback hmem event
  rcases hs.1.callback hmem event with hdrawdown | hheartbeat
  · rw [hdrawdown]
    exact keeps_modify fun _ _ s (hs : Standing texts P s) => ⟨hs.1, h.drawdown event s.env hs.2⟩
  · rw [hheartbeat]
    exact keeps_modify fun _ _ s (hs : Standing texts P s) => ⟨hs.1, h.heartbeats _ s.env hs.2⟩

/-- Every transition that is asked for, and what goes with it. -/
theorem guards : Guards (builtComponents orderJournal accountJournal others) C
    (fun _ _ => Standing texts P) fun _ _ => True where
  component := h.calls
  callbacks := h.callbacks
  flags _ _ _ _ _ _ hs := hs
  note _ _ _ _ _ _ hs := hs
  transition _ _ l s₀ _ hs := keeps_announce h.callbacks (h.other _) l s₀ _
    ⟨hs.1, h.shown _ _ (h.blind.clock _ _) hs.2⟩

omit h in
theorem keeps_openBus : C.Keeps (fun _ _ => Standing texts P)
    (Supervisor.openBus (ε := BuiltEnv J K ρ)) := by
  have hread : ∀ {p : EventBus (BuiltEnv J K ρ) → Coro (EventBus (BuiltEnv J K ρ)) Unit},
      (∀ bus, C.Keeps (fun _ _ => Standing texts P)
        ((p bus).lift : Coro (RuntimeWorld (BuiltEnv J K ρ)) Unit)) →
      C.Keeps (fun _ _ => Standing texts P)
        ((Co.get.bind p).lift : Coro (RuntimeWorld (BuiltEnv J K ρ)) Unit) := by
    intro p hp
    rw [Co.lift_bind]
    exact keeps_bind (fun _ _ _ hs => hs) hp
  refine keeps_bind (hread fun bus => ?_) fun _ => keeps_bind (keeps_modify fun _ _ _ hs => hs)
    fun _ => hread fun bus => ?_
  · split
    · exact keeps_throw _
    · exact keeps_modify fun _ _ _ hs => hs
  · split
    · exact keeps_throw _
    · exact keeps_modify fun _ _ _ hs => ⟨hs.1.subscribe, hs.2⟩

theorem opens : GuardsOpen (builtComponents orderJournal accountJournal others) C
    (fun _ _ => Standing texts P) where
  component := by
    intro component hmem
    rcases lifecycles_cases hmem with ⟨c, rfl⟩ | rfl | rfl | rfl
    · exact h.other _
    · exact keeps_pure ()
    · exact h.restore
    · exact h.frames (Co.frames_lift _ h.blind.pms)
  bus := keeps_openBus

theorem closes : GuardsClose (builtComponents orderJournal accountJournal others) C
    (fun _ _ => Standing texts P) where
  component := by
    intro component hmem
    rcases lifecycles_cases hmem with ⟨c, rfl⟩ | rfl | rfl | rfl
    · exact h.other _
    · exact keeps_pure ()
    · exact keeps_pure ()
    · exact keeps_pure ()
  note _ _ _ hs := hs
  bus := keeps_modify fun _ _ _ hs => hs

theorem supervise (op : SupervisorOp) : C.Keeps (fun _ _ => Standing texts P)
    (op.prog (builtComponents orderJournal accountJournal others)) :=
  h.guards.op (h.guards.start h.opens trivial trivial) h.closes trivial trivial trivial
    (fun _ _ _ => trivial) trivial op

end Upholds

end Rules

end Trading
