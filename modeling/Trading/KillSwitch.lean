import Trading.Async.Alone
import Trading.PositionCap
import Trading.SerialRuns

/-!
# The way from a breaker to the book

The whole system, one operation after another: reconciliation, breaker, bus, supervisor,
order manager and venue. Whatever the event log, the alert router and the subscribers of
the bus do, the supervisor never takes part in trading, but for the orders it cancels.
-/
namespace Trading

open Async Data Contract RuntimeWorld PaperVenue PaperWorld

inductive SystemOp where
  | oms (op : OmsOp)
  | tick
  | submitIntent (cid : ClientOrderId) (intent : TradeIntent)
  | supervise (op : SupervisorOp)
  deriving DecidableEq, Repr

section System

variable {J K ρ : Type} (cfg : PaperConfig) (orderJournal : OrderJournal J)
  (accountJournal : Option (AccountJournal K)) (others : Components ρ)
  (breaker : PositionNotionalBreaker) (str : Decimal → String)

def SystemOp.prog : SystemOp → Coro (RuntimeWorld (CapWorld J K ρ)) Unit
  | .oms op => (op.prog cfg orderJournal ⟨[], []⟩ ⟨[], []⟩ : Coro (CapWorld J K ρ) Unit).lift
  | .tick => Supervisor.tickOnce (capComponents cfg orderJournal accountJournal others)
      (capRisk cfg orderJournal breaker str)
  | .submitIntent cid intent =>
    (submitCapped cfg orderJournal accountJournal others breaker str cid intent).bind
      fun _ => .pure ()
  | .supervise op => op.prog (capComponents cfg orderJournal accountJournal others)

/-- The system with these subscribers on its bus, and what has become of `start()`. -/
def capStarted (subs : List (Subscription ρ)) (j : J) (k : K) (clock : Clock) (rest : ρ) :
    RuntimeWorld (CapWorld J K ρ) × Except PyError Unit :=
  (Supervisor.start (capComponents cfg orderJournal accountJournal others)).exec
    (capSystem ⟨.booting, false, false⟩ (.wired subs) j k clock rest)

/-- The system after one operation that has run to its end. -/
def SystemOp.perform (w : RuntimeWorld (CapWorld J K ρ)) (op : SystemOp) :
    RuntimeWorld (CapWorld J K ρ) :=
  ((op.prog cfg orderJournal accountJournal others breaker str).exec w).1

end System

section Reads

variable {ε : Type} {cfg : PaperConfig}

/-- Everything but the clock. -/
def PaperWorld.timeless (w : PaperWorld ε) : PaperVenue × List Notification × ε :=
  (w.venue, w.trace, w.env)

theorem timeless_readVenue : (readVenue : Coro (PaperWorld ε) PaperVenue).Frames timeless :=
  fun _ => ⟨rfl, trivial⟩

theorem timeless_readNow : (readNow : Coro (PaperWorld ε) Time).Frames timeless :=
  fun _ => ⟨rfl, trivial⟩

theorem timeless_buildPositions (entries : List (Symbol × PositionState)) :
    (buildPositions entries : Coro (PaperWorld ε) _).Frames timeless := by
  induction entries with
  | nil => exact Co.frames_pure _
  | cons e entries ih =>
    rw [buildPositions]
    split
    · exact ih
    · apply Co.frames_bind
      · exact Co.frames_bind timeless_readVenue fun _ => Co.frames_bind timeless_readNow fun _ =>
          Co.frames_pure _
      · exact fun _ => Co.frames_bind ih fun _ => Co.frames_pure _

theorem timeless_getPositions :
    (PaperVenue.getPositions : Coro (PaperWorld ε) _).Frames timeless :=
  Co.frames_bind timeless_readVenue fun _ => timeless_buildPositions _

theorem timeless_getBalance : (getBalance cfg : Coro (PaperWorld ε) _).Frames timeless :=
  Co.frames_bind timeless_readVenue fun _ => Co.frames_bind timeless_readNow fun _ =>
    Co.frames_pure _

theorem timeless_getOpenOrders (symbol : Option Symbol) :
    (getOpenOrders symbol : Coro (PaperWorld ε) _).Frames timeless :=
  Co.frames_bind timeless_readVenue fun _ => Co.frames_pure _

/-- The positions are listed as they are at the time of the call. -/
theorem exec_getPositions (w : PaperWorld ε) : ∃ ps clock,
    PaperVenue.getPositions.exec w = ({ w with clock := clock }, .ok ps) ∧
      Lists w.venue w.venue.positions.entries ps := by
  have hfollows : (Contract.alone (PaperWorld ε)).Follows
      (fun ps _ _ w' => (∃ clock, w' = { w with clock := clock }) ∧
        Lists w.venue w.venue.positions.entries ps)
      (fun _ _ _ _ => False) PaperVenue.getPositions () w w := by
    simp only [PaperVenue.getPositions, Co.bind_eq, follows_bind, follows_readVenue]
    exact follows_buildPositions _ fun ps clock hps => ⟨⟨clock, rfl⟩, hps⟩
  have hend := follows_alone.mp hfollows
  rcases hexec : (PaperVenue.getPositions : Coro (PaperWorld ε) _).exec w with ⟨w', e | ps⟩
  · rw [hexec] at hend
    exact hend.elim
  · rw [hexec] at hend
    obtain ⟨⟨clock, rfl⟩, hps⟩ := hend
    exact ⟨ps, clock, rfl, hps⟩

end Reads

section Supervise

variable {J K ρ : Type} {cfg : PaperConfig} {orderJournal : OrderJournal J}
  {accountJournal : Option (AccountJournal K)} {others : Components ρ}
  {breaker : PositionNotionalBreaker} {str : Decimal → String}

theorem quiet_none {ε : Type} : Subscribers.Quiet (⟨[], []⟩ : Subscribers ε) :=
  ⟨by simp, by simp⟩

/-- The venue's core and the order manager. -/
def CapWorld.shown (w : CapWorld J K ρ) : PaperCore × OrderManager J := (w.core, w.env.oms)

theorem frames_shown_of_timeless {α : Type} {p : Coro (CapWorld J K ρ) α}
    (h : p.Frames timeless) : p.Frames CapWorld.shown :=
  h.comp fun t => ((t.1, t.2.1), t.2.2.oms)

theorem frames_shown_other {α : Type} (p : Coro ρ α) :
    (p.lift : Coro (CapWorld J K ρ) α).Frames CapWorld.shown :=
  Co.frames_lift p fun _ _ => rfl

theorem frames_shown_accounts {α : Type} (p : Coro (PositionManager K) α) :
    (p.lift : Coro (CapWorld J K ρ) α).Frames CapWorld.shown :=
  Co.frames_lift p fun _ _ => rfl

theorem frames_shown_clock :
    (Clock.now.lift : Coro (CapWorld J K ρ) Time).Frames CapWorld.shown :=
  Co.frames_lift _ fun _ _ => rfl

theorem frames_shown_reconcile : (PositionManager.reconcile (notedVenue cfg orderJournal)
    accountJournal : Coro (CapWorld J K ρ) Unit).Frames CapWorld.shown := by
  refine Co.frames_bind ?_ fun _ => Co.frames_bind (frames_shown_accounts _) fun _ =>
    Co.frames_bind (frames_shown_of_timeless timeless_getBalance) fun _ =>
    Co.frames_bind (frames_shown_accounts _) fun _ => ?_
  · exact Co.frames_bind (fun _ => ⟨rfl, trivial⟩) fun _ =>
      frames_shown_of_timeless timeless_getPositions
  · cases accountJournal with
    | none => exact Co.frames_pure ()
    | some journal => exact frames_shown_accounts _

theorem frames_shown_buildContext : ((capRisk cfg orderJournal breaker str).buildContext :
    Coro (CapWorld J K ρ) RiskContext).Frames CapWorld.shown := by
  refine Co.frames_bind (frames_shown_accounts _) fun _ => Co.frames_bind ?_ fun _ =>
    Co.frames_bind (fun _ => ⟨rfl, trivial⟩) fun _ =>
    Co.frames_bind frames_shown_clock fun _ => Co.frames_pure _
  refine Co.frames_bind (frames_shown_accounts _) fun m => ?_
  split
  · exact Co.frames_pure _
  · exact Co.frames_bind (frames_shown_of_timeless timeless_getBalance) fun _ =>
      Co.frames_bind (frames_shown_accounts _) fun _ => Co.frames_pure _

theorem mem_capLifecycles {component : Lifecycle (CapWorld J K ρ)}
    (h : component ∈ (capComponents cfg orderJournal accountJournal others).lifecycles) :
    (∃ c : Lifecycle ρ, component = c.lift) ∨
      component = ⟨(OrderManager.start orderJournal).lift, pure ()⟩ ∨
      component = ⟨(PositionManager.start accountJournal).lift, pure ()⟩ := by
  simp only [Components.lifecycles, capComponents, Components.lift, Option.toList, List.mem_append,
    List.mem_cons, List.not_mem_nil, or_false] at h
  rcases h with (((rfl | rfl | rfl | rfl | rfl | rfl | rfl) | rfl) | rfl)
  · exact .inl ⟨_, rfl⟩
  · exact .inl ⟨_, rfl⟩
  · exact .inl ⟨_, rfl⟩
  · exact .inl ⟨_, rfl⟩
  · exact .inl ⟨_, rfl⟩
  · exact .inl ⟨_, rfl⟩
  · exact .inl ⟨_, rfl⟩
  · exact .inr (.inl rfl)
  · exact .inr (.inr rfl)

/-- Run from where the manager knows the venue, `p` leaves it so and at most cancels. -/
def CancelsOnly {α : Type} (p : Coro (CapWorld J K ρ) α) : Prop :=
  ∀ w, Mirrors w → Mirrors (p.exec w).1 ∧ ∃ gone, Cancels gone w.core (p.exec w).1.core

theorem cancelsOnly_of_shown {α : Type} {p : Coro (CapWorld J K ρ) α}
    (hp : p.Frames CapWorld.shown) : CancelsOnly p := by
  intro w hw
  have hshown := hp.exec w
  have hcore : (p.exec w).1.core = w.core := congrArg Prod.fst hshown
  refine ⟨hw.congr hcore (congrArg (fun t => t.2.orders) hshown), fun _ => False, ?_⟩
  rw [hcore]
  exact cancels_none fun _ _ _ h => h

theorem cancelsOnly_bind {α β : Type} {p : Coro (CapWorld J K ρ) α}
    {f : α → Coro (CapWorld J K ρ) β} (hp : CancelsOnly p) (hf : ∀ a, CancelsOnly (f a)) :
    CancelsOnly (p.bind f) := by
  intro w hw
  obtain ⟨hw', gone, hgone⟩ := hp w hw
  rw [Co.exec_bind]
  rcases hexec : p.exec w with ⟨w', e | a⟩
  · rw [hexec] at hw' hgone
    exact ⟨hw', gone, hgone⟩
  · rw [hexec] at hw' hgone
    obtain ⟨hw'', gone', hgone'⟩ := hf a w' hw'
    exact ⟨hw'', _, hgone.trans hgone'⟩

/-- The manager knows the venue; the bus was opened, for subscribers that know neither. -/
structure InStep (subs : List (Subscription ρ)) (w : RuntimeWorld (CapWorld J K ρ)) : Prop where
  mirrors : Mirrors w.env
  begun : w.state ≠ .booting
  wired : w.bus.subs = subs.map Subscription.lift ++ [.onBreakerTripped]

theorem InStep.knows {subs : List (Subscription ρ)} {w : RuntimeWorld (CapWorld J K ρ)}
    (h : InStep subs w) : EventBus.Knows ρ w.bus := by
  intro accepts callback hmem
  rw [h.wired] at hmem
  exact ((EventBus.knows_wired subs).subscribe true false) accepts callback hmem

theorem InStep.raises {subs : List (Subscription ρ)} {w : RuntimeWorld (CapWorld J K ρ)}
    (h : InStep subs w) (hsubs : ∀ sub ∈ subs, sub.RaisesErrors) :
    ∀ sub ∈ w.bus.subs, sub.RaisesErrors := by
  intro sub hsub
  rw [h.wired, List.mem_append, List.mem_singleton] at hsub
  rcases hsub with hwired | rfl
  · exact raises_wired hsubs sub hwired
  · trivial

variable {subs : List (Subscription ρ)}

/-- No cancellation makes `G` false. -/
def Withstands (G : PaperCore → Prop) : Prop := ∀ gone c c', Cancels gone c c' → G c → G c'

theorem withstands_true : Withstands fun _ => True := fun _ _ _ _ _ => trivial

theorem withstands_cancelled (c₀ : PaperCore) : Withstands fun c => ∃ gone, Cancels gone c₀ c := by
  rintro gone c c' h ⟨gone₀, h₀⟩
  exact ⟨_, h₀.trans h⟩

theorem withstands_cleared (c₀ : PaperCore) : Withstands (Cancels (fun _ => True) c₀) := by
  intro gone c c' h h₀
  exact (h₀.trans h).congr fun _ _ _ => ⟨fun _ => trivial, fun _ => .inl trivial⟩

/-- `p` leaves the system in step, and `G` true of the venue. -/
abbrev StaysInStep (subs : List (Subscription ρ)) (G : PaperCore → Prop) {α : Type}
    (p : Coro (RuntimeWorld (CapWorld J K ρ)) α) : Prop :=
  (Contract.alone _).Keeps (fun _ _ w => InStep subs w ∧ G w.env.core) p

section Guards

variable {G : PaperCore → Prop} (hG : Withstands G)

include hG

theorem CancelsOnly.stays {α : Type} {p : Coro (CapWorld J K ρ) α} (hp : CancelsOnly p) :
    StaysInStep subs G (p.lift : Coro (RuntimeWorld (CapWorld J K ρ)) α) := by
  rw [StaysInStep, keeps_alone]
  rintro w ⟨h, hw⟩
  obtain ⟨hmirrors, gone, hgone⟩ := hp w.env h.mirrors
  rw [Co.exec_lift]
  exact ⟨⟨hmirrors, h.begun, h.wired⟩, hG gone _ _ hgone hw⟩

theorem callbacks_inStep : CallbacksKeep (Contract.alone _)
    (fun _ _ (w : RuntimeWorld (CapWorld J K ρ)) => InStep subs w ∧ G w.env.core) := by
  intro l s₀ s h accepts callback hmem event
  obtain ⟨p, hp⟩ := h.1.knows accepts callback hmem event
  rw [hp]
  exact (cancelsOnly_of_shown (frames_shown_other p)).stays hG

theorem guardsClose_inStep : GuardsClose (capComponents cfg orderJournal accountJournal others)
    (Contract.alone _)
    (fun _ _ (w : RuntimeWorld (CapWorld J K ρ)) => InStep subs w ∧ G w.env.core) where
  component c hmem := by
    rcases mem_capLifecycles hmem with ⟨c, rfl⟩ | rfl | rfl
    · exact (cancelsOnly_of_shown (frames_shown_other c.stop)).stays hG
    · exact keeps_pure ()
    · exact keeps_pure ()
  note _ _ _ h := ⟨⟨h.1.mirrors, h.1.begun, h.1.wired⟩, h.2⟩
  bus := by
    rw [keeps_alone]
    rintro w ⟨h, hw⟩
    exact ⟨⟨h.mirrors, h.begun, h.wired⟩, hw⟩

variable (hj : orderJournal.Reliable)

include hj

omit hG in
theorem cancelsOnly_cancelAll (symbol : Option Symbol) :
    CancelsOnly (OrderManager.cancelAll (J := J) (capVenue cfg orderJournal) symbol :
      Coro (CapWorld J K ρ) Nat) := by
  intro w hw
  obtain ⟨w', hexec, hw', hcancels⟩ := exec_cancelAll cfg hj quiet_none quiet_none hw symbol
  have hrun : (OrderManager.cancelAll (J := J) (capVenue cfg orderJournal) symbol).exec w =
      (w', .ok (w.venue.openOrders.values.filter (Order.matches symbol)).length) := hexec
  rw [hrun]
  exact ⟨hw', _, hcancels⟩

omit hG in
theorem calls_cancel {α : Type} {p : Coro (CapWorld J K ρ) α}
    (h : (capComponents cfg orderJournal accountJournal others).Calls p) : CancelsOnly p := by
  have hpositions : CancelsOnly (PaperVenue.getPositions : Coro (CapWorld J K ρ) _) :=
    cancelsOnly_of_shown (frames_shown_of_timeless timeless_getPositions)
  have hbalance : CancelsOnly (getBalance cfg : Coro (CapWorld J K ρ) _) :=
    cancelsOnly_of_shown (frames_shown_of_timeless timeless_getBalance)
  have hopen : CancelsOnly (getOpenOrders none : Coro (CapWorld J K ρ) _) :=
    cancelsOnly_of_shown (frames_shown_of_timeless (timeless_getOpenOrders none))
  have hreconcile := cancelsOnly_of_shown (@frames_shown_reconcile J K ρ cfg orderJournal
    accountJournal)
  cases h with
  | now => exact cancelsOnly_of_shown frames_shown_clock
  | cancelAll => exact cancelsOnly_cancelAll hj none
  | alert a => exact cancelsOnly_of_shown (frames_shown_other _)
  | initialReconciliation =>
    exact cancelsOnly_bind hopen fun _ => cancelsOnly_bind hpositions fun _ =>
      cancelsOnly_bind hbalance fun _ => hreconcile
  | reReconciliation =>
    exact cancelsOnly_bind hopen fun _ => cancelsOnly_bind hpositions fun _ => hreconcile
  | tickTask =>
    rw [capComponents, Components.lift, TickTask.awaited_lift]
    exact cancelsOnly_of_shown (frames_shown_other _)

theorem guards_inStep : Guards (capComponents cfg orderJournal accountJournal others)
    (Contract.alone _)
    (fun _ _ (w : RuntimeWorld (CapWorld J K ρ)) => InStep subs w ∧ G w.env.core)
    fun _ newState => newState ≠ .booting where
  component h := (calls_cancel hj h).stays hG
  callbacks := callbacks_inStep hG
  flags _ _ _ _ _ _ h := ⟨⟨h.1.mirrors, h.1.begun, h.1.wired⟩, h.2⟩
  note _ _ _ _ _ _ h := ⟨⟨h.1.mirrors, h.1.begun, h.1.wired⟩, h.2⟩
  transition hbegun _ l s₀ _ h :=
    keeps_announce (callbacks_inStep hG) ((cancelsOnly_of_shown (frames_shown_other _)).stays hG)
      l s₀ _ ⟨⟨h.1.mirrors.congr rfl rfl, hbegun, h.1.wired⟩, h.2⟩

theorem supervise_inStep (op : SupervisorOp) : StaysInStep subs G
    (op.prog (capComponents cfg orderJournal accountJournal others) :
      Coro (RuntimeWorld (CapWorld J K ρ)) Unit) :=
  (guards_inStep hG hj).op (Guards.start_again fun _ _ _ h => h.1.begun)
    (guardsClose_inStep hG) (by decide) (by decide) (by decide) (fun _ _ _ => by decide) (by decide) op

theorem tick_inStep : StaysInStep subs G (Supervisor.tickOnce
    (capComponents cfg orderJournal accountJournal others)
    (capRisk cfg orderJournal breaker str) : Coro (RuntimeWorld (CapWorld J K ρ)) Unit) := by
  have hguards := @guards_inStep J K ρ cfg orderJournal accountJournal others subs G hG hj
  refine keeps_bind (keeps_suppress ?_) fun _ => keeps_bind (keeps_suppress ?_) fun _ =>
    keeps_suppress ?_
  · exact keeps_bind (hguards.component .now) fun _ => hguards.publishEvent (by decide) _
  · exact (cancelsOnly_of_shown frames_shown_reconcile).stays hG
  · apply hguards.riskTick _ _ (by decide)
    · exact (cancelsOnly_of_shown frames_shown_buildContext).stays hG
    · intro b hb context
      have hrun : (b.run context).Frames CapWorld.shown := by
        rw [List.mem_singleton.mp hb]
        exact fun _ => ⟨rfl, trivial⟩
      exact (cancelsOnly_of_shown hrun).stays hG

omit hG in
theorem submit_inStep (cid : ClientOrderId) (intent : TradeIntent)
    {w : RuntimeWorld (CapWorld J K ρ)} (h : InStep subs w) :
    InStep subs ((OrderManager.submit (capVenue cfg orderJournal).watched orderJournal cid
      intent).exec w).1 := by
  have htick : Mirrors w.env.tick := h.mirrors.congr rfl rfl
  have hnow : (Clock.now.lift : Coro (RuntimeWorld (CapWorld J K ρ)) Time).exec w =
      ({ w with env := w.env.tick }, .ok (w.env.clock.reading w.env.clock.reads)) := rfl
  obtain ⟨hplace, order, hknown⟩ := place_known cfg hj quiet_none quiet_none
    (OrderManager.request cid intent) w.env.tick
  have hwatched : ((capVenue cfg orderJournal).watched.placeOrder
      (OrderManager.request cid intent)).exec { w with env := w.env.tick } =
        ({ w.note (.placeOrder w.quarantined (OrderManager.request cid intent)) with
            env := placed cfg (managerSubs orderJournal ⟨[], []⟩ ⟨[], []⟩)
              (OrderManager.request cid intent) w.env.tick }, .ok (nextId w.env.tick)) := by
    simp only [Venue.watched, Co.bind_eq, Co.exec_bind, Co.exec_modify]
    exact Co.exec_lift_ok hplace
  have hcached : (placed cfg (managerSubs orderJournal ⟨[], []⟩ ⟨[], []⟩)
      (OrderManager.request cid intent) w.env.tick).env.oms.orders.get (nextId w.env.tick) ≠ none :=
    fun hnone => Option.some_ne_none order (hknown.cached.symm.trans hnone)
  obtain ⟨m, hm, horders⟩ := @exec_recordSubmission_ok _ orderJournal hj
    (OrderManager.submittedOrder (nextId w.env.tick) cid intent
      (w.env.clock.reading w.env.clock.reads)) _ hcached
  rw [OrderManager.exec_submit_placed orderJournal hnow hwatched, Co.exec_discard,
    Co.exec_lift_ok hm]
  exact ⟨(mirrors_placed hj quiet_none quiet_none htick _).congr rfl horders, h.begun, h.wired⟩

omit hG in
theorem submitCapped_inStep (cid : ClientOrderId) (intent : TradeIntent) :
    (Contract.alone _).Keeps (fun _ _ => InStep subs)
      (submitCapped cfg orderJournal accountJournal others breaker str cid intent :
        Coro (RuntimeWorld (CapWorld J K ρ)) SubmitResult) := by
  have hshown : ∀ {α : Type} {p : Coro (CapWorld J K ρ) α}, p.Frames CapWorld.shown →
      (Contract.alone _).Keeps (fun _ _ => InStep subs)
        (p.lift : Coro (RuntimeWorld (CapWorld J K ρ)) α) := by
    intro α p hp
    rw [keeps_alone]
    intro w hw
    rw [Co.exec_lift]
    exact ⟨(cancelsOnly_of_shown hp w.env hw.mirrors).1, hw.begun, hw.wired⟩
  have hcheck : (Contract.alone _).Keeps (fun _ _ => InStep subs)
      ((capRisk cfg orderJournal breaker str).check intent :
        Coro (RuntimeWorld (CapWorld J K ρ)) Decision) := by
    refine keeps_bind (hshown frames_shown_buildContext) fun context => keeps_bind
      (keeps_modify fun _ _ _ h => ⟨h.mirrors, h.begun, h.wired⟩) fun _ => keeps_bind ?_ fun trigger => ?_
    · apply hshown
      refine Co.frames_bind (fun _ => ⟨rfl, trivial⟩) fun trigger => ?_
      cases trigger <;> exact Co.frames_pure _
    · cases trigger <;> exact keeps_pure _
  refine keeps_bind hcheck fun decision => ?_
  cases decision with
  | rejected reason breakerName => exact keeps_pure _
  | approved =>
    rw [keeps_alone]
    exact fun w hw => submit_inStep hj cid intent hw

omit hG in
theorem inStep_perform (op : SystemOp) {w : RuntimeWorld (CapWorld J K ρ)} (h : InStep subs w) :
    InStep subs (op.perform cfg orderJournal accountJournal others breaker str w) := by
  cases op with
  | oms op =>
    rw [SystemOp.perform, SystemOp.prog, Co.exec_lift]
    exact ⟨mirrors_op hj quiet_none quiet_none h.mirrors op, h.begun, h.wired⟩
  | tick => exact ((tick_inStep withstands_true hj).exec ⟨h, trivial⟩).1
  | submitIntent cid intent =>
    rw [SystemOp.perform, SystemOp.prog, Co.exec_discard]
    exact (submitCapped_inStep hj cid intent).exec h
  | supervise op => exact ((supervise_inStep withstands_true hj op).exec ⟨h, trivial⟩).1

omit hG in
theorem inStep_run {w : RuntimeWorld (CapWorld J K ρ)} (h : InStep subs w) (ops : List SystemOp) :
    InStep subs (ops.foldl
      (SystemOp.perform cfg orderJournal accountJournal others breaker str) w) := by
  induction ops generalizing w with
  | nil => exact h
  | cons op ops ih => exact ih (inStep_perform hj op h)

end Guards

section Start

variable {w₀ : RuntimeWorld (CapWorld J K ρ)}

/-- Venue and manager are as in `w₀`, and the subscribers of the bus know neither. -/
def Asleep (w₀ w : RuntimeWorld (CapWorld J K ρ)) : Prop :=
  w.env.shown = w₀.env.shown ∧ EventBus.Knows ρ w.bus

abbrev StaysAsleep (w₀ : RuntimeWorld (CapWorld J K ρ)) {α : Type}
    (p : Coro (RuntimeWorld (CapWorld J K ρ)) α) : Prop :=
  (Contract.alone _).Keeps (fun _ _ => Asleep w₀) p

theorem asleep_frames {α : Type} {p : Coro (CapWorld J K ρ) α} (hp : p.Frames CapWorld.shown) :
    StaysAsleep w₀ (p.lift : Coro (RuntimeWorld (CapWorld J K ρ)) α) := by
  rw [StaysAsleep, keeps_alone]
  intro w h
  rw [Co.exec_lift]
  exact ⟨(hp.exec w.env).trans h.1, h.2⟩

/-- An empty journal restores nothing. -/
theorem asleep_omsStart {j : J} (hnone : (orderJournal.readOpenOrders none).exec j = (j, .ok []))
    (hnew : w₀.env.env.oms = .new j) : StaysAsleep w₀
      (((OrderManager.start orderJournal).lift : Coro (CapWorld J K ρ) Unit).lift :
        Coro (RuntimeWorld (CapWorld J K ρ)) Unit) := by
  rw [StaysAsleep, keeps_alone]
  intro w h
  have homs : w.env.env.oms = .new j := (congrArg Prod.snd h.1).trans hnew
  have hread : ((orderJournal.readOpenOrders none).lift :
      Coro (OrderManager J) (List Order)).exec (.new j) = (.new j, .ok []) := Co.exec_lift_ok hnone
  have hstart : (OrderManager.start orderJournal).exec w.env.env.oms = (.new j, .ok ()) := by
    rw [homs, OrderManager.start, Co.bind_eq, Co.exec_bind_ok hread]
    rfl
  have hlifted : ((OrderManager.start orderJournal).lift : Coro (CapWorld J K ρ) Unit).exec w.env =
      (w.env, .ok ()) := by
    rw [Co.exec_lift_ok hstart, ← homs]
    rfl
  rw [Co.exec_lift_ok hlifted]
  exact h

theorem asleep_openBus : StaysAsleep w₀
    (Supervisor.openBus : Coro (RuntimeWorld (CapWorld J K ρ)) Unit) := by
  have hbus : ∀ (p : Coro (EventBus (CapWorld J K ρ)) Unit),
      (∀ bus, EventBus.Knows ρ bus → EventBus.Knows ρ (p.exec bus).1) →
        StaysAsleep w₀ (p.lift : Coro (RuntimeWorld (CapWorld J K ρ)) Unit) := by
    intro p hp
    rw [StaysAsleep, keeps_alone]
    intro w h
    rw [Co.exec_lift]
    exact ⟨h.1, hp w.bus h.2⟩
  have hstart := hbus EventBus.start fun bus hknows => by
    simp only [EventBus.start, Co.bind_eq, Co.exec_bind, Co.exec_get]
    split <;> exact hknows
  have hsubscribe := hbus (EventBus.subscribe .onBreakerTripped) fun bus hknows => by
    simp only [EventBus.subscribe, Co.bind_eq, Co.exec_bind, Co.exec_get]
    split
    · exact hknows
    · exact hknows.subscribe bus.started bus.stopped
  exact keeps_bind hstart fun _ => keeps_bind (keeps_modify fun _ _ _ h => h) fun _ => hsubscribe

theorem asleep_transition (seen newState : SystemState) (reason : String) : StaysAsleep w₀
    (Supervisor.transition (capComponents cfg orderJournal accountJournal others) seen newState
      reason) := by
  refine keeps_bind keeps_get fun w => keeps_bind (asleep_frames frames_shown_clock) fun now =>
    keeps_bind (keeps_modify fun _ _ _ h => h) fun _ => keeps_announce ?_
      (asleep_frames (frames_shown_other _))
  intro l s₀ s h accepts callback hmem event
  obtain ⟨p, hp⟩ := h.2 accepts callback hmem event
  rw [hp]
  exact asleep_frames (frames_shown_other p)

theorem asleep_start {j : J} (hnone : (orderJournal.readOpenOrders none).exec j = (j, .ok []))
    (hnew : w₀.env.env.oms = .new j) : StaysAsleep w₀
      (Supervisor.start (capComponents cfg orderJournal accountJournal others)) := by
  have hstarts : ∀ component ∈ (capComponents cfg orderJournal accountJournal others).lifecycles,
      StaysAsleep w₀ (component.start.lift : Coro (RuntimeWorld (CapWorld J K ρ)) Unit) := by
    intro component hmem
    rcases mem_capLifecycles hmem with ⟨c, rfl⟩ | rfl | rfl
    · exact asleep_frames (frames_shown_other c.start)
    · exact asleep_omsStart hnone hnew
    · exact asleep_frames (frames_shown_accounts _)
  have hinitial : (Supervisor.initialReconciliation (capComponents cfg orderJournal accountJournal
      others)).Frames CapWorld.shown :=
    Co.frames_bind (frames_shown_of_timeless (timeless_getOpenOrders none)) fun _ =>
    Co.frames_bind (frames_shown_of_timeless timeless_getPositions) fun _ =>
    Co.frames_bind (frames_shown_of_timeless timeless_getBalance) fun _ => frames_shown_reconcile
  apply keeps_bind keeps_get
  intro w
  split
  · exact keeps_throw _
  · refine keeps_bind ?_ fun _ => keeps_bind (asleep_frames hinitial) fun _ =>
      keeps_bind (asleep_transition _ _ _) fun _ => keeps_modify fun _ _ _ h => h
    exact keeps_bind (keeps_startPersistence hstarts) fun _ => keeps_bind asleep_openBus fun _ =>
      keeps_bind (asleep_transition _ _ _) fun _ => keeps_connect hstarts

/-- Where the journal lists no open order, a start that completes leaves the system in step. -/
theorem inStep_started {j : J} {k : K} {clock : Clock} {rest : ρ}
    (hnone : (orderJournal.readOpenOrders none).exec j = (j, .ok []))
    (hstarted : (capStarted cfg orderJournal accountJournal others subs j k clock rest).2 = .ok ()) :
    InStep subs (capStarted cfg orderJournal accountJournal others subs j k clock rest).1 := by
  let boot : RuntimeWorld (CapWorld J K ρ) :=
    capSystem ⟨.booting, false, false⟩ (.wired subs) j k clock rest
  obtain ⟨w, hexec⟩ : ∃ w, (Supervisor.start (capComponents cfg orderJournal accountJournal
      others)).exec boot = (w, .ok ()) := ⟨_, Prod.ext rfl hstarted⟩
  have hend : Asleep boot w :=
    (asleep_start hnone rfl).of_exec hexec ⟨rfl, EventBus.knows_wired subs⟩
  have hstage := stage_started hexec
  have hw : (capStarted cfg orderJournal accountJournal others subs j k clock rest).1 = w :=
    congrArg Prod.fst hexec
  rw [hw]
  refine ⟨(mirrors_new j clock _).congr (congrArg Prod.fst hend.1)
    (congrArg (fun t => t.2.orders) hend.1), ?_, congrArg Prod.fst hstage⟩
  have hrunning : w.state = .running := congrArg Prod.snd hstage
  rw [hrunning]
  decide

end Start

/-- Nothing has happened that trading would notice. -/
structure Unmoved (w₀ w : RuntimeWorld (CapWorld J K ρ)) : Prop where
  shown : w.env.shown = w₀.env.shown
  bus : w.bus = w₀.bus
  state : w.state = w₀.state

section Unmoved

variable {w₀ w : RuntimeWorld (CapWorld J K ρ)}

theorem Unmoved.refl (w : RuntimeWorld (CapWorld J K ρ)) : Unmoved w w := ⟨rfl, rfl, rfl⟩

theorem Unmoved.core (h : Unmoved w₀ w) : w.env.core = w₀.env.core := congrArg Prod.fst h.shown

theorem Unmoved.inStep (h : Unmoved w₀ w) (h₀ : InStep subs w₀) : InStep subs w where
  mirrors := h₀.mirrors.congr h.core (congrArg (fun t => t.2.orders) h.shown)
  begun := h.state ▸ h₀.begun
  wired := h.bus ▸ h₀.wired

theorem keeps_unmoved {α : Type} {p : Coro (CapWorld J K ρ) α} (hp : p.Frames CapWorld.shown) :
    (Contract.alone _).Keeps (fun _ _ => Unmoved w₀)
      (p.lift : Coro (RuntimeWorld (CapWorld J K ρ)) α) := by
  rw [keeps_alone]
  intro w h
  rw [Co.exec_lift]
  exact ⟨(hp.exec w.env).trans h.shown, h.bus, h.state⟩

theorem callbacks_unmoved (h₀ : InStep subs w₀) :
    CallbacksKeep (Contract.alone _) fun _ _ => Unmoved w₀ := by
  intro l s₀ s h accepts callback hmem event
  obtain ⟨p, hp⟩ := (h.inStep h₀).knows accepts callback hmem event
  rw [hp]
  exact keeps_unmoved (frames_shown_other p)

theorem keeps_heartbeat (h₀ : InStep subs w₀) : (Contract.alone _).Keeps (fun _ _ => Unmoved w₀)
    ((do let now ← Supervisor.readNow
         Supervisor.publish (capComponents cfg orderJournal accountJournal others)
          (.heartbeat ⟨"Supervisor", now⟩)) : Coro (RuntimeWorld (CapWorld J K ρ)) Unit) := by
  refine keeps_bind (keeps_unmoved frames_shown_clock) fun now => ?_
  rw [Supervisor.publish, publish_heartbeat]
  exact keeps_publish (callbacks_unmoved h₀) (fun _ => keeps_pure ()) _

end Unmoved

/-- A reconciliation caches what the venue lists at that moment, whatever fails later. -/
theorem reconciled_cache (w : CapWorld J K ρ) : ∃ (asked listed : CapWorld J K ρ) (ps : _),
    PaperVenue.getPositions.exec asked = (listed, .ok ps) ∧
      Lists w.venue w.venue.positions.entries ps ∧
      ((PositionManager.reconcile (notedVenue cfg orderJournal) accountJournal).exec w).1.accounted =
        (.ofList Position.symbol ps, some w.venue) := by
  let asked : CapWorld J K ρ :=
    { w with env := { w.env with rest := { w.env.rest with seen := some w.venue } } }
  obtain ⟨ps, clock, hexec, hps⟩ := exec_getPositions asked
  have hlisted : (notedVenue cfg orderJournal).getPositions.exec w =
      ({ asked with clock := clock }, .ok ps) := hexec
  let cached : CapWorld J K ρ := Part.put { asked.env.rest.pms with
    cachedPositions := .ofList Position.symbol ps } { asked with clock := clock }
  have hbalance : (getBalance cfg : Coro (CapWorld J K ρ) Balance).Frames CapWorld.accounted :=
    frames_getBalance (v := fun e : OmsEnv J (Accounts K ρ) => (e.rest.pms.cachedPositions, e.rest.seen))
  have hstored : ∀ b, ((Co.modify fun m : PositionManager K =>
      { m with cachedBalance := some b }).lift : Coro (CapWorld J K ρ) Unit).Frames
        CapWorld.accounted := fun b _ => ⟨rfl, trivial⟩
  obtain ⟨rest, hrest, hreconcile⟩ : ∃ rest : Coro (CapWorld J K ρ) Unit,
      rest.Frames CapWorld.accounted ∧
        (PositionManager.reconcile (notedVenue cfg orderJournal) accountJournal).exec w =
          rest.exec cached := by
    cases accountJournal with
    | none =>
      exact ⟨_, Co.frames_bind hbalance fun b => Co.frames_bind (hstored b) fun _ =>
        Co.frames_pure (), Co.exec_bind_ok hlisted⟩
    | some journal =>
      exact ⟨_, Co.frames_bind hbalance fun b => Co.frames_bind (hstored b) fun _ =>
        (frames_snapshot journal).lift.prod (Co.frames_lift _ fun _ _ => rfl),
        Co.exec_bind_ok hlisted⟩
  refine ⟨_, _, ps, hexec, hps, ?_⟩
  rw [hreconcile]
  exact hrest.exec cached

/-- After a reconciliation the cache shows what is over a cap. -/
theorem reconciled_over (w : CapWorld J K ρ) (max : Decimal) :
    (∃ pos ∈ ((PositionManager.reconcile (notedVenue cfg orderJournal)
        accountJournal).exec w).1.env.rest.pms.cachedPositions.values, max < pos.notional) ↔
      w.venue.Over max := by
  obtain ⟨-, -, ps, -, hps, hcached⟩ := @reconciled_cache J K ρ cfg orderJournal accountJournal w
  simp only [CapWorld.accounted, Prod.mk.injEq] at hcached
  rw [hcached.1]
  exact hps.over_cached max

/-- The action has the supervisor cancel everything, in this state. -/
def TriggerAction.Clears (action : TriggerAction) (state : SystemState) : Prop :=
  action = .cancelAll ∨ action = .flatten ∨ action = .quarantine ∧ state = .running

section Handler

variable {w₀ w : RuntimeWorld (CapWorld J K ρ)} {event : BreakerTripped}

/-- The book is empty, and nothing else has changed at the venue. -/
def Cleared (subs : List (Subscription ρ)) (w₀ w : RuntimeWorld (CapWorld J K ρ)) : Prop :=
  InStep subs w ∧ Cancels (fun _ => True) w₀.env.core w.env.core

theorem keeps_inert (hinert : ¬event.action.Clears w₀.state) :
    (Contract.alone _).Keeps (fun _ _ => Unmoved w₀) (Supervisor.onBreakerTripped
      (capComponents cfg orderJournal accountJournal others) event :
        Coro (RuntimeWorld (CapWorld J K ρ)) Unit) := by
  rw [Supervisor.onBreakerTripped]
  cases haction : event.action with
  | rejectNew => exact keeps_pure ()
  | cancelAll => exact absurd (.inl haction) hinert
  | flatten => exact absurd (.inr (.inl haction)) hinert
  | quarantine =>
    rw [keeps_alone]
    intro w h
    have hstate : w.state ≠ .running := by
      intro hrunning
      exact hinert (.inr (.inr ⟨haction, h.state ▸ hrunning⟩))
    simp only [Supervisor.quarantine, Co.bind_eq, Co.exec_bind, Co.exec_get, if_pos hstate]
    exact h

variable (hj : orderJournal.Reliable)

include hj

theorem tryCancelAll_clears (h₀ : InStep subs w₀) (h : Unmoved w₀ w) : ∃ w',
    (Supervisor.tryCancelAll (capComponents cfg orderJournal accountJournal others)).exec w =
      (w', .ok ()) ∧ Cleared subs w₀ w' := by
  have hw := h.inStep h₀
  obtain ⟨w', hexec, hw', hcancels⟩ := exec_cancelAll cfg hj quiet_none quiet_none hw.mirrors none
  have hcancel : ((capComponents cfg orderJournal accountJournal others).cancelAll.lift :
      Coro (RuntimeWorld (CapWorld J K ρ)) Nat).exec w =
        ({ w with env := w' }, .ok _) := Co.exec_lift_ok hexec
  refine ⟨{ w with env := w' }, ?_, ⟨hw', hw.begun, hw.wired⟩, ?_⟩
  · rw [Supervisor.tryCancelAll, Co.exec_suppress, hcancel]
    rw [hcancel]
    exact fun e he => by cases he
  · rw [h.core] at hcancels
    exact hcancels.congr fun _ _ _ => ⟨fun _ => trivial, fun _ => rfl⟩

theorem exec_clearing (h₀ : InStep subs w₀) (hclears : event.action.Clears w₀.state)
    (h : Unmoved w₀ w) : Cleared subs w₀ ((Supervisor.onBreakerTripped
      (capComponents cfg orderJournal accountJournal others) event).exec w).1 := by
  have hguards := @guards_inStep J K ρ cfg orderJournal accountJournal others subs _
    (withstands_cleared w₀.env.core) hj
  obtain ⟨w', hexec, hcleared⟩ := @tryCancelAll_clears J K ρ cfg orderJournal accountJournal others
    subs w₀ w hj h₀ h
  rw [Supervisor.onBreakerTripped]
  rcases hclears with haction | haction | ⟨haction, hrunning⟩
  · rw [haction]
    exact (congrArg Prod.fst hexec) ▸ hcleared
  · rw [haction]
    dsimp only
    rw [Co.bind_eq, Co.exec_bind_ok hexec]
    exact (hguards.quarantine (by decide) _ _).exec hcleared
  · have hstate : ¬ w.state ≠ .running := not_not.mpr (h.state.trans hrunning)
    rw [haction]
    simp only [Supervisor.quarantine, Co.bind_eq]
    rw [Co.exec_bind_ok (Co.exec_get w), if_neg hstate, Co.exec_bind_ok hexec]
    apply Keeps.exec (C := Contract.alone _) _ hcleared
    exact keeps_bind (hguards.transition (by decide) _) fun _ =>
      keeps_bind (hguards.component .now) fun now => hguards.component (.alert _)

end Handler

section Tick

variable {w₀ w : RuntimeWorld (CapWorld J K ρ)}

theorem publish_inert (h₀ : InStep subs w₀) {event : BreakerTripped}
    (hinert : ¬(w₀.bus.Live ∧ event.action.Clears w₀.state)) (h : Unmoved w₀ w) :
    Unmoved w₀ ((Supervisor.publish (capComponents cfg orderJournal accountJournal others)
      (.breakerTripped event)).exec w).1 := by
  have hbus : (Part.view w : EventBus (CapWorld J K ρ)) = w₀.bus := h.bus
  rw [Supervisor.publish]
  by_cases hup : w₀.bus.started = true ∧ w₀.bus.stopped = false
  · rw [exec_publish_live _ _ (hbus ▸ hup.1) (hbus ▸ hup.2), hbus]
    apply Keeps.exec (C := Contract.alone _) _ h
    apply keeps_forEach
    intro sub hsub
    cases sub with
    | external accepts callback =>
      rw [EventBus.dispatch]
      split
      · obtain ⟨p, hp⟩ := h₀.knows accepts callback hsub (.breakerTripped event)
        rw [hp]
        exact keeps_suppress (keeps_unmoved (frames_shown_other p))
      · exact keeps_pure ()
    | onBreakerTripped =>
      exact keeps_suppress (keeps_inert fun hclears => hinert ⟨⟨hup.1, hup.2, hsub⟩, hclears⟩)
  · rw [exec_publish_dead _ _ (hbus ▸ hup)]
    exact h

theorem publish_clears (hj : orderJournal.Reliable) (hsubs : ∀ sub ∈ subs, sub.RaisesErrors)
    (h₀ : InStep subs w₀) {event : BreakerTripped} (hlive : w₀.bus.Live)
    (hclears : event.action.Clears w₀.state) (h : Unmoved w₀ w) :
    Cleared subs w₀ ((Supervisor.publish (capComponents cfg orderJournal accountJournal others)
      (.breakerTripped event)).exec w).1 := by
  let comps := capComponents cfg orderJournal accountJournal others
  have hbus : (Part.view w : EventBus (CapWorld J K ρ)) = w₀.bus := h.bus
  have hexternal : ∀ accepts callback, .external accepts callback ∈ w₀.bus.subs →
      ∃ p : Coro ρ Unit, callback (.breakerTripped event) = p.lift :=
    fun accepts callback hmem => h₀.knows accepts callback hmem _
  have hguards := @guards_inStep J K ρ cfg orderJournal accountJournal others subs _
    (withstands_cleared w₀.env.core) hj
  let turn : Subscription (CapWorld J K ρ) → Coro (RuntimeWorld (CapWorld J K ρ)) Unit :=
    EventBus.dispatch (Supervisor.onBreakerTripped comps) (.breakerTripped event)
  have hreach : ∀ s, Unmoved w₀ s → Cleared subs w₀ ((turn .onBreakerTripped).exec s).1 := by
    intro s hs
    simp only [turn, EventBus.dispatch, Co.exec_suppress_fst]
    exact exec_clearing hj h₀ hclears hs
  have hkeep : ∀ sub ∈ w₀.bus.subs, ∀ s, Unmoved w₀ s →
      (turn sub).exec s = (((turn sub).exec s).1, .ok ()) ∧ Unmoved w₀ ((turn sub).exec s).1 ∨
        Cleared subs w₀ ((turn sub).exec s).1 := by
    intro sub hsub s hs
    cases sub with
    | external accepts callback =>
      obtain ⟨p, hp⟩ := hexternal accepts callback hsub
      have hraises : Co.RaisesErrors (callback (.breakerTripped event)) :=
        h₀.raises hsubs _ hsub _
      refine .inl ⟨?_, ?_⟩
      · simp only [turn, EventBus.dispatch]
        split
        · exact (Co.raises_suppress hraises.lift).exec_unit s
        · rfl
      · simp only [turn, EventBus.dispatch, hp]
        split
        · rw [Co.exec_suppress_fst]
          exact (keeps_unmoved (frames_shown_other p)).exec hs
        · exact hs
    | onBreakerTripped => exact .inr (hreach s hs)
  have hstay : ∀ sub ∈ w₀.bus.subs, ∀ s, Cleared subs w₀ s →
      Cleared subs w₀ ((turn sub).exec s).1 := by
    intro sub hsub s hs
    cases sub with
    | external accepts callback =>
      obtain ⟨p, hp⟩ := hexternal accepts callback hsub
      simp only [turn, EventBus.dispatch, hp]
      split
      · rw [Co.exec_suppress_fst]
        exact ((cancelsOnly_of_shown (frames_shown_other p)).stays
          (withstands_cleared w₀.env.core)).exec hs
      · exact hs
    | onBreakerTripped =>
      simp only [turn, EventBus.dispatch, Co.exec_suppress_fst]
      exact (hguards.onBreakerTripped (by decide) event).exec hs
  rw [Supervisor.publish, exec_publish_live _ _ (hbus ▸ hlive.started) (hbus ▸ hlive.stopped), hbus]
  exact Co.exec_forEach_reaches hlive.subscribed hreach hkeep hstay h

theorem publish_cancels (hj : orderJournal.Reliable) (hsubs : ∀ sub ∈ subs, sub.RaisesErrors)
    (h₀ : InStep subs w₀) (event : BreakerTripped) (h : Unmoved w₀ w) :
    Cancels (fun _ => w₀.bus.Live ∧ event.action.Clears w₀.state) w₀.env.core
      ((Supervisor.publish (capComponents cfg orderJournal accountJournal others)
        (.breakerTripped event)).exec w).1.env.core := by
  by_cases hclears : w₀.bus.Live ∧ event.action.Clears w₀.state
  · obtain ⟨-, hcleared⟩ := @publish_clears J K ρ cfg orderJournal accountJournal others subs w₀ w
      hj hsubs h₀ event hclears.1 hclears.2 h
    exact hcleared.congr fun _ _ _ => ⟨fun _ => hclears, fun _ => trivial⟩
  · have hunmoved := @publish_inert J K ρ cfg orderJournal accountJournal others subs w₀ w h₀ event
      hclears h
    rw [hunmoved.core]
    exact cancels_none fun _ _ _ => hclears

/-- The breaker clears the book at a tick from here. -/
def Fires (breaker : PositionNotionalBreaker) (w : RuntimeWorld (CapWorld J K ρ)) : Prop :=
  w.env.venue.Over breaker.maxNotionalUsd ∧ w.bus.Live ∧ breaker.action.Clears w.state

theorem evaluate_action {context : RiskContext} {trigger : Trigger}
    (h : breaker.evaluate str context = some trigger) : trigger.action = breaker.action := by
  obtain ⟨pos, -, rfl⟩ := Option.map_eq_some_iff.mp h
  rfl

/-- The breaker's turn, asked about a cache that shows what is over the cap. -/
theorem tickBreaker_cancels (hj : orderJournal.Reliable)
    (hsubs : ∀ sub ∈ subs, sub.RaisesErrors) (h₀ : InStep subs w₀) (h : Unmoved w₀ w)
    {context : RiskContext} (hover : (∃ pos ∈ context.positions,
      breaker.maxNotionalUsd < pos.notional) ↔ w₀.env.venue.Over breaker.maxNotionalUsd) :
    Cancels (fun _ => Fires breaker w₀) w₀.env.core
      ((RiskManager.tickBreaker (capComponents cfg orderJournal accountJournal others) context
        (breaker.circuitBreaker str)).exec w).1.env.core := by
  have hanswer : ((breaker.circuitBreaker str).run context : Coro (CapWorld J K ρ) _).exec w.env =
      (w.env, .ok (breaker.evaluate str context)) := rfl
  have hrun : (((breaker.circuitBreaker str).run context : Coro (CapWorld J K ρ) _).lift :
      Coro (RuntimeWorld (CapWorld J K ρ)) (Option Trigger)).exec w =
        (w, .ok (breaker.evaluate str context)) := Co.exec_lift_ok hanswer
  rw [RiskManager.tickBreaker, Co.bind_eq, Co.exec_bind_ok hrun]
  cases htrigger : breaker.evaluate str context with
  | none =>
    have hunder := (breaker.evaluate_eq_none_iff str context).mp htrigger
    have hcore : (w.env.core : PaperCore) = w₀.env.core := h.core
    dsimp only
    rw [Co.pure_eq, Co.exec_pure, hcore]
    exact cancels_none fun _ _ _ hfires => hunder (hover.mpr hfires.1)
  | some trigger =>
    have hexceeds : w₀.env.venue.Over breaker.maxNotionalUsd := by
      by_contra hunder
      rw [← hover, ← breaker.evaluate_eq_none_iff str, htrigger] at hunder
      cases hunder
    have hnow : (Supervisor.readNow : Coro (RuntimeWorld (CapWorld J K ρ)) Time).exec w =
        ({ w with env := w.env.tick }, .ok (w.env.clock.reading w.env.clock.reads)) := rfl
    have htripped : Unmoved w₀ { w with env := w.env.tick } := ⟨h.shown, h.bus, h.state⟩
    dsimp only
    rw [Co.bind_eq, Co.exec_bind_ok hnow]
    refine (publish_cancels hj hsubs h₀ _ htripped).congr fun _ _ _ => ?_
    rw [evaluate_action htrigger]
    exact ⟨fun hclears => ⟨hexceeds, hclears⟩, fun hfires => hfires.2⟩

theorem raises_reconcile (haccounts : ∀ journal ∈ accountJournal, journal.RaisesErrors) :
    (PositionManager.reconcile (notedVenue cfg orderJournal) accountJournal :
      Coro (CapWorld J K ρ) Unit).RaisesErrors := by
  have hpositions : ∀ entries, (buildPositions entries :
      Coro (CapWorld J K ρ) (List Position)).RaisesErrors := by
    intro entries
    induction entries with
    | nil => trivial
    | cons e entries ih =>
      rw [buildPositions]
      split
      · exact ih
      · exact Co.raises_bind (fun _ _ => trivial) fun _ => Co.raises_bind ih fun _ => trivial
  refine Co.raises_bind (fun _ _ => hpositions _) fun _ => Co.raises_bind (fun _ => trivial) fun _ =>
    Co.raises_bind (fun _ _ => trivial) fun _ => Co.raises_bind (fun _ => trivial) fun _ => ?_
  cases accountJournal with
  | none => trivial
  | some journal => exact (PositionManager.raises_snapshot (haccounts journal rfl)).lift

theorem tickOnce_cancels (hj : orderJournal.Reliable) (hsubs : ∀ sub ∈ subs, sub.RaisesErrors)
    (haccounts : ∀ journal ∈ accountJournal, journal.RaisesErrors) (h₀ : InStep subs w₀) :
    Cancels (fun _ => Fires breaker w₀) w₀.env.core ((Supervisor.tickOnce
      (capComponents cfg orderJournal accountJournal others)
      (capRisk cfg orderJournal breaker str)).exec w₀).1.env.core := by
  have hbeat := (@keeps_heartbeat J K ρ cfg orderJournal accountJournal others subs w₀ h₀).exec
    (Unmoved.refl w₀)
  have hreconcile : ∀ w : RuntimeWorld (CapWorld J K ρ),
      ((capComponents cfg orderJournal accountJournal others).reconcile.lift :
        Coro (RuntimeWorld (CapWorld J K ρ)) Unit).suppress.exec w = _ :=
    fun w => Co.exec_suppress fun e he => (raises_reconcile haccounts).lift.exec he
  rw [Supervisor.tickOnce, Co.bind_eq,
    Co.exec_bind_ok (Co.exec_suppress fun e he => exec_heartbeat_errors (h₀.raises hsubs) he), Co.bind_eq,
    Co.exec_bind_ok (hreconcile _), Co.exec_suppress_fst]
  generalize (Co.exec _ w₀).1 = w₁ at hbeat ⊢
  rw [Co.exec_lift]
  let reconciled : RuntimeWorld (CapWorld J K ρ) := Part.put ((PositionManager.reconcile
    (notedVenue cfg orderJournal) accountJournal).exec w₁.env).1 w₁
  have hreconciled : Unmoved w₀ reconciled :=
    ⟨(frames_shown_reconcile.exec w₁.env).trans hbeat.shown, hbeat.bus, hbeat.state⟩
  have hvenue : w₁.env.venue = w₀.env.venue := congrArg Prod.fst hbeat.core
  have hover := @reconciled_over J K ρ cfg orderJournal accountJournal w₁.env
    breaker.maxNotionalUsd
  rw [hvenue] at hover
  obtain ⟨e, context, hblock, hpositions⟩ :=
    @block_buildContext J K ρ cfg orderJournal breaker str reconciled.env
  have hbuild := Co.exec_of_block hblock
  have hcontext : Unmoved w₀ { reconciled with env := e } := by
    have hshown := frames_shown_buildContext.exec (p := (capRisk cfg orderJournal breaker
      str).buildContext) reconciled.env
    rw [hbuild] at hshown
    exact ⟨hshown.trans hreconciled.shown, hreconciled.bus, hreconciled.state⟩
  have hlisted : context.positions = ((PositionManager.reconcile (notedVenue cfg orderJournal)
      accountJournal).exec w₁.env).1.env.rest.pms.cachedPositions.values := hpositions
  rw [← hlisted] at hover
  have hturn := @tickBreaker_cancels J K ρ cfg orderJournal accountJournal others breaker str
    subs w₀ { reconciled with env := e } hj hsubs h₀ hcontext context hover
  have htick : (RiskManager.tick (capRisk cfg orderJournal breaker str)
      (capComponents cfg orderJournal accountJournal others)).exec reconciled =
      ((RiskManager.tickBreaker (capComponents cfg orderJournal accountJournal others) context
        (breaker.circuitBreaker str)).bind fun _ => .pure ()).exec { reconciled with env := e } :=
    Co.exec_bind_ok (Co.exec_lift_ok hbuild)
  have hend := congrArg Prod.fst htick
  rw [Co.exec_discard] at hend
  exact hend ▸ hturn

end Tick

end Supervise

section Runs

variable {J K ρ : Type} (cfg : PaperConfig) {orderJournal : OrderJournal J}
  (hj : orderJournal.Reliable) (accountJournal : Option (AccountJournal K)) (others : Components ρ)
  (breaker : PositionNotionalBreaker) (str : Decimal → String) (subs : List (Subscription ρ))
  (j : J) (k : K) (clock : Clock) (rest : ρ)
  (hnone : (orderJournal.readOpenOrders none).exec j = (j, .ok []))
  (hstarted : (capStarted cfg orderJournal accountJournal others subs j k clock rest).2 = .ok ())

include hj hnone hstarted

/-- Once started, and after any operations, one after another, a tick cancels all orders if the
breaker fires and none otherwise; positions and fills stay as they are, and the manager knows. -/
theorem tick_cancels_iff_fires (hsubs : ∀ sub ∈ subs, sub.RaisesErrors)
    (haccounts : ∀ journal ∈ accountJournal, journal.RaisesErrors) (ops : List SystemOp) :
    let w := ops.foldl (SystemOp.perform cfg orderJournal accountJournal others breaker str)
      (capStarted cfg orderJournal accountJournal others subs j k clock rest).1
    let w' := SystemOp.tick.perform cfg orderJournal accountJournal others breaker str w
    Cancels (fun _ => Fires breaker w) w.env.core w'.env.core ∧
      ∀ order, order ∈ w'.env.env.oms.live none ↔
        order ∈ w.env.venue.openOrders.values ∧ ¬Fires breaker w := by
  intro w w'
  have hw : InStep subs w := inStep_run hj (inStep_started hnone hstarted) ops
  have hcancels : Cancels (fun _ => Fires breaker w) w.env.core w'.env.core :=
    tickOnce_cancels hj hsubs haccounts hw
  exact ⟨hcancels, (inStep_perform hj .tick hw).mirrors.live_of_cancels hcancels⟩

/-- Whatever the supervisor, once started, is asked to do, it cancels orders at most: none is
placed or filled and no position changes. The manager lists those that are left. -/
theorem supervisor_only_cancels (ops : List SystemOp) (op : SupervisorOp) :
    let w := ops.foldl (SystemOp.perform cfg orderJournal accountJournal others breaker str)
      (capStarted cfg orderJournal accountJournal others subs j k clock rest).1
    let w' := (SystemOp.supervise op).perform cfg orderJournal accountJournal others breaker str w
    ∃ gone : Order → Prop, Cancels gone w.env.core w'.env.core ∧
      ∀ order, order ∈ w'.env.env.oms.live none ↔
        order ∈ w.env.venue.openOrders.values ∧ ¬gone order := by
  intro w w'
  have hw : InStep subs w := inStep_run hj (inStep_started hnone hstarted) ops
  obtain ⟨hw', gone, hgone⟩ := (supervise_inStep (withstands_cancelled w.env.core) hj op).exec
    ⟨hw, fun _ => False, cancels_none fun _ _ _ h => h⟩
  exact ⟨gone, hgone, hw'.mirrors.live_of_cancels hgone⟩

end Runs

def cancellingCap : PositionNotionalBreaker := { smallCap with action := .cancelAll }

def restingBuy : TradeIntent := ⟨"BTC", .buy, .limit, 1, some 50, .gtc, false⟩

/-- A position of one, an order that rests, and a price that doubles. -/
def overTheCap : List SystemOp :=
  [.oms (.onOrderbook ⟨"BTC", [⟨99, 9⟩], [⟨101, 9⟩], 0, 0⟩), .submitIntent "c1" buyOne,
    .submitIntent "c2" restingBuy, .oms (.onOrderbook ⟨"BTC", [⟨199, 9⟩], [⟨201, 9⟩], 0, 0⟩)]

/-- No subscriber but the supervisor, and nothing in the journals. -/
def capReady : RuntimeWorld (CapWorld OrderTables AccountTables Unit) × Except PyError Unit :=
  capStarted ⟨.immediate "USDT", 1000, "USDT"⟩ InMemoryOrderJournal.journal
    (some InMemoryAccountJournal.journal) (idleComponents (ε := Unit)) [] ⟨[], []⟩ ⟨[], []⟩
    ⟨fun n => n, 0⟩ ()

def overTheCapSystem : RuntimeWorld (CapWorld OrderTables AccountTables Unit) :=
  overTheCap.foldl (SystemOp.perform ⟨.immediate "USDT", 1000, "USDT"⟩
    InMemoryOrderJournal.journal (some InMemoryAccountJournal.journal) idleComponents cancellingCap
    fun _ => "") capReady.1

def Subscription.isHandler {ε : Type} : Subscription ε → Bool
  | .external _ _ => false
  | .onBreakerTripped => true

theorem overTheCap_fires : Fires cancellingCap overTheCapSystem := by
  have hhandler : overTheCapSystem.bus.subs.any Subscription.isHandler = true := by decide +kernel
  obtain ⟨sub, hsub, hkind⟩ := List.any_eq_true.mp hhandler
  refine ⟨by decide +kernel, ⟨by decide +kernel, by decide +kernel, ?_⟩, .inl rfl⟩
  cases sub with
  | external accepts callback => cases hkind
  | onBreakerTripped => exact hsub

/-- The resting order is gone after the tick. -/
theorem tick_over_the_cap :
    overTheCapSystem.env.venue.openOrders.keys = ["paper-2"] ∧
      (SystemOp.tick.perform ⟨.immediate "USDT", 1000, "USDT"⟩ InMemoryOrderJournal.journal
        (some InMemoryAccountJournal.journal) idleComponents cancellingCap (fun _ => "")
        overTheCapSystem).env.env.oms.live none = [] := by
  refine ⟨by decide +kernel, List.eq_nil_iff_forall_not_mem.mpr fun order horder => ?_⟩
  have hlive := (tick_cancels_iff_fires ⟨.immediate "USDT", 1000, "USDT"⟩
    InMemoryOrderJournal.reliable (some InMemoryAccountJournal.journal) idleComponents
    cancellingCap (fun _ => "") [] ⟨[], []⟩ ⟨[], []⟩ ⟨fun n => n, 0⟩ () rfl (by decide +kernel)
    (fun _ h => absurd h List.not_mem_nil)
    (fun _ h => Option.some.inj h ▸ InMemoryAccountJournal.raisesErrors) overTheCap).2 order
  exact (hlive.mp horder).2 overTheCap_fires

/-- A quarantine by hand fills nothing. -/
theorem quarantine_fills_nothing : fillsOf ((SystemOp.supervise (.quarantine "manual" none)).perform
    ⟨.immediate "USDT", 1000, "USDT"⟩ InMemoryOrderJournal.journal
      (some InMemoryAccountJournal.journal) idleComponents cancellingCap (fun _ => "")
      overTheCapSystem).env.trace = fillsOf overTheCapSystem.env.trace := by
  obtain ⟨gone, hgone, -⟩ := supervisor_only_cancels ⟨.immediate "USDT", 1000, "USDT"⟩
    InMemoryOrderJournal.reliable (some InMemoryAccountJournal.journal) idleComponents
    cancellingCap (fun _ => "") [] ⟨[], []⟩ ⟨[], []⟩ ⟨fun n => n, 0⟩ () rfl (by decide +kernel)
    overTheCap (.quarantine "manual" none)
  exact hgone.fills

end Trading
