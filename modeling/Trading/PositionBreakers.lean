import Trading.ExecutorGate
import Trading.KillSwitch

/-!
# The breakers without a memory

They look at the positions or at the funding rates, and the first offender trips them. On the
paper venue most of this cannot happen: it reports no leverage and no liquidation price, and
nobody fills in the funding rates.
-/
namespace Trading

open Async Data Contract RuntimeWorld PaperVenue PaperWorld

/-- How Python prints a decimal: as it is, and in percent with `n` decimals. -/
structure DecimalTexts where
  str : Decimal → String
  percent : Nat → Decimal → String

/-- A limit that is not positive raises `ValueError`, here and below. -/
structure LeverageBreaker where
  maxLeverage : Decimal
  action : TriggerAction := .rejectNew
  breakerName : String := "LeverageBreaker"
  positive : 0 < maxLeverage

/-- A position's turn. -/
def LeverageBreaker.examine (b : LeverageBreaker) (texts : DecimalTexts) (pos : Position) :
    Option Trigger :=
  if b.maxLeverage < pos.leverage then some
    { breakerName := b.breakerName, action := b.action
      reason := s!"{pos.symbol} leverage {texts.str pos.leverage}x > {texts.str b.maxLeverage}x" }
  else none

def LeverageBreaker.evaluate (b : LeverageBreaker) (texts : DecimalTexts) (context : RiskContext) :
    Option Trigger := context.positions.findSome? (b.examine texts)

structure LiquidationDistanceBreaker where
  minDistance : Decimal
  action : TriggerAction := .flatten
  breakerName : String := "LiquidationDistanceBreaker"
  positive : 0 < minDistance

/-- Positions that cannot be liquidated, or have no price, are skipped. -/
def LiquidationDistanceBreaker.examine (b : LiquidationDistanceBreaker) (texts : DecimalTexts)
    (pos : Position) : Option Trigger :=
  match pos.liquidationPrice with
  | none => none
  | some liquidation =>
    if pos.markPrice ≤ 0 then none
    else
      let distance := |pos.markPrice - liquidation| / pos.markPrice
      if distance < b.minDistance then some
        { breakerName := b.breakerName, action := b.action
          reason := s!"{pos.symbol} liq distance {texts.percent 2 distance} " ++
            s!"< {texts.percent 2 b.minDistance} " ++
            s!"(mark {texts.str pos.markPrice}, liq {texts.str liquidation})" }
      else none

def LiquidationDistanceBreaker.evaluate (b : LiquidationDistanceBreaker) (texts : DecimalTexts)
    (context : RiskContext) : Option Trigger := context.positions.findSome? (b.examine texts)

/-- Without `symbols` every symbol is tracked. -/
structure FundingSpikeBreaker where
  maxAbsRate : Decimal
  symbols : Option (List Symbol) := none
  action : TriggerAction := .rejectNew
  breakerName : String := "FundingSpikeBreaker"
  positive : 0 < maxAbsRate

def FundingSpikeBreaker.examine (b : FundingSpikeBreaker) (texts : DecimalTexts)
    (entry : Symbol × FundingRate) : Option Trigger :=
  if b.symbols.any fun symbols => entry.1 ∉ symbols then none
  else if b.maxAbsRate < |entry.2.rate| then some
    { breakerName := b.breakerName, action := b.action
      reason := s!"{entry.1} funding {texts.percent 4 entry.2.rate} (|.|) > " ++
        texts.percent 4 b.maxAbsRate }
  else none

def FundingSpikeBreaker.evaluate (b : FundingSpikeBreaker) (texts : DecimalTexts)
    (context : RiskContext) : Option Trigger :=
  context.fundingRates.entries.findSome? (b.examine texts)

inductive StatelessBreaker where
  | notional (b : PositionNotionalBreaker)
  | leverage (b : LeverageBreaker)
  | liquidation (b : LiquidationDistanceBreaker)
  | funding (b : FundingSpikeBreaker)

namespace StatelessBreaker

def name : StatelessBreaker → String
  | notional b => b.breakerName
  | leverage b => b.breakerName
  | liquidation b => b.breakerName
  | funding b => b.breakerName

def evaluate (texts : DecimalTexts) (context : RiskContext) : StatelessBreaker → Option Trigger
  | notional b => b.evaluate texts.str context
  | leverage b => b.evaluate texts context
  | liquidation b => b.evaluate texts context
  | funding b => b.evaluate texts context

def circuitBreaker {ε : Type} (texts : DecimalTexts) (breaker : StatelessBreaker) :
    CircuitBreaker ε where
  evaluate context e := (e, .ok (breaker.evaluate texts context))

theorem evaluate_name {texts : DecimalTexts} {context : RiskContext} {breaker : StatelessBreaker}
    {trigger : Trigger} (h : breaker.evaluate texts context = some trigger) :
    trigger.breakerName = breaker.name := by
  cases breaker with
  | notional b => exact b.evaluate_name h
  | leverage b =>
    obtain ⟨pos, -, hpos⟩ := List.exists_of_findSome?_eq_some h
    rw [LeverageBreaker.examine, Option.ite_none_right_eq_some] at hpos
    cases hpos.2
    rfl
  | liquidation b =>
    obtain ⟨pos, -, hpos⟩ := List.exists_of_findSome?_eq_some h
    rw [LiquidationDistanceBreaker.examine] at hpos
    split at hpos
    · cases hpos
    · rw [Option.ite_none_left_eq_some, Option.ite_none_right_eq_some] at hpos
      cases hpos.2.2
      rfl
  | funding b =>
    obtain ⟨entry, -, hentry⟩ := List.exists_of_findSome?_eq_some h
    rw [FundingSpikeBreaker.examine, Option.ite_none_left_eq_some,
      Option.ite_none_right_eq_some] at hentry
    cases hentry.2.2
    rfl

end StatelessBreaker

/-- No leverage, and nothing to be liquidated. -/
def Position.Plain (pos : Position) : Prop := pos.leverage = 1 ∧ pos.liquidationPrice = none

/-- Some position is open. -/
def PaperVenue.Invested (v : PaperVenue) : Prop := ∃ e ∈ v.positions.entries, e.2.netQty ≠ 0

instance (v : PaperVenue) : Decidable v.Invested := inferInstanceAs (Decidable (∃ e ∈ _, _))

namespace StatelessBreaker

/-- What trips a breaker is a large position, or any position where the limit is below one. -/
def Objects (v : PaperVenue) : StatelessBreaker → Prop
  | notional b => v.Over b.maxNotionalUsd
  | leverage b => b.maxLeverage < 1 ∧ v.Invested
  | liquidation _ => False
  | funding _ => False

instance (v : PaperVenue) : DecidablePred (Objects v)
  | notional b => inferInstanceAs (Decidable (v.Over b.maxNotionalUsd))
  | leverage b => inferInstanceAs (Decidable (b.maxLeverage < 1 ∧ v.Invested))
  | liquidation _ => inferInstanceAs (Decidable False)
  | funding _ => inferInstanceAs (Decidable False)

variable {texts : DecimalTexts} {context : RiskContext}

theorem evaluate_leverage (b : LeverageBreaker) (hplain : ∀ pos ∈ context.positions, pos.Plain) :
    (b.evaluate texts context).isSome ↔ b.maxLeverage < 1 ∧ context.positions ≠ [] := by
  have hexamine : ∀ pos ∈ context.positions,
      ((b.examine texts pos).isSome ↔ b.maxLeverage < 1) := by
    intro pos hpos
    rw [LeverageBreaker.examine, (hplain pos hpos).1]
    split
    · next hlow => simp [hlow]
    · next hhigh => simp [hhigh]
  rw [LeverageBreaker.evaluate, List.findSome?_isSome_iff]
  constructor
  · rintro ⟨pos, hpos, hsome⟩
    exact ⟨(hexamine pos hpos).mp hsome, List.ne_nil_of_mem hpos⟩
  · rintro ⟨hlow, hne⟩
    obtain ⟨pos, hpos⟩ := List.exists_mem_of_ne_nil _ hne
    exact ⟨pos, hpos, (hexamine pos hpos).mpr hlow⟩

theorem evaluate_liquidation (b : LiquidationDistanceBreaker)
    (hplain : ∀ pos ∈ context.positions, pos.Plain) : b.evaluate texts context = none := by
  rw [LiquidationDistanceBreaker.evaluate, List.findSome?_eq_none_iff]
  intro pos hpos
  rw [LiquidationDistanceBreaker.examine, (hplain pos hpos).2]

end StatelessBreaker

section Frames

variable {ε ν : Type} {v : ε → ν} {cfg : PaperConfig} {subs : Subscribers (PaperWorld ε)}

/-- No subscriber changes what the view shows. -/
structure Subscribers.Frame (subs : Subscribers (PaperWorld ε)) (v : ε → ν) : Prop where
  order : ∀ cb ∈ subs.orderCbs, ∀ o, (cb o).Frames fun w => v w.env
  fill : ∀ cb ∈ subs.fillCbs, ∀ f, (cb f).Frames fun w => v w.env

theorem frames_record (f : PaperVenue → PaperVenue) (owed : List Notification) :
    (PaperWorld.record f owed : Coro (PaperWorld ε) Unit).Frames fun w => v w.env :=
  fun _ => ⟨rfl, trivial⟩

namespace Subscribers.Frame

variable (h : subs.Frame v)

include h

theorem notifyOrder (order : Order) :
    (PaperVenue.notifyOrder subs order).Frames fun w => v w.env :=
  Co.frames_forEach fun cb hcb => h.order cb hcb order

theorem tryFillOrder (oid : OrderId) (book : OrderbookSnapshot) :
    (PaperVenue.tryFillOrder cfg subs oid book).Frames fun w => v w.env := by
  apply Co.frames_bind frames_readVenue
  intro venue
  split
  · exact Co.frames_pure _
  · apply Co.frames_bind frames_readNow
    intro time
    split
    · exact Co.frames_pure _
    · exact Co.frames_bind (Co.frames_ofExcept _) fun updated =>
        Co.frames_bind (frames_record _ _) fun _ =>
        Co.frames_bind (Co.frames_forEach fun cb hcb => h.fill cb hcb _) fun _ => h.notifyOrder _

theorem onOrderbook (snapshot : OrderbookSnapshot) :
    (PaperVenue.onOrderbook cfg subs snapshot).Frames fun w => v w.env :=
  Co.frames_bind (frames_record _ _) fun _ => Co.frames_bind frames_readVenue fun _ =>
    Co.frames_forEach fun oid _ => h.tryFillOrder oid snapshot

theorem placeOrder (request : OrderRequest) :
    (PaperVenue.placeOrder cfg subs request).Frames fun w => v w.env := by
  have hlatest : ∀ order, (PaperVenue.tryFillLatest cfg subs order).Frames fun w => v w.env := by
    intro order
    apply Co.frames_bind frames_readVenue
    intro venue
    split
    · exact Co.frames_pure _
    · exact h.tryFillOrder _ _
  refine Co.frames_bind (frames_record _ _) fun _ => Co.frames_bind frames_readVenue fun venue =>
    Co.frames_bind frames_readNow fun time => Co.frames_bind (frames_record _ _) fun _ =>
    Co.frames_bind (h.notifyOrder _) fun _ => ?_
  split
  · exact Co.frames_bind (hlatest _) fun _ => Co.frames_pure _
  · exact Co.frames_pure _

theorem cancelOrder (oid : OrderId) :
    (PaperVenue.cancelOrder subs oid).Frames fun w => v w.env := by
  apply Co.frames_bind frames_readVenue
  intro venue
  split
  · exact Co.frames_pure _
  · exact Co.frames_bind frames_readNow fun _ => Co.frames_bind (frames_record _ _) fun _ =>
      Co.frames_bind (h.notifyOrder _) fun _ => Co.frames_pure _

theorem cancelEach (orders : List Order) (count : Nat) :
    (OrderManager.cancelEach (asVenue cfg subs) orders count).Frames fun w => v w.env := by
  induction orders generalizing count with
  | nil => exact Co.frames_pure _
  | cons order orders ih => exact Co.frames_bind (h.cancelOrder order.orderId) fun _ => ih _

end Subscribers.Frame

end Frames

section System

variable {J K ρ : Type} (cfg : PaperConfig) (orderJournal : OrderJournal J)
  (accountJournal : Option (AccountJournal K)) (others : Components ρ)
  (breakers : List StatelessBreaker) (texts : DecimalTexts)

def guardedRisk : RiskManager (CapWorld J K ρ) where
  positions := (PositionManager.positions : Coro (PositionManager K) (List Position)).lift
  balance := PositionManager.balance (J := K) (capVenue cfg orderJournal)
  openOrders := (OrderManager.openOrders none : Coro (OrderManager J) (List Order)).lift
  breakers := breakers.map (StatelessBreaker.circuitBreaker texts)

/-- `submit_intent` of the executor over these breakers. -/
def submitGuarded (cid : ClientOrderId) (intent : TradeIntent) :
    Coro (RuntimeWorld (CapWorld J K ρ)) SubmitResult :=
  Executor.submitIntent (capComponents cfg orderJournal accountJournal others)
    (guardedRisk cfg orderJournal breakers texts) orderJournal cid intent

inductive GuardedOp where
  | onOrderbook (snapshot : OrderbookSnapshot)
  | tick
  | submitIntent (cid : ClientOrderId) (intent : TradeIntent)
  | supervise (op : SupervisorOp)
  deriving DecidableEq, Repr

def GuardedOp.prog : GuardedOp → Coro (RuntimeWorld (CapWorld J K ρ)) Unit
  | .onOrderbook snapshot =>
    (PaperVenue.onOrderbook cfg (capSubscribers orderJournal) snapshot :
      Coro (CapWorld J K ρ) Unit).lift
  | .tick => Supervisor.tickOnce (capComponents cfg orderJournal accountJournal others)
      (guardedRisk cfg orderJournal breakers texts)
  | .submitIntent cid intent =>
    (submitGuarded cfg orderJournal accountJournal others breakers texts cid intent).bind
      fun _ => .pure ()
  | .supervise op => op.prog (capComponents cfg orderJournal accountJournal others)

end System

/-- The positions are those of the paper venue as it was last asked. -/
def Accounts.Shows {K ρ : Type} (a : Accounts K ρ) : Prop :=
  a.Fresh ∧ ∀ pos ∈ a.pms.cachedPositions.values, pos.Plain

/-- Whether anything is open. -/
theorem Accounts.Fresh.invested {K ρ : Type} {a : Accounts K ρ} (h : a.Fresh) :
    a.pms.cachedPositions.values ≠ [] ↔ ∃ v, a.seen = some v ∧ v.Invested := by
  constructor
  · intro hne
    obtain ⟨pos, hpos⟩ := List.exists_mem_of_ne_nil _ hne
    obtain ⟨v, hv, e, he, hopen, -⟩ := (h (pos.notional - 1)).mp ⟨pos, hpos, sub_one_lt _⟩
    exact ⟨v, hv, e, he, hopen⟩
  · rintro ⟨v, hv, e, he, hopen⟩
    obtain ⟨pos, hpos, -⟩ := (h (|e.2.netQty| * v.markPrice e.1 e.2.entryPrice - 1)).mpr
      ⟨v, hv, e, he, hopen, sub_one_lt _⟩
    exact List.ne_nil_of_mem hpos

section Keeps

variable {J K ρ : Type} {cfg : PaperConfig} {orderJournal : OrderJournal J}
  {accountJournal : Option (AccountJournal K)} {others : Components ρ}
  {breakers : List StatelessBreaker} {texts : DecimalTexts}

theorem Accounts.shows_congr {w w' : CapWorld J K ρ} (hsame : w'.accounted = w.accounted)
    (h : w.env.rest.Shows) : w'.env.rest.Shows := by
  simp only [CapWorld.accounted, Prod.mk.injEq] at hsame
  refine ⟨?_, hsame.1 ▸ h.2⟩
  rw [Accounts.Fresh, hsame.1, hsame.2]
  exact h.1

/-- No block of `p` leaves the caches showing anything else. -/
abbrev StaysShown {α : Type} (p : Coro (CapWorld J K ρ) α) : Prop :=
  (invariance fun w : CapWorld J K ρ => w.env.rest.Shows).Keeps (fun _ _ w => w.env.rest.Shows) p

theorem stays_accounted {α : Type} {p : Coro (CapWorld J K ρ) α}
    (hp : p.Frames CapWorld.accounted) : StaysShown p :=
  keeps_of_frames hp (fun _ _ _ _ hsame h => Accounts.shows_congr hsame h) invariance_wait

theorem accounted_part {S α : Type} [Part S (CapWorld J K ρ)] (p : Coro S α)
    (hput : ∀ (x : S) (w : CapWorld J K ρ),
      CapWorld.accounted (Part.put x w : CapWorld J K ρ) = w.accounted) :
    (p.lift : Coro (CapWorld J K ρ) α).Frames CapWorld.accounted :=
  Co.frames_lift p hput

/-- The order manager does not know the accounts. -/
theorem subscribers_accounted : (capSubscribers orderJournal :
    Subscribers (CapWorld J K ρ)).Frame fun e => (e.rest.pms.cachedPositions, e.rest.seen) where
  order cb hcb o := by
    have honly : cb = fun o => ((OrderManager.onOrderUpdate orderJournal o).lift :
        Coro (OmsEnv J (Accounts K ρ)) Unit).lift := by
      simpa [capSubscribers, omsSubscribers, Subscribers.lift] using hcb
    rw [honly]
    dsimp only
    rw [Co.lift_lift]
    exact Co.frames_lift _ fun _ _ => rfl
  fill cb hcb f := by
    have honly : cb = fun f => ((OrderManager.onFill orderJournal f).lift :
        Coro (OmsEnv J (Accounts K ρ)) Unit).lift := by
      simpa [capSubscribers, omsSubscribers, Subscribers.lift] using hcb
    rw [honly]
    dsimp only
    rw [Co.lift_lift]
    exact Co.frames_lift _ fun _ _ => rfl

/-- Every position that is built is plain. -/
theorem returns_buildPositions {ε : Type} (entries : List (Symbol × PositionState)) :
    (buildPositions entries : Coro (PaperWorld ε) (List Position)).Returns
      fun ps => ∀ pos ∈ ps, pos.Plain := by
  induction entries with
  | nil => exact fun pos hpos => absurd hpos List.not_mem_nil
  | cons e entries ih =>
    rw [buildPositions]
    split
    · exact ih
    · have hbuild : (buildPosition e.1 e.2 : Coro (PaperWorld ε) Position).Returns Position.Plain :=
        fun _ _ => ⟨rfl, rfl⟩
      refine hbuild.bind fun pos hpos => ih.bind fun ps hps => ?_
      exact List.forall_mem_cons.mpr ⟨hpos, hps⟩

/-- A reconciliation caches what the venue shows at that moment. -/
theorem shows_reconcile : StaysShown (PositionManager.reconcile (notedVenue cfg orderJournal)
    accountJournal : Coro (CapWorld J K ρ) Unit) := by
  let Plain (w : CapWorld J K ρ) : Prop := ∀ pos ∈ w.env.rest.pms.cachedPositions.values, pos.Plain
  have hframes : ∀ {α : Type} {p : Coro (CapWorld J K ρ) α},
      p.Frames (fun w => w.env.rest.pms.cachedPositions) →
      (invariance Plain).Keeps (fun _ _ => Plain) p := by
    intro α p hp
    apply keeps_of_frames hp _ invariance_wait
    exact fun l s₀ s s' hsame h pos hpos => h pos (hsame ▸ hpos)
  have hcached : ∀ ps : List Position, (∀ pos ∈ ps, pos.Plain) →
      ∀ pos ∈ (Dict.ofList Position.symbol ps).values, pos.Plain := by
    intro ps hps pos hpos
    obtain ⟨symbol, hpos⟩ := Dict.mem_values.mp hpos
    exact hps pos (Dict.mem_of_get_ofList hpos).1
  have hget : (invariance Plain).Keeps (fun _ _ => Plain)
      ((notedVenue cfg orderJournal).getPositions : Coro (CapWorld J K ρ) (List Position)) :=
    hframes (Co.frames_bind (fun _ => ⟨rfl, trivial⟩) fun _ =>
      frames_getPositions (v := fun e : OmsEnv J (Accounts K ρ) => e.rest.pms.cachedPositions))
  have hreturns : ((notedVenue cfg orderJournal).getPositions :
      Coro (CapWorld J K ρ) (List Position)).Returns fun ps => ∀ pos ∈ ps, pos.Plain :=
    fun _ _ => returns_buildPositions _
  have hrefresh : ∀ rest : Coro (CapWorld J K ρ) Unit,
      (invariance Plain).Keeps (fun _ _ => Plain) rest →
      (invariance Plain).Keeps (fun _ _ => Plain)
        ((notedVenue cfg orderJournal).getPositions.bind fun ps =>
          ((Co.modify fun m : PositionManager K =>
            { m with cachedPositions := .ofList Position.symbol ps }).lift :
              Coro (CapWorld J K ρ) Unit).bind fun _ =>
          (getBalance cfg).bind fun b =>
          ((Co.modify fun m : PositionManager K => { m with cachedBalance := some b }).lift :
              Coro (CapWorld J K ρ) Unit).bind fun _ => rest) :=
    fun rest hrest => keeps_bind_returns hget hreturns fun ps hps =>
      keeps_bind (keeps_modify fun _ _ _ _ => hcached ps hps) fun _ =>
      keeps_bind (hframes (frames_getBalance
        (v := fun e : OmsEnv J (Accounts K ρ) => e.rest.pms.cachedPositions))) fun b =>
      keeps_bind (keeps_modify fun _ _ _ h => h) fun _ => hrest
  have hplain : (invariance Plain).Keeps (fun _ _ => Plain) (PositionManager.reconcile
      (notedVenue cfg orderJournal) accountJournal : Coro (CapWorld J K ρ) Unit) := by
    cases accountJournal with
    | none => exact hrefresh _ (keeps_pure ())
    | some journal => exact hrefresh _ (hframes (frames_snapshot journal).lift)
  exact keeps_and (keeps_reconcile accountJournal) hplain

theorem stays_getPositions :
    StaysShown (PaperVenue.getPositions : Coro (CapWorld J K ρ) (List Position)) :=
  stays_accounted (frames_getPositions
    (v := fun e : OmsEnv J (Accounts K ρ) => (e.rest.pms.cachedPositions, e.rest.seen)))

theorem stays_getBalance : StaysShown (getBalance cfg : Coro (CapWorld J K ρ) Balance) :=
  stays_accounted (frames_getBalance
    (v := fun e : OmsEnv J (Accounts K ρ) => (e.rest.pms.cachedPositions, e.rest.seen)))

theorem stays_getOpenOrders :
    StaysShown (getOpenOrders none : Coro (CapWorld J K ρ) (List Order)) :=
  stays_accounted (frames_getOpenOrders none
    (v := fun e : OmsEnv J (Accounts K ρ) => (e.rest.pms.cachedPositions, e.rest.seen)))

theorem stays_other {α : Type} (p : Coro ρ α) : StaysShown (p.lift : Coro (CapWorld J K ρ) α) :=
  stays_accounted (accounted_part p fun _ _ => rfl)

theorem stays_orderManager {α : Type} (p : Coro (OrderManager J) α) :
    StaysShown (p.lift : Coro (CapWorld J K ρ) α) :=
  stays_accounted (accounted_part p fun _ _ => rfl)

theorem stays_clock : StaysShown (Clock.now.lift : Coro (CapWorld J K ρ) Time) :=
  stays_accounted (accounted_part _ fun _ _ => rfl)

theorem calls_shown {α : Type} {p : Coro (CapWorld J K ρ) α}
    (h : (capComponents cfg orderJournal accountJournal others).Calls p) : StaysShown p := by
  have hcancel : ∀ orders, StaysShown (OrderManager.cancelEach (capVenue cfg orderJournal) orders 0 :
      Coro (CapWorld J K ρ) Nat) :=
    fun orders => stays_accounted (subscribers_accounted.cancelEach orders 0)
  cases h with
  | now => exact stays_clock
  | cancelAll => exact keeps_bind (stays_orderManager _) hcancel
  | alert a => exact stays_other _
  | initialReconciliation =>
    exact keeps_bind stays_getOpenOrders fun _ => keeps_bind stays_getPositions fun _ =>
      keeps_bind stays_getBalance fun _ => shows_reconcile
  | reReconciliation =>
    exact keeps_bind stays_getOpenOrders fun _ => keeps_bind stays_getPositions fun _ =>
      shows_reconcile
  | tickTask =>
    rw [capComponents, Components.lift, TickTask.awaited_lift]
    exact stays_other _

/-- The caches show the venue; the system has begun, and the subscribers of the bus know
neither. -/
def Shown (w : RuntimeWorld (CapWorld J K ρ)) : Prop :=
  w.env.env.rest.Shows ∧ w.state ≠ .booting ∧ EventBus.Knows ρ w.bus

abbrev StaysGuarded {α : Type} (p : Coro (RuntimeWorld (CapWorld J K ρ)) α) : Prop :=
  (invariance Shown).Keeps (fun _ _ => Shown) p

theorem StaysShown.lift {α : Type} {p : Coro (CapWorld J K ρ) α} (h : StaysShown p) :
    StaysGuarded (p.lift : Coro (RuntimeWorld (CapWorld J K ρ)) α) :=
  keeps_lift_invariance (fun _ _ hrest => hrest) h

theorem callbacks_guarded : CallbacksKeep (invariance Shown)
    (fun _ _ (w : RuntimeWorld (CapWorld J K ρ)) => Shown w) := by
  intro l s₀ s h accepts callback hmem event
  obtain ⟨p, hp⟩ := h.2.2 accepts callback hmem event
  rw [hp]
  exact (stays_other p).lift

/-- Whatever the caches held before, a reconciliation has them show the venue. -/
theorem reconciled_shows (w : CapWorld J K ρ) : ((PositionManager.reconcile
    (notedVenue cfg orderJournal) accountJournal).exec w).1.env.rest.Shows := by
  obtain ⟨asked, listed, ps, hlisted, hps, hcached⟩ :=
    @reconciled_cache J K ρ cfg orderJournal accountJournal w
  simp only [CapWorld.accounted, Prod.mk.injEq] at hcached
  have hplain : ∀ pos ∈ ps, pos.Plain := by
    have hreturns : (PaperVenue.getPositions : Coro (CapWorld J K ρ) (List Position)).Returns
        fun ps => ∀ pos ∈ ps, pos.Plain := fun _ => returns_buildPositions _
    exact hreturns.exec hlisted
  refine ⟨fun max => ?_, ?_⟩
  · rw [hcached.1, hcached.2, hps.over_cached max]
    simp
  · rw [hcached.1]
    intro pos hpos
    obtain ⟨symbol, hpos⟩ := Dict.mem_values.mp hpos
    exact hplain pos (Dict.mem_of_get_ofList hpos).1

theorem guards_guarded : Guards (capComponents cfg orderJournal accountJournal others)
    (invariance Shown) (fun _ _ (w : RuntimeWorld (CapWorld J K ρ)) => Shown w)
    fun _ newState => newState ≠ .booting where
  component h := (calls_shown h).lift
  callbacks := callbacks_guarded
  flags _ _ _ _ _ _ h := h
  note _ _ _ _ _ _ h := h
  transition hbegun _ l s₀ _ h :=
    keeps_announce callbacks_guarded (stays_other _).lift l s₀ _ ⟨h.1, hbegun, h.2.2⟩

theorem guardsClose_guarded : GuardsClose (capComponents cfg orderJournal accountJournal others)
    (invariance Shown) (fun _ _ (w : RuntimeWorld (CapWorld J K ρ)) => Shown w) where
  component c hmem := by
    rcases mem_capLifecycles hmem with ⟨c, rfl⟩ | rfl | rfl
    · exact (stays_other c.stop).lift
    · exact keeps_pure ()
    · exact keeps_pure ()
  note _ _ _ h := h
  bus := keeps_modify fun _ _ _ h => h

/-- A start that completes has reconciled. -/
theorem shown_started {subs : List (Subscription ρ)} {j : J} {k : K} {clock : Clock} {rest : ρ}
    (hstarted : (capStarted cfg orderJournal accountJournal others subs j k clock rest).2 = .ok ()) :
    Shown (capStarted cfg orderJournal accountJournal others subs j k clock rest).1 := by
  let boot : RuntimeWorld (CapWorld J K ρ) :=
    capSystem ⟨.booting, false, false⟩ (.wired subs) j k clock rest
  obtain ⟨w, hexec⟩ : ∃ w, (Supervisor.start (capComponents cfg orderJournal accountJournal
      others)).exec boot = (w, .ok ()) := ⟨_, Prod.ext rfl hstarted⟩
  have hw : (capStarted cfg orderJournal accountJournal others subs j k clock rest).1 = w :=
    congrArg Prod.fst hexec
  rw [hw]
  obtain ⟨w₁, w₂, w₃, -, hreconcile, hmove, rfl, h₁⟩ := exec_start_ok hexec
  have hshown : Shown w₂ := by
    obtain ⟨e, hinitial, rfl⟩ := Co.exec_lift_eq_ok hreconcile
    obtain ⟨e₁, orders, -, hrest⟩ := Co.exec_bind_eq_ok hinitial
    obtain ⟨e₂, ps, -, hrest⟩ := Co.exec_bind_eq_ok hrest
    obtain ⟨e₃, b, -, hlast⟩ := Co.exec_bind_eq_ok hrest
    have hshows : e.env.rest.Shows := by
      have hreconciled := @reconciled_shows J K ρ cfg orderJournal accountJournal e₃
      have he : (PositionManager.reconcile (notedVenue cfg orderJournal) accountJournal).exec e₃ =
        (e, .ok ()) := hlast
      rwa [he] at hreconciled
    have hstate : w₁.state = .reconciling := congrArg Prod.snd h₁
    have hsubs : w₁.bus.subs = subs.map Subscription.lift ++ [.onBreakerTripped] :=
      congrArg Prod.fst h₁
    refine ⟨hshows, fun hbooting => ?_, fun accepts callback hmem => ?_⟩
    · cases hstate.symm.trans hbooting
    · have hwired : .external accepts callback ∈ w₁.bus.subs := hmem
      rw [hsubs] at hwired
      exact ((EventBus.knows_wired subs).subscribe true false) accepts callback hwired
  have hrunning : Shown w₃ :=
    (guards_guarded.transition (by decide) "reconciliation complete").of_exec hmove hshown
  exact hrunning

theorem shown_buildContext : StaysShown ((guardedRisk cfg orderJournal breakers texts).buildContext :
    Coro (CapWorld J K ρ) RiskContext) := by
  have hmanager : ∀ {α : Type} {p : Coro (PositionManager K) α},
      p.Frames (fun m => m.cachedPositions) → StaysShown (p.lift : Coro (CapWorld J K ρ) α) :=
    fun hp => stays_accounted (hp.lift.prod (Co.frames_lift _ fun _ _ => rfl))
  have hbalance : StaysShown (PositionManager.balance (J := K) (capVenue cfg orderJournal) :
      Coro (CapWorld J K ρ) Balance) := by
    refine keeps_bind (hmanager Co.frames_get) fun m => ?_
    split
    · exact keeps_pure _
    · exact keeps_bind stays_getBalance fun _ =>
        keeps_bind (hmanager fun _ => ⟨rfl, trivial⟩) fun _ => keeps_pure _
  exact keeps_bind (hmanager (Co.frames_bind Co.frames_get fun _ => Co.frames_pure _))
    fun _ => keeps_bind hbalance fun _ => keeps_bind (stays_orderManager _) fun _ =>
    keeps_bind stays_clock fun _ => keeps_pure _

theorem shown_run {breaker : CircuitBreaker (CapWorld J K ρ)}
    (hbreaker : breaker ∈ (guardedRisk cfg orderJournal breakers texts).breakers)
    (context : RiskContext) : StaysShown (breaker.run context) := by
  obtain ⟨b, -, rfl⟩ := List.mem_map.mp hbreaker
  exact fun _ _ _ h => h

theorem tick_guarded : StaysGuarded (Supervisor.tickOnce
    (capComponents cfg orderJournal accountJournal others)
    (guardedRisk cfg orderJournal breakers texts) : Coro (RuntimeWorld (CapWorld J K ρ)) Unit) := by
  refine keeps_bind (keeps_suppress ?_) fun _ => keeps_bind (keeps_suppress ?_) fun _ =>
    keeps_suppress ?_
  · exact keeps_bind stays_clock.lift fun _ => guards_guarded.publishEvent (by decide) _
  · exact shows_reconcile.lift
  · exact guards_guarded.riskTick _ _ (by decide) shown_buildContext.lift
      fun breaker hbreaker context => (shown_run hbreaker context).lift

theorem submitGuarded_guarded (cid : ClientOrderId) (intent : TradeIntent) : StaysGuarded
    (submitGuarded cfg orderJournal accountJournal others breakers texts cid intent :
      Coro (RuntimeWorld (CapWorld J K ρ)) SubmitResult) := by
  have hfirst : ∀ context (asked : List (CircuitBreaker (CapWorld J K ρ))),
      (∀ breaker ∈ asked, StaysShown (breaker.run context)) →
      StaysShown (RiskManager.firstTrigger context asked) := by
    intro context asked hasked
    induction asked with
    | nil => exact keeps_pure _
    | cons breaker asked ih =>
      refine keeps_bind (hasked breaker List.mem_cons_self) fun trigger => ?_
      cases trigger with
      | none => exact ih fun b hb => hasked b (List.mem_cons_of_mem breaker hb)
      | some trigger => exact keeps_pure _
  have hcheck : StaysGuarded ((guardedRisk cfg orderJournal breakers texts).check intent :
      Coro (RuntimeWorld (CapWorld J K ρ)) Decision) := by
    refine keeps_bind shown_buildContext.lift fun context => keeps_bind (keeps_modify fun _ _ _ h => h)
      fun _ => keeps_bind (hfirst context _ fun breaker hbreaker =>
        shown_run hbreaker context).lift fun trigger => ?_
    cases trigger with
    | none => exact keeps_pure _
    | some trigger => exact keeps_pure _
  have hplace : StaysShown ((capVenue cfg orderJournal).placeOrder
      (OrderManager.request cid intent) : Coro (CapWorld J K ρ) OrderId) :=
    stays_accounted (subscribers_accounted.placeOrder _)
  refine keeps_bind hcheck fun decision => ?_
  cases decision with
  | rejected reason breakerName => exact keeps_pure _
  | approved =>
    refine keeps_bind stays_clock.lift fun now => keeps_bind (keeps_caught
      (keeps_bind (keeps_modify fun _ _ _ h => h) fun _ => hplace.lift)) fun placed => ?_
    cases placed with
    | error exc => exact keeps_pure _
    | ok oid =>
      exact keeps_bind (keeps_lift _ (fun _ _ _ _ h => h) invariance_wait) fun _ => keeps_pure _

theorem op_guarded (op : GuardedOp) : StaysGuarded
    (op.prog cfg orderJournal accountJournal others breakers texts :
      Coro (RuntimeWorld (CapWorld J K ρ)) Unit) := by
  cases op with
  | onOrderbook snapshot => exact (stays_accounted (subscribers_accounted.onOrderbook snapshot)).lift
  | tick => exact tick_guarded
  | submitIntent cid intent =>
    exact keeps_bind (submitGuarded_guarded cid intent) fun _ => keeps_pure ()
  | supervise op =>
    exact guards_guarded.op (Guards.start_again fun _ _ _ h => h.2.1) guardsClose_guarded
      (by decide) (by decide) (by decide) (fun _ _ _ => by decide) (by decide) op

/-- The first breaker, in the order they are asked, that objects to what the venue showed. -/
def objection (breakers : List StatelessBreaker) (seen : Option PaperVenue) : Option String :=
  (breakers.find? fun breaker => seen.any fun v => breaker.Objects v).map StatelessBreaker.name

namespace StatelessBreaker

variable {context : RiskContext} {a : Accounts K ρ}

/-- A breaker objects to the caches as it would have to the venue. -/
theorem evaluate_isSome_iff (h : a.Shows)
    (hpositions : context.positions = a.pms.cachedPositions.values)
    (hrates : context.fundingRates = .empty) (breaker : StatelessBreaker) :
    (breaker.evaluate texts context).isSome ↔ ∃ v, a.seen = some v ∧ breaker.Objects v := by
  have hplain : ∀ pos ∈ context.positions, pos.Plain := hpositions ▸ h.2
  cases breaker with
  | notional b =>
    refine Iff.trans ?_ (h.1 b.maxNotionalUsd)
    rw [← hpositions, evaluate, Option.isSome_iff_ne_none, ne_eq, b.evaluate_eq_none_iff, not_not]
  | leverage b =>
    rw [evaluate, evaluate_leverage b hplain, hpositions, h.1.invested]
    constructor
    · rintro ⟨hlow, v, hv, hopen⟩
      exact ⟨v, hv, hlow, hopen⟩
    · rintro ⟨v, hv, hlow, hopen⟩
      exact ⟨hlow, v, hv, hopen⟩
  | liquidation b =>
    rw [evaluate, evaluate_liquidation b hplain]
    refine iff_of_false Bool.false_ne_true ?_
    rintro ⟨v, -, hobjects⟩
    exact hobjects
  | funding b =>
    rw [evaluate, FundingSpikeBreaker.evaluate, hrates]
    refine iff_of_false Bool.false_ne_true ?_
    rintro ⟨v, -, hobjects⟩
    exact hobjects

end StatelessBreaker

/-- The trigger that decides bears the name of the first objection. -/
theorem first_evaluate {context : RiskContext} {a : Accounts K ρ} (h : a.Shows)
    (hpositions : context.positions = a.pms.cachedPositions.values)
    (hrates : context.fundingRates = .empty) :
    (breakers.findSome? (StatelessBreaker.evaluate texts context)).map Trigger.breakerName =
      objection breakers a.seen := by
  induction breakers with
  | nil => rfl
  | cons breaker breakers ih =>
    have hobjects := @StatelessBreaker.evaluate_isSome_iff K ρ texts context a h hpositions hrates
      breaker
    rw [objection, List.findSome?_cons, List.find?_cons]
    cases htrigger : breaker.evaluate texts context with
    | none =>
      have hnot : (a.seen.any fun v => breaker.Objects v) = false := by
        rw [Bool.eq_false_iff, ne_eq, Option.any_eq_true]
        rintro ⟨v, hv, hv'⟩
        have hsome := hobjects.mpr ⟨v, hv, of_decide_eq_true hv'⟩
        rw [htrigger] at hsome
        cases hsome
      rw [hnot]
      exact ih
    | some trigger =>
      obtain ⟨v, hv, hv'⟩ := hobjects.mp (htrigger ▸ rfl)
      have hany : (a.seen.any fun v => breaker.Objects v) = true := by
        rw [Option.any_eq_true]
        exact ⟨v, hv, decide_eq_true hv'⟩
      rw [hany]
      exact congrArg some (breaker.evaluate_name htrigger)

/-- The context is there before anybody else can act, and it has no funding rates. -/
theorem block_guardedContext (w : CapWorld J K ρ) : ∃ w' context,
    ((guardedRisk cfg orderJournal breakers texts).buildContext).block w = (w', .done context) ∧
      context.positions = w.env.rest.pms.cachedPositions.values ∧
      context.fundingRates = .empty := by
  obtain ⟨w', context, hbuild, hpositions⟩ := @block_buildContext J K ρ cfg orderJournal smallCap
    texts.str w
  have hrates : ((guardedRisk cfg orderJournal breakers texts).buildContext :
      Coro (CapWorld J K ρ) RiskContext).Returns fun context => context.fundingRates = .empty :=
    Co.returns_bind fun _ => Co.returns_bind fun _ => Co.returns_bind fun _ =>
      Co.returns_bind fun _ => rfl
  exact ⟨w', context, hbuild, hpositions, hrates.block hbuild⟩

theorem block_firstGuarded {ε : Type} (context : RiskContext) (e : ε) :
    (RiskManager.firstTrigger context
      (breakers.map (StatelessBreaker.circuitBreaker texts))).block e =
        (e, .done (breakers.findSome? (StatelessBreaker.evaluate texts context))) := by
  induction breakers with
  | nil => rfl
  | cons breaker breakers ih =>
    have hrun : ((breaker.circuitBreaker texts).run context).block e =
        (e, .done (breaker.evaluate texts context)) := rfl
    rw [List.map_cons, RiskManager.firstTrigger, Co.bind_eq, Co.block_bind_done hrun,
      List.findSome?_cons]
    cases breaker.evaluate texts context with
    | none => exact ih
    | some trigger => rfl

/-- The first trigger decides. -/
theorem block_checkGuarded (intent : TradeIntent) (w : RuntimeWorld (CapWorld J K ρ)) :
    ∃ w' context, context.positions = w.env.env.rest.pms.cachedPositions.values ∧
      context.fundingRates = .empty ∧
      ((guardedRisk cfg orderJournal breakers texts).check intent).block w =
        (w', .done ((breakers.findSome? (StatelessBreaker.evaluate texts context)).elim .approved
          fun trigger => .rejected trigger.reason (some trigger.breakerName))) := by
  obtain ⟨e, context, hbuild, hpositions, hrates⟩ :=
    @block_guardedContext J K ρ cfg orderJournal breakers texts w.env
  have hcontext : ((guardedRisk cfg orderJournal breakers texts).buildContext.lift :
      Coro (RuntimeWorld (CapWorld J K ρ)) RiskContext).block w =
        (Part.put e w, .done context) := Co.block_lift_done hbuild
  have hasked : ∀ w₁ : RuntimeWorld (CapWorld J K ρ), ((RiskManager.firstTrigger context
      (guardedRisk cfg orderJournal breakers texts).breakers).lift :
        Coro (RuntimeWorld (CapWorld J K ρ)) (Option Trigger)).block w₁ =
          (Part.put w₁.env w₁,
            .done (breakers.findSome? (StatelessBreaker.evaluate texts context))) :=
    fun w₁ => Co.block_lift_done (block_firstGuarded context w₁.env)
  have hnote : ∀ (g : RuntimeWorld (CapWorld J K ρ) → RuntimeWorld (CapWorld J K ρ)) w₁,
      (Co.modify g : Coro _ Unit).block w₁ = (g w₁, .done ()) := fun _ _ => rfl
  have hdecided : ∃ w', ((guardedRisk cfg orderJournal breakers texts).check intent).block w =
      (w', .done ((breakers.findSome? (StatelessBreaker.evaluate texts context)).elim .approved
        fun trigger => .rejected trigger.reason (some trigger.breakerName))) := by
    simp only [RiskManager.check, Co.bind_eq]
    rw [Co.block_bind_done hcontext, Co.block_bind_done (hnote _ _),
      Co.block_bind_done (hasked _)]
    cases breakers.findSome? (StatelessBreaker.evaluate texts context) with
    | none => exact ⟨_, rfl⟩
    | some trigger => exact ⟨_, rfl⟩
  obtain ⟨w', hblock⟩ := hdecided
  exact ⟨w', context, hpositions, hrates, hblock⟩

end Keeps

/-- Once the system is started, and whatever is called then, in whatever interleaving: an intent
is rejected, and at once, by the first breaker that objects to the venue as the position manager
last found it. -/
theorem first_objection_rejects {J K ρ : Type} (cfg : PaperConfig)
    (orderJournal : OrderJournal J) (accountJournal : Option (AccountJournal K))
    (others : Components ρ) (breakers : List StatelessBreaker) (texts : DecimalTexts)
    (subs : List (Subscription ρ)) (j : J) (k : K) (clock : Clock) (rest : ρ)
    (hstarted : (capStarted cfg orderJournal accountJournal others subs j k clock rest).2 = .ok ())
    (labels : List (Label GuardedOp)) (cid : ClientOrderId) (intent : TradeIntent)
    (name : String) :
    let c := Config.run (GuardedOp.prog cfg orderJournal accountJournal others breakers texts)
      ⟨(capStarted cfg orderJournal accountJournal others subs j k clock rest).1, []⟩ labels
    objection breakers c.state.env.env.rest.seen = some name ↔
      ∃ w' reason, (submitGuarded cfg orderJournal accountJournal others breakers texts cid
        intent).block c.state = (w', .done (.riskRejected reason (some name))) := by
  intro c
  have hrun : Reaches (GuardedOp.prog cfg orderJournal accountJournal others breakers texts)
      (fun _ _ => True)
      ⟨(capStarted cfg orderJournal accountJournal others subs j k clock rest).1, []⟩ c :=
    .of_run _ labels fun _ _ _ => trivial
  have hshown : Shown c.state := Reaches.invariant op_guarded (shown_started hstarted) hrun
  obtain ⟨w', context, hpositions, hrates, hcheck⟩ := @block_checkGuarded J K ρ cfg orderJournal
    breakers texts intent c.state
  have hfirst := @first_evaluate K ρ breakers texts context _ hshown.1 hpositions hrates
  rw [← hfirst, submitGuarded, Executor.submitIntent, Co.bind_eq, Co.block_bind_done hcheck]
  cases breakers.findSome? (StatelessBreaker.evaluate texts context) with
  | none =>
    refine iff_of_false (fun hname => Option.some_ne_none name hname.symm) ?_
    rintro ⟨w'', reason, hblock⟩
    exact submit_not_riskRejected _ cid intent w' w'' reason _ hblock
  | some trigger =>
    constructor
    · intro hname
      cases hname
      exact ⟨w', trigger.reason, rfl⟩
    · rintro ⟨w'', reason, hblock⟩
      cases hblock
      rfl

/-- An earlier run left a position at a leverage of five. -/
def leveraged : AccountTables :=
  ⟨[⟨"ETH", .long, 1, 100, 100, 0, 0, 5, some 50, 0⟩], [⟨"USDT", 1000, 1000, 0, 0⟩]⟩

def lowLeverage : List StatelessBreaker :=
  [.notional smallCap, .leverage { maxLeverage := 1 / 2, positive := by decide +kernel }]

/-- The start forgets the restored position, and a limit below one lets nothing through once
another one is open. -/
theorem low_leverage_rejects :
    let cfg : PaperConfig := ⟨.immediate "USDT", 1000, "USDT"⟩
    let texts : DecimalTexts := ⟨fun _ => "", fun _ _ => ""⟩
    let journal := InMemoryAccountJournal.journal
    let started := (capStarted cfg InMemoryOrderJournal.journal (some journal)
      (idleComponents (ε := Unit)) [] ⟨[], []⟩ leveraged ⟨fun n => n, 0⟩ ()).1
    let c := Config.run (GuardedOp.prog cfg InMemoryOrderJournal.journal (some journal)
        (idleComponents (ε := Unit)) lowLeverage texts) ⟨started, []⟩
      [.call (.onOrderbook ⟨"BTC", [⟨99, 9⟩], [⟨101, 9⟩], 0, 0⟩),
        .call (.submitIntent "c1" buyOne), .call .tick]
    objection lowLeverage started.env.env.rest.seen = none ∧ ∃ w' reason,
      (submitGuarded cfg InMemoryOrderJournal.journal (some journal) (idleComponents (ε := Unit))
        lowLeverage texts "c2" buyOne).block c.state =
          (w', .done (.riskRejected reason (some "LeverageBreaker"))) := by
  intro cfg texts journal started c
  refine ⟨by decide +kernel, ?_⟩
  exact (first_objection_rejects cfg InMemoryOrderJournal.journal (some journal) idleComponents
    lowLeverage texts [] ⟨[], []⟩ leveraged ⟨fun n => n, 0⟩ () (by decide +kernel) _ "c2" buyOne
    "LeverageBreaker").mp (by decide +kernel)

end Trading
