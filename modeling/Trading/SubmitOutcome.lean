import Trading.Async.Interference
import Trading.OrderSystem
import Trading.PaperAlone

/-!
# What a submission reports

While it places an order the venue tells the manager what became of it. The manager puts
that into its cache, and then answers from the id it is given, which a rejected order has too.
-/
namespace Trading

open Async Data PaperVenue PaperWorld

section Callbacks

variable {J ρ : Type} {journal : OrderJournal J} {before after : Subscribers ρ}

variable (journal before after) in
/-- The callbacks of `omsSubscribers`, as they see the environment of the venue. -/
def managerSubs : Subscribers (OmsEnv J ρ) :=
  let first : Subscribers (OmsEnv J ρ) := before.lift
  let last : Subscribers (OmsEnv J ρ) := after.lift
  { orderCbs := first.orderCbs ++ (fun o => (OrderManager.onOrderUpdate journal o).lift) ::
      last.orderCbs
    fillCbs := first.fillCbs ++ (fun f => (OrderManager.onFill journal f).lift) ::
      last.fillCbs }

theorem omsSubscribers_eq :
    omsSubscribers journal before after = (managerSubs journal before after).lift := rfl

theorem exec_foreign {α : Type} {cbs : List (α → Coro ρ Unit)} {x : α}
    (hquiet : ∀ cb ∈ cbs, (cb x).NoThrow) (env : OmsEnv J ρ) :
    ∃ rest, (Co.forEach (cbs.map fun cb y => ((cb y).lift : Coro (OmsEnv J ρ) Unit))
      fun cb => cb x).exec env = ({ env with rest := rest }, .ok ()) := by
  obtain ⟨rest, hexec⟩ := exec_forEach_noThrow hquiet env.rest
  have hview : (Part.view env : ρ) = env.rest := rfl
  refine ⟨rest, ?_⟩
  rw [forEach_lifted, Co.exec_lift, hview, hexec]
  rfl

/-- Only its own callback changes the manager. -/
theorem exec_around {α : Type} {x : α} {first last : List (α → Coro ρ Unit)}
    {ours : α → Coro (OrderManager J) Unit} {env : OmsEnv J ρ} {m : OrderManager J}
    (hfirst : ∀ cb ∈ first, (cb x).NoThrow) (hlast : ∀ cb ∈ last, (cb x).NoThrow)
    (hours : (ours x).exec env.oms = (m, .ok ())) :
    ∃ rest, (Co.forEach ((first.map fun cb y => ((cb y).lift : Coro (OmsEnv J ρ) Unit)) ++
        (fun y => ((ours y).lift : Coro (OmsEnv J ρ) Unit)) ::
          last.map fun cb y => ((cb y).lift : Coro (OmsEnv J ρ) Unit))
      fun cb => cb x).exec env = (⟨m, rest⟩, .ok ()) := by
  obtain ⟨rest, hrest⟩ := exec_foreign hfirst env
  have hmiddle : ((ours x).lift : Coro (OmsEnv J ρ) Unit).exec { env with rest := rest } =
      (⟨m, rest⟩, .ok ()) := by
    have hview : (Part.view { env with rest := rest } : OrderManager J) = env.oms := rfl
    rw [Co.exec_lift, hview, hours]
    rfl
  obtain ⟨rest', hrest'⟩ := exec_foreign hlast (⟨m, rest⟩ : OmsEnv J ρ)
  refine ⟨rest', ?_⟩
  rw [Co.forEach_append, Co.exec_bind_ok hrest, Co.forEach_cons, Co.exec_bind_ok hmiddle]
  exact hrest'

/-- A write that succeeds on its own succeeds within a larger state. -/
theorem exec_lift_noThrow {S W : Type} [Part S W] {p : Coro S Unit} (h : p.NoThrow) (w : W) :
    ∃ s' : S, (p.lift : Coro W Unit).exec w = (Part.put s' w, .ok ()) := by
  obtain ⟨_, hexec⟩ := h.exec (Part.view w)
  refine ⟨(p.exec (Part.view w)).1, ?_⟩
  rw [Co.exec_lift, hexec]

theorem exec_onOrderUpdate_ok (hj : journal.Reliable) (order : Order) (m : OrderManager J) :
    ∃ m', (OrderManager.onOrderUpdate journal order).exec m = (m', .ok ()) := by
  rw [OrderManager.onOrderUpdate, Co.bind_eq, Co.exec_bind_ok (Co.exec_modify _ m)]
  obtain ⟨j, hwrite⟩ := exec_lift_noThrow (hj.writeOrder order) { m with
    orders := m.orders.set order.orderId order, received := m.received ++ [order] }
  exact ⟨_, hwrite⟩

theorem exec_onFill_ok (hj : journal.Reliable) {order updated : Order} {fill : Fill}
    {m : OrderManager J} (hcached : m.orders.get fill.orderId = some order)
    (hupdated : order.executed fill = .ok updated) :
    ∃ m', (OrderManager.onFill journal fill).exec m = (m', .ok ()) := by
  obtain ⟨j, hfill⟩ := exec_lift_noThrow (hj.writeFill fill) m
  obtain ⟨j', horder⟩ := exec_lift_noThrow (hj.writeOrder updated) { m with
    journal := j, orders := m.orders.set fill.orderId updated }
  have hcached' : (Part.put j m : OrderManager J).orders.get fill.orderId = some order := hcached
  rw [OrderManager.onFill, Co.bind_eq, Co.exec_bind_ok hfill, Co.bind_eq,
    Co.exec_bind_ok (Co.exec_get _)]
  simp only [hcached', hupdated, Co.ofExcept, Co.bind_eq, Co.pure_bind]
  rw [Co.exec_bind_ok (Co.exec_modify _ _)]
  exact ⟨_, horder⟩

theorem exec_tell (hj : journal.Reliable) (hb : before.Quiet) (ha : after.Quiet) (order : Order)
    (env : OmsEnv J ρ) :
    ∃ env', ((managerSubs journal before after).tell order).exec env = (env', .ok ()) ∧
      ∀ oid, env'.oms.orders.get oid =
        if oid = order.orderId then some order else env.oms.orders.get oid := by
  obtain ⟨m, hm⟩ := exec_onOrderUpdate_ok hj order env.oms
  obtain ⟨rest, hexec⟩ := exec_around
    (fun cb hcb => hb.order cb hcb order) (fun cb hcb => ha.order cb hcb order) hm
  refine ⟨⟨m, rest⟩, hexec, fun oid => ?_⟩
  have hget := OrderManager.exec_onOrderUpdate_get journal order env.oms oid
  rwa [hm] at hget

/-- The cached order takes the fill and is then overwritten. -/
theorem exec_tellFill (hj : journal.Reliable) (hb : before.Quiet) (ha : after.Quiet)
    {order updated : Order} {fill : Fill} {env : OmsEnv J ρ}
    (hcached : env.oms.orders.get fill.orderId = some order)
    (hupdated : order.executed fill = .ok updated) (hid : fill.orderId = updated.orderId) :
    ∃ env', ((managerSubs journal before after).tellFill fill updated).exec env = (env', .ok ()) ∧
      ∀ oid, env'.oms.orders.get oid =
        if oid = updated.orderId then some updated else env.oms.orders.get oid := by
  obtain ⟨m, hm⟩ := exec_onFill_ok hj hcached hupdated
  obtain ⟨rest, hexec⟩ := exec_around
    (fun cb hcb => hb.fill cb hcb fill) (fun cb hcb => ha.fill cb hcb fill) hm
  obtain ⟨env', htell, hget⟩ := exec_tell hj hb ha updated (⟨m, rest⟩ : OmsEnv J ρ)
  have hfill : (Co.forEach (managerSubs journal before after).fillCbs fun cb => cb fill).exec env =
      (⟨m, rest⟩, .ok ()) := hexec
  refine ⟨env', ?_, fun oid => ?_⟩
  · rw [Subscribers.tellFill, Co.exec_bind_ok hfill]
    exact htell
  · have hkept := OrderManager.exec_onFill_get hj fill env.oms oid
    rw [hm, hid] at hkept
    rw [hget, hkept]
    split
    · rfl
    · rfl

end Callbacks

/-- The order is resting, partially filled or filled. -/
def OrderStatus.Accepted (status : OrderStatus) : Prop :=
  status = .acked ∨ status = .partiallyFilled ∨ status = .filled

/-- A post-only order that the venue does not let in, since it would cross the book. -/
def TurnedAway (v : PaperVenue) (request : OrderRequest) : Prop :=
  request.timeInForce = .postOnly ∧ ∃ book, v.latestBook.get request.symbol = some book ∧
    wouldCrossImmediately request book = true

/-- The status an order enters with. -/
theorem initialStatus_entered (v : PaperVenue) (request : OrderRequest) :
    (TurnedAway v request ∧ v.initialStatus request = .rejected) ∨
      (¬ TurnedAway v request ∧ v.initialStatus request = .acked) := by
  unfold initialStatus TurnedAway
  rw [← Option.any_eq_true]
  split
  · next h => exact .inl ⟨h, rfl⟩
  · next h => exact .inr ⟨h, rfl⟩

theorem executed_accepted {order updated : Order} {fill : Fill}
    (h : order.executed fill = .ok updated) : updated.status.Accepted :=
  .inr (Order.executed_status h).symm

section Submission

variable {J ρ : Type} (cfg : PaperConfig) (journal : OrderJournal J) (before after : Subscribers ρ)

/-- The venue's record of the order, and the manager's. -/
structure Known (request : OrderRequest) (w : OmsWorld J ρ) (order : Order) : Prop where
  stored : (placed cfg (managerSubs journal before after) request w).venue.allOrders.get
    (nextId w) = some order
  cached : (placed cfg (managerSubs journal before after) request w).env.oms.orders.get
    (nextId w) = some order
  orderId : order.orderId = nextId w
  client : order.clientOrderId = request.clientOrderId
  status : (TurnedAway w.venue request ∧ order.status = .rejected) ∨
    (¬ TurnedAway w.venue request ∧ order.status.Accepted)

variable {journal before after}

/-- The order as it entered, of which the manager has been told. -/
theorem place_unfilled (hj : journal.Reliable) (hb : before.Quiet) (ha : after.Quiet)
    {request : OrderRequest} {w : OmsWorld J ρ}
    (hfill : placementFill cfg (managerSubs journal before after) w request = none) :
    (placeOrder cfg (omsSubscribers journal before after) request).exec w =
        (placed cfg (managerSubs journal before after) request w, .ok (nextId w)) ∧
      Known cfg journal before after request w (nextOrder w request) := by
  obtain ⟨clock, hplace⟩ := alone_placeOrder cfg (managerSubs journal before after) request w
  obtain ⟨env, htell, hcache⟩ := exec_tell hj hb ha (nextOrder w request) w.env
  simp only [placementOutcome, htell, hfill] at hplace
  refine ⟨?_, ?_, ?_, rfl, rfl, ?_⟩
  · rw [placed, omsSubscribers_eq, hplace]
    rfl
  · rw [placed, hplace]
    exact Dict.get_set_same _ _ _
  · rw [placed, hplace]
    simp only [acknowledging, htell]
    exact (hcache _).trans (if_pos rfl)
  · exact (initialStatus_entered w.venue request).imp id fun h => ⟨h.1, .inl h.2⟩

/-- The order with its fill: the manager executes the fill and is then told the same. -/
theorem place_filled (hj : journal.Reliable) (hb : before.Quiet) (ha : after.Quiet)
    {request : OrderRequest} {w : OmsWorld J ρ} {fill : Fill}
    (hfill : placementFill cfg (managerSubs journal before after) w request = some fill) :
    (placeOrder cfg (omsSubscribers journal before after) request).exec w =
        (placed cfg (managerSubs journal before after) request w, .ok (nextId w)) ∧
      ∃ updated, Known cfg journal before after request w updated := by
  obtain ⟨clock, hplace⟩ := alone_placeOrder cfg (managerSubs journal before after) request w
  obtain ⟨env, htell, hcache⟩ := exec_tell hj hb ha (nextOrder w request) w.env
  obtain ⟨updated, hupdated⟩ := executed_nextOrder w request fill
  obtain ⟨hacked, hid⟩ : (nextOrder w request).status = .acked ∧ fill.orderId = nextId w := by
    rw [placementFill, Option.ite_none_right_eq_some, Option.bind_eq_some_iff] at hfill
    obtain ⟨⟨hacked, -⟩, book, -, hfill⟩ := hfill
    exact ⟨hacked, (FillEngine.tryFill_describes hfill).orderId⟩
  have hcached : env.oms.orders.get fill.orderId = some (nextOrder w request) := by
    rw [hid]
    exact (hcache _).trans (if_pos rfl)
  have hsame : updated.orderId = nextId w := Order.executed_orderId hupdated
  have hclient : updated.clientOrderId = request.clientOrderId := by
    obtain ⟨_, -, rfl⟩ := Order.executed_ok hupdated
    rfl
  obtain ⟨env', htell', hcache'⟩ := exec_tellFill hj hb ha hcached hupdated
    (hid.trans hsame.symm)
  simp only [placementOutcome, htell, hfill, hupdated, acknowledging, afterFill, htell'] at hplace
  refine ⟨?_, updated, ?_, ?_, hsame, hclient, ?_⟩
  · rw [placed, omsSubscribers_eq, hplace]
    rfl
  · rw [placed, hplace, ← hsame]
    exact Dict.get_set_same _ _ _
  · rw [placed, hplace, ← hsame]
    exact (hcache' _).trans (if_pos rfl)
  · rcases initialStatus_entered w.venue request with ⟨-, hrejected⟩ | ⟨hin, -⟩
    · have hstatus : (nextOrder w request).status = w.venue.initialStatus request := rfl
      rw [hstatus, hrejected] at hacked
      cases hacked
    · exact .inr ⟨hin, executed_accepted hupdated⟩

/-- A placement returns, and by then the manager knows what the venue knows. -/
theorem place_known (hj : journal.Reliable) (hb : before.Quiet) (ha : after.Quiet)
    (request : OrderRequest) (w : OmsWorld J ρ) :
    (placeOrder cfg (omsSubscribers journal before after) request).exec w =
        (placed cfg (managerSubs journal before after) request w, .ok (nextId w)) ∧
      ∃ order, Known cfg journal before after request w order := by
  cases hfill : placementFill cfg (managerSubs journal before after) w request with
  | none =>
    obtain ⟨hplace, hknown⟩ := place_unfilled cfg hj hb ha hfill
    exact ⟨hplace, nextOrder w request, hknown⟩
  | some fill => exact place_filled cfg hj hb ha hfill

theorem exec_recordSubmission_ok (hj : journal.Reliable) {order : Order} {m : OrderManager J}
    (hcached : m.orders.get order.orderId ≠ none) :
    ∃ m', (OrderManager.recordSubmission journal order).exec m = (m', .ok ()) ∧
      m'.orders = m.orders := by
  obtain ⟨j, hwrite⟩ := exec_lift_noThrow (hj.writeOrder order) m
  rw [OrderManager.recordSubmission, Co.bind_eq, Co.exec_bind_ok hwrite, Co.exec_modify]
  exact ⟨_, rfl, Dict.setDefault_present hcached _⟩

variable (journal before after) in
/-- What submitting an intent leaves and answers. -/
def submission (cid : ClientOrderId) (intent : TradeIntent) (w : OmsWorld J ρ) :
    OmsWorld J ρ × Except PyError SubmitResult :=
  (OrderManager.submit (asVenue cfg (omsSubscribers journal before after)) journal cid
    intent).exec w

variable (journal before after) in
/-- The venue's record of the order when it returns its id. -/
def venueOrder (cid : ClientOrderId) (intent : TradeIntent) (w : OmsWorld J ρ) : Option Order :=
  ((placeOrder cfg (omsSubscribers journal before after)
    (OrderManager.request cid intent)).exec w.tick).1.venue.allOrders.get (nextId w)

variable {cfg} {cid : ClientOrderId} {intent : TradeIntent}

/-- A submission whose placement returns an id that is cached by then. -/
theorem submission_placed (hj : journal.Reliable) {w w' : OmsWorld J ρ} {oid : OrderId}
    (hplace : (placeOrder cfg (omsSubscribers journal before after)
      (OrderManager.request cid intent)).exec w.tick = (w', .ok oid))
    (hcached : w'.env.oms.orders.get oid ≠ none) :
    ∃ m : OrderManager J, submission cfg journal before after cid intent w =
        (Part.put m w', .ok (.submitted oid cid)) ∧ m.orders = w'.env.oms.orders := by
  have hnow : (Clock.now.lift : Coro (OmsWorld J ρ) Time).exec w =
      (w.tick, .ok (w.clock.reading w.clock.reads)) := rfl
  have hvenue : ((asVenue cfg (omsSubscribers journal before after)).placeOrder
      (OrderManager.request cid intent)).exec w.tick = (w', .ok oid) := hplace
  obtain ⟨m, hm, horders⟩ := @exec_recordSubmission_ok _ journal hj
    (OrderManager.submittedOrder oid cid intent (w.clock.reading w.clock.reads)) w'.env.oms hcached
  have hrecord : ((OrderManager.recordSubmission journal (OrderManager.submittedOrder oid
      cid intent (w.clock.reading w.clock.reads))).lift : Coro (OmsWorld J ρ) Unit).exec w' =
        (Part.put m w', .ok ()) := by
    have hview : (Part.view w' : OrderManager J) = w'.env.oms := rfl
    rw [Co.exec_lift, hview, hm]
  refine ⟨m, ?_, horders⟩
  rw [submission, OrderManager.exec_submit_placed journal hnow hvenue, Co.exec_bind_ok hrecord]
  rfl

/-- The answer is the same whatever became of the order. -/
theorem submission_known (hj : journal.Reliable) (hb : before.Quiet) (ha : after.Quiet)
    (cid : ClientOrderId) (intent : TradeIntent) (w : OmsWorld J ρ) :
    ∃ order, Known cfg journal before after (OrderManager.request cid intent) w.tick order ∧
      venueOrder cfg journal before after cid intent w = some order ∧
      (submission cfg journal before after cid intent w).2 = .ok (.submitted (nextId w) cid) ∧
      (submission cfg journal before after cid intent w).1.env.oms.orders.get (nextId w) =
        some order := by
  obtain ⟨hplace, order, hknown⟩ := place_known cfg hj hb ha (OrderManager.request cid intent)
    w.tick
  obtain ⟨m, hexec, horders⟩ := submission_placed hj hplace fun hnone =>
    Option.some_ne_none order (hknown.cached.symm.trans hnone)
  refine ⟨order, hknown, hknown.stored, congrArg Prod.snd hexec, ?_⟩
  have hkept := congrArg (fun r => (Prod.fst r).env.oms.orders.get (nextId w)) hexec
  refine hkept.trans ?_
  have hput : ((Part.put m (placed cfg (managerSubs journal before after)
      (OrderManager.request cid intent) w.tick) : OmsWorld J ρ)).env.oms.orders = m.orders := rfl
  exact (congrArg (fun d => Dict.get d (nextId w)) (hput.trans horders)).trans hknown.cached

variable (cfg journal before after) in
/-- The answer says what the venue did with the order, which is on record with the
manager. -/
structure ReportsOutcome (cid : ClientOrderId) (intent : TradeIntent) (w : OmsWorld J ρ) :
    Prop where
  submitted : (∃ oid c, (submission cfg journal before after cid intent w).2 =
      .ok (.submitted oid c)) ↔
    ∃ order, venueOrder cfg journal before after cid intent w = some order ∧
      order.status.Accepted
  rejected : (∃ reason, (submission cfg journal before after cid intent w).2 =
      .ok (.venueRejected reason)) ↔
    ∃ order, venueOrder cfg journal before after cid intent w = some order ∧
      order.status = .rejected
  recorded : ∀ oid c, (submission cfg journal before after cid intent w).2 =
      .ok (.submitted oid c) →
    ∃ order, ((OrderManager.getOrder oid).exec
        (submission cfg journal before after cid intent w).1.env.oms).2 = .ok (some order) ∧
      venueOrder cfg journal before after cid intent w = some order ∧
      order.orderId = oid ∧ order.clientOrderId = c ∧ order.status.Accepted

/-- Not even while other tasks run in between. -/
theorem submit_never_venueRejected {W : Type} [Part Clock W] [Part (OrderManager J) W]
    (venue : Venue W) (cid : ClientOrderId) (intent : TradeIntent) (others : Nat → W → W) (n : Nat)
    (w : W) (reason : String) :
    ((OrderManager.submit venue journal cid intent).execAmid others n w).2 ≠
      .ok (.venueRejected reason) := by
  intro h
  rw [OrderManager.submit, Co.bind_eq] at h
  obtain ⟨n₁, w₁, submittedAt, h⟩ := Co.execAmid_bind_eq_ok h
  rw [Co.bind_eq] at h
  obtain ⟨n₂, w₂, answer, h⟩ := Co.execAmid_bind_eq_ok h
  cases answer with
  | error exc => cases h
  | ok oid =>
    dsimp only at h
    rw [Co.bind_eq] at h
    obtain ⟨n₃, w₃, _, h⟩ := Co.execAmid_bind_eq_ok h
    cases h

theorem not_accepted_rejected : ¬ OrderStatus.rejected.Accepted := by
  rintro (h | h | h) <;> cases h

/-- Whatever the state, the answer is right unless the venue turns the order away. -/
theorem submit_reports_unless_turnedAway (cfg : PaperConfig) (hj : journal.Reliable)
    (hb : before.Quiet) (ha : after.Quiet) (cid : ClientOrderId) (intent : TradeIntent)
    (w : OmsWorld J ρ) :
    ReportsOutcome cfg journal before after cid intent w ↔
      ¬ TurnedAway w.venue (OrderManager.request cid intent) := by
  obtain ⟨order, hknown, hvenue, hanswer, hcached⟩ :=
    @submission_known _ _ cfg journal before after hj hb ha cid intent w
  have hnever : ∀ reason, (submission cfg journal before after cid intent w).2 ≠
      .ok (.venueRejected reason) := by
    rw [hanswer]
    intro reason h
    cases h
  rcases hknown.status with ⟨haway, hrejected⟩ | ⟨hin, haccepted⟩
  · refine iff_of_false (fun hreports => ?_) (not_not.mpr haway)
    obtain ⟨reason, hreason⟩ := hreports.rejected.mpr ⟨order, hvenue, hrejected⟩
    exact hnever reason hreason
  · refine iff_of_true ⟨?_, ?_, fun oid c hoid => ?_⟩ hin
    · exact iff_of_true ⟨_, _, hanswer⟩ ⟨order, hvenue, haccepted⟩
    · refine iff_of_false (fun ⟨reason, h⟩ => hnever reason h) ?_
      rintro ⟨_, hsame, hrejected⟩
      cases hvenue.symm.trans hsame
      exact not_accepted_rejected (hrejected ▸ haccepted)
    · cases hanswer.symm.trans hoid
      refine ⟨order, congrArg Except.ok hcached, hvenue, hknown.orderId, hknown.client, haccepted⟩

end Submission

def postAt (price : Decimal) : TradeIntent :=
  ⟨"BTC", .buy, .limit, 1, some price, .postOnly, false⟩

/-- All that the venue has heard of is a book with an ask at 101. -/
def askedAt101 : Config (OmsWorld OrderTables Unit) PyError :=
  Config.run (OmsOp.prog ⟨.orderbook 0 0 "USDT", 1000, "USDT"⟩ SQLiteOrderJournal.journal ⟨[], []⟩
      ⟨[], []⟩) ⟨.new ⟨[], []⟩ ⟨fun n => n, 0⟩ (), []⟩
    [.call (.onOrderbook ⟨"BTC", [⟨100, 5⟩], [⟨101, 5⟩], 0, 0⟩)]

/-- An order below the ask is let in. -/
theorem submit_reports_unless_turnedAway_at_100 :
    ReportsOutcome ⟨.orderbook 0 0 "USDT", 1000, "USDT"⟩ SQLiteOrderJournal.journal ⟨[], []⟩
      ⟨[], []⟩ "a" (postAt 100) askedAt101.state := by
  refine (submit_reports_unless_turnedAway ⟨.orderbook 0 0 "USDT", 1000, "USDT"⟩
    SQLiteOrderJournal.reliable ⟨by simp, by simp⟩ ⟨by simp, by simp⟩ "a" (postAt 100)
    askedAt101.state).mpr ?_
  rintro ⟨-, book, hbook, hcross⟩
  have hseen : askedAt101.state.venue.latestBook.get "BTC" =
      some ⟨"BTC", [⟨100, 5⟩], [⟨101, 5⟩], 0, 0⟩ := by decide +kernel
  cases hseen.symm.trans hbook
  exact absurd hcross (by decide)

/-- An order at the ask is rejected, and reported as submitted. -/
theorem submit_hides_rejection :
    let submitted := submission ⟨.orderbook 0 0 "USDT", 1000, "USDT"⟩ SQLiteOrderJournal.journal
      ⟨[], []⟩ ⟨[], []⟩ "a" (postAt 101) askedAt101.state
    submitted.2 = .ok (.submitted "paper-1" "a") ∧
      (submitted.1.venue.allOrders.get "paper-1").map Order.status = some .rejected ∧
      (submitted.1.env.oms.orders.get "paper-1").map Order.status = some .rejected ∧
      ¬ ReportsOutcome ⟨.orderbook 0 0 "USDT", 1000, "USDT"⟩ SQLiteOrderJournal.journal ⟨[], []⟩
        ⟨[], []⟩ "a" (postAt 101) askedAt101.state := by
  intro submitted
  have hanswer : submitted.2 = .ok (.submitted "paper-1" "a") := by decide +kernel
  have hcached : (submitted.1.env.oms.orders.get "paper-1").map Order.status = some .rejected := by
    decide +kernel
  refine ⟨hanswer, by decide +kernel, hcached, fun hreports => ?_⟩
  obtain ⟨order, hget, -, -, -, haccepted⟩ := hreports.recorded _ _ hanswer
  have hrecorded : submitted.1.env.oms.orders.get "paper-1" = some order := Except.ok.inj hget
  rw [hrecorded] at hcached
  rw [Option.some.inj hcached] at haccepted
  exact not_accepted_rejected haccepted

end Trading
