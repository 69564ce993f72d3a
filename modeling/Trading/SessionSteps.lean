import Trading.OrderRecovery
import Trading.PlacementReplay

/-!
# What a session over an old journal can do

The venue of a session is new and the manager's cache is what it restored. Every block
of an interleaved run is a sequence of the transitions below: an order is entered or
cancelled and handed over at once, a fill is journaled at once and executed and handed
over later, a submission is journaled and then cached.
-/
namespace Trading

open Async Data Relation PaperVenue PaperWorld SqliteWorld

/-- What the transitions look at. -/
structure SessionCore where
  venue : PaperVenue
  trace : List Notification
  cache : Dict OrderId Order
  tables : OrderTables

namespace SessionCore

def paper (c : SessionCore) : PaperCore := (c.venue, c.trace)

/-- The order is known to the venue, with its client id. -/
def Knows (u : Order) (c : SessionCore) : Prop := c.venue.Carries u.orderId u.clientOrderId

def journaled (u : Order) (c : SessionCore) : SessionCore :=
  { c with tables := { c.tables with orders := c.tables.orders ++ [u] } }

/-- `u` cached and journaled. -/
def handed (u : Order) (c : SessionCore) : SessionCore :=
  { c.journaled u with cache := c.cache.set u.orderId u }

/-- The order that a placement enters. -/
def ordered (request : OrderRequest) (now : Time) (c : SessionCore) : Order :=
  newOrder request (paperOid (c.venue.nextOid + 1)) (c.venue.initialStatus request) now

def placed (order : Order) (c : SessionCore) : SessionCore :=
  handed order { c with
    venue := enter order { c.venue with nextOid := c.venue.nextOid + 1 }
    trace := c.trace ++ [.update order] }

def cancelled (oid : OrderId) (order : Order) (c : SessionCore) : SessionCore :=
  handed order { c with venue := remove oid order c.venue, trace := c.trace ++ [.update order] }

end SessionCore

def SqliteWorld.session (w : SqliteWorld) : SessionCore :=
  ⟨w.venue, w.trace, w.env.oms.orders, w.env.oms.journal⟩

/-- The transitions, where requests carry client ids that satisfy `A`. -/
inductive SessionStep (cfg : PaperConfig) (A : ClientOrderId → Prop) :
    SessionCore → SessionCore → Prop where
  | observe (c : SessionCore) (snapshot : OrderbookSnapshot) :
      SessionStep cfg A c { c with venue := c.venue.observe snapshot }
  | place (c : SessionCore) (request : OrderRequest) (now : Time)
      (hcid : A request.clientOrderId) :
      SessionStep cfg A c (c.placed (c.ordered request now))
  | cancel (c : SessionCore) {oid : OrderId} {order : Order} (now : Time)
      (hopen : c.venue.openOrders.get oid = some order) :
      SessionStep cfg A c (c.cancelled oid { order with status := .cancelled, updatedAt := now })
  | fill (c : SessionCore) {oid : OrderId} {order updated : Order} {book : OrderbookSnapshot}
      {now : Time} {f : Fill} (hopen : c.venue.openOrders.get oid = some order)
      (hfill : cfg.fillEngine.tryFill order book now = some f)
      (hupdated : order.executed f = .ok updated) :
      SessionStep cfg A c { c with
        venue := store updated f c.venue, trace := c.trace ++ [.fill f, .update updated]
        tables := { c.tables with fills := c.tables.fills ++ [f] } }
  | execute (c : SessionCore) {order updated : Order} {f : Fill}
      (hknown : c.venue.allOrders.get f.orderId ≠ none)
      (hcached : c.cache.get f.orderId = some order) (hupdated : order.executed f = .ok updated) :
      SessionStep cfg A c { c.journaled updated with cache := c.cache.set f.orderId updated }
  | hand (c : SessionCore) {u : Order} (hknows : c.Knows u) : SessionStep cfg A c (c.handed u)
  | submitted (c : SessionCore) {u : Order} (hknows : c.Knows u) :
      SessionStep cfg A c (c.journaled u)
  | remember (c : SessionCore) {u : Order} (hknows : c.Knows u) :
      SessionStep cfg A c { c with cache := c.cache.setDefault u.orderId u }

abbrev SessionSteps (cfg : PaperConfig) (A : ClientOrderId → Prop) :=
  ReflTransGen (SessionStep cfg A)

section Steps

variable {cfg : PaperConfig} {A : ClientOrderId → Prop} {c c' : SessionCore}

/-- The venue takes a transition of its own, or none. -/
theorem sessionStep_paper (h : SessionStep cfg A c c') :
    ReflTransGen (PaperStep cfg fun _ => True) c.paper c'.paper := by
  cases h with
  | observe snapshot => exact .single (.observe _ _ trivial)
  | place request now hcid => exact .single (.place _ _ request now)
  | cancel now hopen => exact .single (.cancel now hopen)
  | fill hopen hfill hupdated => exact .single (.fill hopen (.inl trivial) hfill hupdated)
  | execute hknown hcached hupdated => exact .refl
  | hand hknows => exact .refl
  | submitted hknows => exact .refl
  | remember hknows => exact .refl

theorem sessionStep_maps (h : SessionStep cfg A c c') (hmaps : PaperMaps c.paper) :
    PaperMaps c'.paper :=
  maps_steps (sessionStep_paper h) hmaps

theorem sessionStep_knows (h : SessionStep cfg A c c') (hmaps : PaperMaps c.paper) {u : Order}
    (hu : c.Knows u) : c'.Knows u :=
  carries_steps (sessionStep_paper h) hmaps hu

theorem sessionSteps_keep (h : SessionSteps cfg A c c') (hmaps : PaperMaps c.paper) :
    PaperMaps c'.paper ∧ ∀ u, c.Knows u → c'.Knows u := by
  induction h with
  | refl => exact ⟨hmaps, fun _ hu => hu⟩
  | tail _ hstep ih =>
    exact ⟨sessionStep_maps hstep ih.1, fun u hu => sessionStep_knows hstep ih.1 (ih.2 u hu)⟩

end Steps

section Follows

def sessionContract (cfg : PaperConfig) (A : ClientOrderId → Prop) : Contract SqliteWorld Unit :=
  Contract.ofPreorder (fun s t => SessionSteps cfg A s.session t.session) (fun _ => .refl)
    fun h h' => h.trans h'

/-- Transitions since the block began; the venue's maps agree, and it knows `known`. -/
def Working (cfg : PaperConfig) (A : ClientOrderId → Prop) (known : List Order) (_ : Unit)
    (s₀ s : SqliteWorld) : Prop :=
  SessionSteps cfg A s₀.session s.session ∧ PaperMaps s.core ∧ ∀ u ∈ known, s.session.Knows u

variable {cfg : PaperConfig} {A : ClientOrderId → Prop} {known : List Order} {l : Unit}
  {s₀ s : SqliteWorld} {X : PyError → Unit → SqliteWorld → SqliteWorld → Prop}

/-- What a task knows outlasts the others' transitions. -/
theorem Working.rely (h : Working cfg A known l s₀ s) {t : SqliteWorld}
    (ht : SessionSteps cfg A s.session t.session) : Working cfg A known l t t :=
  ⟨.refl, (sessionSteps_keep ht h.2.1).1, fun u hu => (sessionSteps_keep ht h.2.1).2 u (h.2.2 u hu)⟩

theorem Working.step (h : Working cfg A known l s₀ s) {t : SqliteWorld}
    (hstep : SessionStep cfg A s.session t.session) : Working cfg A known l s₀ t :=
  ⟨h.1.tail hstep, sessionStep_maps hstep h.2.1,
    fun u hu => sessionStep_knows hstep h.2.1 (h.2.2 u hu)⟩

theorem Working.learn (h : Working cfg A known l s₀ s) {u : Order} (hu : s.session.Knows u) :
    Working cfg A (u :: known) l s₀ s :=
  ⟨h.1, h.2.1, List.forall_mem_cons.mpr ⟨hu, h.2.2⟩⟩

theorem Working.drop {u : Order} (h : Working cfg A (u :: known) l s₀ s) :
    Working cfg A known l s₀ s :=
  ⟨h.1, h.2.1, (List.forall_mem_cons.mp h.2.2).2⟩

/-- Handing over an update, where that is a transition. -/
theorem follows_handed {u : Order} (h : Working cfg A known l s₀ (handed u s)) :
    (sessionContract cfg A).Follows (fun _ => Working cfg A known) X
      (notifyOrder sqliteSubs u) l s₀ s :=
  ⟨(), h.1, fun _ ht => h.rely ht⟩

/-- The world once a fill is journaled. -/
def SqliteWorld.filled (f : Fill) (w : SqliteWorld) : SqliteWorld :=
  { w with env := { w.env with oms := { w.env.oms with
      journal := { w.env.oms.journal with fills := w.env.oms.journal.fills ++ [f] } } } }

theorem follows_writeFill {f : Fill} (h : Working cfg A known l s₀ (filled f s)) :
    (sessionContract cfg A).Follows (fun _ => Working cfg A known) X
      ((((SQLiteOrderJournal.journal.writeFill f).lift : Coro (OrderManager OrderTables) Unit).lift :
        Coro (OmsEnv OrderTables Unit) Unit).lift) l s₀ s :=
  ⟨(), h.1, fun _ ht => h.rely ht⟩

theorem follows_writeOrder {u : Order} (h : Working cfg A known l s₀ (journaled u s)) :
    (sessionContract cfg A).Follows (fun _ => Working cfg A known) X
      ((((SQLiteOrderJournal.journal.writeOrder u).lift : Coro (OrderManager OrderTables) Unit).lift :
        Coro (OmsEnv OrderTables Unit) Unit).lift) l s₀ s :=
  ⟨(), h.1, fun _ ht => h.rely ht⟩

theorem Working.forget (h : Working cfg A known l s₀ s) : Working cfg A [] l s₀ s :=
  ⟨h.1, h.2.1, fun _ hu => absurd hu List.not_mem_nil⟩

/-- A fill is journaled, then executed on the cached order. -/
theorem follows_filled {f : Fill} {u : Order} (hid : u.orderId = f.orderId)
    (h : Working cfg A (u :: known) l s₀ (filled f s)) :
    (sessionContract cfg A).Follows (fun _ => Working cfg A (u :: known))
      (fun _ => Working cfg A []) (notifyFill sqliteSubs f) l s₀ s := by
  have hloop : notifyFill sqliteSubs f =
      (((OrderManager.onFill SQLiteOrderJournal.journal f).lift :
        Coro (OmsEnv OrderTables Unit) Unit).lift : Coro SqliteWorld Unit).bind
          fun _ => .pure () := rfl
  rw [hloop, Contract.follows_bind]
  simp only [OrderManager.onFill, Co.bind_eq, Co.lift_bind, Contract.follows_bind]
  refine (follows_writeFill h).mono (fun _ l s₀ s h => ?_) fun _ _ _ _ h => h
  rw [Contract.follows_bind, follows_readOms]
  cases hcached : s.env.oms.orders.get f.orderId with
  | none => exact h
  | some order =>
    cases hupdated : order.executed f with
    | error e =>
      simp only [Co.ofExcept, hupdated, Co.lift_bind, Contract.follows_bind]
      exact h.forget
    | ok updated =>
      simp only [Co.ofExcept, hupdated, Co.lift_bind, Contract.follows_bind]
      have hknown : s.venue.allOrders.get f.orderId ≠ none := by
        obtain ⟨order', hget, -⟩ := h.2.2 u List.mem_cons_self
        rw [← hid]
        exact hget ▸ Option.some_ne_none order'
      exact follows_writeOrder (h.step (.execute (session s) hknown hcached hupdated))

theorem announces_session : Announces (sessionContract cfg A) cfg (fun _ => True) sqliteSubs
    (Working cfg A known) (fun _ => Working cfg A []) where
  tick h := h
  raised _ h := h.forget
  observe {_ _ s snapshot} _ h := h.step (.observe (session s) snapshot)
  fill {l s₀} s {oid order book now f updated} hopen _ hfill hupdated h := by
    have hid : updated.orderId = f.orderId := (Order.executed_orderId hupdated).trans
      (FillEngine.tryFill_describes hfill).orderId.symm
    have hfilled : Working cfg A known l s₀ (filled f { s with
        venue := store updated f s.venue, trace := s.trace ++ [.fill f, .update updated] }) :=
      h.step (.fill (session s) hopen hfill hupdated)
    have hknows : Working cfg A (updated :: known) l s₀ (filled f { s with
        venue := store updated f s.venue, trace := s.trace ++ [.fill f, .update updated] }) :=
      hfilled.learn ⟨updated, Dict.get_set_same _ _ _, rfl⟩
    rw [Co.bind_eq, Contract.follows_bind]
    refine (follows_filled hid hknows).mono (fun _ l s₀ s h => ?_) fun _ _ _ _ h => h
    exact (follows_handed (h.step (.hand (session s) (h.2.2 updated List.mem_cons_self)))).mono
      (fun _ _ _ _ h => h.drop) fun _ _ _ _ h => h
  cancel {_ _} s {_ _} now hopen h := follows_handed (h.step (.cancel (session s) now hopen))

theorem follows_submitted {cid : ClientOrderId} (hcid : A cid) (intent : TradeIntent)
    (h : Working cfg A [] l s₀ s) :
    (sessionContract cfg A).Follows (fun _ => Working cfg A []) (fun _ => Working cfg A [])
      (OrderManager.submit (PaperVenue.asVenue cfg sqliteSubs) SQLiteOrderJournal.journal
        cid intent) l s₀ s := by
  have hnow : (Clock.now.lift : Coro SqliteWorld Time) = readNow := rfl
  let row (oid : OrderId) := OrderManager.submittedOrder oid cid intent
    (s.clock.reading s.clock.reads)
  have hplace : (sessionContract cfg A).Follows (fun oid => Working cfg A [row oid])
      (fun _ => Working cfg A [])
      (PaperVenue.placeOrder cfg sqliteSubs (OrderManager.request cid intent)) l s₀ s.tick := by
    refine Announces.placeOrder (Working cfg A []) (fun oid => announces_session) (fun h => h) _
      (fun {l s₀} s now h => ?_) h
    let order := SessionCore.ordered (OrderManager.request cid intent) now (session s)
    have hentered : Working cfg A [] l s₀ (handed order { s with
        venue := enter order { s.venue with nextOid := s.venue.nextOid + 1 }
        trace := s.trace ++ [.update order] }) :=
      h.step (.place (session s) (OrderManager.request cid intent) now hcid)
    exact follows_handed (hentered.learn ⟨order, Dict.get_set_same _ _ _, rfl⟩)
  simp only [OrderManager.submit, Co.bind_eq, hnow, Contract.follows_bind, follows_readNow]
  apply Contract.Follows.caught
  refine hplace.mono (fun oid l s₀ s' h => ?_) (fun _ _ _ _ h => ⟨h, h⟩)
  simp only [OrderManager.recordSubmission, Co.bind_eq, Co.lift_bind, Contract.follows_bind]
  have hknows : s'.session.Knows (row oid) := h.2.2 _ List.mem_cons_self
  refine (follows_writeOrder (h.step (.submitted (session s') hknows))).mono
    (fun _ l s₀ t h => ?_) fun _ _ _ _ h => h
  exact (h.step (.remember (session t) (h.2.2 _ List.mem_cons_self))).forget

theorem follows_cancels (orders : List Order) (count : Nat) (h : Working cfg A [] l s₀ s) :
    (sessionContract cfg A).Follows (fun _ => Working cfg A []) (fun _ => Working cfg A [])
      (OrderManager.cancelEach (PaperVenue.asVenue cfg sqliteSubs) orders count) l s₀ s := by
  induction orders generalizing count l s₀ s with
  | nil => exact h
  | cons order orders ih =>
    rw [OrderManager.cancelEach, Co.bind_eq, Contract.follows_bind]
    exact (announces_session.cancelOrder order.orderId h).mono (fun _ _ _ _ h => ih _ h)
      fun _ _ _ _ h => h

/-- A submission carries a client id that satisfies `A`. -/
def OmsOp.Asks (A : ClientOrderId → Prop) : OmsOp → Prop
  | .submit cid _ => A cid
  | _ => True

def OmsOp.session (cfg : PaperConfig) (op : OmsOp) : Coro SqliteWorld Unit :=
  op.prog cfg SQLiteOrderJournal.journal ⟨[], []⟩ ⟨[], []⟩

/-- One case per operation. -/
theorem task_session (op : OmsOp) (hop : op.Asks A) (hmaps : PaperMaps s.core) :
    (sessionContract cfg A).Task (op.session cfg) () s := by
  have hstart : Working cfg A [] () s s := ⟨.refl, hmaps, fun _ hu => absurd hu List.not_mem_nil⟩
  have hends : ∀ {α : Type} (a : α) l (s₀ s : SqliteWorld), Working cfg A [] l s₀ s →
      (sessionContract cfg A).Ends l s₀ s := fun _ l _ _ h => ⟨l, h.1, trivial⟩
  unfold Contract.Task
  cases op with
  | submit cid intent =>
    rw [OmsOp.session, OmsOp.prog, Contract.follows_bind]
    exact (follows_submitted hop intent hstart).mono hends hends
  | cancel oid =>
    rw [OmsOp.session, OmsOp.prog, Contract.follows_bind]
    exact (announces_session.cancelOrder oid hstart).mono hends hends
  | cancelAll symbol =>
    rw [OmsOp.session, OmsOp.prog, Contract.follows_bind]
    exact (follows_cancels _ 0 hstart).mono hends hends
  | onOrderbook snapshot => exact (announces_session.onOrderbook trivial hstart).mono hends hends

/-- Whatever interleaving a session takes, its moments are linked by transitions. -/
theorem reaches_sessionSteps {w : SqliteWorld} {c : Config SqliteWorld PyError}
    (hmaps : PaperMaps w.core)
    (hc : Reaches (OmsOp.session cfg) (fun op _ => op.Asks A) ⟨w, []⟩ c) :
    SessionSteps cfg A w.session c.state.session := by
  have htask : ∀ (op : OmsOp) (t : SqliteWorld), SessionSteps cfg A w.session t.session →
      op.Asks A → (sessionContract cfg A).Task (op.session cfg) () t :=
    fun op _ ht hop => task_session op hop (sessionSteps_keep ht hmaps).1
  exact (Reaches.preorder (R := fun s t => SessionSteps cfg A (session s) (session t)) htask hc
    .refl).1

end Follows

end Trading
