import Trading.OrderJournalReads
import Trading.SessionSteps

/-!
# Whose order an id names

The venue counts its ids from one in every session, the journal outlives the sessions. An
id names one order as long as every session that submits finds a journal without orders.
-/
namespace Trading

open Async Data Relation PaperVenue PaperWorld SqliteWorld

/-- A process from its start to its end; what it journaled within the first `committed`
labels outlives it. -/
structure Session where
  clock : Clock
  labels : List (Label OmsOp)
  committed : Nat

def OmsOp.cid? : OmsOp → Option ClientOrderId
  | .submit cid _ => some cid
  | _ => none

/-- The client ids that a schedule submits. -/
def cidsOf (labels : List (Label OmsOp)) : List ClientOrderId :=
  labels.filterMap fun
    | .call op => op.cid?
    | .resume _ => none

namespace Session

def cids (s : Session) : List ClientOrderId := cidsOf s.labels

/-- A manager restored from the tables, over a new venue. -/
def start (t : OrderTables) (s : Session) : SqliteWorld := ⟨s.clock, .new, [], ⟨recovered t, ()⟩⟩

/-- The session after its first `n` labels. -/
def after (cfg : PaperConfig) (t : OrderTables) (s : Session) (n : Nat) :
    Config SqliteWorld PyError :=
  Config.run (OmsOp.session cfg) ⟨s.start t, []⟩ (s.labels.take n)

def moment (cfg : PaperConfig) (t : OrderTables) (s : Session) (n : Nat) : SqliteWorld :=
  (s.after cfg t n).state

end Session

/-- The journal that the sessions leave, one after another. -/
def tablesAfter (cfg : PaperConfig) (sessions : List Session) : OrderTables :=
  sessions.foldl (fun t s => (s.moment cfg t s.committed).env.oms.journal) ⟨[], []⟩

/-- In a session over `t`: rows of one id are rows of one order, no fill goes with fills of
an earlier session, and a restored order stays cached under its id. -/
structure Distinguishes (t : OrderTables) (w : SqliteWorld) : Prop where
  rows : ∀ r ∈ w.env.oms.journal.orders, ∀ r' ∈ w.env.oms.journal.orders,
    r.orderId = r'.orderId → r.clientOrderId = r'.clientOrderId
  fills : ∃ new, w.env.oms.journal.fills = t.fills ++ new ∧
    ∀ f ∈ new, ∀ g ∈ t.fills, f.orderId ≠ g.orderId
  restored : ∀ oid o, (recovered t).orders.get oid = some o →
    ∃ o', w.env.oms.orders.get oid = some o' ∧ o'.clientOrderId = o.clientOrderId

/-- Ids name one order each at every moment of every session. -/
def OrdersKeptApart (cfg : PaperConfig) (sessions : List Session) : Prop :=
  ∀ before s later, sessions = before ++ s :: later → ∀ n,
    Distinguishes (tablesAfter cfg before) (s.moment cfg (tablesAfter cfg before) n)

/-- A session that submits begins on a journal without orders. -/
def SubmitsOnEmpty (cfg : PaperConfig) (sessions : List Session) : Prop :=
  ∀ before s later, sessions = before ++ s :: later → s.cids ≠ [] →
    (tablesAfter cfg before).orders = []

/-- The tables give each id to one order, and rows to whatever has a fill. -/
structure OrderTables.Apart (t : OrderTables) : Prop where
  rows : ∀ r ∈ t.orders, ∀ r' ∈ t.orders, r.orderId = r'.orderId →
    r.clientOrderId = r'.clientOrderId
  filled : ∀ f ∈ t.fills, ∃ row ∈ t.orders, row.orderId = f.orderId

/-- The venue's ids are new to the tables `t` that the session began on; what it journaled and
cached since is of the venue's orders. -/
structure Tracked (t : OrderTables) (c : SessionCore) : Prop where
  maps : PaperMaps c.paper
  fresh : ∀ oid, c.venue.allOrders.get oid ≠ none → ∀ row ∈ t.orders, row.orderId ≠ oid
  rows : ∃ new, c.tables.orders = t.orders ++ new ∧ ∀ row ∈ new, c.Knows row
  fills : ∃ new, c.tables.fills = t.fills ++ new ∧
    ∀ f ∈ new, c.venue.allOrders.get f.orderId ≠ none
  cache : ∀ oid o, c.cache.get oid = some o → o.orderId = oid ∧
    (c.Knows o ∨ ∃ row ∈ t.orders, row.orderId = oid)
  kept : ∀ oid o, (recovered t).orders.get oid = some o →
    ∃ o', c.cache.get oid = some o' ∧ o'.clientOrderId = o.clientOrderId

/-- Every order the venue knows has a row. -/
def Rowed (c : SessionCore) : Prop :=
  ∀ oid, c.venue.allOrders.get oid ≠ none → ∃ row ∈ c.tables.orders, row.orderId = oid

section Tracked

variable {t : OrderTables} {c : SessionCore} {cfg : PaperConfig}

theorem SessionCore.Knows.known {u : Order} (h : c.Knows u) :
    c.venue.allOrders.get u.orderId ≠ none := by
  obtain ⟨order, hget, -⟩ := h
  exact hget ▸ Option.some_ne_none order

theorem recovered_mem {oid : OrderId} {o : Order} (h : (recovered t).orders.get oid = some o) :
    o ∈ t.orders ∧ o.orderId = oid := by
  have horders : (recovered t).orders =
      .ofList Order.orderId (SQLiteOrderJournal.openOrders t none) := rfl
  rw [horders] at h
  obtain ⟨hopen, hid⟩ := Dict.mem_of_get_ofList h
  exact ⟨(newestFor_mem (SQLiteOrderJournal.mem_openOrders.mp hopen).1).1, hid⟩

theorem tracked_start (s : Session) : Tracked t (session (s.start t)) where
  maps := paperMaps_new
  fresh _ h := absurd rfl h
  rows := ⟨[], (List.append_nil _).symm, fun _ h => absurd h List.not_mem_nil⟩
  fills := ⟨[], (List.append_nil _).symm, fun _ h => absurd h List.not_mem_nil⟩
  cache oid o h := by
    obtain ⟨hmem, hid⟩ := recovered_mem h
    exact ⟨hid, .inr ⟨o, hmem, hid⟩⟩
  kept _ o h := ⟨o, h, rfl⟩

/-- A transition of the venue, ids that are new to it being new to the tables. -/
theorem Tracked.venue (h : Tracked t c) {v : PaperVenue} {tr : List Notification}
    (hstep : PaperStep cfg (fun _ => True) c.paper (v, tr))
    (hnew : ∀ oid, v.allOrders.get oid ≠ none →
      c.venue.allOrders.get oid ≠ none ∨ t.orders = []) :
    Tracked t { c with venue := v, trace := tr } where
  maps := maps_step hstep h.maps
  fresh oid hoid row hrow := by
    cases hnew oid hoid with
    | inl hknown => exact h.fresh oid hknown row hrow
    | inr hempty =>
      rw [hempty] at hrow
      cases hrow
  rows := by
    obtain ⟨new, horders, hknows⟩ := h.rows
    exact ⟨new, horders, fun row hrow => carries_step hstep h.maps (hknows row hrow)⟩
  fills := by
    obtain ⟨new, hfills, hknown⟩ := h.fills
    refine ⟨new, hfills, fun f hf => ?_⟩
    cases hget : c.venue.allOrders.get f.orderId with
    | none => exact absurd hget (hknown f hf)
    | some order =>
      obtain ⟨order', hget', -⟩ := carries_step hstep h.maps ⟨order, hget, rfl⟩
      exact hget' ▸ Option.some_ne_none order'
  cache oid o ho := by
    obtain ⟨hid, hknows | hrow⟩ := h.cache oid o ho
    · exact ⟨hid, .inl (carries_step hstep h.maps hknows)⟩
    · exact ⟨hid, .inr hrow⟩
  kept := h.kept

theorem Tracked.journaled (h : Tracked t c) {u : Order} (hu : c.Knows u) :
    Tracked t (c.journaled u) where
  maps := h.maps
  fresh := h.fresh
  rows := by
    obtain ⟨new, horders, hknows⟩ := h.rows
    refine ⟨new ++ [u], ?_, fun row hrow => ?_⟩
    · rw [SessionCore.journaled, horders, List.append_assoc]
    · rcases List.mem_append.mp hrow with hrow | hrow
      · exact hknows row hrow
      · exact List.mem_singleton.mp hrow ▸ hu
  fills := h.fills
  cache := h.cache
  kept := h.kept

/-- A restored order is not overwritten: no order of the venue has its id. -/
theorem Tracked.cached (h : Tracked t c) {u : Order} (hu : c.Knows u) :
    Tracked t { c with cache := c.cache.set u.orderId u } where
  maps := h.maps
  fresh := h.fresh
  rows := h.rows
  fills := h.fills
  cache oid o ho := by
    rw [Dict.get_set] at ho
    split at ho
    · next hoid =>
      cases ho
      exact ⟨hoid.symm, .inl hu⟩
    · exact h.cache oid o ho
  kept oid o ho := by
    obtain ⟨hmem, hid⟩ := recovered_mem ho
    have hne : oid ≠ u.orderId := fun e => h.fresh _ hu.known o hmem (hid.trans e)
    rw [Dict.get_set_other _ _ hne]
    exact h.kept oid o ho

theorem Tracked.handed (h : Tracked t c) {u : Order} (hu : c.Knows u) : Tracked t (c.handed u) :=
  (h.journaled hu).cached hu

theorem Tracked.filled (h : Tracked t c) {f : Fill}
    (hf : c.venue.allOrders.get f.orderId ≠ none) :
    Tracked t { c with tables := { c.tables with fills := c.tables.fills ++ [f] } } where
  maps := h.maps
  fresh := h.fresh
  rows := h.rows
  fills := by
    obtain ⟨new, hfills, hknown⟩ := h.fills
    refine ⟨new ++ [f], ?_, fun g hg => ?_⟩
    · rw [hfills, List.append_assoc]
    · rcases List.mem_append.mp hg with hg | hg
      · exact hknown g hg
      · exact List.mem_singleton.mp hg ▸ hf
  cache := h.cache
  kept := h.kept

/-- Assigning to a present key makes no other present. -/
theorem present_of_set {d : Dict OrderId Order} {k j : OrderId} {o : Order} (hk : d.get k ≠ none)
    (hj : (d.set k o).get j ≠ none) : d.get j ≠ none := by
  rw [Dict.get_set] at hj
  split at hj
  · next hjk => exact hjk ▸ hk
  · exact hj

theorem Rowed.grow (h : Rowed c) {c' : SessionCore}
    (hrows : ∀ row ∈ c.tables.orders, row ∈ c'.tables.orders)
    (hknown : ∀ oid, c'.venue.allOrders.get oid ≠ none →
      c.venue.allOrders.get oid ≠ none ∨ ∃ row ∈ c'.tables.orders, row.orderId = oid) :
    Rowed c' := by
  intro oid hoid
  cases hknown oid hoid with
  | inl hold =>
    obtain ⟨row, hrow, hid⟩ := h oid hold
    exact ⟨row, hrows row hrow, hid⟩
  | inr hnew => exact hnew

theorem mem_journaled {u row : Order} (hrow : row ∈ c.tables.orders) :
    row ∈ (c.journaled u).tables.orders :=
  List.mem_append_left _ hrow

theorem Rowed.journaled (h : Rowed c) {c' : SessionCore} {u : Order}
    (htables : c'.tables.orders = c.tables.orders ++ [u])
    (hknown : ∀ oid, c'.venue.allOrders.get oid ≠ none →
      c.venue.allOrders.get oid ≠ none ∨ oid = u.orderId) : Rowed c' := by
  refine h.grow (fun _ hrow => htables ▸ List.mem_append_left _ hrow) fun oid hoid => ?_
  cases hknown oid hoid with
  | inl hold => exact .inl hold
  | inr hnew => exact .inr ⟨u, htables ▸ List.mem_append_right _ List.mem_cons_self, hnew.symm⟩

theorem tracked_place (cfg : PaperConfig) (h : Tracked t c) (hrowed : Rowed c)
    (request : OrderRequest) (now : Time)
    (hempty : t.orders = []) :
    Tracked t (c.placed (c.ordered request now)) ∧ Rowed (c.placed (c.ordered request now)) := by
  have hplace : PaperStep cfg (fun _ => True) c.paper _ := .place c.venue c.trace request now
  have hplaced := (h.venue hplace fun _ _ => .inr hempty).handed
    (u := c.ordered request now) ⟨_, Dict.get_set_same _ _ _, rfl⟩
  refine ⟨hplaced, hrowed.journaled rfl fun oid hoid => ?_⟩
  by_cases hnew : oid = (c.ordered request now).orderId
  · exact .inr hnew
  · refine .inl fun hnone => hoid ?_
    exact (Dict.get_set_other _ _ hnew).trans hnone

theorem tracked_cancel (cfg : PaperConfig) (h : Tracked t c) (hrowed : Rowed c) {oid : OrderId}
    {order : Order}
    (now : Time) (hopen : c.venue.openOrders.get oid = some order) :
    Tracked t (c.cancelled oid { order with status := .cancelled, updatedAt := now }) ∧
      Rowed (c.cancelled oid { order with status := .cancelled, updatedAt := now }) := by
  obtain ⟨hall, -, hid⟩ := h.maps.known hopen
  have hpresent : c.venue.allOrders.get oid ≠ none := hall ▸ Option.some_ne_none order
  have hknown : ∀ j, (remove oid { order with status := .cancelled, updatedAt := now }
      c.venue).allOrders.get j ≠ none → c.venue.allOrders.get j ≠ none :=
    fun j hj => present_of_set hpresent hj
  have hcancel : PaperStep cfg (fun _ => True) c.paper _ := .cancel now hopen
  have hcancelled := (h.venue hcancel fun j hj => .inl (hknown j hj)).handed
    (u := { order with status := .cancelled, updatedAt := now })
    ⟨_, (congrArg _ hid).trans (Dict.get_set_same _ _ _), rfl⟩
  exact ⟨hcancelled, hrowed.journaled rfl fun j hj => .inl (hknown j hj)⟩

theorem tracked_fill (h : Tracked t c) (hrowed : Rowed c) {oid : OrderId} {order updated : Order}
    {book : OrderbookSnapshot} {now : Time} {f : Fill}
    (hopen : c.venue.openOrders.get oid = some order)
    (hfill : cfg.fillEngine.tryFill order book now = some f)
    (hupdated : order.executed f = .ok updated) :
    let c' : SessionCore := { c with
      venue := store updated f c.venue, trace := c.trace ++ [.fill f, .update updated]
      tables := { c.tables with fills := c.tables.fills ++ [f] } }
    Tracked t c' ∧ Rowed c' := by
  obtain ⟨hall, -, hid⟩ := h.maps.known hopen
  have hupdatedId : updated.orderId = oid := (Order.executed_orderId hupdated).trans hid
  have hfillId : f.orderId = updated.orderId :=
    (FillEngine.tryFill_describes hfill).orderId.trans (Order.executed_orderId hupdated).symm
  have hpresent : c.venue.allOrders.get updated.orderId ≠ none := by
    rw [hupdatedId, hall]
    exact Option.some_ne_none order
  have hknown : ∀ j, (store updated f c.venue).allOrders.get j ≠ none →
      c.venue.allOrders.get j ≠ none := fun j hj => present_of_set hpresent hj
  have hstored := h.venue (.fill hopen (.inl trivial) hfill hupdated) fun j hj =>
    .inl (hknown j hj)
  have hfilled : (store updated f c.venue).allOrders.get f.orderId ≠ none := by
    rw [hfillId]
    exact Dict.get_set_ne_none _ (.inl rfl)
  exact ⟨hstored.filled hfilled, hrowed.grow (fun _ hrow => hrow) fun j hj => .inl (hknown j hj)⟩

/-- A cached order that the venue's fill is of is the venue's own. -/
theorem Tracked.knows_executed (h : Tracked t c) {order updated : Order} {f : Fill}
    (hknown : c.venue.allOrders.get f.orderId ≠ none)
    (hcached : c.cache.get f.orderId = some order) (hupdated : order.executed f = .ok updated) :
    updated.orderId = f.orderId ∧ c.Knows updated := by
  obtain ⟨hid, hknows | ⟨row, hrow, hrowId⟩⟩ := h.cache f.orderId order hcached
  · refine ⟨(Order.executed_orderId hupdated).trans hid, ?_⟩
    rw [SessionCore.Knows, Order.executed_orderId hupdated, Order.executed_clientOrderId hupdated]
    exact hknows
  · exact absurd hrowId (h.fresh f.orderId hknown row hrow)

theorem Tracked.remembered (h : Tracked t c) {u : Order} (hknows : c.Knows u) :
    Tracked t { c with cache := c.cache.setDefault u.orderId u } := by
  by_cases hpresent : c.cache.get u.orderId = none
  · have hset : c.cache.setDefault u.orderId u = c.cache.set u.orderId u := by
      simp [Dict.setDefault, hpresent]
    rw [hset]
    exact h.cached hknows
  · rw [Dict.setDefault_present hpresent]
    exact h

/-- Every transition keeps it, orders being placed over empty tables only. -/
theorem tracked_step {c' : SessionCore} (hstep : SessionStep cfg (fun _ => t.orders = []) c c')
    (h : Tracked t c) (hrowed : Rowed c) : Tracked t c' ∧ Rowed c' := by
  cases hstep with
  | observe snapshot =>
    have hobserve : PaperStep cfg (fun _ => True) c.paper (c.venue.observe snapshot, c.trace) :=
      .observe _ _ trivial
    exact ⟨h.venue hobserve fun _ hoid => .inl hoid, hrowed⟩
  | place request now hempty => exact tracked_place cfg h hrowed request now hempty
  | cancel now hopen => exact tracked_cancel cfg h hrowed now hopen
  | fill hopen hfill hupdated => exact tracked_fill h hrowed hopen hfill hupdated
  | execute hknown hcached hupdated =>
    obtain ⟨hid, hknows⟩ := h.knows_executed hknown hcached hupdated
    rw [← hid]
    exact ⟨h.handed hknows, hrowed.journaled rfl fun _ hj => .inl hj⟩
  | hand hknows => exact ⟨h.handed hknows, hrowed.journaled rfl fun _ hj => .inl hj⟩
  | submitted hknows => exact ⟨h.journaled hknows, hrowed.journaled rfl fun _ hj => .inl hj⟩
  | remember hknows => exact ⟨h.remembered hknows, hrowed⟩

theorem tracked_steps {c' : SessionCore}
    (hsteps : SessionSteps cfg (fun _ => t.orders = []) c c') (h : Tracked t c)
    (hrowed : Rowed c) : Tracked t c' ∧ Rowed c' := by
  induction hsteps with
  | refl => exact ⟨h, hrowed⟩
  | tail _ hstep ih => exact tracked_step hstep ih.1 ih.2

theorem Tracked.apart (h : Tracked t c) (hrowed : Rowed c) (ht : t.Apart) : c.tables.Apart := by
  obtain ⟨new, horders, hknows⟩ := h.rows
  obtain ⟨newFills, hfills, hknown⟩ := h.fills
  have hcross : ∀ r ∈ t.orders, ∀ r' ∈ new, r.orderId ≠ r'.orderId :=
    fun r hr r' hr' => h.fresh r'.orderId (hknows r' hr').known r hr
  refine ⟨fun r hr r' hr' hid => ?_, fun f hf => ?_⟩
  · rw [horders] at hr hr'
    rcases List.mem_append.mp hr with hr | hr <;> rcases List.mem_append.mp hr' with hr' | hr'
    · exact ht.rows r hr r' hr' hid
    · exact absurd hid (hcross r hr r' hr')
    · exact absurd hid.symm (hcross r' hr' r hr)
    · obtain ⟨order, hget, hcid⟩ := hknows r hr
      obtain ⟨order', hget', hcid'⟩ := hknows r' hr'
      rw [hid, hget'] at hget
      cases hget
      exact hcid.symm.trans hcid'
  · rw [hfills] at hf
    rcases List.mem_append.mp hf with hf | hf
    · obtain ⟨row, hrow, hid⟩ := ht.filled f hf
      exact ⟨row, horders ▸ List.mem_append_left new hrow, hid⟩
    · exact hrowed f.orderId (hknown f hf)

theorem Tracked.distinguishes {w : SqliteWorld} (h : Tracked t (session w))
    (hrowed : Rowed (session w)) (ht : t.Apart) : Distinguishes t w where
  rows := (h.apart hrowed ht).rows
  fills := by
    obtain ⟨new, hfills, hknown⟩ := h.fills
    refine ⟨new, hfills, fun f hf g hg hid => ?_⟩
    obtain ⟨row, hrow, hrowId⟩ := ht.filled g hg
    exact h.fresh f.orderId (hknown f hf) row hrow (hrowId.trans hid.symm)
  restored := h.kept

end Tracked

/-- All client ids are among `U`. -/
structure Within (U : ClientOrderId → Prop) (c : SessionCore) : Prop where
  maps : PaperMaps c.paper
  rows : ∀ row ∈ c.tables.orders, U row.clientOrderId
  cache : ∀ oid o, c.cache.get oid = some o → U o.clientOrderId
  venue : ∀ oid o, c.venue.allOrders.get oid = some o → U o.clientOrderId

/-- The venue has not been asked for an order, and the journal is still `t`. -/
structure Untouched (t : OrderTables) (c : SessionCore) : Prop where
  maps : PaperMaps c.paper
  unasked : c.venue.nextOid = 0
  unknown : ∀ oid, c.venue.allOrders.get oid = none
  tables : c.tables = t

section AnySession

variable {cfg : PaperConfig} {U : ClientOrderId → Prop} {t : OrderTables} {c c' : SessionCore}

theorem set_all {P : Order → Prop} {d : Dict OrderId Order} {k : OrderId} {u : Order} (hu : P u)
    (h : ∀ oid o, d.get oid = some o → P o) : ∀ oid o, (d.set k u).get oid = some o → P o := by
  intro oid o ho
  rw [Dict.get_set] at ho
  split at ho
  · cases ho
    exact hu
  · exact h oid o ho

theorem concat_all {P : Order → Prop} {rows : List Order} {u : Order} (hu : P u)
    (h : ∀ row ∈ rows, P row) : ∀ row ∈ rows ++ [u], P row := by
  intro row hrow
  rcases List.mem_append.mp hrow with hrow | hrow
  · exact h row hrow
  · exact List.mem_singleton.mp hrow ▸ hu

theorem Within.knows (h : Within U c) {u : Order} (hu : c.Knows u) : U u.clientOrderId := by
  obtain ⟨order, hget, hcid⟩ := hu
  exact hcid ▸ h.venue _ order hget

theorem within_step (hstep : SessionStep cfg U c c') (h : Within U c) : Within U c' := by
  have hmaps := sessionStep_maps hstep h.maps
  cases hstep with
  | observe snapshot => exact ⟨hmaps, h.rows, h.cache, h.venue⟩
  | place request now hcid =>
    exact ⟨hmaps, concat_all hcid h.rows, set_all hcid h.cache, set_all hcid h.venue⟩
  | @cancel oid order now hopen =>
    have hcid := h.venue oid order (h.maps.known hopen).1
    exact ⟨hmaps, concat_all hcid h.rows, set_all hcid h.cache, set_all hcid h.venue⟩
  | @fill oid order updated book now f hopen hfill hupdated =>
    have hcid := h.venue oid order (h.maps.known hopen).1
    rw [← Order.executed_clientOrderId hupdated] at hcid
    exact ⟨hmaps, h.rows, h.cache, set_all hcid h.venue⟩
  | @execute order updated f hknown hcached hupdated =>
    have hcid := h.cache f.orderId order hcached
    rw [← Order.executed_clientOrderId hupdated] at hcid
    exact ⟨hmaps, concat_all hcid h.rows, set_all hcid h.cache, h.venue⟩
  | hand hknows =>
    exact ⟨hmaps, concat_all (h.knows hknows) h.rows, set_all (h.knows hknows) h.cache, h.venue⟩
  | submitted hknows => exact ⟨hmaps, concat_all (h.knows hknows) h.rows, h.cache, h.venue⟩
  | remember hknows =>
    refine ⟨hmaps, h.rows, ?_, h.venue⟩
    rw [Dict.setDefault]
    split
    · exact h.cache
    · exact set_all (h.knows hknows) h.cache

/-- The journal only grows. -/
theorem rows_step {A : ClientOrderId → Prop} (hstep : SessionStep cfg A c c') :
    ∀ row ∈ c.tables.orders, row ∈ c'.tables.orders := by
  intro row hrow
  cases hstep with
  | observe snapshot => exact hrow
  | place request now hcid => exact mem_journaled hrow
  | cancel now hopen => exact mem_journaled hrow
  | fill hopen hfill hupdated => exact hrow
  | execute hknown hcached hupdated => exact mem_journaled hrow
  | hand hknows => exact mem_journaled hrow
  | submitted hknows => exact mem_journaled hrow
  | remember hknows => exact hrow

/-- Nothing is journaled before the first order, which is entered under the first id. -/
theorem untouched_step {A : ClientOrderId → Prop} (hstep : SessionStep cfg A c c')
    (h : Untouched t c) : Untouched t c' ∨
      (∃ cid, A cid) ∧ ∃ row ∈ c'.tables.orders, row.orderId = paperOid 1 := by
  have hmaps := sessionStep_maps hstep h.maps
  have hunknown : ∀ u, ¬ c.Knows u := fun u hu => hu.known (h.unknown u.orderId)
  cases hstep with
  | observe snapshot => exact .inl ⟨hmaps, h.unasked, h.unknown, h.tables⟩
  | place request now hcid =>
    refine .inr ⟨⟨_, hcid⟩, c.ordered request now,
      List.mem_append_right _ List.mem_cons_self, ?_⟩
    rw [SessionCore.ordered, newOrder, h.unasked]
  | @cancel oid order now hopen =>
    have hall := (h.maps.known hopen).1
    rw [h.unknown] at hall
    cases hall
  | @fill oid order updated book now f hopen hfill hupdated =>
    have hall := (h.maps.known hopen).1
    rw [h.unknown] at hall
    cases hall
  | execute hknown hcached hupdated => exact absurd (h.unknown _) hknown
  | hand hknows => exact absurd hknows (hunknown _)
  | submitted hknows => exact absurd hknows (hunknown _)
  | remember hknows => exact absurd hknows (hunknown _)

theorem within_steps (hsteps : SessionSteps cfg U c c') (h : Within U c) : Within U c' := by
  induction hsteps with
  | refl => exact h
  | tail _ hstep ih => exact within_step hstep ih

theorem untouched_steps {A : ClientOrderId → Prop} (hsteps : SessionSteps cfg A c c')
    (h : Untouched t c) : Untouched t c' ∨
      (∃ cid, A cid) ∧ ∃ row ∈ c'.tables.orders, row.orderId = paperOid 1 := by
  induction hsteps with
  | refl => exact .inl h
  | tail _ hstep ih =>
    cases ih with
    | inl huntouched => exact untouched_step hstep huntouched
    | inr hopened =>
      obtain ⟨hcid, row, hrow, hid⟩ := hopened
      exact .inr ⟨hcid, row, rows_step hstep row hrow, hid⟩

theorem untouched_start (s : Session) : Untouched t (session (s.start t)) :=
  ⟨paperMaps_new, rfl, fun _ => rfl, rfl⟩

theorem within_start (s : Session) (h : ∀ row ∈ t.orders, U row.clientOrderId) :
    Within U (session (s.start t)) where
  maps := paperMaps_new
  rows := h
  cache _ o ho := h o (recovered_mem ho).1
  venue _ _ ho := by cases ho

end AnySession

section Runs

variable {cfg : PaperConfig} {t : OrderTables} {A : ClientOrderId → Prop}

theorem asks_of_mem {labels : List (Label OmsOp)} (h : ∀ cid ∈ cidsOf labels, A cid) {op : OmsOp}
    (hop : .call op ∈ labels) : op.Asks A := by
  cases op with
  | submit cid intent => exact h cid (List.mem_filterMap.mpr ⟨_, hop, rfl⟩)
  | _ => trivial

theorem steps_to_moment (s : Session) (n : Nat)
    (h : ∀ cid ∈ cidsOf (s.labels.take n), A cid) :
    SessionSteps cfg A (session (s.start t)) (session (s.moment cfg t n)) :=
  reaches_sessionSteps paperMaps_new (.of_run _ _ fun _ hop _ => asks_of_mem h hop)

theorem cidsOf_take (s : Session) (n : Nat) : ∀ cid ∈ cidsOf (s.labels.take n), cid ∈ s.cids := by
  intro cid hcid
  obtain ⟨label, hlabel, hcid⟩ := List.mem_filterMap.mp hcid
  exact List.mem_filterMap.mpr ⟨label, List.mem_of_mem_take hlabel, hcid⟩

theorem tracked_moment (cfg : PaperConfig) (s : Session) (n : Nat) (h : s.cids ≠ [] → t.orders = []) :
    Tracked t (session (s.moment cfg t n)) ∧ Rowed (session (s.moment cfg t n)) := by
  have hsteps : SessionSteps cfg (fun _ => t.orders = []) (session (s.start t))
      (session (s.moment cfg t n)) :=
    steps_to_moment s n fun cid hcid => h (List.ne_nil_of_mem (cidsOf_take s n cid hcid))
  exact tracked_steps hsteps (tracked_start s) fun _ hoid => absurd rfl hoid

theorem tablesAfter_concat (sessions : List Session) (s : Session) :
    tablesAfter cfg (sessions ++ [s]) =
      (s.moment cfg (tablesAfter cfg sessions) s.committed).env.oms.journal := by
  rw [tablesAfter, List.foldl_append]
  rfl

/-- One more session, over whatever the earlier ones left. -/
theorem apart_tablesAfter (sessions : List Session) (h : SubmitsOnEmpty cfg sessions) :
    (tablesAfter cfg sessions).Apart := by
  induction sessions using List.reverseRecOn with
  | nil => exact ⟨fun r hr => absurd hr List.not_mem_nil, fun f hf => absurd hf List.not_mem_nil⟩
  | append_singleton sessions s ih =>
    have hbefore : SubmitsOnEmpty cfg sessions := fun before s' later hsplit =>
      h before s' (later ++ [s]) (by rw [hsplit]; simp)
    obtain ⟨htracked, hrowed⟩ := tracked_moment cfg s s.committed (h sessions s [] rfl)
    rw [tablesAfter_concat]
    exact htracked.apart hrowed (ih hbefore)

theorem kept_apart_of_submitsOnEmpty {sessions : List Session} (h : SubmitsOnEmpty cfg sessions) :
    OrdersKeptApart cfg sessions := by
  intro before s later hsplit n
  have hbefore : SubmitsOnEmpty cfg before := fun before' s' later' hsplit' =>
    h before' s' (later' ++ s :: later) (by rw [hsplit, hsplit']; simp)
  obtain ⟨htracked, hrowed⟩ := tracked_moment cfg s n (h before s later hsplit)
  exact htracked.distinguishes hrowed (apart_tablesAfter before hbefore)

/-- Rows carry client ids that were submitted, and there is one of the first id if there is
any. -/
theorem rows_tablesAfter (cfg : PaperConfig) (sessions : List Session) :
    (∀ row ∈ (tablesAfter cfg sessions).orders,
      row.clientOrderId ∈ sessions.flatMap Session.cids) ∧
    ((tablesAfter cfg sessions).orders ≠ [] →
      ∃ row ∈ (tablesAfter cfg sessions).orders, row.orderId = paperOid 1) := by
  induction sessions using List.reverseRecOn with
  | nil => exact ⟨fun row hrow => absurd hrow List.not_mem_nil, fun h => absurd rfl h⟩
  | append_singleton sessions s ih =>
    have hsteps : SessionSteps cfg (· ∈ (sessions ++ [s]).flatMap Session.cids)
        (session (s.start (tablesAfter cfg sessions)))
        (session (s.moment cfg (tablesAfter cfg sessions) s.committed)) :=
      steps_to_moment s s.committed fun cid hcid => by
        simp [cidsOf_take s s.committed cid hcid]
    have hwithin := within_steps hsteps (within_start s fun row hrow => by
      have hcid := ih.1 row hrow
      rw [List.flatMap_append]
      exact List.mem_append_left _ hcid)
    rw [tablesAfter_concat]
    refine ⟨hwithin.rows, fun hne => ?_⟩
    cases untouched_steps hsteps (untouched_start s) with
    | inl huntouched =>
      have hsame : (s.moment cfg (tablesAfter cfg sessions) s.committed).env.oms.journal =
          tablesAfter cfg sessions := huntouched.tables
      rw [hsame] at hne ⊢
      exact ih.2 hne
    | inr hopened => exact hopened.2

theorem first_submit {labels : List (Label OmsOp)} (h : cidsOf labels ≠ []) :
    ∃ older cid intent newer, labels = older ++ .call (.submit cid intent) :: newer ∧
      cidsOf older = [] := by
  induction labels with
  | nil => exact absurd rfl h
  | cons label labels ih =>
    have hskip : cidsOf [label] = [] → ∃ older cid intent newer,
        label :: labels = older ++ .call (.submit cid intent) :: newer ∧ cidsOf older = [] := by
      intro hnone
      have hrest : ∀ rest, cidsOf (label :: rest) = cidsOf rest := fun rest => by
        rw [← List.singleton_append, cidsOf, List.filterMap_append]
        exact congrArg (· ++ cidsOf rest) hnone
      obtain ⟨older, cid, intent, newer, hlabels, holder⟩ := ih (hrest labels ▸ h)
      exact ⟨label :: older, cid, intent, newer, by rw [hlabels]; rfl, (hrest older).trans holder⟩
    cases label with
    | resume i => exact hskip rfl
    | call op =>
      cases op with
      | submit cid intent => exact ⟨[], cid, intent, labels, rfl, rfl⟩
      | cancel oid => exact hskip rfl
      | cancelAll symbol => exact hskip rfl
      | onOrderbook snapshot => exact hskip rfl

/-- A submission is journaled at once under the venue's next id. -/
theorem row_of_submit (cfg : PaperConfig) (cid : ClientOrderId) (intent : TradeIntent)
    (c : Config SqliteWorld PyError) :
    ∃ row, (c.call ((OmsOp.submit cid intent).session cfg)).state.env.oms.journal.orders =
        c.state.env.oms.journal.orders ++ [row] ∧
      row.orderId = paperOid (c.state.venue.nextOid + 1) ∧ row.clientOrderId = cid :=
  ⟨_, rfl, rfl, rfl⟩

theorem after_call {s : Session} {older newer : List (Label OmsOp)} {op : OmsOp}
    (h : s.labels = older ++ .call op :: newer) :
    s.after cfg t (older.length + 1) = (s.after cfg t older.length).call (op.session cfg) := by
  have htake : s.labels.take (older.length + 1) = s.labels.take older.length ++ [.call op] := by
    rw [h, List.take_left, List.take_append, List.take_of_length_le (by omega)]
    simp
  rw [Session.after, htake, Config.run, List.foldl_append]
  rfl

/-- A session that has not submitted yet leaves journal and venue as they are. -/
theorem untouched_moment {s : Session} {n : Nat} (h : cidsOf (s.labels.take n) = []) :
    Untouched t (session (s.moment cfg t n)) := by
  have hsteps : SessionSteps cfg (fun _ => False) (session (s.start t))
      (session (s.moment cfg t n)) :=
    steps_to_moment s n fun cid hcid => absurd (h ▸ hcid) List.not_mem_nil
  cases untouched_steps hsteps (untouched_start s) with
  | inl huntouched => exact huntouched
  | inr hopened => exact hopened.1.elim fun _ hfalse => hfalse.elim

/-- Over a journal with orders, the first submission of a session takes the id of another. -/
theorem submitsOnEmpty_of_kept_apart {sessions : List Session}
    (hunique : (sessions.flatMap Session.cids).Nodup) (h : OrdersKeptApart cfg sessions) :
    SubmitsOnEmpty cfg sessions := by
  intro before s later hsplit hsubmits
  by_contra hne
  obtain ⟨hsubmitted, hfirst⟩ := rows_tablesAfter cfg before
  obtain ⟨old, hold, holdId⟩ := hfirst hne
  obtain ⟨older, cid, intent, newer, hlabels, hnone⟩ := first_submit hsubmits
  let c := s.after cfg (tablesAfter cfg before) older.length
  have hquiet : Untouched (tablesAfter cfg before) (session c.state) :=
    untouched_moment (by rw [hlabels, List.take_left, hnone])
  have hkept : c.state.env.oms.journal = tablesAfter cfg before := hquiet.tables
  have hasked : c.state.venue.nextOid = 0 := hquiet.unasked
  obtain ⟨row, hrows, hid, hcid⟩ := row_of_submit cfg cid intent c
  have hmoment : (s.moment cfg (tablesAfter cfg before)
      (older.length + 1)).env.oms.journal.orders = (tablesAfter cfg before).orders ++ [row] := by
    rw [Session.moment, after_call hlabels, hrows, hkept]
  have hsame : old.clientOrderId = row.clientOrderId := by
    apply (h before s later hsplit (older.length + 1)).rows
    · exact hmoment ▸ List.mem_append_left _ hold
    · exact hmoment ▸ List.mem_append_right _ List.mem_cons_self
    · rw [holdId, hid, hasked]
  have hbefore : cid ∈ before.flatMap Session.cids := hcid ▸ hsame ▸ hsubmitted old hold
  have hnow : cid ∈ s.cids := by
    rw [Session.cids, hlabels]
    exact List.mem_filterMap.mpr ⟨_, List.mem_append_right _ List.mem_cons_self, rfl⟩
  rw [hsplit, List.flatMap_append, List.flatMap_cons] at hunique
  exact (List.nodup_append.mp hunique).2.2 cid hbefore cid (List.mem_append_left _ hnow) rfl

end Runs

/-- With unique client ids, ids name one order each in all sessions if and only if every
session that submits begins on a journal without orders. -/
theorem orders_kept_apart_iff (cfg : PaperConfig) (sessions : List Session)
    (hunique : (sessions.flatMap Session.cids).Nodup) :
    OrdersKeptApart cfg sessions ↔ SubmitsOnEmpty cfg sessions :=
  ⟨submitsOnEmpty_of_kept_apart hunique, kept_apart_of_submitsOnEmpty⟩

def paperConfig : PaperConfig := ⟨.orderbook 0 0 "USDT", 1000, "USDT"⟩

/-- Two are on offer; the session runs until its order is filled as far as that goes. -/
def buying (began : Time) (cid : ClientOrderId) (quantity : Decimal) : Session where
  clock := ⟨fun n => began + n, 0⟩
  labels := [.call (.onOrderbook ⟨"BTC", [], [⟨100, 2⟩], 0, 0⟩),
    .call (.submit cid ⟨"BTC", .buy, .market, quantity, none, .gtc, false⟩), .resume 0, .resume 0,
    .resume 0, .resume 0, .resume 0]
  committed := 7

/-- A session that only cancels what it restored. -/
def cancelling : Session where
  clock := ⟨fun n => 100 + n, 0⟩
  labels := [.call (.cancelAll none)]
  committed := 1

theorem orders_kept_apart_cancelling :
    OrdersKeptApart paperConfig [buying 0 "a" 5, cancelling] := by
  refine (orders_kept_apart_iff paperConfig _ (by decide)).mpr fun before s later hsplit hne => ?_
  cases before with
  | nil => rfl
  | cons first rest =>
    obtain ⟨-, hrest⟩ := List.cons.inj hsplit
    cases rest with
    | nil =>
      obtain ⟨rfl, -⟩ := List.cons.inj hrest
      exact absurd rfl hne
    | cons second rest => cases rest <;> simp at hrest

/-- The second session's order takes over the id of an order that is still open. -/
theorem second_session_mixes_orders :
    let t := tablesAfter paperConfig [buying 0 "a" 5]
    let w := (buying 100 "b" 1).moment paperConfig t 7
    ([buying 0 "a" 5, buying 100 "b" 1].flatMap Session.cids).Nodup ∧
      ((recovered t).orders.get "paper-1").map Order.clientOrderId = some "a" ∧
      (w.env.oms.orders.get "paper-1").map Order.clientOrderId = some "b" ∧
      (SQLiteOrderJournal.orderHistory w.env.oms.journal "paper-1").map Order.clientOrderId =
        ["a", "a", "a", "a", "b", "b", "b", "b"] ∧
      w.env.oms.journal.fills.map Fill.orderId = ["paper-1", "paper-1"] ∧
      ¬ OrdersKeptApart paperConfig [buying 0 "a" 5, buying 100 "b" 1] := by
  intro t w
  have hrestored : ((recovered t).orders.get "paper-1").map Order.clientOrderId = some "a" := by
    decide +kernel
  have hcached : (w.env.oms.orders.get "paper-1").map Order.clientOrderId = some "b" := by
    decide +kernel
  have hrows : (SQLiteOrderJournal.orderHistory w.env.oms.journal "paper-1").map
      Order.clientOrderId = ["a", "a", "a", "a", "b", "b", "b", "b"] := by
    decide +kernel
  have hfills : w.env.oms.journal.fills.map Fill.orderId = ["paper-1", "paper-1"] := by
    decide +kernel
  refine ⟨by decide, hrestored, hcached, hrows, hfills, fun h => ?_⟩
  have hkept : Distinguishes t w := h [buying 0 "a" 5] (buying 100 "b" 1) [] rfl 7
  obtain ⟨o, ho, hcid⟩ := Option.map_eq_some_iff.mp hrestored
  obtain ⟨o', ho', hsame⟩ := hkept.restored "paper-1" o ho
  rw [ho', Option.map_some, hsame, hcid] at hcached
  exact absurd hcached (by decide)

end Trading
