import Trading.Data.Latest
import Trading.PaperSteps

/-!
# The paper venue between any two awaits

Whatever the interleaving, the order maps agree with each other and with the
fills the venue has generated, and an order that left the book stays as it is.
-/
namespace Trading

open Async Data Relation PaperVenue PaperWorld

/-- Resting at the venue: the statuses of an order that can still be filled. -/
def OrderStatus.Resting (s : OrderStatus) : Prop := s = .acked ∨ s = .partiallyFilled

/-- An order and the fills generated for it tell the same story. -/
structure Order.Accounts (o : Order) (fills : List Fill) : Prop where
  quantity : o.filledQuantity = (fills.map Fill.quantity).sum
  notional : o.averageFillPrice.getD 0 * o.filledQuantity =
    (fills.map fun f => f.price * f.quantity).sum
  unpriced : o.averageFillPrice = none ↔ fills = []
  bounds : 0 < o.quantity → 0 ≤ o.filledQuantity ∧ o.filledQuantity ≤ o.quantity
  complete : 0 < o.quantity → (o.status = .filled ↔ o.filledQuantity = o.quantity)

/-- The order maps on their own: they agree with each other and with the updates
announced, over any books. -/
structure PaperMaps (c : PaperCore) : Prop where
  ids : ∀ oid o, c.1.allOrders.get oid = some o →
    o.orderId = oid ∧ ∃ n ≤ c.1.nextOid, oid = paperOid n
  status : ∀ oid o, c.1.allOrders.get oid = some o →
    o.status.Resting ∨ o.status = .filled ∨ o.status = .cancelled ∨ o.status = .rejected
  resting : Dict.Selection (fun o => o.status.Resting) c.1.allOrders c.1.openOrders
  published : ∀ oid, c.1.allOrders.get oid = latest Order.orderId oid (updatesOf c.2)

/-- The maps, the positions and the fills, over positive books. -/
structure PaperInv (c : PaperCore) : Prop extends PaperMaps c where
  attributed : ∀ f ∈ fillsOf c.2, c.1.allOrders.get f.orderId ≠ none
  accounts : ∀ oid o, c.1.allOrders.get oid = some o → o.Accounts (fillsFor oid c.2)
  books : ∀ symbol book, c.1.latestBook.get symbol = some book → book.Positive
  net : ∀ symbol, (c.1.position symbol).netQty = ((fillsIn symbol c.2).map Fill.signed).sum

theorem paperMaps_new : PaperMaps (.new, []) where
  ids _ _ h := by cases h
  status _ _ h := by cases h
  resting _ _ := by simp [PaperVenue.new]
  published _ := rfl

theorem paperInv_new : PaperInv (.new, []) where
  toPaperMaps := paperMaps_new
  attributed _ h := by cases h
  accounts _ _ h := by cases h
  books _ _ h := by cases h
  net _ := rfl

section Maps

variable {v : PaperVenue} {tr : List Notification}

/-- The id of a new order is fresh. -/
theorem PaperMaps.fresh (h : PaperMaps (v, tr)) :
    v.allOrders.get (paperOid (v.nextOid + 1)) = none := by
  cases hget : v.allOrders.get (paperOid (v.nextOid + 1)) with
  | none => rfl
  | some o =>
    obtain ⟨-, n, hn, heq⟩ := h.ids _ _ hget
    have hlt := paperOid_inj heq
    dsimp only at hn
    omega

/-- An order that rests is known under its own id. -/
theorem PaperMaps.known (h : PaperMaps (v, tr)) {oid : OrderId} {order : Order}
    (hopen : v.openOrders.get oid = some order) :
    v.allOrders.get oid = some order ∧ order.status.Resting ∧ order.orderId = oid := by
  obtain ⟨hall, hresting⟩ := (h.resting oid order).mp hopen
  exact ⟨hall, hresting, (h.ids oid order hall).1⟩

theorem maps_enter (h : PaperMaps (v, tr)) {order : Order}
    (hid : order.orderId = paperOid (v.nextOid + 1))
    (hstatus : order.status = .acked ∨ order.status = .rejected) :
    PaperMaps (enter order { v with nextOid := v.nextOid + 1 }, tr ++ [.update order]) := by
  have hfresh := h.fresh
  rw [← hid] at hfresh
  constructor
  · intro oid o ho
    simp only [enter, Dict.get_set] at ho
    split at ho
    · next heq =>
      cases ho
      exact ⟨heq.symm, v.nextOid + 1, le_refl _, heq.trans hid⟩
    · obtain ⟨ho', n, hn, heq⟩ := h.ids oid o ho
      exact ⟨ho', n, Nat.le_succ_of_le hn, heq⟩
  · intro oid o ho
    simp only [enter, Dict.get_set] at ho
    split at ho
    · cases ho
      rcases hstatus with hs | hs
      · exact .inl (.inl hs)
      · exact .inr (.inr (.inr hs))
    · exact h.status oid o ho
  · rcases hstatus with hs | hs
    · simp only [enter, if_pos hs]
      exact h.resting.set (.inl hs)
    · have hne : order.status ≠ .acked := by simp [hs]
      simp only [enter, if_neg hne]
      exact h.resting.skip hfresh (by rw [hs]; rintro (hr | hr) <;> cases hr)
  · intro oid
    simp only [enter, Dict.get_set, updatesOf_append, updatesOf_update, updatesOf_nil,
      latest_concat, h.published, eq_comm]

theorem maps_store (h : PaperMaps (v, tr)) {oid : OrderId} {order updated : Order} {f : Fill}
    (hopen : v.openOrders.get oid = some order) (hupdated : order.executed f = .ok updated) :
    PaperMaps (store updated f v, tr ++ [.fill f, .update updated]) := by
  obtain ⟨hall, hresting, hid⟩ := h.known hopen
  obtain ⟨-, n, hn, heq⟩ := h.ids oid order hall
  have hoid : updated.orderId = oid := (Order.executed_orderId hupdated).trans hid
  have hstatus := Order.executed_status hupdated
  constructor
  · intro j o ho
    simp only [store, Dict.get_set, hoid] at ho
    split at ho
    · next hj =>
      cases ho
      exact ⟨hoid.trans hj.symm, n, hn, hj.trans heq⟩
    · exact h.ids j o ho
  · intro j o ho
    simp only [store, Dict.get_set] at ho
    split at ho
    · cases ho
      rcases hstatus with hs | hs
      · exact .inr (.inl hs)
      · exact .inl (.inr hs)
    · exact h.status j o ho
  · rcases hstatus with hs | hs
    · simp only [store, if_pos hs]
      exact h.resting.pop (by rw [hs]; rintro (hr | hr) <;> cases hr)
    · have hne : updated.status ≠ .filled := by simp [hs]
      simp only [store, if_neg hne]
      exact h.resting.set (.inr hs)
  · intro j
    simp only [store, Dict.get_set, updatesOf_append, updatesOf_fill, updatesOf_update,
      updatesOf_nil, latest_concat, h.published, eq_comm]

theorem maps_cancel (h : PaperMaps (v, tr)) {oid : OrderId} {order : Order} (now : Time)
    (hopen : v.openOrders.get oid = some order) :
    PaperMaps (remove oid { order with status := .cancelled, updatedAt := now } v,
      tr ++ [.update { order with status := .cancelled, updatedAt := now }]) := by
  obtain ⟨hall, hresting, hid⟩ := h.known hopen
  obtain ⟨-, n, hn, heq⟩ := h.ids oid order hall
  constructor
  · intro j o ho
    simp only [remove, Dict.get_set] at ho
    split at ho
    · next hj =>
      cases ho
      exact ⟨hid.trans hj.symm, n, hn, hj.trans heq⟩
    · exact h.ids j o ho
  · intro j o ho
    simp only [remove, Dict.get_set] at ho
    split at ho
    · cases ho
      exact .inr (.inr (.inl rfl))
    · exact h.status j o ho
  · exact h.resting.pop (by rintro (hr | hr) <;> cases hr)
  · intro j
    simp only [remove, Dict.get_set, updatesOf_append, updatesOf_update, updatesOf_nil,
      latest_concat, hid, h.published, eq_comm]

theorem initialStatus_cases (v : PaperVenue) (request : OrderRequest) :
    v.initialStatus request = .acked ∨ v.initialStatus request = .rejected := by
  unfold initialStatus
  split
  · exact .inr rfl
  · exact .inl rfl

theorem maps_step {cfg : PaperConfig} {B : OrderbookSnapshot → Prop} {c c' : PaperCore}
    (hstep : PaperStep cfg B c c') (h : PaperMaps c) : PaperMaps c' := by
  cases hstep with
  | place v tr request now => exact maps_enter h rfl (initialStatus_cases v request)
  | fill hopen hbook hfill hupdated => exact maps_store h hopen hupdated
  | cancel now hopen => exact maps_cancel h now hopen
  | observe v tr hbook => exact ⟨h.ids, h.status, h.resting, h.published⟩

theorem maps_steps {cfg : PaperConfig} {B : OrderbookSnapshot → Prop} {c c' : PaperCore}
    (hsteps : ReflTransGen (PaperStep cfg B) c c') (h : PaperMaps c) : PaperMaps c' := by
  induction hsteps with
  | refl => exact h
  | tail _ hstep ih => exact maps_step hstep ih

end Maps

theorem accounts_new (request : OrderRequest) (oid : OrderId) {status : OrderStatus} (now : Time)
    (hstatus : status = .acked ∨ status = .rejected) :
    (newOrder request oid status now).Accounts [] where
  quantity := rfl
  notional := by simp [newOrder]
  unpriced := by simp [newOrder]
  bounds hq := ⟨le_refl _, hq.le⟩
  complete hq := by
    have hne : (0 : Decimal) ≠ request.quantity := ne_of_lt hq
    rcases hstatus with rfl | rfl <;> simp [newOrder, hne]

/-- A fill within what the order still wants keeps its accounts. -/
theorem accounts_executed {order updated : Order} {fills : List Fill} {f : Fill}
    (h : order.Accounts fills) (hpos : 0 < f.quantity) (hle : f.quantity ≤ order.quantity - order.filledQuantity)
    (hupdated : order.executed f = .ok updated) : updated.Accounts (fills ++ [f]) := by
  obtain ⟨newAvg, havg, rfl⟩ := Order.executed_ok hupdated
  have hzero : order.averageFillPrice = none → order.filledQuantity = 0 := by
    intro hnone
    rw [h.quantity, h.unpriced.mp hnone]
    rfl
  have hnotional := Order.newAverage_notional havg hzero
  have hcap : order.filledQuantity + f.quantity ≤ order.quantity := by linarith
  constructor
  · simp [h.quantity]
  · simp [hnotional, h.notional]
  · simp
  · intro hq
    have h₀ := (h.bounds hq).1
    exact ⟨by dsimp only; linarith, hcap⟩
  · intro hq
    dsimp only
    split
    · next hge => exact iff_of_true rfl (le_antisymm hcap hge)
    · next hlt => exact iff_of_false (by simp) fun he => hlt (ge_of_eq he)

theorem accounts_cancelled {order : Order} {fills : List Fill} (h : order.Accounts fills)
    (hresting : order.status.Resting) (now : Time) :
    { order with status := .cancelled, updatedAt := now : Order }.Accounts fills where
  quantity := h.quantity
  notional := h.notional
  unpriced := h.unpriced
  bounds := h.bounds
  complete hq := by
    have hopen : order.filledQuantity ≠ order.quantity := by
      intro he
      have hfilled := (h.complete hq).mpr he
      rcases hresting with hs | hs <;> rw [hs] at hfilled <;> cases hfilled
    exact iff_of_false (by simp) hopen

section Preservation

variable {cfg : PaperConfig} {v : PaperVenue} {tr : List Notification}

/-- No fill names the id of a new order. -/
theorem PaperInv.unfilled (h : PaperInv (v, tr)) :
    fillsFor (paperOid (v.nextOid + 1)) tr = [] := by
  rw [fillsFor, List.filter_eq_nil_iff]
  intro f hf hoid
  apply h.attributed f hf
  rw [of_decide_eq_true hoid]
  exact h.fresh

theorem inv_enter (h : PaperInv (v, tr)) {order : Order}
    (hid : order.orderId = paperOid (v.nextOid + 1)) (hacc : order.Accounts [])
    (hstatus : order.status = .acked ∨ order.status = .rejected) :
    PaperInv (enter order { v with nextOid := v.nextOid + 1 }, tr ++ [.update order]) := by
  have hnofills := h.unfilled
  rw [← hid] at hnofills
  refine { toPaperMaps := maps_enter h.toPaperMaps hid hstatus, attributed := ?_, accounts := ?_
           books := h.books, net := ?_ }
  · intro f hf
    have hf' : f ∈ fillsOf tr := by simpa using hf
    exact Dict.get_set_ne_none _ (.inr (h.attributed f hf'))
  · intro oid o ho
    rw [fillsFor_append, fillsFor_update, List.append_nil]
    simp only [enter, Dict.get_set] at ho
    split at ho
    · next heq =>
      cases ho
      rw [heq, hnofills]
      exact hacc
    · exact h.accounts oid o ho
  · intro symbol
    simpa [fillsIn, position, enter] using h.net symbol

theorem inv_fill (h : PaperInv (v, tr)) {oid : OrderId} {order updated : Order}
    {book : OrderbookSnapshot} {now : Time} {f : Fill}
    (hopen : v.openOrders.get oid = some order) (hbook : book.Positive)
    (hfill : cfg.fillEngine.tryFill order book now = some f)
    (hupdated : order.executed f = .ok updated) :
    PaperInv (store updated f v, tr ++ [.fill f, .update updated]) := by
  obtain ⟨hall, hresting, hid⟩ := h.known hopen
  obtain ⟨hpos, hle⟩ := FillEngine.tryFill_quantity hbook.nonNegative hfill
  have hacc := accounts_executed (h.accounts oid order hall) hpos hle hupdated
  have hoid : updated.orderId = oid := (Order.executed_orderId hupdated).trans hid
  have hfoid : f.orderId = oid := (FillEngine.tryFill_describes hfill).orderId.trans hid
  refine { toPaperMaps := maps_store h.toPaperMaps hopen hupdated, attributed := ?_
           accounts := ?_, books := h.books, net := ?_ }
  · intro g hg
    have hg' : g ∈ fillsOf tr ∨ g = f := by simpa using hg
    simp only [store, hoid]
    rcases hg' with hg' | rfl
    · exact Dict.get_set_ne_none _ (.inr (h.attributed g hg'))
    · exact Dict.get_set_ne_none _ (.inl hfoid)
  · intro j o ho
    simp only [store, Dict.get_set, hoid] at ho
    rw [fillsFor_append, fillsFor_fill, hfoid]
    split at ho
    · next hj =>
      cases ho
      rw [hj, if_pos rfl]
      exact hacc
    · next hj =>
      rw [if_neg fun e => hj e.symm, List.append_nil]
      exact h.accounts j o ho
  · intro symbol
    dsimp only
    rw [position_store, fillsIn_append, fillsIn_fill, List.map_append, List.sum_append,
      ← h.net symbol]
    by_cases hs : symbol = f.symbol
    · simp [hs]
    · simp [hs, Ne.symm hs]

theorem inv_cancel (h : PaperInv (v, tr)) {oid : OrderId} {order : Order} (now : Time)
    (hopen : v.openOrders.get oid = some order) :
    PaperInv (remove oid { order with status := .cancelled, updatedAt := now } v,
      tr ++ [.update { order with status := .cancelled, updatedAt := now }]) := by
  obtain ⟨hall, hresting, hid⟩ := h.known hopen
  refine { toPaperMaps := maps_cancel h.toPaperMaps now hopen, attributed := ?_, accounts := ?_
           books := h.books, net := ?_ }
  · intro f hf
    have hf' : f ∈ fillsOf tr := by simpa using hf
    exact Dict.get_set_ne_none _ (.inr (h.attributed f hf'))
  · intro j o ho
    simp only [remove, Dict.get_set] at ho
    rw [fillsFor_append, fillsFor_update, List.append_nil]
    split at ho
    · next hj =>
      cases ho
      rw [hj]
      exact accounts_cancelled (h.accounts oid order hall) hresting now
    · exact h.accounts j o ho
  · intro symbol
    simpa [fillsIn, position, remove] using h.net symbol

theorem inv_observe (h : PaperInv (v, tr)) {snapshot : OrderbookSnapshot}
    (hbook : snapshot.Positive) : PaperInv (v.observe snapshot, tr) where
  ids := h.ids
  status := h.status
  resting := h.resting
  published := h.published
  attributed := h.attributed
  accounts := h.accounts
  books := books_observe h.books hbook
  net := h.net

theorem inv_step {c c' : PaperCore} (hstep : PaperStep cfg OrderbookSnapshot.Positive c c')
    (h : PaperInv c) : PaperInv c' := by
  cases hstep with
  | place v tr request now =>
    have hstatus := initialStatus_cases v request
    exact inv_enter h rfl (accounts_new request _ now hstatus) hstatus
  | fill hopen hbook hfill hupdated =>
    refine inv_fill h hopen ?_ hfill hupdated
    rcases hbook with hb | ⟨symbol, hb⟩
    · exact hb
    · exact h.books symbol _ hb
  | cancel now hopen => exact inv_cancel h now hopen
  | observe v tr hbook => exact inv_observe h hbook

theorem inv_steps {c c' : PaperCore}
    (hsteps : ReflTransGen (PaperStep cfg OrderbookSnapshot.Positive) c c') (h : PaperInv c) :
    PaperInv c' := by
  induction hsteps with
  | refl => exact h
  | tail _ hstep ih => exact inv_step hstep ih

/-- An order that no longer rests is neither changed nor filled by any transition. -/
theorem settled_step {c c' : PaperCore} (hstep : PaperStep cfg OrderbookSnapshot.Positive c c')
    (h : PaperInv c) {oid : OrderId} {o : Order} (ho : c.1.allOrders.get oid = some o)
    (hdone : ¬o.status.Resting) :
    c'.1.allOrders.get oid = some o ∧ fillsFor oid c'.2 = fillsFor oid c.2 := by
  have hne : ∀ {j order}, c.1.openOrders.get j = some order → oid ≠ j := by
    intro j order hj heq
    obtain ⟨hall, hresting⟩ := (h.resting j order).mp hj
    rw [← heq, ho] at hall
    exact hdone (Option.some.inj hall ▸ hresting)
  cases hstep with
  | place v tr request now =>
    have hoid : oid ≠ paperOid (v.nextOid + 1) := by
      rintro rfl
      rw [h.fresh] at ho
      cases ho
    exact ⟨(Dict.get_set_other _ _ hoid).trans ho, by simp⟩
  | fill hopen hbook hfill hupdated =>
    obtain ⟨hid, -⟩ := h.ids _ _ ((h.resting _ _).mp hopen).1
    have hoid := hne hopen
    have hfoid := (FillEngine.tryFill_describes hfill).orderId.trans hid
    constructor
    · simp only [store, Order.executed_orderId hupdated, hid]
      exact (Dict.get_set_other _ _ hoid).trans ho
    · rw [fillsFor_append, fillsFor_fill, if_neg fun e => hoid (e.symm.trans hfoid),
        List.append_nil]
  | cancel now hopen =>
    exact ⟨(Dict.get_set_other _ _ (hne hopen)).trans ho, by simp⟩
  | observe v tr hbook => exact ⟨ho, rfl⟩

theorem settled_steps {c c' : PaperCore}
    (hsteps : ReflTransGen (PaperStep cfg OrderbookSnapshot.Positive) c c') (h : PaperInv c)
    {oid : OrderId} {o : Order} (ho : c.1.allOrders.get oid = some o)
    (hdone : ¬o.status.Resting) :
    c'.1.allOrders.get oid = some o ∧ fillsFor oid c'.2 = fillsFor oid c.2 := by
  induction hsteps with
  | refl => exact ⟨ho, rfl⟩
  | tail hrun hstep ih =>
    obtain ⟨hget, hfills⟩ := settled_step hstep (inv_steps hrun h) ih.1 hdone
    exact ⟨hget, hfills.trans ih.2⟩

end Preservation

/-- At every point `c` of a run, and for every later point `d`. -/
theorem paper_orders_account_for_fills {ε : Type} (cfg : PaperConfig) (subs : Subscribers ε)
    (clock : Clock) (env : ε) (c d : Config (PaperWorld ε) PyError)
    (hc : Reaches (PaperOp.prog cfg subs.lift) (PaperOp.Allowed OrderbookSnapshot.Positive)
      ⟨⟨clock, .new, [], env⟩, []⟩ c)
    (hd : Reaches (PaperOp.prog cfg subs.lift) (PaperOp.Allowed OrderbookSnapshot.Positive) c d) :
    (∀ oid o, c.state.venue.allOrders.get oid = some o → 0 < o.quantity →
      (0 ≤ o.filledQuantity ∧ o.filledQuantity ≤ o.quantity) ∧
      o.filledQuantity = ((fillsFor oid c.state.trace).map Fill.quantity).sum ∧
      (match o.averageFillPrice with
        | none => fillsFor oid c.state.trace = []
        | some average => average * o.filledQuantity =
            ((fillsFor oid c.state.trace).map fun f => f.price * f.quantity).sum) ∧
      (o.status = .filled ↔ o.filledQuantity = o.quantity) ∧
      (c.state.venue.openOrders.get oid ≠ none ↔
        o.status = .acked ∨ o.status = .partiallyFilled) ∧
      (o.status = .filled ∨ o.status = .cancelled ∨ o.status = .rejected →
        d.state.venue.allOrders.get oid = some o ∧
          fillsFor oid d.state.trace = fillsFor oid c.state.trace)) ∧
    (∀ oid o, c.state.venue.openOrders.get oid = some o →
      c.state.venue.allOrders.get oid = some o) ∧
    ∀ symbol, (c.state.venue.position symbol).netQty =
      ((fillsIn symbol c.state.trace).map Fill.signed).sum := by
  obtain ⟨hrun, hlater⟩ := reaches_paperSteps hc hd
  have h : PaperInv c.state.core := inv_steps hrun paperInv_new
  refine ⟨fun oid o ho hq => ?_, fun oid o ho => ((h.resting oid o).mp ho).1, h.net⟩
  have hacc := h.accounts oid o ho
  refine ⟨hacc.bounds hq, hacc.quantity, ?_, hacc.complete hq, ?_, ?_⟩
  · have hnotional := hacc.notional
    split
    · next hnone => exact hacc.unpriced.mp hnone
    · next average hsome => rwa [hsome] at hnotional
  · constructor
    · intro hopen
      obtain ⟨o', ho'⟩ := Option.ne_none_iff_exists'.mp hopen
      obtain ⟨hall, hresting⟩ := (h.resting oid o').mp ho'
      cases ho.symm.trans hall
      exact hresting
    · intro hresting
      exact Option.ne_none_iff_exists'.mpr ⟨o, (h.resting oid o).mpr ⟨ho, hresting⟩⟩
  · intro hdone
    refine settled_steps hlater h ho ?_
    rcases hdone with hs | hs | hs <;> rw [hs] <;> rintro (hr | hr) <;> cases hr

/-- A market order is half filled, and cancelled while that fill is still being
announced; then the book refills. -/
def cancelInFlight : List (Label PaperOp) :=
  [.call (.onOrderbook ⟨"BTC", [], [⟨100, 2⟩], 0, 0⟩),
    .call (.placeOrder ⟨"BTC", .buy, .market, 5, "a", none, .gtc, false⟩), .resume 0,
    .call (.cancelOrder "paper-1")]

def bookRefills : List (Label PaperOp) :=
  [.call (.onOrderbook ⟨"BTC", [], [⟨90, 9⟩], 0, 0⟩), .resume 0, .resume 0]

theorem paper_orders_account_for_fills_cancelled :
    let cfg : PaperConfig := ⟨.orderbook 0 0 "USDT", 1000, "USDT"⟩
    let subs : Subscribers Unit := ⟨[fun _ => Co.yield], []⟩
    let c : Config (PaperWorld Unit) PyError := Config.run (PaperOp.prog cfg subs.lift)
      ⟨⟨⟨fun n => n, 0⟩, .new, [], ()⟩, []⟩ cancelInFlight
    let d := c.run (PaperOp.prog cfg subs.lift) bookRefills
    ∃ o, c.state.venue.allOrders.get "paper-1" = some o ∧ o.status = .cancelled ∧
      o.filledQuantity = 2 ∧ d.state.venue.allOrders.get "paper-1" = some o := by
  intro cfg subs c d
  let o : Order := ⟨"paper-1", "a", "BTC", .buy, .market, 5, 2, none, some 100, .cancelled, .gtc,
    false, 0, 2⟩
  have ho : c.state.venue.allOrders.get "paper-1" = some o := by decide +kernel
  have hc : Reaches (PaperOp.prog cfg subs.lift) (PaperOp.Allowed OrderbookSnapshot.Positive)
      ⟨⟨⟨fun n => n, 0⟩, .new, [], ()⟩, []⟩ c := by
    refine .of_run _ cancelInFlight fun op hop s => ?_
    have hop' := by simpa [cancelInFlight] using hop
    rcases hop' with rfl | rfl | rfl <;> simp [PaperOp.Allowed, OrderbookSnapshot.Positive]
  have hd : Reaches (PaperOp.prog cfg subs.lift) (PaperOp.Allowed OrderbookSnapshot.Positive)
      c d := by
    refine .of_run _ bookRefills fun op hop s => ?_
    have hop' := by simpa [bookRefills] using hop
    rcases hop' with rfl
    simp [PaperOp.Allowed, OrderbookSnapshot.Positive]
  obtain ⟨horders, -, -⟩ := paper_orders_account_for_fills cfg subs _ () c d hc hd
  obtain ⟨-, -, -, -, -, hdone⟩ := horders _ o ho (by decide +kernel)
  exact ⟨o, ho, rfl, rfl, (hdone (.inr (.inl rfl))).1⟩

end Trading
