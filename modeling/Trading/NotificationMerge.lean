import Mathlib.Algebra.Order.BigOperators.Group.List
import Mathlib.Tactic.Linarith
import Trading.OrderManager

/-!
# Merging the two notification streams

Both streams report the same executions, and only their own order is fixed. An
order update overwrites the cached order; a fill is added to whatever the cache
holds. The merges that leave the venue's last update in the cache are those in
which the order's last notification is an update.
-/
namespace Trading

open Async Data

namespace OrderManager

variable {J : Type}

/-- Deliver one notification and await its handler. -/
def deliver (journal : OrderJournal J) (m : OrderManager J) : Notification → OrderManager J
  | .update o => ((onOrderUpdate journal o).exec m).1
  | .fill f => ((onFill journal f).exec m).1

def deliverAll (journal : OrderJournal J) (m : OrderManager J) (ns : List Notification) :
    OrderManager J :=
  ns.foldl (deliver journal) m

/-- Every cached order sits under its own id. -/
def Keyed (m : OrderManager J) : Prop := ∀ oid o, m.orders.get oid = some o → o.orderId = oid

end OrderManager

/-- What the notifications about one order make of its cached value. -/
def notified (cached : Option Order) : Notification → Option Order
  | .update o => some o
  | .fill f => OrderManager.fillCached f cached

/-- The streams a venue produces for one order: executions are positive, every
update carries the quantity filled so far, and nothing follows a terminal update. -/
structure ProducedStreams (updates : List Order) (fills : List Fill) : Prop where
  updated : updates ≠ []
  positive : ∀ f ∈ fills, 0 < f.quantity
  cumulative : ∀ u ∈ updates, ∃ n, u.filledQuantity = ((fills.take n).map Fill.quantity).sum
  terminal_last : ∀ u ∈ updates.dropLast, u.status.isTerminal = false

/-- Delivering `ns` leaves the venue's last update of the order in the cache, and
never reopens the order once it was reported filled or cancelled. -/
structure FollowsVenue {J : Type} (journal : OrderJournal J) (m : OrderManager J) (oid : OrderId)
    (ns : List Notification) : Prop where
  cached : ∃ last o, (updatesOf (concerning oid ns)).getLast? = some last ∧
    (m.deliverAll journal ns).orders.get oid = some o ∧ o.status = last.status ∧
    o.filledQuantity = last.filledQuantity ∧ o.averageFillPrice = last.averageFillPrice
  closed : ∀ before after, ns = before ++ after →
    (∃ u ∈ updatesOf (concerning oid before), u.status = .filled ∨ u.status = .cancelled) →
    ∀ o ∈ (m.deliverAll journal before).live none, o.orderId ≠ oid

/-- The last notification about the order is an order update. -/
def EndsInUpdate (oid : OrderId) (ns : List Notification) : Prop :=
  ∃ u, (concerning oid ns).getLast? = some (.update u)

section Delivery

variable {J : Type} {journal : OrderJournal J}

theorem deliver_get (hj : journal.Reliable) (m : OrderManager J) (n : Notification)
    (oid : OrderId) :
    (m.deliver journal n).orders.get oid =
      if n.orderId = oid then notified (m.orders.get oid) n else m.orders.get oid := by
  cases n with
  | update o =>
    simp only [OrderManager.deliver, OrderManager.exec_onOrderUpdate_get, Notification.orderId,
      notified, eq_comm]
  | fill f =>
    simp only [OrderManager.deliver, OrderManager.exec_onFill_get hj, Notification.orderId,
      notified, eq_comm]

/-- The cached value of an order depends only on the notifications about it. -/
theorem deliverAll_get (hj : journal.Reliable) (m : OrderManager J) (ns : List Notification)
    (oid : OrderId) :
    (m.deliverAll journal ns).orders.get oid =
      (concerning oid ns).foldl notified (m.orders.get oid) := by
  induction ns generalizing m with
  | nil => rfl
  | cons n ns ih =>
    have hcons : m.deliverAll journal (n :: ns) = (m.deliver journal n).deliverAll journal ns := rfl
    rw [hcons, ih, deliver_get hj]
    by_cases h : n.orderId = oid <;> simp [concerning, h]

theorem keyed_new (j : J) : (OrderManager.new j).Keyed := by
  intro oid o ho
  cases ho

theorem keyed_deliver (hj : journal.Reliable) {m : OrderManager J} (hm : m.Keyed)
    (n : Notification) : (m.deliver journal n).Keyed := by
  intro oid o ho
  rw [deliver_get hj] at ho
  split at ho
  · next hn =>
    cases n with
    | update u =>
      cases ho
      exact hn
    | fill f =>
      obtain ⟨old, hold, hnew⟩ := Option.map_eq_some_iff.mp ho
      have hid := hm oid old hold
      cases hex : old.executed f with
      | error e => rw [hex] at hnew; cases hnew; exact hid
      | ok updated =>
        rw [hex] at hnew
        cases hnew
        exact (Order.executed_orderId hex).trans hid
  · exact hm oid o ho

theorem keyed_deliverAll (hj : journal.Reliable) {m : OrderManager J} (hm : m.Keyed)
    (ns : List Notification) : (m.deliverAll journal ns).Keyed := by
  induction ns generalizing m with
  | nil => exact hm
  | cons n ns ih => exact ih (keyed_deliver hj hm n)

end Delivery

theorem sum_quantity_nonneg {fills : List Fill} (hpos : ∀ f ∈ fills, 0 < f.quantity) :
    0 ≤ (fills.map Fill.quantity).sum := by
  apply List.sum_nonneg
  intro q hq
  obtain ⟨f, hf, rfl⟩ := List.mem_map.mp hq
  exact (hpos f hf).le

/-- Positive fills on a cached order always execute, and add up. -/
theorem foldl_fills {fills : List Fill} (hpos : ∀ f ∈ fills, 0 < f.quantity) {o : Order}
    (ho : 0 ≤ o.filledQuantity) :
    ∃ o', (fills.map Notification.fill).foldl notified (some o) = some o' ∧
      o'.filledQuantity = o.filledQuantity + (fills.map Fill.quantity).sum := by
  induction fills generalizing o with
  | nil => exact ⟨o, rfl, by simp⟩
  | cons f fills ih =>
    have hf := hpos f (by simp)
    have hden : o.filledQuantity + f.quantity ≠ 0 := by linarith
    have hex : ∃ u, o.executed f = .ok u ∧ u.filledQuantity = o.filledQuantity + f.quantity := by
      unfold Order.executed Order.newAverage
      cases o.averageFillPrice with
      | none => exact ⟨_, rfl, rfl⟩
      | some average =>
        simp only [divide, if_neg hden]
        exact ⟨_, rfl, rfl⟩
    obtain ⟨u, hu, hq⟩ := hex
    obtain ⟨o', ho', hq'⟩ := ih (fun g hg => hpos g (by simp [hg])) (o := u) (by rw [hq]; linarith)
    refine ⟨o', ?_, ?_⟩
    · simpa [notified, OrderManager.fillCached, hu] using ho'
    · rw [hq', hq, List.map_cons, List.sum_cons, add_assoc]

theorem eq_map_fill {ns : List Notification} (h : updatesOf ns = []) :
    ns = (fillsOf ns).map .fill := by
  induction ns with
  | nil => rfl
  | cons n ns ih =>
    cases n with
    | update o => exact absurd h (by simp)
    | fill f =>
      rw [fillsOf_fill, List.map_cons, ← ih h]

/-- A stream with an update is what precedes its last update, and the fills after it. -/
theorem split_last_update {ns : List Notification} (h : updatesOf ns ≠ []) :
    ∃ before u, ∃ fills : List Fill, ns = before ++ .update u :: fills.map .fill := by
  induction ns with
  | nil => exact absurd rfl h
  | cons n ns ih =>
    by_cases hns : updatesOf ns = []
    · cases n with
      | update u => exact ⟨[], u, fillsOf ns, by rw [← eq_map_fill hns]; rfl⟩
      | fill f => exact absurd hns h
    · obtain ⟨before, u, fills, hsplit⟩ := ih hns
      exact ⟨n :: before, u, fills, by rw [hsplit]; rfl⟩

@[simp] theorem updatesOf_map_fill (fills : List Fill) :
    updatesOf (fills.map Notification.fill) = [] := by
  induction fills with
  | nil => rfl
  | cons f fills ih => exact ih

@[simp] theorem fillsOf_map_fill (fills : List Fill) :
    fillsOf (fills.map Notification.fill) = fills := by
  induction fills with
  | nil => rfl
  | cons f fills ih => rw [List.map_cons, fillsOf_fill, ih]

section Main

variable {J : Type} {journal : OrderJournal J} {m : OrderManager J} {oid : OrderId}
  {ns : List Notification}

/-- A merge that ends in an update leaves exactly that update in the cache. -/
theorem deliverAll_get_of_ends (hj : journal.Reliable) {u : Order}
    (h : (concerning oid ns).getLast? = some (.update u)) :
    (m.deliverAll journal ns).orders.get oid = some u ∧
      (updatesOf (concerning oid ns)).getLast? = some u := by
  obtain ⟨before, hsplit⟩ := List.getLast?_eq_some_iff.mp h
  rw [deliverAll_get hj, hsplit]
  simp [notified]

/-- A fill after the last update is counted on top of it. -/
theorem deliverAll_get_of_fills (hj : journal.Reliable)
    (hpos : ∀ f ∈ fillsOf (concerning oid ns), 0 < f.quantity) {before : List Notification}
    {u : Order} {fills : List Fill} (hu : 0 ≤ u.filledQuantity)
    (hsplit : concerning oid ns = before ++ .update u :: fills.map .fill) :
    ∃ o, (m.deliverAll journal ns).orders.get oid = some o ∧
      o.filledQuantity = u.filledQuantity + (fills.map Fill.quantity).sum := by
  have hfills : ∀ f ∈ fills, 0 < f.quantity := by
    intro f hf
    apply hpos f
    rw [hsplit]
    simp [hf]
  rw [deliverAll_get hj, hsplit, List.foldl_append, List.foldl_cons]
  exact foldl_fills hfills hu

/-- Once the order's terminal update is delivered, no later notification concerns it. -/
theorem closed_of_ends (hj : journal.Reliable) (hm : m.Keyed)
    (hlast : ∀ u ∈ (updatesOf (concerning oid ns)).dropLast, u.status.isTerminal = false)
    (hends : EndsInUpdate oid ns) {before after : List Notification} (hns : ns = before ++ after)
    (hclosed : ∃ u ∈ updatesOf (concerning oid before),
      u.status = .filled ∨ u.status = .cancelled) :
    ∀ o ∈ (m.deliverAll journal before).live none, o.orderId ≠ oid := by
  obtain ⟨t, ht, hstatus⟩ := hclosed
  obtain ⟨u, hu⟩ := hends
  have hterminal : t.status.isTerminal = true := by
    rcases hstatus with hs | hs <;> rw [hs] <;> rfl
  have hconc : concerning oid ns = concerning oid before ++ concerning oid after := by
    rw [hns, concerning_append]
  have hafter : concerning oid after = [] := by
    by_contra hne
    rw [hconc, List.getLast?_append_of_ne_nil _ hne] at hu
    obtain ⟨rest, hrest⟩ := List.getLast?_eq_some_iff.mp hu
    have hmem : t ∈ (updatesOf (concerning oid ns)).dropLast := by
      rw [hconc, hrest, updatesOf_append, updatesOf_append, updatesOf_update, updatesOf_nil,
        ← List.append_assoc, List.dropLast_concat]
      exact List.mem_append_left _ ht
    rw [hlast t hmem] at hterminal
    cases hterminal
  rw [hconc, hafter, List.append_nil] at hu
  obtain ⟨hget, hupdates⟩ := deliverAll_get_of_ends (m := m) hj hu
  have htu : t = u := by
    obtain ⟨rest, hrest⟩ := List.getLast?_eq_some_iff.mp hupdates
    rw [hrest] at ht
    rcases List.mem_append.mp ht with hmem | hmem
    · have hdrop : t ∈ (updatesOf (concerning oid ns)).dropLast := by
        rw [hconc, hafter, List.append_nil, hrest, List.dropLast_concat]
        exact hmem
      rw [hlast t hdrop] at hterminal
      cases hterminal
    · exact List.mem_singleton.mp hmem
  intro o ho hid
  obtain ⟨⟨key, hkey⟩, hlive⟩ := OrderManager.mem_live.mp ho
  have hkeyed := keyed_deliverAll hj hm before key o hkey
  rw [← hkeyed, hid, hget] at hkey
  cases hkey
  rw [← htu, hterminal] at hlive
  cases hlive

/-- The merges that leave the cache with the venue's last update are exactly those
in which the order's last notification is an update. -/
theorem followsVenue_iff_endsInUpdate (hj : journal.Reliable) (hm : m.Keyed)
    (hproduced : ProducedStreams (updatesOf (concerning oid ns)) (fillsOf (concerning oid ns))) :
    FollowsVenue journal m oid ns ↔ EndsInUpdate oid ns := by
  constructor
  · intro h
    obtain ⟨last, o, hlast, hget, -, hquantity, -⟩ := h.cached
    obtain ⟨before, u, fills, hsplit⟩ := split_last_update hproduced.updated
    have hu : (updatesOf (concerning oid ns)).getLast? = some u := by rw [hsplit]; simp
    cases hlast.symm.trans hu
    have hnonneg : 0 ≤ last.filledQuantity := by
      obtain ⟨n, hn⟩ := hproduced.cumulative last (List.mem_of_getLast? hlast)
      rw [hn]
      exact sum_quantity_nonneg fun f hf => hproduced.positive f (List.mem_of_mem_take hf)
    obtain ⟨o', hget', hsum⟩ :=
      deliverAll_get_of_fills (m := m) hj hproduced.positive hnonneg hsplit
    cases hget.symm.trans hget'
    cases fills with
    | nil => exact ⟨last, by rw [hsplit]; simp⟩
    | cons f fills =>
      have hpos : ∀ g ∈ f :: fills, 0 < g.quantity := by
        intro g hg
        apply hproduced.positive g
        rw [hsplit]
        simp only [fillsOf_append, fillsOf_update, fillsOf_map_fill, List.mem_append]
        exact .inr hg
      have htail : 0 ≤ (fills.map Fill.quantity).sum :=
        sum_quantity_nonneg fun g hg => hpos g (List.mem_cons_of_mem f hg)
      have hf := hpos f List.mem_cons_self
      rw [List.map_cons, List.sum_cons] at hsum
      linarith
  · intro h
    obtain ⟨u, hu⟩ := h
    obtain ⟨hget, hlast⟩ := deliverAll_get_of_ends (m := m) hj hu
    constructor
    · exact ⟨u, u, hlast, hget, rfl, rfl, rfl⟩
    · exact fun before after hns hclosed =>
        closed_of_ends hj hm hproduced.terminal_last ⟨u, hu⟩ hns hclosed

end Main

/-- An order of five that is cancelled after one was filled. -/
def fiveWanted (filled : Decimal) (average : Option Decimal) (status : OrderStatus) : Order :=
  ⟨"o1", "c1", "BTC", .buy, .limit, 5, filled, some 100, average, status, .gtc, false, 0, 0⟩

def residualFill : Fill := ⟨"o1", "BTC", .buy, 100, 1, 0, "USDT", true, 1⟩

/-- The cancellation already counts the execution whose fill comes after it. -/
def cancelThenFill : List Notification :=
  [.update (fiveWanted 0 none .acked), .update (fiveWanted 1 (some 100) .cancelled),
    .fill residualFill]

def fillThenCancel : List Notification :=
  [.update (fiveWanted 0 none .acked), .fill residualFill,
    .update (fiveWanted 1 (some 100) .cancelled)]

theorem produced_residual {updates : List Order} {fills : List Fill}
    (hu : updates = [fiveWanted 0 none .acked, fiveWanted 1 (some 100) .cancelled])
    (hf : fills = [residualFill]) : ProducedStreams updates fills := by
  subst hu hf
  constructor
  · simp
  · simp [residualFill]
  · intro u hu
    have hu' : u = fiveWanted 0 none .acked ∨ u = fiveWanted 1 (some 100) .cancelled := by
      simpa using hu
    rcases hu' with rfl | rfl
    · exact ⟨0, rfl⟩
    · exact ⟨1, by decide +kernel⟩
  · simp [fiveWanted, OrderStatus.isTerminal]

/-- A residual fill delivered after the cancellation is counted twice and reopens
the order. -/
theorem residual_fill_reopens_order :
    let m := OrderManager.new (⟨[], []⟩ : OrderTables)
    ProducedStreams (updatesOf (concerning "o1" cancelThenFill))
        (fillsOf (concerning "o1" cancelThenFill)) ∧
      ((m.deliverAll InMemoryOrderJournal.journal cancelThenFill).orders.get "o1").map
          (fun o => (o.status, o.filledQuantity)) = some (.partiallyFilled, 2) ∧
      ¬FollowsVenue InMemoryOrderJournal.journal m "o1" cancelThenFill := by
  intro m
  have hstate : ((m.deliverAll InMemoryOrderJournal.journal cancelThenFill).orders.get "o1").map
      (fun o => (o.status, o.filledQuantity)) = some (.partiallyFilled, 2) := by decide +kernel
  refine ⟨produced_residual (by decide +kernel) (by decide +kernel), hstate, fun h => ?_⟩
  obtain ⟨last, o, hlast, hget, hstatus, -⟩ := h.cached
  have hlast' : (updatesOf (concerning "o1" cancelThenFill)).getLast? =
      some (fiveWanted 1 (some 100) .cancelled) := by decide +kernel
  cases hlast.symm.trans hlast'
  rw [hget] at hstate
  simp [hstatus, fiveWanted] at hstate

theorem followsVenue_fill_then_cancel :
    FollowsVenue InMemoryOrderJournal.journal (.new ⟨[], []⟩) "o1" fillThenCancel := by
  have hproduced : ProducedStreams (updatesOf (concerning "o1" fillThenCancel))
      (fillsOf (concerning "o1" fillThenCancel)) :=
    produced_residual (by decide +kernel) (by decide +kernel)
  exact (followsVenue_iff_endsInUpdate InMemoryOrderJournal.reliable (keyed_new _) hproduced).mpr
    ⟨fiveWanted 1 (some 100) .cancelled, by decide +kernel⟩

end Trading
