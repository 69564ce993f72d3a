import Trading.Async.Cuts
import Trading.OrderManager

/-!
# What a crash during a submission leaves behind

A venue that accepts orders on its own state and notifies later. The manager
journals the order after the venue's answer, so everything before the row is
stored is a gap in which the order is live and unknown.
-/
namespace Trading

open Async Data

/-- A venue, a clock and the manager with its journal. -/
structure SubmitWorld (V J : Type) where
  venue : V
  clock : Clock
  oms : OrderManager J

section Parts

variable {V J : Type}

instance : Part V (SubmitWorld V J) where
  view w := w.venue
  put v w := { w with venue := v }
  view_put _ _ := rfl
  put_view _ := rfl
  put_put _ _ _ := rfl

instance : Part Clock (SubmitWorld V J) where
  view w := w.clock
  put c w := { w with clock := c }
  view_put _ _ := rfl
  put_view _ := rfl
  put_put _ _ _ := rfl

instance : Part (OrderManager J) (SubmitWorld V J) where
  view w := w.oms
  put m w := { w with oms := m }
  view_put _ _ := rfl
  put_view _ := rfl
  put_put _ _ _ := rfl

end Parts

section Durability

variable {V J : Type} (venue : Venue V) (journal : OrderJournal J)
  (accepted : V → ClientOrderId → Prop) (rows : J → List Order)

/-- The journal holds a row of the order. -/
def Recorded (cid : ClientOrderId) (j : J) : Prop := ∃ row ∈ rows j, row.clientOrderId = cid

/-- Wherever the submission is cut short, an order the venue has accepted is on record. -/
def Durable (cid : ClientOrderId) (intent : TradeIntent) (w : SubmitWorld V J) : Prop :=
  ∀ w' ∈ (OrderManager.submit (venue.lift : Venue (SubmitWorld V J)) journal cid intent).cuts w,
    accepted w'.venue cid → Recorded rows cid w'.oms.journal

/-- Until the venue has answered only an earlier row counts; after that the write must have
stored its row before it waits or raises. -/
structure RecordedInTime (cid : ClientOrderId) (intent : TradeIntent) (w : SubmitWorld V J) :
    Prop where
  waiting : ∀ v ∈ (venue.placeOrder (OrderManager.request cid intent)).waits w.venue,
    accepted v cid → Recorded rows cid w.oms.journal
  failed : ∀ v exc, (venue.placeOrder (OrderManager.request cid intent)).exec w.venue =
    (v, .error exc) → accepted v cid → Recorded rows cid w.oms.journal
  placed : ∀ v oid, (venue.placeOrder (OrderManager.request cid intent)).exec w.venue =
    (v, .ok oid) → accepted v cid →
      ∀ j ∈ (journal.writeOrder (OrderManager.submittedOrder oid cid intent
        (w.clock.reading w.clock.reads))).cuts w.oms.journal, Recorded rows cid j

theorem cuts_recordSubmission (order : Order) (m : OrderManager J) :
    ((OrderManager.recordSubmission journal order).cuts m).map OrderManager.journal =
      (journal.writeOrder order).cuts m.journal := by
  have hview : (Part.view m : J) = m.journal := rfl
  rw [OrderManager.recordSubmission, Co.bind_eq, Co.cuts_bind, Co.waits_lift, Co.exec_lift,
    Co.cuts, hview]
  rcases (journal.writeOrder order).exec m.journal with ⟨j, e | u⟩ <;>
    simp [Part.put, Co.cuts, Co.waits, Co.modify, Co.exec, Function.comp_def]

/-- The points of a submission: those of the venue's answer, then those of the write. -/
theorem cuts_submit (cid : ClientOrderId) (intent : TradeIntent) (w : SubmitWorld V J) :
    let w₁ : SubmitWorld V J := { w with clock := (Clock.now.exec w.clock).1 }
    let place := venue.placeOrder (OrderManager.request cid intent)
    (OrderManager.submit (venue.lift : Venue (SubmitWorld V J)) journal cid intent).cuts w =
      (place.waits w.venue).map (fun v => { w₁ with venue := v }) ++
        match place.exec w.venue with
        | (v, .error _) => [{ w₁ with venue := v }]
        | (v, .ok oid) => ((OrderManager.recordSubmission journal (OrderManager.submittedOrder oid
            cid intent (w.clock.reading w.clock.reads))).cuts w.oms).map
              fun m => { w₁ with venue := v, oms := m } := by
  intro w₁ place
  have hnow : (Clock.now.lift : Coro (SubmitWorld V J) Time).exec w =
      (w₁, .ok (w.clock.reading w.clock.reads)) := rfl
  rw [OrderManager.submit, Co.bind_eq, Co.cuts_bind, hnow]
  have hnone : (Clock.now.lift : Coro (SubmitWorld V J) Time).waits w = [] := rfl
  have hview : (Part.view w₁ : V) = w.venue := rfl
  have hplace : (venue.lift : Venue (SubmitWorld V J)).placeOrder
      (OrderManager.request cid intent) = place.lift := rfl
  simp only [hnone, List.nil_append, Co.bind_eq, Co.cuts_bind, Co.waits_caught, Co.exec_caught,
    hplace, Co.waits_lift, Co.exec_lift, hview]
  congr 1
  rcases place.exec w.venue with ⟨v, e | oid⟩
  · by_cases he : Catchable.catchable e = true
    · simp only [he, if_true]
      rfl
    · simp only [he]
      rfl
  · simp only [Co.pure_eq]
    rw [Co.cuts_bind_pure, Co.cuts_lift]
    rfl

/-- An accepted order is on record at every point if and only if the row is stored in time. -/
theorem durable_iff_recordedInTime (cid : ClientOrderId) (intent : TradeIntent)
    (w : SubmitWorld V J) : Durable venue journal accepted rows cid intent w ↔
      RecordedInTime venue journal accepted rows cid intent w := by
  have hrow := fun oid => cuts_recordSubmission journal
    (OrderManager.submittedOrder oid cid intent (w.clock.reading w.clock.reads)) w.oms
  rw [Durable, cuts_submit]
  constructor
  · intro h
    refine ⟨fun v hv hacc => ?_, fun v exc hexec hacc => ?_, fun v oid hexec hacc j hj => ?_⟩
    · exact h ⟨v, _, _⟩ (List.mem_append_left _ (List.mem_map.mpr ⟨v, hv, rfl⟩)) hacc
    · rw [hexec] at h
      exact h ⟨v, _, _⟩ (List.mem_append_right _ (List.mem_singleton.mpr rfl)) hacc
    · rw [hexec] at h
      rw [← hrow oid] at hj
      obtain ⟨m, hm, rfl⟩ := List.mem_map.mp hj
      exact h ⟨v, _, m⟩ (List.mem_append_right _ (List.mem_map.mpr ⟨m, hm, rfl⟩)) hacc
  · rintro ⟨hwaiting, hfailed, hplaced⟩ w' hw' hacc
    cases List.mem_append.mp hw' with
    | inl hw' =>
      obtain ⟨v, hv, rfl⟩ := List.mem_map.mp hw'
      exact hwaiting v hv hacc
    | inr hw' =>
      rcases hexec : (venue.placeOrder (OrderManager.request cid intent)).exec w.venue
        with ⟨v, e | oid⟩
      · rw [hexec] at hw'
        cases List.mem_singleton.mp hw'
        exact hfailed v e hexec hacc
      · rw [hexec] at hw'
        obtain ⟨m, hm, rfl⟩ := List.mem_map.mp hw'
        apply hplaced v oid hexec hacc
        rw [← hrow oid]
        exact List.mem_map_of_mem hm

end Durability

/-- A venue that remembers the ids it has accepted. With `replies` the answer is awaited
after the order has been accepted. -/
def rememberingVenue (replies : Bool) : Venue (List ClientOrderId) where
  placeOrder request := do
    Co.modify fun ids => ids ++ [request.clientOrderId]
    if replies then Co.yield
    pure "V-1"
  cancelOrder _ := pure false
  getOrder _ := pure none
  getOpenOrders _ := pure []
  getPositions := pure []
  getBalance := pure ⟨"USDT", 0, 0, 0, 0⟩

/-- A journal on a full disk. -/
def fullJournal : OrderJournal OrderTables where
  writeOrder _ := .throw ⟨"OperationalError", "database or disk is full"⟩
  writeFill _ := .throw ⟨"OperationalError", "database or disk is full"⟩
  readOpenOrders _ := pure []

def buyAtMarket : TradeIntent := { symbol := "BTC", side := .buy, type := .market, quantity := 1 }

def beforeSubmit : SubmitWorld (List ClientOrderId) OrderTables :=
  ⟨[], ⟨fun n => n, 0⟩, .new ⟨[], []⟩⟩

/-- A crash while the answer is awaited, or a write that raises, leaves an accepted
order of which the journal knows nothing. -/
theorem accepted_order_unrecorded :
    ¬ Durable (rememberingVenue true) InMemoryOrderJournal.journal (fun ids cid => cid ∈ ids)
        OrderTables.orders "C-1" buyAtMarket beforeSubmit ∧
      ¬ Durable (rememberingVenue false) fullJournal (fun ids cid => cid ∈ ids)
        OrderTables.orders "C-1" buyAtMarket beforeSubmit := by
  constructor
  · intro h
    obtain ⟨row, hrow, -⟩ := h ⟨["C-1"], ⟨fun n => n, 1⟩, .new ⟨[], []⟩⟩
      List.mem_cons_self (List.mem_singleton_self _)
    exact List.not_mem_nil hrow
  · intro h
    obtain ⟨row, hrow, -⟩ := h ⟨["C-1"], ⟨fun n => n, 1⟩, .new ⟨[], []⟩⟩
      List.mem_cons_self (List.mem_singleton_self _)
    exact List.not_mem_nil hrow

end Trading
