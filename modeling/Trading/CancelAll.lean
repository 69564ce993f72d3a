import Trading.Async.Interference
import Trading.OrderManager
import Trading.RuntimeParts

/-!
# Cancelling everything

`cancel_all` goes through the orders that are open when it is called. What the venue says
to each request is given by a table of outcomes; in between anybody may do anything.
-/
namespace Trading

open Async

/-- The venue, with a record of the orders whose cancellation was requested. -/
def Venue.attempting {W : Type} (venue : Venue W) : Venue (Noted (List OrderId) W) :=
  { (venue.lift : Venue (Noted (List OrderId) W)) with
    cancelOrder := fun oid => do
      record oid
      (venue.cancelOrder oid).lift }

namespace OrderManager

instance {J L W : Type} [manager : Part (OrderManager J) W] : Part (OrderManager J) (Noted L W) :=
  manager.trans inferInstance

/-- What becomes of a request to cancel an order, and whether the venue accepted it. -/
abbrev Outcomes := OrderId → Except PyError Bool

def Outcomes.raises (outcomes : Outcomes) (order : Order) : Prop :=
  ∃ e, outcomes order.orderId = .error e

def Outcomes.accepted (outcomes : Outcomes) (order : Order) : Bool :=
  match outcomes order.orderId with
  | .ok done => done
  | .error _ => false

/-- The requests of the loop: those up to the first that raises. -/
def attempted (outcomes : Outcomes) : List Order → List OrderId
  | [] => []
  | order :: orders => order.orderId :: match outcomes order.orderId with
    | .ok _ => attempted outcomes orders
    | .error _ => []

/-- What the loop comes to. -/
def counted (outcomes : Outcomes) : List Order → Nat → Except PyError Nat
  | [], count => .ok count
  | order :: orders, count => match outcomes order.orderId with
    | .ok done => counted outcomes orders (if done then count + 1 else count)
    | .error e => .error e

section Attempts

variable {J W : Type} [Part (OrderManager J) W] {venue : Venue W} {outcomes : Outcomes}

/-- Whatever others do in the meantime, the venue settles each request as the table says. -/
def Settles (venue : Venue W) (outcomes : Outcomes) : Prop :=
  ∀ oid others n w, ((venue.cancelOrder oid).execAmid others n w).2 = outcomes oid

theorem execAmid_attempting (hvenue : Settles venue outcomes) (oid : OrderId)
    (others : Nat → W → W) (n : Nat) (w : Noted (List OrderId) W) :
    ∃ n' rest, (venue.attempting.cancelOrder oid).execAmid (Co.within others) n w =
      ((⟨w.log ++ [oid], rest⟩, n'), outcomes oid) := by
  have hrecord : (record oid : Coro (Noted (List OrderId) W) Unit).execAmid
      (Co.within others) n w = ((⟨w.log ++ [oid], w.rest⟩, n), .ok ()) := rfl
  simp only [Venue.attempting, Co.bind_eq, Co.execAmid_bind, hrecord, Co.execAmid_lift]
  rw [hvenue]
  exact ⟨_, _, rfl⟩

theorem execAmid_cancelEach (hvenue : Settles venue outcomes) (others : Nat → W → W)
    (orders : List Order) (count n : Nat) (w : Noted (List OrderId) W) :
    ((cancelEach venue.attempting orders count).execAmid (Co.within others) n w).1.1.log =
        w.log ++ attempted outcomes orders ∧
      ((cancelEach venue.attempting orders count).execAmid (Co.within others) n w).2 =
        counted outcomes orders count := by
  induction orders generalizing count n w with
  | nil => exact ⟨(List.append_nil _).symm, rfl⟩
  | cons order orders ih =>
    obtain ⟨n', rest, hcancel⟩ := execAmid_attempting hvenue order.orderId others n w
    rw [cancelEach, Co.bind_eq, Co.execAmid_bind, hcancel, attempted, counted]
    cases houtcome : outcomes order.orderId with
    | error e => exact ⟨rfl, rfl⟩
    | ok done =>
      obtain ⟨hlog, hresult⟩ := ih (if done then count + 1 else count) n' ⟨w.log ++ [_], rest⟩
      refine ⟨?_, hresult⟩
      rw [hlog, List.append_assoc]
      rfl

/-- The loop gets through exactly if nothing raises. -/
theorem counted_eq_ok_iff (orders : List Order) (count total : Nat) :
    counted outcomes orders count = .ok total ↔
      (∀ order ∈ orders, ¬ outcomes.raises order) ∧
        total = count + orders.countP outcomes.accepted := by
  induction orders generalizing count with
  | nil => simp [counted, eq_comm]
  | cons order orders ih =>
    rw [counted, List.forall_mem_cons, Outcomes.raises, List.countP_cons, Outcomes.accepted]
    cases houtcome : outcomes order.orderId with
    | error e => simp
    | ok done =>
      simp only [ih, reduceCtorEq, exists_false, not_false_eq_true, true_and]
      cases done
      · simp
      · simp only [if_true]
        rw [Nat.add_right_comm, ← Nat.add_assoc]

theorem attempted_of_none_raises {orders : List Order}
    (h : ∀ order ∈ orders, ¬ outcomes.raises order) :
    attempted outcomes orders = orders.map Order.orderId := by
  induction orders with
  | nil => rfl
  | cons order orders ih =>
    obtain ⟨horder, horders⟩ := List.forall_mem_cons.mp h
    rw [attempted, List.map_cons]
    cases houtcome : outcomes order.orderId with
    | error e => exact (horder ⟨e, houtcome⟩).elim
    | ok done => rw [ih horders]

/-- Every order that was open is attempted and the count is right, if and only if none of
the requests raises. -/
theorem cancelAll_attempts_all_iff (hvenue : Settles venue outcomes) (others : Nat → W → W)
    (symbol : Option Symbol) (w : W) :
    let opened := (Part.view w : OrderManager J).live symbol
    let run := (cancelAll (J := J) venue.attempting symbol).execAmid (Co.within others) 0 ⟨[], w⟩
    ((∀ order ∈ opened, order.orderId ∈ run.1.1.log) ∧
        run.2 = .ok (opened.countP outcomes.accepted)) ↔
      ∀ order ∈ opened, ¬ outcomes.raises order := by
  intro opened run
  have hrun : run = (cancelEach venue.attempting opened 0).execAmid (Co.within others) 0
      ⟨[], w⟩ := by
    simp only [run, cancelAll, openOrders, Co.bind_eq, Co.lift_bind, Co.execAmid_bind,
      Co.execAmid_lift_get]
    rfl
  obtain ⟨hlog, hresult⟩ := execAmid_cancelEach hvenue others opened 0 0 ⟨[], w⟩
  rw [hrun, hlog, hresult, counted_eq_ok_iff]
  constructor
  · rintro ⟨-, hnone, -⟩
    exact hnone
  · intro hnone
    refine ⟨fun order horder => ?_, hnone, (Nat.zero_add _).symm⟩
    rw [attempted_of_none_raises hnone]
    exact List.mem_append_right _ (List.mem_map_of_mem horder)

end Attempts

def openOrder (oid : OrderId) : Order :=
  { orderId := oid, clientOrderId := oid, symbol := "BTC", side := .buy, type := .limit
    quantity := 1, filledQuantity := 0, price := some 100, averageFillPrice := none
    status := .acked, timeInForce := .gtc, reduceOnly := false, createdAt := 0, updatedAt := 0 }

def twoOpen : OrderManager Unit := ⟨.ofList Order.orderId [openOrder "a", openOrder "b"], (), []⟩

/-- A venue that settles each request at once. -/
def settling (outcomes : Outcomes) : Venue (OrderManager Unit × Unit) where
  placeOrder _ := .throw ⟨"VenueError", "unavailable"⟩
  cancelOrder oid := Co.ofExcept (outcomes oid)
  getOrder _ := pure none
  getOpenOrders _ := pure []
  getPositions := pure []
  getBalance := pure ⟨"USDT", 0, 0, 0, 0⟩

theorem settles_settling (outcomes : Outcomes) : Settles (settling outcomes) outcomes := by
  intro oid others n w
  change ((Co.ofExcept (outcomes oid) : Coro (OrderManager Unit × Unit) Bool).execAmid
    others n w).2 = outcomes oid
  cases outcomes oid with
  | error e => rfl
  | ok done => rfl

def timeoutOn (bad : OrderId) : Outcomes := fun oid =>
  if oid = bad then .error ⟨"TimeoutError", ""⟩ else .ok true

theorem cancelAll_attempts_all_iff_two :
    ((cancelAll (J := Unit) (settling (timeoutOn "c")).attempting none).execAmid
      (Co.within (S := OrderManager Unit × Unit) fun _ => id) 0 ⟨[], (twoOpen, ())⟩).2 = .ok 2 := by
  have hall := (cancelAll_attempts_all_iff (J := Unit) (settles_settling (timeoutOn "c"))
    (fun _ => id) none (twoOpen, ())).mpr
  have hlive : (Part.view (twoOpen, ()) : OrderManager Unit).live none =
      [openOrder "a", openOrder "b"] := by decide
  rw [hlive] at hall
  refine (hall ?_).2
  rintro order horder ⟨e, he⟩
  obtain rfl | rfl : order = openOrder "a" ∨ order = openOrder "b" := by simpa using horder
  · cases he
  · cases he

/-- The first request times out, and the second order is left alone. -/
theorem cancelAll_leaves_order_live :
    let run := (cancelAll (J := Unit) (settling (timeoutOn "a")).attempting none).execAmid
      (Co.within (S := OrderManager Unit × Unit) fun _ => id) 0 ⟨[], (twoOpen, ())⟩
    (∃ order ∈ twoOpen.live none, order.orderId ∉ run.1.1.log) ∧
      timeoutOn "a" "b" = .ok true ∧
      run.1.1.log = ["a"] ∧ run.2 = .error ⟨"TimeoutError", ""⟩ := by
  decide

end OrderManager

end Trading
