import Trading.PlacementReplay

/-!
# The paper venue alone

What an operation of the venue does when nobody else runs. The subscribers are told, and
may raise, but only know the environment.
-/
namespace Trading

open Async Data PaperVenue PaperWorld

section Subscribers

variable {ε : Type} (subs : Subscribers ε)

namespace Subscribers

/-- Hand an order to one callback after another. -/
def tell (order : Order) : Coro ε Unit := Co.forEach subs.orderCbs fun cb => cb order

/-- Hand over a fill, then the order with the fill in it. -/
def tellFill (fill : Fill) (updated : Order) : Coro ε Unit :=
  (Co.forEach subs.fillCbs fun cb => cb fill).bind fun _ => subs.tell updated

end Subscribers

/-- Callbacks that never raise let everybody hear. -/
theorem exec_forEach_noThrow {α : Type} {cbs : List (α → Coro ε Unit)} {x : α}
    (hquiet : ∀ cb ∈ cbs, (cb x).NoThrow) (env : ε) :
    ∃ env', (Co.forEach cbs fun cb => cb x).exec env = (env', .ok ()) := by
  have hall : ∃ env', (Co.forEach cbs fun cb => cb x).exec env = (env', .ok ()) ∧ True := by
    refine Co.exec_forEach_succeeds cbs (fun cb hcb e _ => ?_) trivial
    obtain ⟨_, hexec⟩ := (hquiet cb hcb).exec e
    exact ⟨_, hexec, trivial⟩
  obtain ⟨env', hexec, -⟩ := hall
  exact ⟨env', hexec⟩

theorem tellFill_quiet {subs : Subscribers ε} (h : subs.Quiet) (fill : Fill) (updated : Order)
    (env : ε) : ∃ env', (subs.tellFill fill updated).exec env = (env', .ok ()) := by
  obtain ⟨env', hfill⟩ := exec_forEach_noThrow (fun cb hcb => h.fill cb hcb fill) env
  rw [Subscribers.tellFill, Co.exec_bind_ok hfill]
  exact exec_forEach_noThrow (fun cb hcb => h.order cb hcb updated) env'

/-- Telling callbacks of a part is telling them within the part. -/
theorem forEach_lifted {S W α : Type} [Part S W] (cbs : List (α → Coro S Unit)) (x : α) :
    (Co.forEach (cbs.map fun cb y => ((cb y).lift : Coro W Unit)) fun cb => cb x) =
      (Co.forEach cbs fun cb => cb x).lift := by
  induction cbs with
  | nil => rfl
  | cons cb cbs ih => rw [List.map_cons, Co.forEach_cons, Co.forEach_cons, Co.lift_bind, ih]

theorem notifyOrder_lift (order : Order) :
    notifyOrder (subs.lift : Subscribers (PaperWorld ε)) order = (subs.tell order).lift :=
  forEach_lifted subs.orderCbs order

theorem notifyFill_lift (fill : Fill) (updated : Order) :
    ((notifyFill (subs.lift : Subscribers (PaperWorld ε)) fill).bind
      fun _ => notifyOrder subs.lift updated) = (subs.tellFill fill updated).lift := by
  rw [Subscribers.tellFill, Co.lift_bind, notifyOrder_lift]
  congr 1
  exact forEach_lifted subs.fillCbs fill

end Subscribers

section Alone

variable {ε : Type} (cfg : PaperConfig) (subs : Subscribers ε)

/-- The world after a fill, once the subscribers have been told. -/
def afterFill (fill : Fill) (updated : Order) (w : PaperWorld ε) : PaperWorld ε :=
  { w with
    venue := store updated fill w.venue
    trace := w.trace ++ [.fill fill, .update updated]
    env := ((subs.tellFill fill updated).exec w.env).1 }

theorem alone_applyFillToOrder {order updated : Order} {fill : Fill} (w : PaperWorld ε)
    (h : order.executed fill = .ok updated) :
    (applyFillToOrder subs.lift order fill).exec w =
      (afterFill subs fill updated w, ((subs.tellFill fill updated).exec w.env).2) := by
  unfold applyFillToOrder
  rw [h]
  simp only [Co.ofExcept, Co.bind_eq, Co.pure_bind, Co.exec_bind, record, Co.exec_modify,
    notifyFill_lift, Co.exec_lift]
  rfl

/-- What an attempt to fill the open order of an id comes to. -/
theorem alone_tryFillOrder (oid : OrderId) (book : OrderbookSnapshot) (w : PaperWorld ε) :
    (tryFillOrder cfg subs.lift oid book).exec w =
      match w.venue.openOrders.get oid with
      | none => (w, .ok ())
      | some order =>
        match cfg.fillEngine.tryFill order book (w.clock.reading w.clock.reads) with
        | none => (w.tick, .ok ())
        | some fill =>
          match order.executed fill with
          | .error e => (w.tick, .error e)
          | .ok updated =>
            (afterFill subs fill updated w.tick, ((subs.tellFill fill updated).exec w.env).2) := by
  rw [tryFillOrder, Co.bind_eq, Co.exec_bind_ok (exec_readVenue w)]
  cases w.venue.openOrders.get oid with
  | none => rfl
  | some order =>
    dsimp only
    rw [Co.bind_eq, Co.exec_bind_ok (exec_readNow w)]
    cases cfg.fillEngine.tryFill order book (w.clock.reading w.clock.reads) with
    | none => rfl
    | some fill =>
      dsimp only
      cases hupdated : order.executed fill with
      | error e =>
        rw [applyFillToOrder, hupdated]
        rfl
      | ok updated => exact alone_applyFillToOrder subs w.tick hupdated

/-- The attempt that follows an acknowledgement. -/
theorem alone_tryFillLatest {order : Order} (w : PaperWorld ε)
    (hopen : w.venue.openOrders.get order.orderId = some order) :
    (tryFillLatest cfg subs.lift order).exec w =
      match w.venue.latestBook.get order.symbol with
      | none => (w, .ok ())
      | some book =>
        match cfg.fillEngine.tryFill order book (w.clock.reading w.clock.reads) with
        | none => (w.tick, .ok ())
        | some fill =>
          match order.executed fill with
          | .error e => (w.tick, .error e)
          | .ok updated =>
            (afterFill subs fill updated w.tick, ((subs.tellFill fill updated).exec w.env).2) := by
  rw [tryFillLatest, Co.bind_eq, Co.exec_bind_ok (exec_readVenue w)]
  cases w.venue.latestBook.get order.symbol with
  | none => rfl
  | some book =>
    dsimp only
    rw [alone_tryFillOrder, hopen]

/-- The id of the next order. -/
def nextId (w : PaperWorld ε) : OrderId := paperOid (w.venue.nextOid + 1)

/-- The order that a placement enters. -/
def nextOrder (w : PaperWorld ε) (request : OrderRequest) : Order :=
  newOrder request (nextId w) (w.venue.initialStatus request) (w.clock.reading w.clock.reads)

/-- The state after the placement. -/
def placed (request : OrderRequest) (w : PaperWorld ε) : PaperWorld ε :=
  ((placeOrder cfg subs.lift request).exec w).1

theorem exec_placeOrder_entered (request : OrderRequest) (w : PaperWorld ε) :
    (placeOrder cfg subs.lift request).exec w =
      (announce cfg subs (nextOrder w request)).exec (entered request w) := by
  have htrace : w.trace ++ [] = w.trace := List.append_nil _
  rw [entered, ← htrace]
  rfl

/-- The world once the order is entered and the subscribers have been told. -/
def acknowledging (request : OrderRequest) (w : PaperWorld ε) : PaperWorld ε :=
  { entered request w with env := ((subs.tell (nextOrder w request)).exec w.env).1 }

/-- The fill that a placement makes before it returns. No attempt is made for a rejected
order, nor if a subscriber raises on hearing of the order. -/
def placementFill (w : PaperWorld ε) (request : OrderRequest) : Option Fill :=
  if (nextOrder w request).status = .acked ∧
      ((subs.tell (nextOrder w request)).exec w.env).2.isOk = true then
    (w.venue.latestBook.get request.symbol).bind fun book =>
      cfg.fillEngine.tryFill (nextOrder w request) book (w.clock.reading (w.clock.reads + 1))
  else none

variable {subs} in
theorem placementFill_attempted {w : PaperWorld ε} {request : OrderRequest}
    (hacked : (nextOrder w request).status = .acked)
    (htold : ((subs.tell (nextOrder w request)).exec w.env).2.isOk = true) :
    placementFill cfg subs w request =
      (w.venue.latestBook.get request.symbol).bind fun book => cfg.fillEngine.tryFill
        (nextOrder w request) book (w.clock.reading (w.clock.reads + 1)) :=
  if_pos ⟨hacked, htold⟩

/-- An accepted order is open while the subscribers are told of it. -/
theorem acknowledging_open {w : PaperWorld ε} {request : OrderRequest}
    (hacked : (nextOrder w request).status = .acked) :
    (acknowledging subs request w).venue.openOrders.get (nextOrder w request).orderId =
      some (nextOrder w request) := by
  have hentered : (acknowledging subs request w).venue.openOrders =
      w.venue.openOrders.set (nextOrder w request).orderId (nextOrder w request) := if_pos hacked
  rw [hentered, Dict.get_set_same]

theorem executed_nextOrder (w : PaperWorld ε) (request : OrderRequest) (fill : Fill) :
    ∃ updated, (nextOrder w request).executed fill = .ok updated := ⟨_, rfl⟩

/-- What a placement comes to, the clock apart. -/
def placementOutcome (request : OrderRequest) (w : PaperWorld ε) (clock : Clock) :
    PaperWorld ε × Except PyError OrderId :=
  let order := nextOrder w request
  let told := { acknowledging subs request w with clock := clock }
  match ((subs.tell order).exec w.env).2 with
  | .error e => (told, .error e)
  | .ok _ =>
    match placementFill cfg subs w request with
    | none => (told, .ok order.orderId)
    | some fill =>
      match order.executed fill with
      | .error e => (told, .error e)
      | .ok updated =>
        (afterFill subs fill updated told,
          ((subs.tellFill fill updated).exec told.env).2.map fun _ => order.orderId)

theorem alone_placeOrder (request : OrderRequest) (w : PaperWorld ε) :
    ∃ clock, (placeOrder cfg subs.lift request).exec w =
      placementOutcome cfg subs request w clock := by
  have htell : (notifyOrder subs.lift (nextOrder w request)).exec (entered request w) =
      (acknowledging subs request w, ((subs.tell (nextOrder w request)).exec w.env).2) := by
    rw [notifyOrder_lift, Co.exec_lift]
    rfl
  rw [exec_placeOrder_entered, announce, Co.bind_eq, Co.exec_bind, htell]
  simp only [placementOutcome]
  cases htold : ((subs.tell (nextOrder w request)).exec w.env).2 with
  | error e => exact ⟨(acknowledging subs request w).clock, rfl⟩
  | ok _ =>
    by_cases hacked : (nextOrder w request).status = .acked
    · have hopen := acknowledging_open subs hacked
      have hlatest : (acknowledging subs request w).venue.latestBook.get
          (nextOrder w request).symbol = w.venue.latestBook.get request.symbol := rfl
      have hfill := placementFill_attempted cfg hacked (congrArg Except.isOk htold)
      have hnow : (acknowledging subs request w).clock.reading
          (acknowledging subs request w).clock.reads =
            w.clock.reading (w.clock.reads + 1) := rfl
      dsimp only
      rw [if_pos hacked]
      simp only [Co.bind_eq, Co.pure_eq]
      rw [Co.exec_bind, hfill, alone_tryFillLatest cfg subs _ hopen, hlatest]
      cases w.venue.latestBook.get request.symbol with
      | none => exact ⟨(acknowledging subs request w).clock, rfl⟩
      | some book =>
        refine ⟨(acknowledging subs request w).tick.clock, ?_⟩
        dsimp only [Option.bind_some]
        rw [hnow]
        cases cfg.fillEngine.tryFill (nextOrder w request) book
            (w.clock.reading (w.clock.reads + 1)) with
        | none => rfl
        | some fill =>
          obtain ⟨updated, hupdated⟩ := executed_nextOrder w request fill
          dsimp only
          rw [hupdated]
          dsimp only
          rcases htold' : (subs.tellFill fill updated).exec
            (acknowledging subs request w).env with ⟨env, e | _⟩ <;> rfl
    · have hnone : placementFill cfg subs w request = none := if_neg fun h => hacked h.1
      rw [hnone]
      dsimp only
      rw [if_neg hacked]
      exact ⟨(acknowledging subs request w).clock, rfl⟩

/-- Placing an order enters it and makes the fill, if there is one. -/
theorem core_placeOrder (request : OrderRequest) (w : PaperWorld ε) :
    ((placeOrder cfg subs.lift request).exec w).1.core =
      match placementFill cfg subs w request with
      | none => (entered request w).core
      | some fill => match (nextOrder w request).executed fill with
        | .error _ => (entered request w).core
        | .ok updated => (store updated fill (entered request w).venue,
            (entered request w).trace ++ [.fill fill, .update updated]) := by
  obtain ⟨clock, hexec⟩ := alone_placeOrder cfg subs request w
  rw [hexec]
  simp only [placementOutcome]
  cases htold : ((subs.tell (nextOrder w request)).exec w.env).2 with
  | error e =>
    have hnone : placementFill cfg subs w request = none := by
      rw [placementFill, htold]
      exact if_neg fun h => Bool.false_ne_true h.2
    rw [hnone]
    rfl
  | ok _ =>
    cases placementFill cfg subs w request with
    | none => rfl
    | some fill => rfl

variable {cfg subs} in
theorem core_placeOrder_unfilled {request : OrderRequest} {w : PaperWorld ε}
    (h : placementFill cfg subs w request = none) :
    ((placeOrder cfg subs.lift request).exec w).1.core = (entered request w).core := by
  rw [core_placeOrder, h]

variable {cfg subs} in
theorem core_placeOrder_filled {request : OrderRequest} {w : PaperWorld ε} {fill : Fill}
    (h : placementFill cfg subs w request = some fill) :
    ∃ updated, (nextOrder w request).executed fill = .ok updated ∧
      ((placeOrder cfg subs.lift request).exec w).1.core =
        (store updated fill (entered request w).venue,
          (entered request w).trace ++ [.fill fill, .update updated]) := by
  obtain ⟨updated, hupdated⟩ := executed_nextOrder w request fill
  refine ⟨updated, hupdated, ?_⟩
  rw [core_placeOrder, h]
  dsimp only
  rw [hupdated]

end Alone

/-- The order maps agree, and a book is kept under its own symbol. -/
structure PaperSound (c : PaperCore) : Prop extends PaperMaps c where
  books : ∀ symbol book, c.1.latestBook.get symbol = some book → book.symbol = symbol

theorem sound_new : PaperSound (.new, []) where
  toPaperMaps := paperMaps_new
  books _ _ h := by cases h

theorem sound_step {cfg : PaperConfig} {B : OrderbookSnapshot → Prop} {c c' : PaperCore}
    (hstep : PaperStep cfg B c c') (h : PaperSound c) : PaperSound c' := by
  have hbooks := @books_step _ _ (fun symbol book => book.symbol = symbol) _ _ hstep
  exact ⟨maps_step hstep h.toPaperMaps, hbooks (fun _ _ => rfl) h.books⟩

theorem sound_steps {cfg : PaperConfig} {B : OrderbookSnapshot → Prop} {c c' : PaperCore}
    (hsteps : Relation.ReflTransGen (PaperStep cfg B) c c') (h : PaperSound c) : PaperSound c' := by
  induction hsteps with
  | refl => exact h
  | tail _ hstep ih => exact sound_step hstep ih

/-- Whatever interleaving led to it. -/
theorem sound_run {ε : Type} (cfg : PaperConfig) (subs : Subscribers ε) (clock : Clock) (env : ε)
    (labels : List (Label PaperOp)) :
    PaperSound (Config.run (PaperOp.prog cfg subs.lift) ⟨⟨clock, .new, [], env⟩, []⟩
      labels).state.core := by
  have hrun : PaperSteps cfg (fun _ => True) ⟨clock, .new, [], env⟩
      (Config.run (PaperOp.prog cfg subs.lift) ⟨⟨clock, .new, [], env⟩, []⟩ labels).state :=
    steps_of_run fun _ _ => trivial
  exact sound_steps hrun sound_new

end Trading
