import Trading.Async.Interference
import Trading.PaperInvariants

/-!
# Placing the same request again

The paper venue counts its ids up and never looks at the client's id, so a replay enters
another order.
-/
namespace Trading

open Async Data Relation PaperVenue PaperWorld

theorem Order.executed_clientOrderId {order updated : Order} {fill : Fill}
    (h : order.executed fill = .ok updated) : updated.clientOrderId = order.clientOrderId := by
  obtain ⟨_, -, rfl⟩ := Order.executed_ok h
  rfl

/-- The venue knows an order under `oid`, and it carries the client's `cid`. -/
def PaperVenue.Carries (oid : OrderId) (cid : ClientOrderId) (v : PaperVenue) : Prop :=
  ∃ order, v.allOrders.get oid = some order ∧ order.clientOrderId = cid

section Steps

variable {cfg : PaperConfig} {B : OrderbookSnapshot → Prop} {c c' : PaperCore} {oid : OrderId}
  {cid : ClientOrderId}

/-- An order stays known, and keeps the client's id. -/
theorem carries_step (hstep : PaperStep cfg B c c') (hmaps : PaperMaps c)
    (h : c.1.Carries oid cid) : c'.1.Carries oid cid := by
  obtain ⟨order, hget, hcid⟩ := h
  cases hstep with
  | place v tr request now =>
    have hne : oid ≠ paperOid (v.nextOid + 1) := by
      rintro rfl
      rw [hmaps.fresh] at hget
      cases hget
    refine ⟨order, ?_, hcid⟩
    simp only [enter, newOrder, Dict.get_set, if_neg hne]
    exact hget
  | @fill v tr j current updated book now f hopen hbook hfill hupdated =>
    obtain ⟨hall, -, hid⟩ := hmaps.known hopen
    have hoid : updated.orderId = j := (Order.executed_orderId hupdated).trans hid
    simp only [Carries, store, Dict.get_set, hoid]
    by_cases hj : oid = j
    · subst hj
      rw [hget] at hall
      cases hall
      exact ⟨updated, if_pos rfl, (Order.executed_clientOrderId hupdated).trans hcid⟩
    · exact ⟨order, (if_neg hj).trans hget, hcid⟩
  | @cancel v tr j current now hopen =>
    obtain ⟨hall, -, -⟩ := hmaps.known hopen
    simp only [Carries, remove, Dict.get_set]
    by_cases hj : oid = j
    · subst hj
      rw [hget] at hall
      cases hall
      exact ⟨_, if_pos rfl, hcid⟩
    · exact ⟨order, (if_neg hj).trans hget, hcid⟩
  | observe v tr hbook => exact ⟨order, hget, hcid⟩

theorem carries_steps (hsteps : ReflTransGen (PaperStep cfg B) c c') (hmaps : PaperMaps c)
    (h : c.1.Carries oid cid) : c'.1.Carries oid cid := by
  induction hsteps with
  | refl => exact h
  | tail hsteps hstep ih => exact carries_step hstep (maps_steps hsteps hmaps) ih

end Steps

section Replay

variable {ε : Type} (cfg : PaperConfig) (subs : Subscribers ε)

/-- The state once the order is entered, before anybody hears of it. -/
def entered (request : OrderRequest) (w : PaperWorld ε) : PaperWorld ε :=
  let order := newOrder request (paperOid (w.venue.nextOid + 1)) (w.venue.initialStatus request)
    (w.clock.reading w.clock.reads)
  { w.tick with
    venue := enter order { w.venue with nextOid := w.venue.nextOid + 1 }
    trace := w.trace ++ [.update order] }

/-- What is left of a placement then. -/
def announce (order : Order) : Coro (PaperWorld ε) OrderId := do
  notifyOrder (subs.lift : Subscribers (PaperWorld ε)) order
  if order.status = .acked then tryFillLatest cfg subs.lift order else pure ()
  pure order.orderId

/-- The first accesses of a placement are its own, whoever runs it and however. -/
theorem block_placeOrder (request : OrderRequest) (w : PaperWorld ε) :
    (PaperOp.prog cfg (subs.lift : Subscribers (PaperWorld ε)) (.placeOrder request)).block w =
      ((announce cfg subs (newOrder request (paperOid (w.venue.nextOid + 1))
        (w.venue.initialStatus request) (w.clock.reading w.clock.reads))).bind
          fun _ => .pure ()).block (entered request w) := by
  have htrace : w.trace ++ [] = w.trace := List.append_nil _
  rw [entered, ← htrace]
  rfl

variable {cfg subs} {B : OrderbookSnapshot → Prop}

/-- Announcing an order takes transitions only. -/
theorem follows_notified (order : Order) (w : PaperWorld ε) :
    (paperContract cfg B).Follows (Stepping cfg B) (Stepping cfg B)
      ((announce cfg subs order).bind fun _ => .pure ()) () w w := by
  simp only [announce, Co.bind_eq, Contract.follows_bind]
  refine (follows_callbacks subs.orderCbs order .refl).mono (fun _ _ _ _ h => ?_) fun _ _ _ _ h => h
  split
  · rw [Contract.follows_bind]
    exact ((announces_paper subs).tryFillLatest h).mono (fun _ _ _ _ h => h) fun _ _ _ _ h => h
  · exact h

/-- The state after the call of a placement. -/
theorem steps_call_placeOrder (request : OrderRequest) (c : Config (PaperWorld ε) PyError) :
    PaperSteps cfg B (entered request c.state)
      (c.call (PaperOp.prog cfg subs.lift (.placeOrder request))).state := by
  let order := newOrder request (paperOid (c.state.venue.nextOid + 1))
    (c.state.venue.initialStatus request) (c.state.clock.reading c.state.clock.reads)
  have hfollows : (paperContract cfg B).Follows (Stepping cfg B) (Stepping cfg B)
      ((announce cfg subs order).bind fun _ => .pure ()) () (entered request c.state)
      (entered request c.state) := follows_notified order _
  have hblock := hfollows.block
  rw [← block_placeOrder] at hblock
  rw [Config.call]
  rcases hcall : (PaperOp.prog cfg subs.lift (.placeOrder request)).block c.state with
    ⟨w, u | e | k⟩
  · rw [hcall] at hblock
    exact hblock
  · rw [hcall] at hblock
    exact hblock
  · rw [hcall] at hblock
    obtain ⟨_, hsteps, _⟩ := hblock
    exact hsteps

/-- Whatever others do in the meantime, the answer is the next id. -/
theorem placeOrder_answer {request : OrderRequest} {others : Nat → PaperWorld ε → PaperWorld ε}
    {n : Nat} {w : PaperWorld ε} {answer : OrderId}
    (h : ((placeOrder cfg (subs.lift : Subscribers (PaperWorld ε)) request).execAmid
      others n w).2 = .ok answer) : answer = paperOid (w.venue.nextOid + 1) := by
  have hrest : ∃ v, ((announce cfg subs (newOrder request (paperOid (w.venue.nextOid + 1))
      (w.venue.initialStatus request) (w.clock.reading w.clock.reads))).execAmid
        others n v).2 = .ok answer := ⟨_, h⟩
  obtain ⟨v, hv⟩ := hrest
  obtain ⟨n', v', -, hv⟩ := Co.execAmid_bind_eq_ok hv
  dsimp only at hv
  split at hv
  · obtain ⟨n', v', -, hv⟩ := Co.execAmid_bind_eq_ok hv
    cases hv
    rfl
  · cases hv
    rfl

variable (cfg subs)

/-- What idempotence promises of a replay: the old id, no second order and no fill. -/
structure AnsweredAsBefore (request : OrderRequest) (oid : OrderId) (w : PaperWorld ε) :
    Prop where
  answer : ((placeOrder cfg (subs.lift : Subscribers (PaperWorld ε)) request).exec w).2 = .ok oid
  orders : ((placeOrder cfg (subs.lift : Subscribers (PaperWorld ε)) request).exec
    w).1.venue.allOrders = w.venue.allOrders
  fills : fillsOf ((placeOrder cfg (subs.lift : Subscribers (PaperWorld ε)) request).exec
    w).1.trace = fillsOf w.trace
  positions : ((placeOrder cfg (subs.lift : Subscribers (PaperWorld ε)) request).exec
    w).1.venue.positions = w.venue.positions

/-- Wherever a request is placed whose client id an order carries already, the venue answers
with another id, and from then on two orders carry the client's id. -/
theorem replay_enters_second_order (clock : Clock) (env : ε)
    {c : Config (PaperWorld ε) PyError}
    (hc : Reaches (PaperOp.prog cfg subs.lift) (PaperOp.Allowed fun _ => True)
      ⟨⟨clock, .new, [], env⟩, []⟩ c)
    {request : OrderRequest} {oid : OrderId}
    (hplaced : c.state.venue.Carries oid request.clientOrderId) :
    ¬ AnsweredAsBefore cfg subs request oid c.state ∧ ∃ second ≠ oid,
      (∀ others n answer, ((placeOrder cfg (subs.lift : Subscribers (PaperWorld ε))
        request).execAmid others n c.state).2 = .ok answer → answer = second) ∧
      ∀ d, Reaches (PaperOp.prog cfg subs.lift) (PaperOp.Allowed fun _ => True)
        (c.call (PaperOp.prog cfg subs.lift (.placeOrder request))) d →
          d.state.venue.Carries oid request.clientOrderId ∧
            d.state.venue.Carries second request.clientOrderId := by
  have hmaps : PaperMaps c.state.core :=
    maps_steps (reaches_paperSteps hc .refl).1 paperMaps_new
  have hne : paperOid (c.state.venue.nextOid + 1) ≠ oid := by
    rintro rfl
    obtain ⟨order, hget, -⟩ := hplaced
    rw [hmaps.fresh] at hget
    cases hget
  refine ⟨fun hsame => ?_, _, hne, fun _ _ _ => placeOrder_answer, fun d hd => ?_⟩
  · have hanswer := hsame.answer
    rw [← Co.execAmid_id _ 0] at hanswer
    exact hne (placeOrder_answer hanswer).symm
  · have henter : PaperStep cfg (fun _ => True) c.state.core (entered request c.state).core :=
      .place _ _ request _
    have hallowed : PaperOp.Allowed (fun _ => True) (.placeOrder request) c.state := trivial
    have hcall : PaperSteps cfg (fun _ => True) (entered request c.state) d.state :=
      (steps_call_placeOrder request c).trans (reaches_paperSteps (hc.call _ hallowed) hd).2
    have hentered := maps_step henter hmaps
    have hsecond : (entered request c.state).venue.Carries
        (paperOid (c.state.venue.nextOid + 1)) request.clientOrderId := by
      refine ⟨newOrder request (paperOid (c.state.venue.nextOid + 1))
        (c.state.venue.initialStatus request) (c.state.clock.reading c.state.clock.reads), ?_, rfl⟩
      simp only [entered, enter, newOrder, Dict.get_set, if_pos]
    exact ⟨carries_steps hcall hentered (carries_step henter hmaps hplaced),
      carries_steps hcall hentered hsecond⟩

end Replay

def spotBuy : OrderRequest := ⟨"BTC", .buy, .market, 1, "a", none, .gtc, false⟩

def boughtOnce : List (Label PaperOp) :=
  [.call (.onOrderbook ⟨"BTC", [], [⟨100, 5⟩], 0, 0⟩), .call (.placeOrder spotBuy)]

/-- The venue after `boughtOnce`. -/
def afterBuying : Config (PaperWorld Unit) PyError :=
  Config.run (PaperOp.prog ⟨.orderbook 0 0 "USDT", 1000, "USDT"⟩
      (Subscribers.lift (⟨[], []⟩ : Subscribers Unit)))
    ⟨⟨⟨fun n => n, 0⟩, .new, [], ()⟩, []⟩ boughtOnce

theorem carries_afterBuying : afterBuying.state.venue.Carries "paper-1" "a" :=
  ⟨⟨"paper-1", "a", "BTC", .buy, .market, 1, 1, none, some 100, .filled, .gtc, false, 0, 1⟩,
    by decide +kernel, rfl⟩

theorem replay_enters_second_order_bought :
    ¬ AnsweredAsBefore ⟨.orderbook 0 0 "USDT", 1000, "USDT"⟩ (⟨[], []⟩ : Subscribers Unit)
      spotBuy "paper-1" afterBuying.state :=
  (replay_enters_second_order _ ⟨[], []⟩ ⟨fun n => n, 0⟩ ()
    (.of_run _ boughtOnce fun op _ s => by cases op <;> trivial) carries_afterBuying).1

/-- The replay buys once more. -/
theorem replay_buys_twice :
    let after := (placeOrder ⟨.orderbook 0 0 "USDT", 1000, "USDT"⟩ ⟨[], []⟩ spotBuy).exec
      afterBuying.state
    after.2 = .ok "paper-2" ∧ (after.1.venue.allOrders.get "paper-2").map Order.clientOrderId =
      some "a" ∧ (afterBuying.state.venue.position "BTC").netQty = 1 ∧
      (after.1.venue.position "BTC").netQty = 2 ∧
      (fillsOf afterBuying.state.trace).length = 1 ∧ (fillsOf after.1.trace).length = 2 := by
  decide +kernel

end Trading
