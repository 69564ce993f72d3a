import Trading.OrderSystem
import Trading.PaperSteps
import Trading.SubmitOutcome

/-!
# Assertions that the manager's operations keep

An assertion that the venue's own changes and its announcements keep is kept by each
operation of the venue; if the record of a submission keeps it too, by each of the manager's.
-/
namespace Trading

open Async Data Contract Relation PaperVenue PaperWorld

section Venue

variable {ε ℓ : Type}

/-- What the operations of the venue ask of an assertion. -/
structure VenueKeeps (C : Contract (PaperWorld ε) ℓ) (cfg : PaperConfig)
    (subs : Subscribers (PaperWorld ε)) (I : ℓ → PaperWorld ε → PaperWorld ε → Prop) : Prop where
  tick : ∀ {l s₀ s}, I l s₀ s → I l s₀ s.tick
  observe : ∀ {l s₀ s} snapshot, I l s₀ s → I l s₀ { s with venue := s.venue.observe snapshot }
  tryFill : ∀ oid book, C.Keeps I (tryFillOrder cfg subs oid book)
  tell : ∀ order, C.Keeps I (notifyOrder subs order)
  place : ∀ {l s₀ s} request now, I l s₀ s →
    let order := newOrder request (paperOid (s.venue.nextOid + 1)) (s.venue.initialStatus request) now
    I l s₀ { s with
      venue := enter order { s.venue with nextOid := s.venue.nextOid + 1 }
      trace := s.trace ++ [.update order] }
  cancel : ∀ {l s₀ s} oid order now, s.venue.openOrders.get oid = some order → I l s₀ s →
    I l s₀ { s with
      venue := remove oid { order with status := .cancelled, updatedAt := now } s.venue
      trace := s.trace ++ [.update { order with status := .cancelled, updatedAt := now }] }

namespace VenueKeeps

variable {C : Contract (PaperWorld ε) ℓ} {cfg : PaperConfig} {subs : Subscribers (PaperWorld ε)}
  {I : ℓ → PaperWorld ε → PaperWorld ε → Prop}

theorem onOrderbook (h : VenueKeeps C cfg subs I) (snapshot : OrderbookSnapshot) :
    C.Keeps I (PaperVenue.onOrderbook cfg subs snapshot) := by
  intro l s₀ s hI
  simp only [PaperVenue.onOrderbook, Co.bind_eq, follows_bind, follows_readVenue,
    follows_record, List.append_nil]
  exact follows_forEach _ _ (fun oid _ => h.tryFill oid snapshot) (h.observe snapshot hI)

theorem tryFillLatest (h : VenueKeeps C cfg subs I) (order : Order) :
    C.Keeps I (PaperVenue.tryFillLatest cfg subs order) := by
  intro l s₀ s hI
  simp only [PaperVenue.tryFillLatest, Co.bind_eq, follows_bind, follows_readVenue]
  cases s.venue.latestBook.get order.symbol with
  | none => exact hI
  | some book => exact h.tryFill order.orderId book l s₀ s hI

theorem cancelOrder (h : VenueKeeps C cfg subs I) (oid : OrderId) :
    C.Keeps I (PaperVenue.cancelOrder subs oid) := by
  intro l s₀ s hI
  simp only [PaperVenue.cancelOrder, Co.bind_eq, follows_bind, follows_readVenue]
  cases hopen : s.venue.openOrders.get oid with
  | none => exact hI
  | some order =>
    simp only [follows_bind, follows_readNow, follows_record]
    exact h.tell _ l s₀ _ (h.cancel oid order _ hopen (h.tick hI))

theorem placeOrder (h : VenueKeeps C cfg subs I) (request : OrderRequest) :
    C.Keeps I (PaperVenue.placeOrder cfg subs request) := by
  intro l s₀ s hI
  simp only [PaperVenue.placeOrder, Co.bind_eq, follows_bind, follows_readVenue, follows_readNow,
    follows_record, List.append_nil]
  refine (h.tell _ l s₀ _ (h.place request _ (h.tick hI))).mono (fun _ l s₀ s hI => ?_)
    (fun _ _ _ _ hI => hI)
  split
  · rw [follows_bind]
    exact h.tryFillLatest _ l s₀ s hI
  · exact hI

end VenueKeeps

/-- Callbacks that only know the environment. -/
theorem keeps_tell {C : Contract (PaperWorld ε) ℓ} {I : ℓ → PaperWorld ε → PaperWorld ε → Prop}
    (hput : ∀ l s₀ s (e : ε), I l s₀ s → I l s₀ (Part.put e s))
    (hwait : ∀ l s₀ s, I l s₀ s → ∃ l', C.guar l s₀ l' s ∧ ∀ t, C.rely s t → I l' t t)
    (subs : Subscribers ε) (order : Order) : C.Keeps I (notifyOrder subs.lift order) := by
  rw [notifyOrder_lift]
  exact keeps_lift _ hput hwait

end Venue

section Manager

variable {J ρ ℓ : Type} {C : Contract (OmsWorld J ρ) ℓ} {cfg : PaperConfig}
  {journal : OrderJournal J} {before after : Subscribers ρ}
  {I : ℓ → OmsWorld J ρ → OmsWorld J ρ → Prop}

theorem VenueKeeps.submit (h : VenueKeeps C cfg (omsSubscribers journal before after) I)
    (hrecord : ∀ order, C.Keeps I ((OrderManager.recordSubmission journal order).lift :
      Coro (OmsWorld J ρ) Unit)) (cid : ClientOrderId) (intent : TradeIntent) :
    C.Keeps I (OrderManager.submit (asVenue cfg (omsSubscribers journal before after)) journal
      cid intent) := by
  have hnow : C.Keeps I (Clock.now.lift : Coro (OmsWorld J ρ) Time) := fun _ _ _ hI => h.tick hI
  apply keeps_bind hnow
  intro submittedAt
  apply keeps_bind (keeps_caught (h.placeOrder _))
  intro placed
  cases placed with
  | error e => exact keeps_pure _
  | ok oid => exact keeps_bind (hrecord _) fun _ => keeps_pure _

theorem VenueKeeps.cancelEach (h : VenueKeeps C cfg (omsSubscribers journal before after) I)
    (orders : List Order) (count : Nat) :
    C.Keeps I (OrderManager.cancelEach (asVenue cfg (omsSubscribers journal before after))
      orders count) := by
  induction orders generalizing count with
  | nil => exact keeps_pure _
  | cons order orders ih => exact keeps_bind (h.cancelOrder order.orderId) fun _ => ih _

/-- One case per operation. -/
theorem VenueKeeps.omsOp (h : VenueKeeps C cfg (omsSubscribers journal before after) I)
    (hrecord : ∀ order, C.Keeps I ((OrderManager.recordSubmission journal order).lift :
      Coro (OmsWorld J ρ) Unit)) (op : OmsOp) :
    C.Keeps I (op.prog cfg journal before after) := by
  cases op with
  | submit cid intent => exact keeps_bind (h.submit hrecord cid intent) fun _ => keeps_pure _
  | cancel oid => exact keeps_bind (h.cancelOrder oid) fun _ => keeps_pure _
  | cancelAll symbol =>
    apply keeps_bind _ fun _ => keeps_pure _
    exact fun l s₀ s hI => h.cancelEach _ 0 l s₀ s hI
  | onOrderbook snapshot => exact h.onOrderbook snapshot

/-- Every run of the manager's operations takes the venue through its transitions. -/
theorem oms_paperSteps {w : OmsWorld J ρ} {c : Config (OmsWorld J ρ) PyError}
    (hc : Reaches (OmsOp.prog cfg journal before after) (fun _ _ => True) ⟨w, []⟩ c) :
    PaperSteps cfg (fun _ => True) w c.state := by
  let C := paperContract (ε := OmsEnv J ρ) cfg fun _ => True
  have hrules : Announces C cfg (fun _ => True) (omsSubscribers journal before after)
      (fun _ => PaperSteps cfg fun _ => True) (Stepping cfg fun _ => True) :=
    announces_paper (managerSubs journal before after)
  have hwait : ∀ (l : Unit) (s₀ s : OmsWorld J ρ), PaperSteps cfg (fun _ => True) s₀ s →
      ∃ l', C.guar l s₀ l' s ∧ ∀ t, C.rely s t → PaperSteps cfg (fun _ => True) t t :=
    fun _ _ _ h => ⟨(), h, fun _ _ => .refl⟩
  have hkeeps : VenueKeeps C cfg (omsSubscribers journal before after)
      fun _ => PaperSteps cfg fun _ => True :=
    { tick := fun h => h
      observe := fun _ h => h.tail (.observe _ _ trivial)
      tryFill := fun _ _ _ _ _ h => hrules.tryFillOrder (.inl trivial) h
      tell := keeps_tell (fun _ _ _ _ h => h) hwait (managerSubs journal before after)
      place := fun request now h => h.tail (.place _ _ request now)
      cancel := fun _ _ now hopen h => h.tail (.cancel now hopen) }
  have htask : ∀ (op : OmsOp) (t : OmsWorld J ρ), PaperSteps cfg (fun _ => True) w t → True →
      C.Task (op.prog cfg journal before after) () t := by
    intro op t _ _
    apply Contract.Keeps.task
    exact hkeeps.omsOp (fun _ => keeps_lift _ (fun _ _ _ _ h => h) hwait) op
  exact (Reaches.preorder htask hc .refl).1

end Manager

end Trading
