import Trading.PaperInvariants

/-!
# Where a fill comes from

Every fill is what the engine makes of the order as it stood and of a book the venue has
received. The engine knows nothing of earlier fills, so each market order sees the whole
depth of the book again.
-/
namespace Trading

open Async Data Relation PaperVenue PaperWorld

/-- What the side of the book offers that an order of side `side` trades against. -/
def OrderbookSnapshot.visible (book : OrderbookSnapshot) (side : OrderSide) : Decimal :=
  ((if side = .buy then book.asks else book.bids).map Level.quantity).sum

namespace FillEngine

/-- A market order gets what it still wants, or all that is visible. -/
theorem marketFill_quantity {mk tk : Decimal} {cur : String} {order : Order}
    {book : OrderbookSnapshot} {now : Time} {f : Fill} (hmarket : order.type = .market)
    (hbook : book.NonNegative) (h : (FillEngine.orderbook mk tk cur).tryFill order book now = some f) :
    f.quantity = min (order.quantity - order.filledQuantity) (book.visible order.side) := by
  simp only [tryFill, orderbookTryFill, ite_not, Option.ite_none_right_eq_some,
    Option.ite_none_left_eq_some, not_le, hmarket, marketFill, Option.some.injEq] at h
  obtain ⟨-, hwanted, -, rfl⟩ := h
  have hlevels : ∀ l ∈ (if order.side = .buy then book.asks else book.bids), 0 ≤ l.quantity := by
    split
    · exact hbook.2
    · exact hbook.1
  exact walk_fst hlevels hwanted.le

end FillEngine

section Source

variable (cfg : PaperConfig) (B : OrderbookSnapshot → Prop)

/-- A fill after `before` is made from the order as last announced and a book of `B`. -/
def SourcedFrom (before : List Notification) (f : Fill) : Prop :=
  ∃ order book, B book ∧ latest Order.orderId f.orderId (updatesOf before) = some order ∧
    cfg.fillEngine.tryFill order book f.timestamp = some f

structure Sourced (c : PaperCore) : Prop extends PaperMaps c where
  books : ∀ symbol book, c.1.latestBook.get symbol = some book → B book
  fills : ∀ before f after, c.2 = before ++ .fill f :: after → SourcedFrom cfg B before f

variable {cfg B}

/-- The fills of a longer trace: the earlier ones, and those among what was appended. -/
theorem fills_append {P : List Notification → Fill → Prop} {trace owed : List Notification}
    (h : ∀ before f after, trace = before ++ .fill f :: after → P before f)
    (howed : ∀ before f after, owed = before ++ .fill f :: after → P (trace ++ before) f)
    {before after : List Notification} {f : Fill}
    (heq : trace ++ owed = before ++ .fill f :: after) : P before f := by
  obtain ⟨rest, rfl, hrest⟩ | ⟨rest, rfl, hrest⟩ := List.append_eq_append_iff.mp heq
  · exact howed rest f after hrest
  · cases rest with
    | nil =>
      have hlast := howed [] f after hrest.symm
      simpa using hlast
    | cons n rest =>
      obtain ⟨rfl, -⟩ := List.cons.inj hrest
      exact h before f rest rfl

theorem no_fill_in_update {order : Order} {before after : List Notification} {f : Fill} :
    [.update order] ≠ before ++ .fill f :: after := by
  intro h
  have hfills := congrArg fillsOf h
  simp at hfills

theorem fill_of_pair {order : Order} {before after : List Notification} {f f' : Fill}
    (h : [.fill f', .update order] = before ++ .fill f :: after) : before = [] ∧ f = f' := by
  cases before with
  | nil =>
    cases h
    exact ⟨rfl, rfl⟩
  | cons n before =>
    obtain ⟨-, hrest⟩ := List.cons.inj h
    exact (no_fill_in_update hrest).elim

theorem sourced_step {c c' : PaperCore} (hstep : PaperStep cfg B c c') (h : Sourced cfg B c) :
    Sourced cfg B c' := by
  refine ⟨maps_step hstep h.toPaperMaps, books_step hstep (fun _ hseen => hseen) h.books, ?_⟩
  intro before f after heq
  cases hstep with
  | place v tr request now =>
    exact fills_append h.fills (fun _ _ _ howed => (no_fill_in_update howed).elim) heq
  | @fill v tr oid order updated book now f' hopen hfrom hfill hupdated =>
    refine fills_append h.fills (fun before f after howed => ?_) heq
    obtain ⟨rfl, rfl⟩ := fill_of_pair howed
    obtain ⟨hall, -, hid⟩ := h.toPaperMaps.known hopen
    obtain ⟨hforder, -, -, htime⟩ := FillEngine.tryFill_describes hfill
    have hseen : B book := by
      cases hfrom with
      | inl hbook => exact hbook
      | inr hlatest =>
        obtain ⟨symbol, hbook⟩ := hlatest
        exact h.books symbol book hbook
    refine ⟨order, book, hseen, ?_, ?_⟩
    · have hlatest := h.published oid
      rw [hall] at hlatest
      rw [List.append_nil, hforder, hid]
      exact hlatest.symm
    · rw [htime]
      exact hfill
  | cancel now hopen =>
    exact fills_append h.fills (fun _ _ _ howed => (no_fill_in_update howed).elim) heq
  | observe v tr hseen => exact h.fills before f after heq

theorem sourced_steps {c c' : PaperCore} (hsteps : ReflTransGen (PaperStep cfg B) c c')
    (h : Sourced cfg B c) : Sourced cfg B c' := by
  induction hsteps with
  | refl => exact h
  | tail _ hstep ih => exact sourced_step hstep ih

theorem sourced_new : Sourced cfg B (.new, []) where
  toPaperMaps := paperMaps_new
  books _ _ h := by cases h
  fills before f after h := by simp at h

end Source

section Depth

variable {ε : Type} (subs : Subscribers ε) (clock : Clock) (env : ε) (mk tk balance : Decimal)
  (feeCurrency currency : String)

end Depth

def buyTwo (cid : ClientOrderId) : OrderRequest :=
  ⟨"BTC", .buy, .market, 2, cid, none, .gtc, false⟩

def twoAsked : OrderbookSnapshot := ⟨"BTC", [], [⟨100, 2⟩], 0, 0⟩

def bothBuy : List (Label PaperOp) :=
  [.call (.onOrderbook twoAsked), .call (.placeOrder (buyTwo "a")),
    .call (.placeOrder (buyTwo "b"))]

def soldTwice : Config (PaperWorld Unit) PyError :=
  Config.run (PaperOp.prog ⟨.orderbook 0 0 "USDT", 1000, "USDT"⟩
      (Subscribers.lift (⟨[], []⟩ : Subscribers Unit)))
    ⟨⟨⟨fun n => n, 0⟩, .new, [], ()⟩, []⟩ bothBuy

/-- What the second order gets. -/
def secondBought : Fill := ⟨"paper-2", "BTC", .buy, 100, 2, 0, "USDT", false, 3⟩

def seenBefore : List Notification := soldTwice.state.trace.take 4

/-- A book that takes back more than it offers. -/
def takingBack : OrderbookSnapshot := ⟨"BTC", [], [⟨100, 5⟩, ⟨101, -4⟩], 0, 0⟩

end Trading
