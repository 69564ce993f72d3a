import Mathlib.Logic.Relation
import Trading.PaperVenue

/-!
# What one block of the paper venue can do

Four transitions change the venue: entering an order, filling an open one,
cancelling an open one, and observing a book. Every run of the interleaved
operations, with arbitrary subscribers, is a sequence of these.
-/
namespace Trading

open Async Data Relation PaperVenue PaperWorld

/-- The venue and its trace: all that the transitions look at. -/
abbrev PaperCore := PaperVenue × List Notification

def PaperWorld.core {ε : Type} (w : PaperWorld ε) : PaperCore := (w.venue, w.trace)

/-- The transitions, over books that satisfy `B`. -/
inductive PaperStep (cfg : PaperConfig) (B : OrderbookSnapshot → Prop) :
    PaperCore → PaperCore → Prop where
  | place (v : PaperVenue) (tr : List Notification) (request : OrderRequest) (now : Time) :
      PaperStep cfg B (v, tr)
        (enter (newOrder request (paperOid (v.nextOid + 1)) (v.initialStatus request) now)
            { v with nextOid := v.nextOid + 1 },
          tr ++ [.update
            (newOrder request (paperOid (v.nextOid + 1)) (v.initialStatus request) now)])
  | fill {v : PaperVenue} {tr : List Notification} {oid : OrderId} {order updated : Order}
      {book : OrderbookSnapshot} {now : Time} {f : Fill}
      (hopen : v.openOrders.get oid = some order)
      (hbook : B book ∨ ∃ symbol, v.latestBook.get symbol = some book)
      (hfill : cfg.fillEngine.tryFill order book now = some f)
      (hupdated : order.executed f = .ok updated) :
      PaperStep cfg B (v, tr) (store updated f v, tr ++ [.fill f, .update updated])
  | cancel {v : PaperVenue} {tr : List Notification} {oid : OrderId} {order : Order} (now : Time)
      (hopen : v.openOrders.get oid = some order) :
      PaperStep cfg B (v, tr)
        (remove oid { order with status := .cancelled, updatedAt := now } v,
          tr ++ [.update { order with status := .cancelled, updatedAt := now }])
  | observe (v : PaperVenue) (tr : List Notification) {snapshot : OrderbookSnapshot}
      (hbook : B snapshot) :
      PaperStep cfg B (v, tr) (v.observe snapshot, tr)

/-- A book is kept under its own symbol until the next one. -/
theorem books_observe {Q : Symbol → OrderbookSnapshot → Prop} {v : PaperVenue}
    (h : ∀ symbol book, v.latestBook.get symbol = some book → Q symbol book)
    {snapshot : OrderbookSnapshot} (hseen : Q snapshot.symbol snapshot) :
    ∀ symbol book, (v.observe snapshot).latestBook.get symbol = some book → Q symbol book := by
  intro symbol book hbook
  rw [observe, Dict.get_set] at hbook
  split at hbook
  · next hsymbol =>
    cases hbook
    exact hsymbol ▸ hseen
  · exact h symbol book hbook

/-- What holds of the books received holds of those kept. -/
theorem books_step {cfg : PaperConfig} {B : OrderbookSnapshot → Prop}
    {Q : Symbol → OrderbookSnapshot → Prop} {c c' : PaperCore} (hstep : PaperStep cfg B c c')
    (hseen : ∀ book, B book → Q book.symbol book)
    (h : ∀ symbol book, c.1.latestBook.get symbol = some book → Q symbol book) :
    ∀ symbol book, c'.1.latestBook.get symbol = some book → Q symbol book := by
  cases hstep with
  | place v tr request now => exact h
  | fill hopen hbook hfill hupdated => exact h
  | cancel now hopen => exact h
  | observe v tr hbook => exact books_observe h (hseen _ hbook)

section Atomic

variable {ε ℓ : Type} {C : Contract (PaperWorld ε) ℓ} {X : PyError → ℓ → PaperWorld ε → PaperWorld ε → Prop}
  {l : ℓ} {s₀ s : PaperWorld ε}

@[simp] theorem follows_readVenue {Q : PaperVenue → ℓ → PaperWorld ε → PaperWorld ε → Prop} :
    C.Follows Q X readVenue l s₀ s ↔ Q s.venue l s₀ s := Iff.rfl

@[simp] theorem follows_readNow {Q : Time → ℓ → PaperWorld ε → PaperWorld ε → Prop} :
    C.Follows Q X readNow l s₀ s ↔
      Q (s.clock.reading s.clock.reads) l s₀ s.tick := Iff.rfl

@[simp] theorem follows_record {Q : Unit → ℓ → PaperWorld ε → PaperWorld ε → Prop}
    (f : PaperVenue → PaperVenue) (owed : List Notification) :
    C.Follows Q X (record f owed) l s₀ s ↔
      Q () l s₀ { s with venue := f s.venue, trace := s.trace ++ owed } := Iff.rfl

end Atomic

/-- Under `C`, the announcements of fills and cancellations restore `I`, or end
in `X` if they raise. Only these loops over the callbacks depend on who subscribed. -/
structure Announces {ε ℓ : Type} (C : Contract (PaperWorld ε) ℓ) (cfg : PaperConfig)
    (B : OrderbookSnapshot → Prop) (subs : Subscribers (PaperWorld ε))
    (I : ℓ → PaperWorld ε → PaperWorld ε → Prop)
    (X : PyError → ℓ → PaperWorld ε → PaperWorld ε → Prop) : Prop where
  tick : ∀ {l s₀ s}, I l s₀ s → I l s₀ s.tick
  raised : ∀ {l s₀ s} e, I l s₀ s → X e l s₀ s
  observe : ∀ {l s₀ s snapshot}, B snapshot → I l s₀ s →
    I l s₀ { s with venue := s.venue.observe snapshot }
  fill : ∀ {l s₀} s {oid order book now f updated}, s.venue.openOrders.get oid = some order →
    (B book ∨ ∃ symbol, s.venue.latestBook.get symbol = some book) →
    cfg.fillEngine.tryFill order book now = some f → order.executed f = .ok updated →
    I l s₀ s → C.Follows (fun _ => I) X (do notifyFill subs f; notifyOrder subs updated) l s₀
      { s with venue := store updated f s.venue, trace := s.trace ++ [.fill f, .update updated] }
  cancel : ∀ {l s₀} s {oid order} now, s.venue.openOrders.get oid = some order → I l s₀ s →
    C.Follows (fun _ => I) X
      (notifyOrder subs { order with status := .cancelled, updatedAt := now }) l s₀
      { s with
        venue := remove oid { order with status := .cancelled, updatedAt := now } s.venue
        trace := s.trace ++ [.update { order with status := .cancelled, updatedAt := now }] }

namespace Announces

variable {ε ℓ : Type} {C : Contract (PaperWorld ε) ℓ} {cfg : PaperConfig}
  {B : OrderbookSnapshot → Prop} {subs : Subscribers (PaperWorld ε)}
  {I : ℓ → PaperWorld ε → PaperWorld ε → Prop}
  {X : PyError → ℓ → PaperWorld ε → PaperWorld ε → Prop} {l : ℓ} {s₀ s : PaperWorld ε}

theorem tryFillOrder (h : Announces C cfg B subs I X) {oid : OrderId} {book : OrderbookSnapshot}
    (hbook : B book ∨ ∃ symbol, s.venue.latestBook.get symbol = some book) (hI : I l s₀ s) :
    C.Follows (fun _ => I) X (PaperVenue.tryFillOrder cfg subs oid book) l s₀ s := by
  simp only [PaperVenue.tryFillOrder, Co.bind_eq, Contract.follows_bind, follows_readVenue]
  cases hopen : s.venue.openOrders.get oid with
  | none => exact hI
  | some order =>
    simp only [Contract.follows_bind, follows_readNow]
    split
    · exact h.tick hI
    · next f hfill =>
      unfold applyFillToOrder
      cases hup : order.executed f with
      | error e => exact h.raised e (h.tick hI)
      | ok updated =>
        simp only [Co.ofExcept, Co.bind_eq, Co.pure_bind, Contract.follows_bind, follows_record]
        have hfollows := h.fill s.tick hopen hbook hfill hup (h.tick hI)
        rwa [Co.bind_eq, Contract.follows_bind] at hfollows

theorem tryFillLatest (h : Announces C cfg B subs I X) {order : Order} (hI : I l s₀ s) :
    C.Follows (fun _ => I) X (PaperVenue.tryFillLatest cfg subs order) l s₀ s := by
  simp only [PaperVenue.tryFillLatest, Co.bind_eq, Contract.follows_bind, follows_readVenue]
  cases hbook : s.venue.latestBook.get order.symbol with
  | none => exact hI
  | some book => exact h.tryFillOrder (.inr ⟨_, hbook⟩) hI

theorem onOrderbook (h : Announces C cfg B subs I X) {snapshot : OrderbookSnapshot}
    (hbook : B snapshot) (hI : I l s₀ s) :
    C.Follows (fun _ => I) X (PaperVenue.onOrderbook cfg subs snapshot) l s₀ s := by
  simp only [PaperVenue.onOrderbook, Co.bind_eq, Contract.follows_bind, follows_readVenue,
    follows_record, List.append_nil]
  refine Contract.follows_forEach _ _ ?_ (h.observe hbook hI)
  exact fun oid _ l s₀ s hI => h.tryFillOrder (.inl hbook) hI

theorem cancelOrder (h : Announces C cfg B subs I X) (oid : OrderId) (hI : I l s₀ s) :
    C.Follows (fun _ => I) X (PaperVenue.cancelOrder subs oid) l s₀ s := by
  simp only [PaperVenue.cancelOrder, Co.bind_eq, Contract.follows_bind, follows_readVenue]
  cases hopen : s.venue.openOrders.get oid with
  | none => exact hI
  | some order =>
    simp only [Contract.follows_bind, follows_readNow, follows_record]
    exact h.cancel s.tick (s.clock.reading s.clock.reads) hopen (h.tick hI)

/-- A placement that is announced from `I₀` to an assertion about the new id. -/
theorem placeOrder (I₀ : ℓ → PaperWorld ε → PaperWorld ε → Prop)
    {I : OrderId → ℓ → PaperWorld ε → PaperWorld ε → Prop}
    (h : ∀ oid, Announces C cfg B subs (I oid) X)
    (htick : ∀ {l s₀ s}, I₀ l s₀ s → I₀ l s₀ s.tick) (request : OrderRequest)
    (hplace : ∀ {l s₀} s now, I₀ l s₀ s →
      let oid := paperOid (s.venue.nextOid + 1)
      let order := newOrder request oid (s.venue.initialStatus request) now
      C.Follows (fun _ => I oid) X (notifyOrder subs order) l s₀
        { s with
          venue := enter order { s.venue with nextOid := s.venue.nextOid + 1 }
          trace := s.trace ++ [.update order] })
    (hI : I₀ l s₀ s) :
    C.Follows I X (PaperVenue.placeOrder cfg subs request) l s₀ s := by
  simp only [PaperVenue.placeOrder, Co.bind_eq, Contract.follows_bind, follows_readVenue,
    follows_readNow, follows_record, List.append_nil]
  refine (hplace s.tick (s.clock.reading s.clock.reads) (htick hI)).mono
    (fun _ _ _ _ hI => ?_) (fun _ _ _ _ hX => hX)
  split
  · rw [Contract.follows_bind]
    exact ((h _).tryFillLatest hI).mono (fun _ _ _ _ hI => hI) (fun _ _ _ _ hX => hX)
  · exact hI

end Announces

section Runs

variable {ε : Type} (cfg : PaperConfig) (B : OrderbookSnapshot → Prop)

/-- From one world to a later one, in any number of transitions. -/
def PaperSteps (w w' : PaperWorld ε) : Prop := ReflTransGen (PaperStep cfg B) w.core w'.core

/-- Operations are called with books that satisfy `B`. -/
def PaperOp.Allowed : PaperOp → PaperWorld ε → Prop
  | .onOrderbook snapshot, _ => B snapshot
  | _, _ => True

def paperContract : Contract (PaperWorld ε) Unit :=
  Contract.ofPreorder (PaperSteps cfg B) (fun _ => .refl) fun h₁ h₂ => h₁.trans h₂

/-- The assertion every operation carries along: only transitions since `s₀`. -/
abbrev Stepping {α : Type} : α → Unit → PaperWorld ε → PaperWorld ε → Prop :=
  fun _ _ => PaperSteps cfg B

variable {cfg B} {subs : Subscribers ε} {s₀ s : PaperWorld ε} {l : Unit}

theorem follows_callbacks {α : Type} (cbs : List (α → Coro ε Unit)) (x : α)
    (h : PaperSteps cfg B s₀ s) :
    (paperContract cfg B).Follows (Stepping cfg B) (Stepping cfg B)
      (Co.forEach (cbs.map fun cb y => ((cb y).lift : Coro (PaperWorld ε) Unit))
        fun cb => cb x) l s₀ s := by
  refine Contract.follows_forEach (I := fun _ => PaperSteps cfg B) _ _ ?_ h
  intro cb hcb l s₀ s h
  obtain ⟨p, _, rfl⟩ := List.mem_map.mp hcb
  exact Contract.follows_lift (I := fun _ => PaperSteps cfg B) (p x) (fun _ _ _ _ h => h)
    (fun _ _ _ h => ⟨(), h, fun _ _ => .refl⟩) h

/-- Callbacks that only know the environment add no transition of their own. -/
theorem announces_paper (subs : Subscribers ε) :
    Announces (paperContract cfg B) cfg B (subs.lift : Subscribers (PaperWorld ε))
      (fun _ => PaperSteps cfg B) (Stepping cfg B) where
  tick h := h
  raised _ h := h
  observe hbook h := h.tail (.observe _ _ hbook)
  fill {l s₀} s {_ _ _ _ f updated} hopen hbook hfill hup h := by
    have hstep : PaperSteps cfg B s₀
        { s with venue := store updated f s.venue, trace := s.trace ++ [.fill f, .update updated] } :=
      h.tail (.fill hopen hbook hfill hup)
    rw [Co.bind_eq, Contract.follows_bind]
    refine (follows_callbacks subs.fillCbs f hstep).mono (fun _ _ _ _ h => ?_) (fun _ _ _ _ h => h)
    exact follows_callbacks subs.orderCbs updated h
  cancel {_ _} _ {_ _} now hopen h := follows_callbacks subs.orderCbs _ (h.tail (.cancel now hopen))

/-- One case per operation. -/
theorem task_op (op : PaperOp) (hop : op.Allowed B s) :
    (paperContract cfg B).Task (op.prog cfg subs.lift) l s := by
  have hrules : Announces (paperContract cfg B) cfg B (subs.lift : Subscribers (PaperWorld ε))
      (fun _ => PaperSteps cfg B) (Stepping cfg B) := announces_paper subs
  have hends : ∀ {α : Type} (a : α) (l : Unit) (s₀ s : PaperWorld ε),
      Stepping cfg B a l s₀ s → (paperContract cfg B).Ends l s₀ s :=
    fun _ l _ _ h => ⟨l, h, trivial⟩
  unfold Contract.Task
  cases op with
  | placeOrder request =>
    rw [PaperOp.prog, Contract.follows_bind]
    have hplace : (paperContract cfg B).Follows (Stepping cfg B) (Stepping cfg B)
        (PaperVenue.placeOrder cfg subs.lift request) l s s :=
      Announces.placeOrder (fun _ => PaperSteps cfg B) (fun _ => hrules) (fun h => h) request
        (fun _ now h => follows_callbacks subs.orderCbs _ (h.tail (.place _ _ request now))) .refl
    exact hplace.mono hends hends
  | cancelOrder oid =>
    rw [PaperOp.prog, Contract.follows_bind]
    exact (hrules.cancelOrder oid .refl).mono hends hends
  | onOrderbook snapshot => exact (hrules.onOrderbook hop .refl).mono hends hends

/-- Whatever interleaving a run takes, its configurations are linked by transitions. -/
theorem reaches_paperSteps {w : PaperWorld ε} {c d : Config (PaperWorld ε) PyError}
    (hc : Reaches (PaperOp.prog cfg subs.lift) (PaperOp.Allowed B) ⟨w, []⟩ c)
    (hd : Reaches (PaperOp.prog cfg subs.lift) (PaperOp.Allowed B) c d) :
    PaperSteps cfg B w c.state ∧ PaperSteps cfg B c.state d.state :=
  have htask : ∀ (op : PaperOp) (t : PaperWorld ε), PaperSteps cfg B w t → op.Allowed B t →
      (paperContract cfg B).Task (op.prog cfg subs.lift) () t :=
    fun op _ _ hop => task_op op hop
  Reaches.preorder htask hc hd

/-- A run over books that satisfy `B` takes these transitions alone. -/
theorem steps_of_run {w : PaperWorld ε} {labels : List (Label PaperOp)}
    (hbooks : ∀ book, .call (.onOrderbook book) ∈ labels → B book) :
    PaperSteps cfg B w (Config.run (PaperOp.prog cfg subs.lift) ⟨w, []⟩ labels).state := by
  have hrun : Reaches (PaperOp.prog cfg subs.lift) (PaperOp.Allowed B) ⟨w, []⟩
      (Config.run (PaperOp.prog cfg subs.lift) ⟨w, []⟩ labels) := by
    apply Reaches.of_run
    intro op hop s
    cases op with
    | onOrderbook book => exact hbooks book hop
    | placeOrder request => trivial
    | cancelOrder oid => trivial
  exact (reaches_paperSteps hrun .refl).1

end Runs

end Trading
