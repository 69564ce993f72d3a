import Trading.Async.Owners
import Trading.FillSource

/-!
# Fills from superseded books

`_on_orderbook` goes through its orders with the snapshot it was called with, and every
fill on the way lets newer snapshots in. What a block fills is judged by whose block it is.
-/
namespace Trading

open Async Data Relation PaperVenue PaperWorld

/-- The last snapshot of a symbol among the calls of a run. -/
def lastReceived (labels : List (Label PaperOp)) (symbol : Symbol) : Option OrderbookSnapshot :=
  latest OrderbookSnapshot.symbol symbol (labels.filterMap fun
    | .call (.onOrderbook snapshot) => some snapshot
    | _ => none)

section Blocks

variable {ε : Type} (cfg : PaperConfig) (owner : Owner PaperOp (PaperWorld ε))

/-- The book that a block works with, and what the order was when the block began. -/
def WorksWith (w₀ : PaperWorld ε) (oid : OrderId) (order : Order) (book : OrderbookSnapshot) :
    Prop :=
  match owner with
  | (.onOrderbook snapshot, called) => book = snapshot ∧
      w₀.venue.openOrders.get oid = some order ∧ called.venue.openOrders.get oid ≠ none
  | _ => ∃ symbol, w₀.venue.latestBook.get symbol = some book

/-- A fill of a block, made after `seen`. -/
def FilledBy (w₀ : PaperWorld ε) (seen : List Notification) (f : Fill) : Prop :=
  ∃ order book, latest Order.orderId f.orderId (updatesOf seen) = some order ∧
    cfg.fillEngine.tryFill order book f.timestamp = some f ∧
    WorksWith owner w₀ f.orderId order book

def booksAfter (first : Bool) (books : Dict Symbol OrderbookSnapshot) :
    Dict Symbol OrderbookSnapshot :=
  match owner.1, first with
  | .onOrderbook snapshot, true => books.set snapshot.symbol snapshot
  | _, _ => books

/-- What a block does, up to `w`, to the books and in fills. -/
structure PaperBlock (first : Bool) (w₀ w : PaperWorld ε) : Prop where
  books : w.venue.latestBook = booksAfter owner first w₀.venue.latestBook
  maps : PaperMaps w₀.core → PaperMaps w.core
  fills : ∃ owed, w.trace = w₀.trace ++ owed ∧ (PaperMaps w₀.core →
    ∀ seen f later, owed = seen ++ .fill f :: later → FilledBy cfg owner w₀ (w₀.trace ++ seen) f)

variable {cfg owner} {first : Bool} {w₀ w : PaperWorld ε}

theorem booksAfter_later (books : Dict Symbol OrderbookSnapshot) :
    booksAfter owner false books = books := by
  obtain ⟨op, called⟩ := owner
  cases op <;> rfl

/-- A block at its beginning. -/
theorem PaperBlock.begin (w : PaperWorld ε)
    (hbooks : w.venue.latestBook = booksAfter owner first w.venue.latestBook) :
    PaperBlock cfg owner first w w where
  books := hbooks
  maps := id
  fills := ⟨[], (List.append_nil _).symm, fun _ seen f later h => by simp at h⟩

theorem PaperBlock.refl (w : PaperWorld ε) : PaperBlock cfg owner false w w :=
  .begin w (booksAfter_later _).symm

theorem PaperBlock.tick (h : PaperBlock cfg owner first w₀ w) :
    PaperBlock cfg owner first w₀ w.tick :=
  ⟨h.books, h.maps, h.fills⟩

theorem PaperBlock.put (v : ε) (h : PaperBlock cfg owner first w₀ w) :
    PaperBlock cfg owner first w₀ (Part.put v w) :=
  ⟨h.books, h.maps, h.fills⟩

/-- Notifications without a fill. -/
theorem PaperBlock.unfilled {v : PaperVenue} {order : Order} (h : PaperBlock cfg owner first w₀ w)
    (hbooks : v.latestBook = w.venue.latestBook)
    (hmaps : PaperMaps w.core → PaperMaps (v, w.trace ++ [.update order])) :
    PaperBlock cfg owner first w₀
      { w with venue := v, trace := w.trace ++ [.update order] } where
  books := hbooks.trans h.books
  maps hw₀ := hmaps (h.maps hw₀)
  fills := by
    obtain ⟨owed, htrace, hfills⟩ := h.fills
    refine ⟨owed ++ [.update order], by rw [htrace, List.append_assoc], fun hw₀ seen f later heq => ?_⟩
    exact fills_append (P := fun seen f => FilledBy cfg owner w₀ (w₀.trace ++ seen) f)
      (hfills hw₀) (fun _ _ _ howed => (no_fill_in_update howed).elim) heq

theorem PaperBlock.fill {oid : OrderId} {order updated : Order} {book : OrderbookSnapshot}
    {now : Time} {f : Fill} (h : PaperBlock cfg owner first w₀ w)
    (hopen : w.venue.openOrders.get oid = some order)
    (hfill : cfg.fillEngine.tryFill order book now = some f)
    (hupdated : order.executed f = .ok updated)
    (hworks : PaperMaps w₀.core → WorksWith owner w₀ oid order book) :
    PaperBlock cfg owner first w₀
      { w with
        venue := store updated f w.venue, trace := w.trace ++ [.fill f, .update updated] } where
  books := h.books
  maps hw₀ := maps_store (h.maps hw₀) hopen hupdated
  fills := by
    obtain ⟨owed, htrace, hfills⟩ := h.fills
    refine ⟨owed ++ [.fill f, .update updated], by rw [htrace, List.append_assoc],
      fun hw₀ seen f' later heq => ?_⟩
    refine fills_append (P := fun seen f => FilledBy cfg owner w₀ (w₀.trace ++ seen) f)
      (hfills hw₀) (fun seen f' later howed => ?_) heq
    obtain ⟨rfl, rfl⟩ := fill_of_pair howed
    have hmaps := h.maps hw₀
    obtain ⟨hall, -, hid⟩ := hmaps.known hopen
    obtain ⟨hforder, -, -, htime⟩ := FillEngine.tryFill_describes hfill
    have hoid : f'.orderId = oid := hforder.trans hid
    refine ⟨order, book, ?_, by rw [htime]; exact hfill, by rw [hoid]; exact hworks hw₀⟩
    rw [List.append_nil, ← htrace, hoid]
    exact (hmaps.published oid).symm.trans hall

variable {subs : Subscribers ε} {l : Bool}

/-- Callbacks touch neither the venue nor the trace, and another block begins when they
wait. -/
theorem follows_subscribers {I : Bool → PaperWorld ε → PaperWorld ε → Prop} {α : Type}
    (hblock : ∀ l w₀ w, I l w₀ w → PaperBlock cfg owner l w₀ w)
    (hrefl : ∀ w, I false w w) (hput : ∀ l w₀ w (v : ε), I l w₀ w → I l w₀ (Part.put v w))
    (cbs : List (α → Coro ε Unit)) (x : α) (h : I l w₀ w) :
    (Contract.blocks (PaperBlock cfg owner)).Follows (fun _ => I) (fun _ => I)
      (Co.forEach (cbs.map fun cb y => ((cb y).lift : Coro (PaperWorld ε) Unit))
        fun cb => cb x) l w₀ w := by
  refine Contract.follows_forEach _ _ (fun cb hcb l w₀ w h => ?_) h
  obtain ⟨p, -, rfl⟩ := List.mem_map.mp hcb
  refine Contract.follows_lift (p x) hput (fun l w₀ w h => ?_) h
  exact ⟨false, ⟨hblock l w₀ w h, rfl⟩, fun t _ => hrefl t⟩

theorem follows_heard {α : Type} (cbs : List (α → Coro ε Unit)) (x : α)
    (h : PaperBlock cfg owner l w₀ w) :
    (Contract.blocks (PaperBlock cfg owner)).Follows (fun _ => PaperBlock cfg owner)
      (fun _ => PaperBlock cfg owner)
      (Co.forEach (cbs.map fun cb y => ((cb y).lift : Coro (PaperWorld ε) Unit))
        fun cb => cb x) l w₀ w :=
  follows_subscribers (fun _ _ _ h => h) (fun w => .refl w) (fun _ _ _ v h => h.put v) cbs x h

/-- The operations that fill against the latest book. -/
theorem announces_latest (howner : ∀ w₀ : PaperWorld ε, ∀ oid order book,
      (∃ symbol, w₀.venue.latestBook.get symbol = some book) → WorksWith owner w₀ oid order book)
    (hbooks : ∀ first books, booksAfter owner first books = books) :
    Announces (Contract.blocks (PaperBlock cfg owner)) cfg (fun _ => False)
      (subs.lift : Subscribers (PaperWorld ε)) (PaperBlock cfg owner)
      (fun _ => PaperBlock cfg owner) where
  tick h := h.tick
  raised _ h := h
  observe hbook := hbook.elim
  fill {l w₀} w {oid order book now f updated} hopen hfrom hfill hupdated h := by
    have hsame : w.venue.latestBook = w₀.venue.latestBook := h.books.trans (hbooks _ _)
    have hworks : WorksWith owner w₀ oid order book :=
      howner w₀ oid order book (hsame ▸ hfrom.resolve_left id)
    rw [Co.bind_eq, Contract.follows_bind]
    have hfilled := follows_heard subs.fillCbs f
      (h.fill hopen hfill hupdated fun _ => hworks)
    exact hfilled.mono (fun _ _ _ _ h => follows_heard subs.orderCbs updated h)
      fun _ _ _ _ h => h
  cancel {_ _} w {oid order} now hopen h :=
    follows_heard subs.orderCbs _
      (h.unfilled rfl fun hmaps => maps_cancel hmaps now hopen)

/-- The loop of `_on_orderbook`: the orders it has yet to visit are as they were when the
block began. -/
structure Visiting (cfg : PaperConfig) (owner : Owner PaperOp (PaperWorld ε))
    (ids : List OrderId) (first : Bool) (w₀ w : PaperWorld ε) : Prop
    extends PaperBlock cfg owner first w₀ w where
  unvisited : PaperMaps w₀.core →
    ∀ oid ∈ ids, w.venue.openOrders.get oid = w₀.venue.openOrders.get oid

theorem Visiting.refl (ids : List OrderId) (w : PaperWorld ε) : Visiting cfg owner ids false w w :=
  ⟨.refl w, fun _ _ _ => rfl⟩

theorem Visiting.skip {oid : OrderId} {ids : List OrderId}
    (h : Visiting cfg owner (oid :: ids) first w₀ w) : Visiting cfg owner ids first w₀ w :=
  ⟨h.toPaperBlock, fun hw₀ j hj => h.unvisited hw₀ j (List.mem_cons_of_mem oid hj)⟩

theorem Visiting.tick {ids : List OrderId} (h : Visiting cfg owner ids first w₀ w) :
    Visiting cfg owner ids first w₀ w.tick :=
  ⟨h.toPaperBlock.tick, h.unvisited⟩

theorem Visiting.put {ids : List OrderId} (v : ε) (h : Visiting cfg owner ids first w₀ w) :
    Visiting cfg owner ids first w₀ (Part.put v w) :=
  ⟨h.toPaperBlock.put v, h.unvisited⟩

theorem get_store_other {v : PaperVenue} {updated : Order} {f : Fill} {oid : OrderId}
    (h : oid ≠ updated.orderId) :
    (store updated f v).openOrders.get oid = v.openOrders.get oid := by
  simp only [store]
  split
  · rw [Dict.get_pop, if_neg h]
  · rw [Dict.get_set, if_neg h]

variable {snapshot : OrderbookSnapshot} {called : PaperWorld ε}

theorem Visiting.fill {oid : OrderId} {ids : List OrderId} {order updated : Order} {now : Time}
    {f : Fill} (h : Visiting cfg (.onOrderbook snapshot, called) (oid :: ids) first w₀ w)
    (hids : oid ∉ ids) (hcalled : called.venue.openOrders.get oid ≠ none)
    (hopen : w.venue.openOrders.get oid = some order)
    (hfill : cfg.fillEngine.tryFill order snapshot now = some f)
    (hupdated : order.executed f = .ok updated) :
    Visiting cfg (.onOrderbook snapshot, called) ids first w₀
      { w with
        venue := store updated f w.venue, trace := w.trace ++ [.fill f, .update updated] } where
  toPaperBlock := h.toPaperBlock.fill hopen hfill hupdated fun hw₀ =>
    ⟨rfl, (h.unvisited hw₀ oid List.mem_cons_self).symm.trans hopen, hcalled⟩
  unvisited hw₀ j hj := by
    obtain ⟨-, -, hid⟩ := (h.maps hw₀).known hopen
    have hne : j ≠ updated.orderId := by
      rw [Order.executed_orderId hupdated, hid]
      rintro rfl
      exact hids hj
    rw [get_store_other hne]
    exact h.unvisited hw₀ j (List.mem_cons_of_mem oid hj)

theorem follows_visit {oid : OrderId} {ids : List OrderId} (hids : oid ∉ ids)
    (hcalled : called.venue.openOrders.get oid ≠ none)
    (h : Visiting cfg (.onOrderbook snapshot, called) (oid :: ids) l w₀ w) :
    (Contract.blocks (PaperBlock cfg (.onOrderbook snapshot, called))).Follows
      (fun _ => Visiting cfg (.onOrderbook snapshot, called) ids)
      (fun _ => PaperBlock cfg (.onOrderbook snapshot, called))
      (tryFillOrder cfg (subs.lift : Subscribers (PaperWorld ε)) oid snapshot) l w₀ w := by
  simp only [tryFillOrder, Co.bind_eq, Contract.follows_bind, follows_readVenue]
  cases hopen : w.venue.openOrders.get oid with
  | none => exact h.skip
  | some order =>
    simp only [Contract.follows_bind, follows_readNow]
    split
    · exact h.skip.tick
    · next f hfill =>
      unfold applyFillToOrder
      cases hupdated : order.executed f with
      | error e => exact h.toPaperBlock.tick
      | ok updated =>
        simp only [Co.ofExcept, Co.bind_eq, Co.pure_bind, Contract.follows_bind, follows_record]
        have hfilled := h.tick.fill hids hcalled hopen hfill hupdated
        have hblock : ∀ l w₀ w, Visiting cfg (.onOrderbook snapshot, called) ids l w₀ w →
            PaperBlock cfg (.onOrderbook snapshot, called) l w₀ w :=
          fun _ _ _ h => h.toPaperBlock
        refine (follows_subscribers hblock (.refl ids)
          (fun _ _ _ v h => h.put v) subs.fillCbs f
          hfilled).mono (fun _ _ _ _ h => ?_) fun _ => hblock
        exact (follows_subscribers hblock (.refl ids)
          (fun _ _ _ v h => h.put v) subs.orderCbs updated
          h).mono (fun _ _ _ _ h => h) fun _ => hblock

/-- The whole loop, over ids that were open when the snapshot was received. -/
theorem follows_visits {ids : List OrderId} (hids : ids.Nodup)
    (hcalled : ∀ oid ∈ ids, called.venue.openOrders.get oid ≠ none)
    (h : Visiting cfg (.onOrderbook snapshot, called) ids l w₀ w) :
    (Contract.blocks (PaperBlock cfg (.onOrderbook snapshot, called))).Follows
      (fun _ => PaperBlock cfg (.onOrderbook snapshot, called))
      (fun _ => PaperBlock cfg (.onOrderbook snapshot, called))
      (Co.forEach ids fun oid =>
        tryFillOrder cfg (subs.lift : Subscribers (PaperWorld ε)) oid snapshot) l w₀ w := by
  induction ids generalizing l w₀ w with
  | nil => exact h.toPaperBlock
  | cons oid ids ih =>
    obtain ⟨hoid, hids⟩ := List.nodup_cons.mp hids
    obtain ⟨hopen, hcalled⟩ := List.forall_mem_cons.mp hcalled
    rw [Co.forEach_cons, Contract.follows_bind]
    exact (follows_visit hoid hopen h).mono (fun _ _ _ _ h => ih hids hcalled h)
      fun _ _ _ _ h => h

/-- One case per operation. -/
theorem task_block (op : PaperOp) (w : PaperWorld ε) :
    (Contract.blocks (PaperBlock cfg (op, w))).Task (op.prog cfg subs.lift) true w := by
  have hends : ∀ {α : Type} (a : α) l w₀ w', PaperBlock cfg (op, w) l w₀ w' →
      (Contract.blocks (PaperBlock cfg (op, w))).Ends l w₀ w' :=
    fun _ _ _ _ h => ⟨false, ⟨h, rfl⟩, trivial⟩
  unfold Contract.Task
  cases op with
  | placeOrder request =>
    rw [PaperOp.prog, Contract.follows_bind]
    have hrules : Announces (Contract.blocks (PaperBlock cfg (.placeOrder request, w))) cfg
        (fun _ => False) (subs.lift : Subscribers (PaperWorld ε))
        (PaperBlock cfg (.placeOrder request, w)) fun _ => PaperBlock cfg (.placeOrder request, w) :=
      announces_latest (fun _ _ _ _ h => h) fun first _ => by cases first <;> rfl
    have hplace := Announces.placeOrder (PaperBlock cfg (.placeOrder request, w)) (fun _ => hrules)
      (fun h => h.tick) request (fun s now h => follows_heard subs.orderCbs _
        (h.unfilled rfl fun hmaps => maps_enter hmaps rfl (initialStatus_cases s.venue request)))
      (.begin w rfl : PaperBlock cfg (.placeOrder request, w) true w w)
    exact hplace.mono hends hends
  | cancelOrder oid =>
    rw [PaperOp.prog, Contract.follows_bind]
    have hrules : Announces (Contract.blocks (PaperBlock cfg (.cancelOrder oid, w))) cfg
        (fun _ => False) (subs.lift : Subscribers (PaperWorld ε))
        (PaperBlock cfg (.cancelOrder oid, w)) fun _ => PaperBlock cfg (.cancelOrder oid, w) :=
      announces_latest (fun _ _ _ _ h => h) fun first _ => by cases first <;> rfl
    have hcancel := hrules.cancelOrder oid
      (.begin w rfl : PaperBlock cfg (.cancelOrder oid, w) true w w)
    exact hcancel.mono hends hends
  | onOrderbook snapshot =>
    rw [PaperOp.prog]
    simp only [onOrderbook, Co.bind_eq, Contract.follows_bind, follows_readVenue, follows_record]
    have hobserved : Visiting cfg (.onOrderbook snapshot, w)
        (((w.venue.openOrders.entries.filter fun e => e.2.symbol = snapshot.symbol).map
          Prod.fst)) true w { w with venue := w.venue.observe snapshot, trace := w.trace ++ [] } := by
      refine ⟨⟨rfl, fun h => ?_, [], rfl, fun _ seen f later h => by simp at h⟩, fun _ _ _ => rfl⟩
      rw [List.append_nil]
      exact ⟨h.ids, h.status, h.resting, h.published⟩
    refine (follows_visits ?_ ?_ hobserved).mono hends hends
    · exact (List.Sublist.map Prod.fst List.filter_sublist).nodup w.venue.openOrders.nodup
    · intro oid hoid
      obtain ⟨e, he, rfl⟩ := List.mem_map.mp hoid
      rw [Dict.mem_entries.mp (List.mem_filter.mp he).1]
      exact Option.some_ne_none _

end Blocks

section Runs

variable {ε : Type} (cfg : PaperConfig) (subs : Subscribers ε) (clock : Clock) (env : ε)

/-- The pool after a run from a new venue. -/
def poolAfter (labels : List (Label PaperOp)) : Owned (PaperWorld ε) PyError PaperOp :=
  Owned.run (PaperOp.prog cfg subs.lift) ⟨⟨clock, .new, [], env⟩, []⟩ labels

theorem poolAfter_state (labels : List (Label PaperOp)) :
    (poolAfter cfg subs clock env labels).state =
      (Config.run (PaperOp.prog cfg subs.lift) ⟨⟨clock, .new, [], env⟩, []⟩ labels).state :=
  congrArg Config.state (Owned.pool_run _ _ labels)

/-- The step goes on with a snapshot that is no longer the last one of its symbol, and finds
an order open, as it was when the snapshot came, that the engine fills against it. -/
def GoesOnStale (labels : List (Label PaperOp)) (l : Label PaperOp) : Prop :=
  let pool := poolAfter cfg subs clock env labels
  ∃ snapshot called, pool.runs l = some (.onOrderbook snapshot, called) ∧
    lastReceived (labels ++ [l]) snapshot.symbol ≠ some snapshot ∧
    ∃ oid order now, called.venue.openOrders.get oid ≠ none ∧
      pool.state.venue.openOrders.get oid = some order ∧
      cfg.fillEngine.tryFill order snapshot now ≠ none

/-- Every fill of the step is what the engine makes of its order, as last announced, and of
the last snapshot received of the symbol. -/
def FillsFromLatest (labels : List (Label PaperOp)) (l : Label PaperOp) : Prop :=
  ∀ seen f later, (poolAfter cfg subs clock env (labels ++ [l])).state.trace =
      (poolAfter cfg subs clock env labels).state.trace ++ seen ++ .fill f :: later →
    ∃ order book, lastReceived (labels ++ [l]) f.symbol = some book ∧
      latest Order.orderId f.orderId
        (updatesOf ((poolAfter cfg subs clock env labels).state.trace ++ seen)) = some order ∧
      cfg.fillEngine.tryFill order book f.timestamp = some f

variable {cfg subs clock env}

theorem maps_poolAfter (labels : List (Label PaperOp)) :
    PaperMaps (poolAfter cfg subs clock env labels).state.core := by
  have hrun : PaperSteps cfg (fun _ => True) ⟨clock, .new, [], env⟩
      (Config.run (PaperOp.prog cfg subs.lift) ⟨⟨clock, .new, [], env⟩, []⟩ labels).state :=
    steps_of_run fun _ _ => trivial
  rw [poolAfter_state]
  exact maps_steps hrun paperMaps_new

/-- A step without an owner does nothing. -/
theorem poolAfter_idle {labels : List (Label PaperOp)} {l : Label PaperOp}
    (h : (poolAfter cfg subs clock env labels).runs l = none) :
    poolAfter cfg subs clock env (labels ++ [l]) = poolAfter cfg subs clock env labels := by
  rw [poolAfter, Owned.run_concat, ← poolAfter]
  cases l with
  | call op => cases h
  | resume i =>
    rw [Owned.runs, Option.map_eq_none_iff] at h
    rw [Owned.step, h]

theorem lastReceived_concat (labels : List (Label PaperOp)) (snapshot : OrderbookSnapshot)
    (symbol : Symbol) : lastReceived (labels ++ [.call (.onOrderbook snapshot)]) symbol =
      if snapshot.symbol = symbol then some snapshot else lastReceived labels symbol := by
  rw [lastReceived, List.filterMap_append]
  exact latest_concat ..

theorem lastReceived_other {labels : List (Label PaperOp)} {l : Label PaperOp} {symbol : Symbol}
    (h : ∀ snapshot, l ≠ .call (.onOrderbook snapshot)) :
    lastReceived (labels ++ [l]) symbol = lastReceived labels symbol := by
  rw [lastReceived, List.filterMap_append, lastReceived]
  cases l with
  | resume i => simp
  | call op =>
    cases op with
    | onOrderbook snapshot => exact (h snapshot rfl).elim
    | placeOrder request => simp
    | cancelOrder oid => simp

theorem step_block (labels : List (Label PaperOp)) (l : Label PaperOp)
    {owner : Owner PaperOp (PaperWorld ε)}
    (howner : (poolAfter cfg subs clock env labels).runs l = some owner) :
    PaperBlock cfg owner l.isCall (poolAfter cfg subs clock env labels).state
      (poolAfter cfg subs clock env (labels ++ [l])).state :=
  Owned.run_spec (fun op w => task_block op w) _ labels l howner

/-- The venue's latest books are the last snapshots received. -/
theorem latestBook_poolAfter (labels : List (Label PaperOp)) (symbol : Symbol) :
    (poolAfter cfg subs clock env labels).state.venue.latestBook.get symbol =
      lastReceived labels symbol := by
  induction labels using List.reverseRecOn with
  | nil => rfl
  | append_singleton labels l ih =>
    cases howner : (poolAfter cfg subs clock env labels).runs l with
    | none =>
      rw [poolAfter_idle howner, ih]
      cases l with
      | call op => cases howner
      | resume i => exact (lastReceived_other fun _ h => by cases h).symm
    | some owner =>
      rw [(step_block labels l howner).books]
      cases l with
      | resume i =>
        rw [Label.isCall, booksAfter_later, ih]
        exact (lastReceived_other fun _ h => by cases h).symm
      | call op =>
        cases howner
        cases op with
        | onOrderbook snapshot =>
          change (Dict.set _ snapshot.symbol snapshot).get symbol = _
          rw [lastReceived_concat, ← ih, Dict.get_set]
          simp only [eq_comm]
        | placeOrder request => exact ih.trans (lastReceived_other fun _ h => by cases h).symm
        | cancelOrder oid => exact ih.trans (lastReceived_other fun _ h => by cases h).symm

/-- A step that receives no snapshot finds the last one of a symbol as the latest book. -/
theorem lastReceived_of_latestBook {labels : List (Label PaperOp)} {l : Label PaperOp}
    {symbol : Symbol} {book : OrderbookSnapshot} (hl : ∀ snapshot, l ≠ .call (.onOrderbook snapshot))
    (hbook : (poolAfter cfg subs clock env labels).state.venue.latestBook.get symbol = some book) :
    lastReceived (labels ++ [l]) book.symbol = some book := by
  rw [latestBook_poolAfter] at hbook
  rw [lastReceived_other hl, (latest_mem hbook).2]
  exact hbook

/-- Unless a superseded snapshot finds an order to fill, every fill of a step is made from the
last snapshot received. -/
theorem fillsFromLatest_of_not_stale {labels : List (Label PaperOp)} {l : Label PaperOp}
    (hcurrent : ¬ GoesOnStale cfg subs clock env labels l) :
    FillsFromLatest cfg subs clock env labels l := by
  intro seen f later htrace
  cases howner : (poolAfter cfg subs clock env labels).runs l with
  | none =>
    rw [poolAfter_idle howner] at htrace
    simp at htrace
  | some owner =>
    have hblock := step_block labels l howner
    obtain ⟨owed, howed, hfills⟩ := hblock.fills
    rw [howed, List.append_assoc] at htrace
    obtain ⟨order, book, hlatest, hfill, hworks⟩ :=
      hfills (maps_poolAfter labels) seen f later (List.append_cancel_left htrace)
    refine ⟨order, book, ?_, hlatest, hfill⟩
    rw [(FillEngine.tryFill_describes hfill).symbol, FillEngine.tryFill_symbol hfill]
    obtain ⟨op, called⟩ := owner
    cases op with
    | onOrderbook snapshot =>
      obtain ⟨rfl, hopen, hcalled⟩ := hworks
      by_contra hstale
      have hfills : cfg.fillEngine.tryFill order book f.timestamp ≠ none := by
        rw [hfill]
        exact Option.some_ne_none f
      exact hcurrent ⟨book, called, howner, hstale, _, order, _, hcalled, hopen, hfills⟩
    | placeOrder request =>
      obtain ⟨symbol, hbook⟩ := hworks
      exact lastReceived_of_latestBook (fun _ h => by rw [h] at howner; cases howner) hbook
    | cancelOrder oid =>
      obtain ⟨symbol, hbook⟩ := hworks
      exact lastReceived_of_latestBook (fun _ h => by rw [h] at howner; cases howner) hbook

/-- A snapshot is the last of its symbol when it is received. -/
theorem not_stale_call (labels : List (Label PaperOp)) (op : PaperOp) :
    ¬ GoesOnStale cfg subs clock env labels (.call op) := by
  rintro ⟨snapshot, called, howner, hstale, -⟩
  cases howner
  rw [lastReceived_concat, if_pos rfl] at hstale
  exact hstale rfl

/-- A fill made after `seen`, in some step of the run, from the last snapshot received then. -/
def FilledFromLatest (cfg : PaperConfig) (subs : Subscribers ε) (clock : Clock) (env : ε)
    (labels : List (Label PaperOp)) (seen : List Notification) (f : Fill) : Prop :=
  ∃ earlier l rest, labels = earlier ++ l :: rest ∧
    (poolAfter cfg subs clock env earlier).state.trace <+: seen ∧
    seen ++ [.fill f] <+: (poolAfter cfg subs clock env (earlier ++ [l])).state.trace ∧
    ∃ order book, lastReceived (earlier ++ [l]) f.symbol = some book ∧
      latest Order.orderId f.orderId (updatesOf seen) = some order ∧
      cfg.fillEngine.tryFill order book f.timestamp = some f

/-- If no step goes on with a superseded snapshot to an order that it would fill, every fill
is made from the snapshot last received of its symbol. -/
theorem fills_from_latest {labels : List (Label PaperOp)}
    (hcurrent : ∀ earlier l rest, labels = earlier ++ l :: rest →
      ¬ GoesOnStale cfg subs clock env earlier l) :
    ∀ seen f later, (poolAfter cfg subs clock env labels).state.trace = seen ++ .fill f :: later →
      FilledFromLatest cfg subs clock env labels seen f := by
  induction labels using List.reverseRecOn with
  | nil =>
    intro seen f later h
    simp [poolAfter, Owned.run] at h
  | append_singleton labels l ih =>
    have hearlier : ∀ seen f later,
        (poolAfter cfg subs clock env labels).state.trace = seen ++ .fill f :: later →
          FilledFromLatest cfg subs clock env (labels ++ [l]) seen f := by
      intro seen f later h
      have hrest : ∀ earlier l' rest, labels = earlier ++ l' :: rest →
          ¬ GoesOnStale cfg subs clock env earlier l' :=
        fun earlier l' rest h => hcurrent earlier l' (rest ++ [l]) (by simp [h])
      obtain ⟨earlier, l', rest, rfl, hfound⟩ := ih hrest seen f later h
      exact ⟨earlier, l', rest ++ [l], by simp, hfound⟩
    cases howner : (poolAfter cfg subs clock env labels).runs l with
    | none =>
      rw [poolAfter_idle howner]
      exact hearlier
    | some owner =>
      obtain ⟨owed, howed, -⟩ := (step_block labels l howner).fills
      intro seen f later h
      rw [howed] at h
      refine fills_append hearlier (fun between f later hnew => ?_) h
      have htrace : (poolAfter cfg subs clock env (labels ++ [l])).state.trace =
          (poolAfter cfg subs clock env labels).state.trace ++ between ++ .fill f :: later := by
        rw [howed, hnew, List.append_assoc]
      refine ⟨labels, l, [], rfl, List.prefix_append _ _, ⟨later, ?_⟩,
        fillsFromLatest_of_not_stale (hcurrent labels l [] rfl) between f later htrace⟩
      rw [htrace]
      simp

end Runs

theorem fills_from_latest_bothBuy :
    FilledFromLatest ⟨.orderbook 0 0 "USDT", 1000, "USDT"⟩ (⟨[], []⟩ : Subscribers Unit)
      ⟨fun n => n, 0⟩ () bothBuy seenBefore secondBought := by
  have hcurrent : ∀ earlier l rest, bothBuy = earlier ++ l :: rest →
      ¬ GoesOnStale ⟨.orderbook 0 0 "USDT", 1000, "USDT"⟩ (⟨[], []⟩ : Subscribers Unit)
        ⟨fun n => n, 0⟩ () earlier l := by
    intro earlier l rest h
    have hcall : ∀ l ∈ bothBuy, ∃ op, l = .call op := by simp [bothBuy]
    obtain ⟨op, rfl⟩ := hcall l (by rw [h]; simp)
    exact not_stale_call earlier op
  apply fills_from_latest hcurrent seenBefore secondBought (soldTwice.state.trace.drop 5)
  decide +kernel

/-- A market order waits for a book, and so does a limit order behind it. -/
def twoResting : List (Label PaperOp) :=
  [.call (.placeOrder ⟨"BTC", .buy, .market, 1, "a", none, .gtc, false⟩), .resume 0,
    .call (.placeOrder ⟨"BTC", .buy, .limit, 1, "b", some 100, .gtc, false⟩), .resume 0]

def priced (bid ask : Decimal) : OrderbookSnapshot := ⟨"BTC", [⟨bid, 10⟩], [⟨ask, 10⟩], 0, 0⟩

/-- The first snapshot fills the market order; the price doubles while that is announced. -/
def supersededInFlight : List (Label PaperOp) :=
  twoResting ++ [.call (.onOrderbook (priced 99 100)), .call (.onOrderbook (priced 199 200))]

def limitAcked : Order :=
  ⟨"paper-2", "b", "BTC", .buy, .limit, 1, 0, some 100, none, .acked, .gtc, false, 1, 1⟩

def limitFilled : Order :=
  ⟨"paper-2", "b", "BTC", .buy, .limit, 1, 1, some 100, some 100, .filled, .gtc, false, 1, 4⟩

/-- The loop over the first snapshot goes on, and fills the limit order at half the price. -/
theorem fill_from_superseded :
    ¬ FillsFromLatest ⟨.orderbook 0 0 "USDT", 1000, "USDT"⟩
      (⟨[fun _ => Co.yield], []⟩ : Subscribers Unit) ⟨fun n => n, 0⟩ () supersededInFlight
      (.resume 0) := by
  intro h
  obtain ⟨order, book, hbook, horder, hfill⟩ :=
    h [] ⟨"paper-2", "BTC", .buy, 100, 1, 0, "USDT", true, 4⟩ [.update limitFilled]
      (by decide +kernel)
  have hlast : lastReceived (supersededInFlight ++ [.resume 0]) "BTC" = some (priced 199 200) := by
    decide +kernel
  have hacked : latest Order.orderId "paper-2" (updatesOf ((poolAfter
      ⟨.orderbook 0 0 "USDT", 1000, "USDT"⟩ (⟨[fun _ => Co.yield], []⟩ : Subscribers Unit)
      ⟨fun n => n, 0⟩ () supersededInFlight).state.trace ++ [])) = some limitAcked := by
    decide +kernel
  cases hlast.symm.trans hbook
  cases hacked.symm.trans horder
  exact absurd hfill (by decide +kernel)

end Trading
