import Trading.OrderSync
import Trading.SymbolIsolation

/-!
# One operation after another

Where no two operations overlap, the manager has heard of everything the venue did by the
time an operation ends. Its cache is then the venue's own record, whatever the journal does
while it waits and whoever else subscribes.
-/
namespace Trading

open Async Data Relation PaperVenue PaperWorld

section Serial

variable {J ρ : Type} (cfg : PaperConfig) (journal : OrderJournal J) (before after : Subscribers ρ)

/-- The system after one operation that has run to its end. -/
def OmsOp.perform (w : OmsWorld J ρ) (op : OmsOp) : OmsWorld J ρ :=
  ((op.prog cfg journal before after).exec w).1

def performAll (w : OmsWorld J ρ) (ops : List OmsOp) : OmsWorld J ρ :=
  ops.foldl (OmsOp.perform cfg journal before after) w

/-- The manager's cache is the venue's record. -/
structure Mirrors (w : OmsWorld J ρ) : Prop where
  sound : PaperSound w.core
  cache : ∀ oid, w.env.oms.orders.get oid = w.venue.allOrders.get oid

theorem mirrors_new (j : J) (clock : Clock) (rest : ρ) : Mirrors (OmsWorld.new j clock rest) where
  sound := sound_new
  cache _ := rfl

variable {cfg journal before after} {w w' : OmsWorld J ρ}

theorem Mirrors.congr (h : Mirrors w) (hcore : w'.core = w.core)
    (horders : w'.env.oms.orders = w.env.oms.orders) : Mirrors w' where
  sound := hcore ▸ h.sound
  cache oid := by
    have hvenue : w'.venue = w.venue := congrArg Prod.fst hcore
    rw [horders, hvenue]
    exact h.cache oid

theorem Mirrors.tracks (h : Mirrors w) : Tracks w := by
  intro oid order hopen
  rw [h.cache]
  exact (h.sound.known hopen).1

theorem mirrors_observe (cfg : PaperConfig) (h : Mirrors w) (book : OrderbookSnapshot) :
    Mirrors { w with venue := w.venue.observe book } where
  sound := by
    have hstep : PaperStep cfg (fun _ => True) (w.venue, w.trace) (w.venue.observe book, w.trace) :=
      .observe _ _ trivial
    exact sound_step hstep h.sound
  cache := h.cache

/-- An open order takes a fill, and everybody is told. -/
theorem mirrors_fill (hj : journal.Reliable) (hb : before.Quiet) (ha : after.Quiet)
    (h : Mirrors w) {oid : OrderId} {order updated : Order} {book : OrderbookSnapshot} {now : Time}
    {fill : Fill} (hopen : w.venue.openOrders.get oid = some order)
    (hfill : cfg.fillEngine.tryFill order book now = some fill)
    (hupdated : order.executed fill = .ok updated) :
    ((managerSubs journal before after).tellFill fill updated |>.exec w.env).2 = .ok () ∧
      Mirrors (afterFill (managerSubs journal before after) fill updated w) := by
  have hid : fill.orderId = updated.orderId :=
    (FillEngine.tryFill_describes hfill).orderId.trans (Order.executed_orderId hupdated).symm
  have hcached : w.env.oms.orders.get fill.orderId = some order := by
    rw [(FillEngine.tryFill_describes hfill).orderId, (h.sound.known hopen).2.2]
    exact h.tracks oid order hopen
  obtain ⟨env', htold, hcache⟩ := exec_tellFill hj hb ha hcached hupdated hid
  refine ⟨congrArg Prod.snd htold, ?_, fun j => ?_⟩
  · have hstep : PaperStep cfg (fun _ => True) (w.venue, w.trace)
        (store updated fill w.venue, w.trace ++ [.fill fill, .update updated]) :=
      .fill hopen (.inl trivial) hfill hupdated
    exact sound_step hstep h.sound
  · have henv : (afterFill (managerSubs journal before after) fill updated w).env = env' :=
      congrArg Prod.fst htold
    rw [henv, hcache, h.cache]
    exact (Dict.get_set _ _ _ _).symm

theorem mirrors_tryFillOrder (hj : journal.Reliable) (hb : before.Quiet) (ha : after.Quiet)
    (h : Mirrors w) (oid : OrderId) (book : OrderbookSnapshot) :
    Mirrors ((tryFillOrder cfg (omsSubscribers journal before after) oid book).exec w).1 := by
  rw [omsSubscribers_eq, alone_tryFillOrder]
  cases hopen : w.venue.openOrders.get oid with
  | none => exact h
  | some order =>
    dsimp only
    cases hfill : cfg.fillEngine.tryFill order book (w.clock.reading w.clock.reads) with
    | none => exact h.congr rfl rfl
    | some fill =>
      dsimp only
      have htick : Mirrors w.tick := h.congr rfl rfl
      cases hupdated : order.executed fill with
      | error e => exact htick
      | ok updated => exact (mirrors_fill hj hb ha htick hopen hfill hupdated).2

theorem mirrors_onOrderbook (hj : journal.Reliable) (hb : before.Quiet) (ha : after.Quiet)
    (h : Mirrors w) (book : OrderbookSnapshot) :
    Mirrors ((onOrderbook cfg (omsSubscribers journal before after) book).exec w).1 := by
  have hseen := mirrors_observe cfg h book
  simp only [onOrderbook, PaperWorld.record, Co.bind_eq, Co.exec_bind, Co.exec_modify,
    exec_readVenue, List.append_nil]
  exact Co.exec_forEach_inv (P := Mirrors) _
    (fun oid _ _ h => mirrors_tryFillOrder hj hb ha h oid book) hseen

/-- An open order as it is once cancelled at `now`. -/
def Order.cancelledAt (order : Order) (now : Time) : Order :=
  { order with status := .cancelled, updatedAt := now }

/-- A cancellation returns `True` for an open order, which the manager hears of. -/
theorem exec_cancelOrder (cfg : PaperConfig) (hj : journal.Reliable) (hb : before.Quiet)
    (ha : after.Quiet) (h : Mirrors w) {oid : OrderId} {order : Order}
    (hopen : w.venue.openOrders.get oid = some order) :
    let cancelled := order.cancelledAt (w.clock.reading w.clock.reads)
    ∃ w', (cancelOrder (omsSubscribers journal before after) oid).exec w = (w', .ok true) ∧
      Mirrors w' ∧ w'.venue = remove oid cancelled w.venue ∧
      w'.trace = w.trace ++ [.update cancelled] := by
  intro cancelled
  have hid : cancelled.orderId = oid := (h.sound.known hopen).2.2
  obtain ⟨env', htold, hcache⟩ := exec_tell hj hb ha cancelled w.env
  have hnotify : ∀ v tr, (notifyOrder (omsSubscribers journal before after) cancelled).exec
      { w.tick with venue := v, trace := tr } =
        ({ w.tick with venue := v, trace := tr, env := env' }, .ok ()) := by
    intro v tr
    have hview : (Part.view ({ w.tick with venue := v, trace := tr } : OmsWorld J ρ) : OmsEnv J ρ) =
      w.env := rfl
    rw [omsSubscribers_eq, notifyOrder_lift, Co.exec_lift, hview, htold]
    rfl
  refine ⟨{ w.tick with
    venue := remove oid cancelled w.venue
    trace := w.trace ++ [.update cancelled]
    env := env' }, ?_, ⟨?_, fun j => ?_⟩, rfl, rfl⟩
  · have hresult := hnotify (remove oid cancelled w.venue) (w.trace ++ [.update cancelled])
    simp only [cancelOrder, PaperWorld.record, Co.bind_eq, Co.exec_bind, exec_readVenue, hopen,
      exec_readNow, Co.exec_modify]
    have hsame : { order with status := .cancelled
                              updatedAt := w.clock.reading w.clock.reads : Order } =
        cancelled := rfl
    have htrace : w.tick.trace = w.trace := rfl
    rw [hsame, tick_venue, htrace, hresult]
    rfl
  · have hstep : PaperStep cfg (fun _ => True) (w.venue, w.trace)
        (remove oid cancelled w.venue, w.trace ++ [.update cancelled]) := .cancel _ hopen
    exact sound_step hstep h.sound
  · rw [hcache, hid, h.cache]
    exact (Dict.get_set _ _ _ _).symm

theorem exec_cancelOrder_unknown (subs : Subscribers (OmsWorld J ρ)) {oid : OrderId}
    (hnone : w.venue.openOrders.get oid = none) :
    (cancelOrder subs oid).exec w = (w, .ok false) := by
  simp only [cancelOrder, Co.bind_eq, Co.exec_bind, exec_readVenue, hnone]
  rfl

theorem mirrors_cancelOrder (cfg : PaperConfig) (hj : journal.Reliable) (hb : before.Quiet)
    (ha : after.Quiet) (h : Mirrors w) (oid : OrderId) : ∃ w' done,
      (cancelOrder (omsSubscribers journal before after) oid).exec w = (w', .ok done) ∧
        Mirrors w' := by
  cases hopen : w.venue.openOrders.get oid with
  | none => exact ⟨w, false, exec_cancelOrder_unknown _ hopen, h⟩
  | some order =>
    obtain ⟨w', hexec, hw', -⟩ := exec_cancelOrder cfg hj hb ha h hopen
    exact ⟨w', true, hexec, hw'⟩

theorem mirrors_cancelEach (hj : journal.Reliable) (hb : before.Quiet) (ha : after.Quiet)
    (orders : List Order) (h : Mirrors w) (count : Nat) :
    Mirrors ((OrderManager.cancelEach (asVenue cfg (omsSubscribers journal before after)) orders
      count).exec w).1 := by
  induction orders generalizing w count with
  | nil => exact h
  | cons order orders ih =>
    obtain ⟨w', done, hexec, hw'⟩ := mirrors_cancelOrder cfg hj hb ha h order.orderId
    have hcancel : ((asVenue cfg (omsSubscribers journal before after)).cancelOrder
        order.orderId).exec w = (w', .ok done) := hexec
    rw [OrderManager.cancelEach, Co.bind_eq, Co.exec_bind_ok hcancel]
    exact ih hw' _

/-- The orders that `gone` tells of are cancelled, and nothing else happened at the venue. -/
structure Cancels (gone : Order → Prop) (c c' : PaperCore) : Prop where
  opened : ∀ oid order, c'.1.openOrders.get oid = some order ↔
    c.1.openOrders.get oid = some order ∧ ¬gone order
  cancelled : ∀ oid order, c.1.openOrders.get oid = some order → gone order →
    ∃ now, c'.1.allOrders.get oid = some (order.cancelledAt now)
  kept : ∀ oid, (∀ order, c.1.openOrders.get oid = some order → ¬gone order) →
    c'.1.allOrders.get oid = c.1.allOrders.get oid
  books : c'.1.latestBook = c.1.latestBook
  positions : c'.1.positions = c.1.positions
  fills : fillsOf c'.2 = fillsOf c.2

section Cancels

variable {gone gone' : Order → Prop} {c c' c'' : PaperCore}

theorem cancels_none (hgone : ∀ oid order, c.1.openOrders.get oid = some order → ¬gone order) :
    Cancels gone c c where
  opened oid order := ⟨fun h => ⟨h, hgone oid order h⟩, fun h => h.1⟩
  cancelled oid order h hgone' := absurd hgone' (hgone oid order h)
  kept _ _ := rfl
  books := rfl
  positions := rfl
  fills := rfl

theorem Cancels.trans (h : Cancels gone c c') (h' : Cancels gone' c' c'') :
    Cancels (fun order => gone order ∨ gone' order) c c'' where
  opened oid order := by
    rw [h'.opened, h.opened, not_or, and_assoc]
  cancelled oid order hopen hgone := by
    by_cases hfirst : gone order
    · have hleft : ∀ other, c'.1.openOrders.get oid = some other → ¬gone' other := by
        intro other hother
        obtain ⟨hsame, hstays⟩ := (h.opened oid other).mp hother
        rw [hopen, Option.some_inj] at hsame
        exact absurd (hsame ▸ hfirst) hstays
      rw [h'.kept oid hleft]
      exact h.cancelled oid order hopen hfirst
    · exact h'.cancelled oid order ((h.opened oid order).mpr ⟨hopen, hfirst⟩)
        (hgone.resolve_left hfirst)
  kept oid hstays := by
    have hfirst : ∀ order, c.1.openOrders.get oid = some order → ¬gone order :=
      fun order hopen hgone => hstays order hopen (.inl hgone)
    have hsecond : ∀ order, c'.1.openOrders.get oid = some order → ¬gone' order :=
      fun order hopen hgone => hstays order ((h.opened oid order).mp hopen).1 (.inr hgone)
    rw [h'.kept oid hsecond, h.kept oid hfirst]
  books := h'.books.trans h.books
  positions := h'.positions.trans h.positions
  fills := h'.fills.trans h.fills

theorem Cancels.congr (h : Cancels gone c c')
    (hgone : ∀ oid order, c.1.openOrders.get oid = some order → (gone order ↔ gone' order)) :
    Cancels gone' c c' where
  opened oid order := by
    rw [h.opened]
    exact and_congr_right fun hopen => not_congr (hgone oid order hopen)
  cancelled oid order hopen hgone' :=
    h.cancelled oid order hopen ((hgone oid order hopen).mpr hgone')
  kept oid hstays := h.kept oid fun order hopen hgone' =>
    hstays order hopen ((hgone oid order hopen).mp hgone')
  books := h.books
  positions := h.positions
  fills := h.fills

/-- One request. -/
theorem cancels_remove (h : PaperSound c) {oid : OrderId} {order : Order} (now : Time)
    (hopen : c.1.openOrders.get oid = some order) :
    Cancels (fun o => o.orderId = oid) c
      (remove oid (order.cancelledAt now) c.1, c.2 ++ [.update (order.cancelledAt now)]) where
  opened j o := by
    simp only [remove, Dict.get_pop]
    constructor
    · intro ho
      split at ho
      · cases ho
      · next hj => exact ⟨ho, fun hid => hj ((h.known ho).2.2.symm.trans hid)⟩
    · rintro ⟨ho, hid⟩
      rw [if_neg fun hj => hid ((h.known ho).2.2.trans hj)]
      exact ho
  cancelled j o ho hid := by
    have hj : j = oid := (h.known ho).2.2.symm.trans hid
    subst hj
    rw [hopen, Option.some_inj] at ho
    exact ⟨now, ho ▸ Dict.get_set_same _ _ _⟩
  kept j hstays := by
    have hj : j ≠ oid := by
      rintro rfl
      exact hstays order hopen (h.known hopen).2.2
    exact Dict.get_set_other _ _ hj
  books := rfl
  positions := rfl
  fills := by simp

end Cancels

theorem exec_cancelEach (cfg : PaperConfig) (hj : journal.Reliable) (hb : before.Quiet)
    (ha : after.Quiet) (orders : List Order) (h : Mirrors w)
    (hopen : ∀ order ∈ orders, w.venue.openOrders.get order.orderId = some order)
    (hnodup : (orders.map Order.orderId).Nodup) (count : Nat) :
    ∃ w', (OrderManager.cancelEach (asVenue cfg (omsSubscribers journal before after)) orders
        count).exec w = (w', .ok (count + orders.length)) ∧ Mirrors w' ∧
      Cancels (fun o => o.orderId ∈ orders.map Order.orderId) w.core w'.core := by
  induction orders generalizing w count with
  | nil => exact ⟨w, rfl, h, cancels_none fun _ _ _ => List.not_mem_nil⟩
  | cons order orders ih =>
    obtain ⟨hfirst, hrest⟩ := List.forall_mem_cons.mp hopen
    obtain ⟨hnew, hnodup'⟩ := List.nodup_cons.mp hnodup
    obtain ⟨w₁, hexec, hw₁, hvenue, htrace⟩ := exec_cancelOrder cfg hj hb ha h hfirst
    have hstep : Cancels (fun o => o.orderId = order.orderId) w.core w₁.core := by
      have hcore : w₁.core = (remove order.orderId (order.cancelledAt _) w.venue,
          w.trace ++ [.update (order.cancelledAt _)]) := Prod.ext hvenue htrace
      rw [hcore]
      exact cancels_remove h.sound (w.clock.reading w.clock.reads) hfirst
    have hopen₁ : ∀ o ∈ orders, w₁.venue.openOrders.get o.orderId = some o := by
      intro o ho
      refine (hstep.opened o.orderId o).mpr ⟨hrest o ho, fun hid => hnew ?_⟩
      exact hid ▸ List.mem_map_of_mem ho
    obtain ⟨w', hexec', hw', hcancels⟩ := ih hw₁ hopen₁ hnodup' (count + 1)
    refine ⟨w', ?_, hw', (hstep.trans hcancels).congr fun oid o _ => ?_⟩
    · have hcancel : ((asVenue cfg (omsSubscribers journal before after)).cancelOrder
          order.orderId).exec w = (w₁, .ok true) := hexec
      rw [OrderManager.cancelEach, Co.bind_eq, Co.exec_bind_ok hcancel, if_pos rfl, hexec',
        List.length_cons, Nat.add_assoc, Nat.add_comm 1]
    · rw [List.map_cons, List.mem_cons]

/-- The orders that a request to cancel all of a symbol, or all there are, is about. -/
def Order.matches (symbol : Option Symbol) (order : Order) : Bool :=
  symbol.all fun s => order.symbol = s

theorem Mirrors.mem_live (h : Mirrors w) (symbol : Option Symbol) (order : Order) :
    order ∈ w.env.oms.live symbol ↔
      order ∈ w.venue.openOrders.values.filter (Order.matches symbol) := by
  have hopen := h.sound.open_iff order
  simp only [core] at hopen
  rw [OrderManager.live, List.mem_filter, List.mem_filter, Dict.mem_values, hopen]
  simp only [h.cache, Bool.and_eq_true, Bool.not_eq_true', and_assoc]
  rfl

/-- The manager lists what the venue had open and was not cancelled. -/
theorem Mirrors.live_of_cancels {gone : Order → Prop} (h : Mirrors w')
    (hcancels : Cancels gone w.core w'.core) (order : Order) :
    order ∈ w'.env.oms.live none ↔ order ∈ w.venue.openOrders.values ∧ ¬gone order := by
  have hall : order ∈ w'.venue.openOrders.values.filter (Order.matches none) ↔
      order ∈ w'.venue.openOrders.values := by
    rw [List.mem_filter]
    exact and_iff_left rfl
  rw [h.mem_live, hall, Dict.mem_values, Dict.mem_values, ← exists_and_right]
  exact exists_congr fun oid => hcancels.opened oid order

/-- `cancel_all` cancels what the venue has open, all of it and nothing else. -/
theorem exec_cancelAll (cfg : PaperConfig) (hj : journal.Reliable) (hb : before.Quiet)
    (ha : after.Quiet) (h : Mirrors w) (symbol : Option Symbol) :
    ∃ w', (OrderManager.cancelAll (J := J) (asVenue cfg (omsSubscribers journal before after))
        symbol).exec w =
        (w', .ok (w.venue.openOrders.values.filter (Order.matches symbol)).length) ∧
      Mirrors w' ∧ Cancels (fun o => o.matches symbol) w.core w'.core := by
  have hkeys : ∀ {d : Dict OrderId Order}, (∀ oid o, d.get oid = some o → o.orderId = oid) →
      (d.values.map Order.orderId).Nodup := by
    intro d hd
    have hsame : d.values.map Order.orderId = d.keys := by
      rw [Dict.values, Dict.keys, List.map_map]
      exact List.map_congr_left fun e he => hd e.1 e.2 (Dict.mem_entries.mp he)
    exact hsame ▸ d.nodup
  have hcached : ∀ oid o, w.env.oms.orders.get oid = some o → o.orderId = oid := by
    intro oid o ho
    rw [h.cache] at ho
    exact (h.sound.ids oid o ho).1
  have hvenue : ∀ oid o, w.venue.openOrders.get oid = some o → o.orderId = oid :=
    fun oid o ho => (h.sound.known ho).2.2
  have hnodup : ((w.env.oms.live symbol).map Order.orderId).Nodup :=
    (hkeys hcached).sublist (List.filter_sublist.map Order.orderId)
  have hnodup' : (w.venue.openOrders.values.filter (Order.matches symbol)).Nodup :=
    (List.Nodup.of_map Order.orderId (hkeys hvenue)).filter _
  have hopen : ∀ order ∈ w.env.oms.live symbol,
      w.venue.openOrders.get order.orderId = some order := by
    intro order horder
    have hlisted := List.mem_of_mem_filter ((h.mem_live symbol order).mp horder)
    obtain ⟨oid, hget⟩ := Dict.mem_values.mp hlisted
    rwa [hvenue oid order hget]
  obtain ⟨w', hexec, hw', hcancels⟩ := exec_cancelEach cfg hj hb ha _ h hopen hnodup 0
  have hlength : (w.env.oms.live symbol).length =
      (w.venue.openOrders.values.filter (Order.matches symbol)).length := by
    have hperm := (List.perm_ext_iff_of_nodup (List.Nodup.of_map Order.orderId hnodup)
      hnodup').mpr (h.mem_live symbol)
    exact hperm.length_eq
  refine ⟨w', ?_, hw', hcancels.congr fun oid order horder => ?_⟩
  · rw [← hlength, ← Nat.zero_add (w.env.oms.live symbol).length]
    exact hexec
  · have hmem : order ∈ w.venue.openOrders.values := Dict.mem_values.mpr ⟨oid, horder⟩
    constructor
    · intro hid
      obtain ⟨other, hother, hsame⟩ := List.mem_map.mp hid
      have hget := hopen other hother
      have horder' : w.venue.openOrders.get oid = some order := horder
      rw [hsame, hvenue oid order horder, horder', Option.some_inj] at hget
      rw [hget]
      exact (List.mem_filter.mp ((h.mem_live symbol other).mp hother)).2
    · intro hmatch
      have hlive := (h.mem_live symbol order).mpr (List.mem_filter.mpr ⟨hmem, hmatch⟩)
      exact List.mem_map_of_mem hlive

theorem mirrors_acknowledging (hj : journal.Reliable) (hb : before.Quiet) (ha : after.Quiet)
    (h : Mirrors w) (request : OrderRequest) :
    Mirrors (acknowledging (managerSubs journal before after) request w) where
  sound := by
    have hstep : PaperStep paperImmediate (fun _ => True) w.core
        (acknowledging (managerSubs journal before after) request w).core :=
      .place w.venue w.trace request (w.clock.reading w.clock.reads)
    exact sound_step hstep h.sound
  cache oid := by
    obtain ⟨env', htold, hcache⟩ := exec_tell hj hb ha (nextOrder w request) w.env
    have henv : (acknowledging (managerSubs journal before after) request w).env = env' :=
      congrArg Prod.fst htold
    rw [henv, hcache, h.cache]
    exact (Dict.get_set _ _ _ _).symm

theorem mirrors_placed (hj : journal.Reliable) (hb : before.Quiet) (ha : after.Quiet)
    (h : Mirrors w) (request : OrderRequest) :
    Mirrors (placed cfg (managerSubs journal before after) request w) := by
  obtain ⟨clock, hplace⟩ := alone_placeOrder cfg (managerSubs journal before after) request w
  obtain ⟨env', htold, -⟩ := exec_tell hj hb ha (nextOrder w request) w.env
  have hack : Mirrors { acknowledging (managerSubs journal before after) request w with
      clock := clock } := (mirrors_acknowledging hj hb ha h request).congr rfl rfl
  rw [placed, hplace]
  simp only [placementOutcome, htold]
  cases hfill : placementFill cfg (managerSubs journal before after) w request with
  | none => exact hack
  | some fill =>
    obtain ⟨updated, hupdated⟩ := executed_nextOrder w request fill
    rw [placementFill, Option.ite_none_right_eq_some, Option.bind_eq_some_iff] at hfill
    obtain ⟨⟨hacked, -⟩, book, -, hfill⟩ := hfill
    have hopen := acknowledging_open (managerSubs journal before after) hacked
    dsimp only
    rw [hupdated]
    exact (mirrors_fill hj hb ha hack hopen hfill hupdated).2

theorem mirrors_submit (hj : journal.Reliable) (hb : before.Quiet) (ha : after.Quiet)
    (h : Mirrors w) (cid : ClientOrderId) (intent : TradeIntent) :
    Mirrors (submission cfg journal before after cid intent w).1 := by
  have htick : Mirrors w.tick := h.congr rfl rfl
  obtain ⟨hplace, order, hknown⟩ := place_known cfg hj hb ha (OrderManager.request cid intent)
    w.tick
  obtain ⟨m, hexec, horders⟩ := submission_placed hj hplace fun hnone =>
    Option.some_ne_none order (hknown.cached.symm.trans hnone)
  rw [hexec]
  exact (mirrors_placed hj hb ha htick _).congr rfl horders

theorem mirrors_op (hj : journal.Reliable) (hb : before.Quiet) (ha : after.Quiet)
    (h : Mirrors w) (op : OmsOp) : Mirrors (op.perform cfg journal before after w) := by
  cases op with
  | submit cid intent =>
    rw [OmsOp.perform, OmsOp.prog, Co.exec_discard]
    exact mirrors_submit hj hb ha h cid intent
  | cancel oid =>
    obtain ⟨w', done, hexec, hw'⟩ := mirrors_cancelOrder cfg hj hb ha h oid
    have hcancel : (OrderManager.cancel (asVenue cfg (omsSubscribers journal before after))
        oid).exec w = (w', .ok done) := hexec
    rw [OmsOp.perform, OmsOp.prog, Co.exec_discard, hcancel]
    exact hw'
  | cancelAll symbol =>
    rw [OmsOp.perform, OmsOp.prog, Co.exec_discard]
    exact mirrors_cancelEach hj hb ha (w.env.oms.live symbol) h 0
  | onOrderbook book => exact mirrors_onOrderbook hj hb ha h book

theorem mirrors_performAll (hj : journal.Reliable) (hb : before.Quiet) (ha : after.Quiet)
    (ops : List OmsOp) (h : Mirrors w) : Mirrors (performAll cfg journal before after w ops) := by
  induction ops generalizing w with
  | nil => exact h
  | cons op ops ih => exact ih (mirrors_op hj hb ha h op)

/-- After any operations, one after another, `cancel_all` returns the number of orders that
the venue lists as open. These are cancelled, and nothing else changes at the venue. -/
theorem cancelAll_cancels_listed (hj : journal.Reliable) (hb : before.Quiet) (ha : after.Quiet)
    (j : J) (clock : Clock) (rest : ρ) (ops : List OmsOp) (symbol : Option Symbol) :
    let w := performAll cfg journal before after (.new j clock rest) ops
    ∃ listed w', (getOpenOrders symbol).exec w = (w, .ok listed) ∧
      (OrderManager.cancelAll (J := J) (asVenue cfg (omsSubscribers journal before after))
        symbol).exec w = (w', .ok listed.length) ∧
      Cancels (fun o => o.matches symbol) w.core w'.core ∧
      ∀ order, order ∈ w'.env.oms.live none ↔
        order ∈ w.venue.openOrders.values ∧ ¬order.matches symbol := by
  intro w
  have hw : Mirrors w := mirrors_performAll hj hb ha ops (mirrors_new j clock rest)
  obtain ⟨w', hexec, hw', hcancels⟩ := exec_cancelAll cfg hj hb ha hw symbol
  exact ⟨_, w', rfl, hexec, hcancels, hw'.live_of_cancels hcancels⟩

/-- Two orders rest; those of the one symbol are cancelled. -/
theorem cancelAll_of_one_symbol :
    let cfg : PaperConfig := ⟨.immediate "USDT", 1000, "USDT"⟩
    let w := performAll cfg InMemoryOrderJournal.journal ⟨[], []⟩ ⟨[], []⟩
      (OmsWorld.new ⟨[], []⟩ ⟨fun n => n, 0⟩ ())
      [.submit "c1" ⟨"BTC", .buy, .limit, 1, some 50, .gtc, false⟩,
        .submit "c2" ⟨"ETH", .buy, .limit, 1, some 50, .gtc, false⟩]
    ∃ listed w', listed.length = 1 ∧
      (OrderManager.cancelAll (J := OrderTables) (asVenue cfg (omsSubscribers
        InMemoryOrderJournal.journal ⟨[], []⟩ ⟨[], []⟩)) (some "BTC")).exec w =
          (w', .ok (listed : List Order).length) := by
  intro cfg w
  obtain ⟨listed, w', hlisted, hexec, -⟩ := @cancelAll_cancels_listed _ _ cfg
    InMemoryOrderJournal.journal ⟨[], []⟩ ⟨[], []⟩ InMemoryOrderJournal.reliable
    ⟨by simp, by simp⟩ ⟨by simp, by simp⟩ ⟨[], []⟩ ⟨fun n => n, 0⟩ ()
    [.submit "c1" ⟨"BTC", .buy, .limit, 1, some 50, .gtc, false⟩,
      .submit "c2" ⟨"ETH", .buy, .limit, 1, some 50, .gtc, false⟩] (some "BTC")
  have hone : ((getOpenOrders (some "BTC")).exec w).2.toOption.map List.length = some 1 := by
    decide +kernel
  rw [hlisted] at hone
  exact ⟨listed, w', Option.some.inj hone, hexec⟩

end Serial

end Trading
