import Mathlib.Data.Int.ConditionallyCompleteOrder
import Trading.OrderJournalReads
import Trading.OrderRecovery

/-!
# The life of an order as SQLite tells it

A submission writes its row after the rows of the updates its placement caused,
but with an earlier time, so the history starts with it. Until it is written it
counts as a late row: ascending rows do not depend on where it stands.
-/
namespace Trading

open Async Data PaperVenue PaperWorld SqliteWorld

/-- The statuses a venue reports for one order, one for each row. -/
inductive Progress : List OrderStatus → Prop where
  | rejected : Progress [.rejected]
  | acked (partials finals : Nat) {last : OrderStatus} (h : last = .filled ∨ last = .cancelled) :
      Progress (.acked :: (List.replicate partials .partiallyFilled ++ List.replicate finals last))

/-- The statuses of a history. -/
def OrderPath (statuses : List OrderStatus) : Prop :=
  ∃ reported, statuses = .submitted :: reported ∧ Progress reported

/-- What the journaled fills of an order add up to. -/
def OrderTables.filled (t : OrderTables) (oid : OrderId) : Decimal :=
  ((t.fills.filter fun f => f.orderId = oid).map Fill.quantity).sum

/-- New fills of one order add to that order alone. -/
theorem OrderTables.filled_append {t t' : OrderTables} {fills : List Fill} {oid : OrderId}
    (hfills : t'.fills = t.fills ++ fills) (hown : ∀ f ∈ fills, f.orderId = oid) (j : OrderId) :
    t'.filled j = t.filled j + if j = oid then (fills.map Fill.quantity).sum else 0 := by
  rw [OrderTables.filled, hfills, List.filter_append, List.map_append, List.sum_append]
  congr 1
  split
  · next hj =>
    rw [List.filter_eq_self.mpr fun f hf => decide_eq_true ((hown f hf).trans hj.symm)]
  · next hj =>
    have hnone : fills.filter (fun f => f.orderId = j) = [] := by
      rw [List.filter_eq_nil_iff]
      intro f hf
      simpa [hown f hf] using Ne.symm hj
    rw [hnone]
    rfl

/-- The tables with rows that are yet to be written. -/
def OrderTables.withLate (t : OrderTables) (late : List Order) : OrderTables :=
  { t with orders := t.orders ++ late }

/-- `history` is what the tables tell of an order until it became `o`; under `P` its
filled quantity never decreased. -/
structure Tells (P : Prop) (t : OrderTables) (o : Order) (history : List Order) : Prop where
  ascends : Ascends Order.updatedAt (t.orders.filter fun row => row.orderId = o.orderId) history
  path : OrderPath (history.map Order.status)
  last : history.getLast? = some o
  filled : o.filledQuantity = t.filled o.orderId
  grows : P → history.Pairwise fun x y => x.filledQuantity ≤ y.filledQuantity

/-- An order still resting has been acknowledged and at most partially filled. -/
theorem OrderPath.resting {statuses : List OrderStatus} {s : OrderStatus} (h : OrderPath statuses)
    (hlast : statuses.getLast? = some s) (hs : s.Resting) :
    ∃ partials, statuses = .submitted :: .acked :: List.replicate partials .partiallyFilled := by
  obtain ⟨reported, rfl, hprogress⟩ := h
  cases hprogress with
  | rejected =>
    cases hlast
    rcases hs with hs | hs <;> cases hs
  | @acked partials finals last hfinal =>
    cases finals with
    | zero => exact ⟨partials, by simp⟩
    | succ finals =>
      have hlast' : last = s := by
        simpa [List.getLast?_cons, List.getLast?_append, List.getLast?_replicate] using hlast
      rw [hlast'] at hfinal
      rcases hs with rfl | rfl <;> simp at hfinal

theorem orderPath_append {s : OrderStatus} (partials count : Nat)
    (hs : s = .partiallyFilled ∨ s = .filled ∨ s = .cancelled) :
    OrderPath (.submitted :: .acked :: List.replicate partials .partiallyFilled ++
      List.replicate count s) := by
  refine ⟨_, rfl, ?_⟩
  rcases hs with rfl | hs
  · have hmore := Progress.acked (partials + count) 0 (.inl (rfl : OrderStatus.filled = .filled))
    rw [List.replicate_zero, List.append_nil, List.replicate_add] at hmore
    exact hmore
  · exact .acked partials count hs

section Tells

variable {P : Prop} {t t' : OrderTables} {o : Order} {history : List Order}

theorem Tells.congr (h : Tells P t o history)
    (horders : t'.orders.filter (fun row => row.orderId = o.orderId) =
      t.orders.filter fun row => row.orderId = o.orderId)
    (hfills : t'.filled o.orderId = t.filled o.orderId) : Tells P t' o history where
  ascends := by rw [horders]; exact h.ascends
  path := h.path
  last := h.last
  filled := by rw [hfills]; exact h.filled
  grows := h.grows

/-- Rows of another order change nothing. -/
theorem Tells.append_other {late : List Order} (h : Tells P (t.withLate late) o history)
    {u : Order} {count : Nat} (hother : u.orderId ≠ o.orderId)
    (horders : t'.orders = t.orders ++ List.replicate count u)
    (hfills : t'.filled o.orderId = t.filled o.orderId) :
    Tells P (t'.withLate late) o history := by
  have hnone : (List.replicate count u).filter (fun row => row.orderId = o.orderId) = [] := by
    rw [List.filter_eq_nil_iff]
    intro row hrow
    simpa [List.eq_of_mem_replicate hrow] using hother
  refine h.congr ?_ hfills
  simp only [OrderTables.withLate, horders, List.filter_append, hnone, List.append_nil]

/-- The last state has filled most. -/
theorem Tells.le_filled (h : Tells P t o history) (hP : P) :
    ∀ x ∈ history, x.filledQuantity ≤ o.filledQuantity := by
  obtain ⟨older, rfl⟩ := List.getLast?_eq_some_iff.mp h.last
  have hpairs := List.pairwise_append.mp (h.grows hP)
  intro x hx
  rcases List.mem_append.mp hx with hx | hx
  · exact hpairs.2.2 x hx o List.mem_cons_self
  · rw [List.mem_singleton.mp hx]

/-- Of an order not heard of before its first row and the row of its submission, late but of
an earlier time, make the history. -/
theorem Tells.placed {row : Order} (hid : row.orderId = o.orderId)
    (horders : t'.orders = t.orders ++ [o])
    (hunwritten : t.orders.filter (fun r => r.orderId = o.orderId) = [])
    (hunexecuted : t'.fills.filter (fun f => f.orderId = o.orderId) = [])
    (hbefore : row.updatedAt < o.updatedAt) (hsubmitted : row.status = .submitted)
    (hstatus : o.status = .acked ∨ o.status = .rejected) (hrow : row.filledQuantity = 0)
    (ho : o.filledQuantity = 0) : Tells P (t'.withLate [row]) o [row, o] where
  ascends := by
    have hsingle : Ascends Order.updatedAt ([] ++ [row]) [row] :=
      Ascends.self_iff.mpr (List.pairwise_singleton _ _)
    have hrows : Ascends Order.updatedAt ([] ++ [o] ++ [row]) ([row] ++ [o]) :=
      hsingle.append_latest (k := o.updatedAt) (by simp) (by simpa using hbefore.le)
        (by simpa using hbefore)
    simpa [OrderTables.withLate, horders, hunwritten, hid] using hrows
  path := by
    rw [List.map_cons, List.map_cons, List.map_nil, hsubmitted]
    cases hstatus with
    | inl hacked =>
      rw [hacked]
      exact orderPath_append 0 0 (.inl rfl)
    | inr hrejected =>
      rw [hrejected]
      exact ⟨_, rfl, .rejected⟩
  last := rfl
  filled := by
    have hnone : (t'.withLate [row]).filled o.orderId = (List.map Fill.quantity []).sum :=
      congrArg (fun fills => (List.map Fill.quantity fills).sum) hunexecuted
    rw [hnone, ho]
    rfl
  grows _ := by simp [hrow, ho]

/-- A resting order becomes `u`, written one or more times. -/
theorem Tells.update {late : List Order} (h : Tells P (t.withLate late) o history)
    (hresting : o.status.Resting) {u : Order} {count : Nat} (hid : u.orderId = o.orderId)
    (hstatus : u.status = .partiallyFilled ∨ u.status = .filled ∨ u.status = .cancelled)
    (hrows : ∀ row ∈ t.orders, row.updatedAt ≤ u.updatedAt)
    (hlate : ∀ row ∈ late, row.updatedAt < u.updatedAt)
    (horders : t'.orders = t.orders ++ List.replicate (count + 1) u)
    (hfilled : u.filledQuantity = t'.filled o.orderId)
    (hgrows : P → o.filledQuantity ≤ u.filledQuantity) :
    Tells P (t'.withLate late) u (history ++ List.replicate (count + 1) u) where
  ascends := by
    have hown : (List.replicate (count + 1) u).filter (fun row => row.orderId = o.orderId) =
        List.replicate (count + 1) u := by
      rw [List.filter_eq_self]
      intro row hrow
      simpa [List.eq_of_mem_replicate hrow] using hid
    have hbefore := h.ascends
    simp only [OrderTables.withLate, List.filter_append] at hbefore
    simp only [OrderTables.withLate, horders, List.filter_append, hid, hown]
    apply hbefore.append_latest (k := u.updatedAt)
    · intro x hx
      rw [List.eq_of_mem_replicate hx]
    · intro y hy
      rw [hbefore.mem_iff, List.mem_append] at hy
      rcases hy with hy | hy
      · exact hrows y (List.mem_filter.mp hy).1
      · exact le_of_lt (hlate y (List.mem_filter.mp hy).1)
    · exact fun y hy => hlate y (List.mem_filter.mp hy).1
  path := by
    have hlast : (history.map Order.status).getLast? = some o.status := by
      rw [List.getLast?_map, h.last]
      rfl
    obtain ⟨partials, hpath⟩ := h.path.resting hlast hresting
    rw [List.map_append, hpath, List.map_replicate]
    exact orderPath_append partials (count + 1) hstatus
  last := by simp [List.getLast?_append, List.getLast?_replicate]
  filled := by rw [hid]; exact hfilled
  grows hP := by
    rw [List.pairwise_append]
    refine ⟨h.grows hP, ?_, fun x hx y hy => ?_⟩
    · exact List.pairwise_replicate.mpr (.inr le_rfl)
    · rw [List.eq_of_mem_replicate hy]
      exact (h.le_filled hP x hx).trans (hgrows hP)

end Tells

/-- Between two transitions: the tables, completed by the rows `late`, tell the life
of every order at the venue; the orders `ids` are among them. -/
structure Histories (P : Prop) (ids : List OrderId) (late : List Order) (w : SqliteWorld) :
    Prop where
  base : Recoverable False w
  clock : StrictMono w.clock.reading
  books : P → ∀ symbol book, w.venue.latestBook.get symbol = some book → book.NonNegative
  known : ∀ oid ∈ ids, w.venue.allOrders.get oid ≠ none
  attributed : ∀ f ∈ w.env.oms.journal.fills, w.venue.allOrders.get f.orderId ≠ none
  overtaken : ∀ row ∈ late, row.updatedAt < w.lastReading
  told : ∀ oid o, w.venue.allOrders.get oid = some o →
    ∃ history, Tells P (w.env.oms.journal.withLate late) o history

section Invariant

variable {P : Prop} {ids : List OrderId} {late : List Order} {w w' : SqliteWorld}
  {cfg : PaperConfig}

theorem histories_new (clock : Clock) (hclock : StrictMono clock.reading) :
    Histories P [] [] (OmsWorld.new ⟨[], []⟩ clock ()) where
  base := recoverable_new clock fun _ _ h => hclock.monotone h
  clock := hclock
  books _ _ _ h := by cases h
  known _ h := by cases h
  attributed _ h := by cases h
  overtaken _ h := by cases h
  told _ _ h := by cases h

theorem histories_tick (h : Histories P ids late w) : Histories P ids late w.tick where
  base := recoverable_tick h.base
  clock := h.clock
  books := h.books
  known := h.known
  attributed := h.attributed
  overtaken row hrow := (h.overtaken row hrow).trans_le
    (h.base.clock _ _ (Nat.sub_le_sub_right (Nat.le_succ _) 1))
  told := h.told

theorem histories_observe (h : Histories P ids late w) {snapshot : OrderbookSnapshot}
    (hbook : P → snapshot.NonNegative) :
    Histories P ids late { w with venue := w.venue.observe snapshot } where
  base := recoverable_observe h.base snapshot
  clock := h.clock
  books hP := books_observe (h.books hP) (hbook hP)
  known := h.known
  attributed := h.attributed
  overtaken := h.overtaken
  told := h.told

/-- An order's new state makes no order unknown. -/
theorem known_of_set {oid j : OrderId} {u : Order}
    (hall : ∀ j, w'.venue.allOrders.get j = if j = oid then some u else w.venue.allOrders.get j)
    (hj : w.venue.allOrders.get j ≠ none) : w'.venue.allOrders.get j ≠ none := by
  rw [hall]
  split
  · exact Option.some_ne_none u
  · exact hj

/-- A resting order becomes `u`, stamped with the last reading and journaled one or
more times, with the fills that make up the difference. -/
theorem histories_update (h : Histories P ids late w) {oid : OrderId} {order u : Order}
    (fills : List Fill) (count : Nat) (hopen : w.venue.openOrders.get oid = some order)
    (hbase : Recoverable False w') (hclock : w'.clock = w.clock)
    (hall : ∀ j, w'.venue.allOrders.get j = if j = oid then some u else w.venue.allOrders.get j)
    (hlatest : w'.venue.latestBook = w.venue.latestBook)
    (horders : w'.env.oms.journal.orders =
      w.env.oms.journal.orders ++ List.replicate (count + 1) u)
    (hfills : w'.env.oms.journal.fills = w.env.oms.journal.fills ++ fills)
    (hown : ∀ f ∈ fills, f.orderId = oid) (hid : u.orderId = oid)
    (hstamp : u.updatedAt = w.lastReading)
    (hstatus : u.status = .partiallyFilled ∨ u.status = .filled ∨ u.status = .cancelled)
    (hfilled : u.filledQuantity = order.filledQuantity + (fills.map Fill.quantity).sum)
    (hgrows : P → order.filledQuantity ≤ u.filledQuantity) : Histories P ids late w' := by
  obtain ⟨hknown, hresting, hoid⟩ := h.base.maps.known hopen
  have hkept : ∀ j, w.venue.allOrders.get j ≠ none → w'.venue.allOrders.get j ≠ none :=
    fun j => known_of_set hall
  have hsum := OrderTables.filled_append hfills hown
  refine ⟨hbase, hclock ▸ h.clock, ?_, fun j hj => hkept j (h.known j hj), ?_, ?_, ?_⟩
  · rw [hlatest]
    exact h.books
  · intro f hf
    rw [hfills] at hf
    rcases List.mem_append.mp hf with hf | hf
    · exact hkept _ (h.attributed f hf)
    · rw [hown f hf, hall, if_pos rfl]
      exact Option.some_ne_none u
  · have hlast : w'.lastReading = w.lastReading := by rw [lastReading, lastReading, hclock]
    rw [hlast]
    exact h.overtaken
  · intro j o ho
    rw [hall] at ho
    split at ho
    · next hj =>
      cases ho
      obtain ⟨history, htells⟩ := h.told oid order hknown
      refine ⟨_, htells.update hresting (hid.trans hoid.symm) hstatus (fun row hrow => ?_)
        (fun row hrow => ?_) horders ?_ hgrows⟩
      · rw [hstamp]
        exact (h.base.rows row hrow).2
      · rw [hstamp]
        exact h.overtaken row hrow
      · have htold : order.filledQuantity = w.env.oms.journal.filled order.orderId := htells.filled
        rw [hsum, hoid, if_pos rfl, hfilled, htold, hoid]
    · next hj =>
      obtain ⟨history, htells⟩ := h.told j o ho
      have hne : o.orderId ≠ oid := by
        rw [(h.base.maps.ids j o ho).1]
        exact hj
      refine ⟨history, htells.append_other (hid.trans_ne hne.symm) horders ?_⟩
      rw [hsum, if_neg hne, add_zero]

theorem histories_fill (h : Histories P ids late w) {oid : OrderId} {order u : Order}
    {book : OrderbookSnapshot} {f : Fill} (hopen : w.venue.openOrders.get oid = some order)
    (hbook : P → book.NonNegative)
    (hfill : cfg.fillEngine.tryFill order book w.lastReading = some f)
    (hex : order.executed f = .ok u) :
    Histories P ids late ((applyFillToOrder sqliteSubs order f).exec w).1 := by
  have hdesc := FillEngine.tryFill_describes hfill
  obtain ⟨hall, -, hoid⟩ := h.base.maps.known hopen
  have hcached : w.env.oms.orders.get f.orderId = some order := by
    rw [hdesc.orderId, hoid, h.base.cache]
    exact hall
  obtain ⟨w', hexec, hbase, hvenue, hrows⟩ :=
    recoverable_fill h.base hopen hdesc.orderId hdesc.timestamp hex
  have hstate := congrArg Prod.fst (hexec.symm.trans (exec_applyFillToOrder hcached hex))
  dsimp only at hstate
  have hfoid : f.orderId = oid := hdesc.orderId.trans hoid
  have hquantity : P → 0 < f.quantity := fun hP =>
    (FillEngine.tryFill_quantity (hbook hP) hfill).1
  have hid : u.orderId = oid := (Order.executed_orderId hex).trans hoid
  have hstatus := Order.executed_status hex
  have hfilled := Order.executed_filledQuantity hex
  rw [hexec]
  apply histories_update (u := u) h [f] 1 hopen hbase
  · rw [hstate]
    rfl
  · intro j
    rw [hvenue, ← hid]
    exact Dict.get_set _ _ _ _
  · rw [hvenue]
    rfl
  · exact hrows
  · rw [hstate]
    rfl
  · intro g hg
    rw [List.mem_singleton.mp hg]
    exact hfoid
  · exact hid
  · rw [Order.executed_updatedAt hex, hdesc.timestamp]
  · tauto
  · simp [hfilled]
  · intro hP
    rw [hfilled]
    exact le_add_of_nonneg_right (hquantity hP).le

theorem histories_tryFillOrder (h : Histories P ids late w) (oid : OrderId)
    {book : OrderbookSnapshot} (hbook : P → book.NonNegative) :
    Histories P ids late ((tryFillOrder cfg sqliteSubs oid book).exec w).1 := by
  simp only [tryFillOrder, Co.bind_eq, Co.exec_bind, exec_readVenue]
  cases hopen : w.venue.openOrders.get oid with
  | none => exact h
  | some order =>
    have htick := histories_tick h
    simp only [Co.exec_bind, exec_readNow]
    split
    · exact htick
    · next f hfill =>
      cases hex : order.executed f with
      | error e =>
        simp only [applyFillToOrder, Co.ofExcept, hex, Co.bind_eq, Co.throw_bind, Co.exec_throw]
        exact htick
      | ok u => exact histories_fill htick hopen hbook hfill hex

theorem histories_onOrderbook (h : Histories P ids late w) {snapshot : OrderbookSnapshot}
    (hbook : P → snapshot.NonNegative) :
    Histories P ids late ((PaperVenue.onOrderbook cfg sqliteSubs snapshot).exec w).1 := by
  simp only [PaperVenue.onOrderbook, Co.bind_eq, Co.exec_bind, record, Co.exec_modify,
    exec_readVenue, List.append_nil]
  exact Co.exec_forEach_inv (P := Histories P ids late) _
    (fun oid _ _ h => histories_tryFillOrder h oid hbook) (histories_observe h hbook)

theorem histories_cancelOrder (h : Histories P ids late w) (oid : OrderId) :
    Histories P ids late ((PaperVenue.cancelOrder sqliteSubs oid).exec w).1 := by
  have hbase := recoverable_cancelOrder h.base oid
  simp only [PaperVenue.cancelOrder, Co.bind_eq, Co.exec_bind, exec_readVenue] at hbase ⊢
  cases hopen : w.venue.openOrders.get oid with
  | none => exact h
  | some order =>
    obtain ⟨-, -, hoid⟩ := h.base.maps.known hopen
    simp only [hopen, Co.exec_bind, exec_readNow, record, Co.exec_modify, exec_notifyOrder,
      Co.pure_eq, Co.exec_pure] at hbase ⊢
    apply histories_update (histories_tick h) [] 0 hopen hbase
    · rfl
    · exact fun j => Dict.get_set _ _ _ _
    · rfl
    · rfl
    · exact (List.append_nil _).symm
    · exact fun f hf => absurd hf List.not_mem_nil
    · exact hoid
    · rfl
    · exact .inr (.inr rfl)
    · simp
    · exact fun _ => le_rfl

theorem histories_cancelEach (h : Histories P ids late w) (orders : List Order) (count : Nat) :
    Histories P ids late
      ((OrderManager.cancelEach (asVenue cfg sqliteSubs) orders count).exec w).1 := by
  induction orders generalizing count w with
  | nil => exact h
  | cons order orders ih =>
    have hcancel := histories_cancelOrder h order.orderId
    rw [OrderManager.cancelEach, Co.bind_eq, Co.exec_bind]
    have hsame : (asVenue cfg sqliteSubs).cancelOrder order.orderId =
        PaperVenue.cancelOrder sqliteSubs order.orderId := rfl
    rw [hsame]
    rcases hexec : (PaperVenue.cancelOrder sqliteSubs order.orderId).exec w with ⟨w', e | done⟩
    · rwa [hexec] at hcancel
    · rw [hexec] at hcancel
      exact ih hcancel _

theorem unwritten_of_fresh (h : Histories P ids late w) {oid : OrderId}
    (hfresh : w.venue.allOrders.get oid = none) :
    w.env.oms.journal.orders.filter (fun r => r.orderId = oid) = [] := by
  rw [List.filter_eq_nil_iff]
  intro r hr heq
  have hknown := (h.base.rows r hr).1
  rw [of_decide_eq_true heq] at hknown
  exact hknown hfresh

theorem unexecuted_of_fresh (h : Histories P ids late w) {oid : OrderId}
    (hfresh : w.venue.allOrders.get oid = none) :
    w.env.oms.journal.fills.filter (fun f => f.orderId = oid) = [] := by
  rw [List.filter_eq_nil_iff]
  intro f hf heq
  have hknown := h.attributed f hf
  rw [of_decide_eq_true heq] at hknown
  exact hknown hfresh

/-- A new order enters with the row `row` of its submission still to be written. -/
theorem histories_acknowledged (h : Histories P ids [] w) {request : OrderRequest} {row : Order}
    (hid : row.orderId = paperOid (w.venue.nextOid + 1)) (hstatus : row.status = .submitted)
    (hunfilled : row.filledQuantity = 0)
    (hbefore : row.updatedAt < w.clock.reading w.clock.reads) :
    Histories P (paperOid (w.venue.nextOid + 1) :: ids) [row] (acknowledged w request) := by
  have hfresh : w.venue.allOrders.get (paperOid (w.venue.nextOid + 1)) = none := h.base.maps.fresh
  have hall : ∀ j, (acknowledged w request).venue.allOrders.get j =
      if j = paperOid (w.venue.nextOid + 1) then some (w.placedOrder request)
      else w.venue.allOrders.get j := fun j => Dict.get_set _ _ _ _
  have hkept : ∀ j, w.venue.allOrders.get j ≠ none →
      (acknowledged w request).venue.allOrders.get j ≠ none := fun j => known_of_set hall
  have horders : (acknowledged w request).env.oms.journal.orders =
      w.env.oms.journal.orders ++ [w.placedOrder request] := rfl
  refine ⟨recoverable_acknowledged h.base request, h.clock, h.books, ?_, ?_, ?_, ?_⟩
  · intro j hj
    cases List.mem_cons.mp hj with
    | inl hj =>
      rw [hall, if_pos hj]
      exact Option.some_ne_none _
    | inr hj => exact hkept j (h.known j hj)
  · exact fun f hf => hkept _ (h.attributed f hf)
  · intro r hr
    rw [List.mem_singleton.mp hr]
    exact hbefore
  · intro j o ho
    rw [hall] at ho
    split at ho
    · next hj =>
      cases ho
      exact ⟨_, Tells.placed hid horders (unwritten_of_fresh h hfresh)
        (unexecuted_of_fresh h hfresh) hbefore hstatus (initialStatus_cases w.venue request)
        hunfilled rfl⟩
    · next hj =>
      obtain ⟨history, htells⟩ := h.told j o ho
      have hne : paperOid (w.venue.nextOid + 1) ≠ o.orderId := by
        rw [(h.base.maps.ids j o ho).1]
        exact Ne.symm hj
      refine ⟨history, htells.congr ?_ rfl⟩
      have hself : (w.placedOrder request).orderId = paperOid (w.venue.nextOid + 1) := rfl
      simp [OrderTables.withLate, horders, hself, hid, hne]

/-- The row is written; it was told all along. -/
theorem histories_journaled {row : Order} (h : Histories P ids [row] w)
    (hknown : w.venue.allOrders.get row.orderId ≠ none) :
    Histories P ids [] (journaled row w) where
  base :=
    { maps := h.base.maps, clock := h.base.clock, cache := h.base.cache
      newest := False.elim
      rows := by
        intro r hr
        cases List.mem_append.mp hr with
        | inl hr => exact h.base.rows r hr
        | inr hr =>
          rw [List.mem_singleton.mp hr]
          exact ⟨hknown, (h.overtaken row List.mem_cons_self).le⟩ }
  clock := h.clock
  books := h.books
  known := h.known
  attributed := h.attributed
  overtaken _ hr := absurd hr List.not_mem_nil
  told oid o ho := by
    obtain ⟨history, htells⟩ := h.told oid o ho
    refine ⟨history, htells.congr ?_ rfl⟩
    simp only [OrderTables.withLate, journaled, List.append_nil]

theorem histories_placeOrder (h : Histories P ids [] w) (cfg : PaperConfig)
    {request : OrderRequest} {row : Order} (hid : row.orderId = paperOid (w.venue.nextOid + 1))
    (hstatus : row.status = .submitted) (hunfilled : row.filledQuantity = 0)
    (hbefore : row.updatedAt < w.clock.reading w.clock.reads) :
    Histories P (paperOid (w.venue.nextOid + 1) :: ids) [row]
      ((PaperVenue.placeOrder cfg sqliteSubs request).exec w).1 := by
  have hacked : Histories P (paperOid (w.venue.nextOid + 1) :: ids) [row]
      (acknowledged w request) := histories_acknowledged h hid hstatus hunfilled hbefore
  rw [exec_placeOrder_acknowledged]
  split
  · rw [Co.exec_discard]
    simp only [tryFillLatest, Co.bind_eq, Co.exec_bind, exec_readVenue]
    cases hbook : (acknowledged w request).venue.latestBook.get
        (w.placedOrder request).symbol with
    | none => exact hacked
    | some book =>
      exact histories_tryFillOrder hacked _ fun hP => hacked.books hP _ _ hbook
  · exact hacked

/-- A submission reports its order and leaves it among those told. -/
theorem histories_submit (h : Histories P ids [] w) (cfg : PaperConfig) (cid : ClientOrderId)
    (intent : TradeIntent) :
    ∃ w' oid, (OrderManager.submit (asVenue cfg sqliteSubs) SQLiteOrderJournal.journal cid
        intent).exec w = (w', .ok (.submitted oid cid)) ∧
      (OmsOp.submit cid intent).exec cfg w = w' ∧ Histories P (oid :: ids) [] w' := by
  obtain ⟨w', hplace, hplaced⟩ := exec_placeOrder cfg (recoverable_tick h.base)
    (OrderManager.request cid intent)
  obtain ⟨u, hall, -⟩ := hplaced.order
  have hknown : w'.venue.allOrders.get (paperOid (w.venue.nextOid + 1)) ≠ none := by
    rw [show w'.venue.allOrders.get (paperOid (w.venue.nextOid + 1)) = some u from hall]
    exact Option.some_ne_none u
  have hcached := hplaced.recoverable.cache (paperOid (w.venue.nextOid + 1)) ▸ hknown
  have hsubmit := exec_submit_of_placed hplace hcached
  have hbefore : w.clock.reading w.clock.reads < w.tick.clock.reading w.tick.clock.reads :=
    h.clock (Nat.lt_succ_self _)
  have hhistories : Histories P (paperOid (w.venue.nextOid + 1) :: ids)
      [OrderManager.submittedOrder (paperOid (w.venue.nextOid + 1)) cid intent
        (w.clock.reading w.clock.reads)]
      ((PaperVenue.placeOrder cfg sqliteSubs (OrderManager.request cid intent)).exec w.tick).1 :=
    histories_placeOrder (histories_tick h) cfg rfl rfl rfl hbefore
  rw [hplace] at hhistories
  refine ⟨_, _, hsubmit, ?_, histories_journaled hhistories hknown⟩
  simp only [sqliteSubs] at hsubmit
  simp only [OmsOp.exec, OmsOp.prog, Co.exec_discard, hsubmit]

theorem histories_op (h : Histories P ids [] w) (cfg : PaperConfig) (op : OmsOp)
    (hbook : P → ∀ snapshot, op = .onOrderbook snapshot → snapshot.NonNegative) :
    Histories P ids [] (op.exec cfg w) := by
  cases op with
  | submit cid intent =>
    obtain ⟨w', oid, -, hexec, hsubmitted⟩ := histories_submit h cfg cid intent
    rw [hexec]
    exact { hsubmitted with known := fun j hj => hsubmitted.known j (List.mem_cons_of_mem _ hj) }
  | cancel oid =>
    simp only [OmsOp.exec, OmsOp.prog, Co.exec_discard]
    exact histories_cancelOrder h oid
  | cancelAll symbol =>
    simp only [OmsOp.exec, OmsOp.prog, Co.exec_discard]
    exact histories_cancelEach h (w.env.oms.live symbol) 0
  | onOrderbook snapshot => exact histories_onOrderbook h fun hP => hbook hP snapshot rfl

theorem histories_runOps (h : Histories P ids [] w) (cfg : PaperConfig) (ops : List OmsOp)
    (hbooks : P → ∀ snapshot, .onOrderbook snapshot ∈ ops → snapshot.NonNegative) :
    Histories P ids [] (runOps cfg w ops) := by
  induction ops generalizing w with
  | nil => exact h
  | cons op ops ih =>
    apply ih
    · apply histories_op h
      intro hP snapshot hop
      exact hbooks hP snapshot (hop ▸ List.mem_cons_self)
    · exact fun hP snapshot hmem => hbooks hP snapshot (List.mem_cons_of_mem _ hmem)

end Invariant

/-- After any run the history of an order submitted in it is a path of the order
states ending in the sum of the order's fills; unless a book was negative, the filled
quantity never decreases along it. -/
theorem order_history_is_path (cfg : PaperConfig) (clock : Clock)
    (hclock : StrictMono clock.reading) (before : List OmsOp) (cid : ClientOrderId)
    (intent : TradeIntent) (after : List OmsOp) :
    let run := runOps cfg (OmsWorld.new ⟨[], []⟩ clock ())
    let t := (run (before ++ .submit cid intent :: after)).env.oms.journal
    ∃ oid history last,
      ((OrderManager.submit (asVenue cfg sqliteSubs) SQLiteOrderJournal.journal cid intent).exec
        (run before)).2 = .ok (.submitted oid cid) ∧
      (SQLiteOrderJournal.history.readOrderHistory oid).exec t = (t, .ok history) ∧
      OrderPath (history.map Order.status) ∧
      history.getLast? = some last ∧ last.filledQuantity = t.filled oid ∧
      ((∀ snapshot, .onOrderbook snapshot ∈ before ++ after → snapshot.NonNegative) →
        history.Pairwise fun x y => x.filledQuantity ≤ y.filledQuantity) := by
  intro run t
  let P := ∀ snapshot, OmsOp.onOrderbook snapshot ∈ before ++ after → snapshot.NonNegative
  have hbefore : Histories P [] [] (run before) :=
    histories_runOps (histories_new clock hclock) cfg before fun hP snapshot hmem =>
      hP snapshot (List.mem_append_left _ hmem)
  obtain ⟨w', oid, hexec, hop, hsubmitted⟩ := histories_submit hbefore cfg cid intent
  have hend : Histories P [oid] [] (run (before ++ .submit cid intent :: after)) := by
    have hsplit : run (before ++ .submit cid intent :: after) = runOps cfg w' after := by
      rw [← hop]
      exact List.foldl_append
    rw [hsplit]
    exact histories_runOps hsubmitted cfg after fun hP snapshot hmem =>
      hP snapshot (List.mem_append_right _ hmem)
  cases hget : (run (before ++ .submit cid intent :: after)).venue.allOrders.get oid with
  | none => exact absurd hget (hend.known oid List.mem_cons_self)
  | some o =>
    have hoid : o.orderId = oid := (hend.base.maps.ids oid o hget).1
    obtain ⟨history, htells⟩ := hend.told oid o hget
    have hread : SQLiteOrderJournal.orderHistory t oid = history := by
      rw [SQLiteOrderJournal.orderHistory, sortBy_eq_iff, ← hoid]
      have hascends := htells.ascends
      rwa [OrderTables.withLate, List.append_nil] at hascends
    refine ⟨oid, history, o, by rw [hexec], ?_, htells.path, htells.last, ?_, htells.grows⟩
    · rw [← hread]
      rfl
    · rw [htells.filled, hoid]
      rfl

def paperSqlite : PaperConfig := ⟨.orderbook 0 0 "USDT", 1000, "USDT"⟩

/-- Two on offer. -/
def twoOnOffer : OmsOp := .onOrderbook ⟨"BTC", [], [⟨100, 2⟩], 0, 0⟩

def wantFive : TradeIntent := ⟨"BTC", .buy, .market, 5, none, .gtc, false⟩

theorem order_history_partial_then_cancelled :
    let run := runOps paperSqlite (OmsWorld.new ⟨[], []⟩ ⟨fun n => n, 0⟩ ())
    let t := (run [twoOnOffer, .submit "c1" wantFive, .cancel "paper-1"]).env.oms.journal
    (SQLiteOrderJournal.orderHistory t "paper-1").map Order.status =
        [.submitted, .acked, .partiallyFilled, .partiallyFilled, .cancelled] ∧
      (SQLiteOrderJournal.orderHistory t "paper-1").Pairwise fun x y =>
        x.filledQuantity ≤ y.filledQuantity := by
  intro run t
  have hstatuses : (SQLiteOrderJournal.orderHistory t "paper-1").map Order.status =
      [.submitted, .acked, .partiallyFilled, .partiallyFilled, .cancelled] := by decide +kernel
  have hclock : StrictMono (fun n : Nat => (n : Time)) := fun m n h => by simpa using h
  obtain ⟨oid, history, last, hsubmit, hread, -, -, -, hgrows⟩ :=
    order_history_is_path paperSqlite ⟨fun n => n, 0⟩ hclock [twoOnOffer] "c1" wantFive
      [.cancel "paper-1"]
  have hoid : oid = "paper-1" := by
    have hresult : ((OrderManager.submit (asVenue paperSqlite sqliteSubs)
        SQLiteOrderJournal.journal "c1" wantFive).exec (run [twoOnOffer])).2 =
          .ok (.submitted "paper-1" "c1") := by decide +kernel
    have hsame := hsubmit.symm.trans hresult
    injection hsame with hsame
    injection hsame
  have hhistory : history = SQLiteOrderJournal.orderHistory t "paper-1" := by
    have hresult := congrArg Prod.snd hread
    rw [hoid] at hresult
    injection hresult.symm
  refine ⟨hstatuses, hhistory ▸ hgrows ?_⟩
  intro snapshot hmem
  simp [twoOnOffer] at hmem
  subst hmem
  exact ⟨by simp, by simp⟩

/-- Where a level is negative, walking the book takes back what was filled. -/
theorem filled_quantity_taken_back :
    let run := runOps paperSqlite (OmsWorld.new ⟨[], []⟩ ⟨fun n => n, 0⟩ ())
    let t := (run [twoOnOffer, .submit "c1" wantFive,
      .onOrderbook ⟨"BTC", [], [⟨100, -1⟩], 1, 1⟩]).env.oms.journal
    StrictMono (fun n : Nat => (n : Time)) ∧
      ((OrderManager.submit (asVenue paperSqlite sqliteSubs) SQLiteOrderJournal.journal "c1"
        wantFive).exec (run [twoOnOffer])).2 = .ok (.submitted "paper-1" "c1") ∧
      (SQLiteOrderJournal.orderHistory t "paper-1").map Order.filledQuantity =
        [0, 0, 2, 2, 1, 1] ∧
      ¬ (SQLiteOrderJournal.orderHistory t "paper-1").Pairwise fun x y =>
        x.filledQuantity ≤ y.filledQuantity := by
  intro run t
  constructor
  · exact fun m n h => by simpa using h
  · decide +kernel

end Trading
