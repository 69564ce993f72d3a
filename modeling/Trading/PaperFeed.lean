import Trading.FillSource
import Trading.LiveSource

/-!
# Paper trading on live books

The paper venue follows the live source. Between the receiver thread and the venue stand
the loop's queue and the other tasks, so the venue is behind the exchange by what the loop
has not started; but it never sees a book that the exchange did not have.
-/
namespace Trading

open Async Data Contract Relation PaperVenue PaperWorld LiveMarketDataSource LiveWorld

section Wiring

variable {ε : Type} (cfg : PaperConfig) (subs : Subscribers ε)

/-- `start()` of the venue. -/
def PaperVenue.start (symbols : List Symbol) : Coro (LiveMarketDataSource (PaperWorld ε)) Unit :=
  Co.forEach symbols fun symbol => subscribeOrderbook symbol (onOrderbook cfg subs.lift)

/-- The source as the venue finds it started, after those who subscribed earlier. -/
def paperSource (source : LiveMarketDataSource ε) (symbols : List Symbol) :
    LiveMarketDataSource (PaperWorld ε) :=
  ((PaperVenue.start cfg subs symbols).exec source.lift).1.opened

/-- It is the venue that is called, or whoever does not know it. -/
def Delivery.Known (d : Delivery (PaperWorld ε)) : Prop :=
  (∃ snapshot, d = .orderbook (onOrderbook cfg subs.lift) snapshot) ∨ d.Aside ε

/-- All subscribers are of these two kinds. -/
structure LiveMarketDataSource.Wired (source : LiveMarketDataSource (PaperWorld ε)) : Prop where
  book : ∀ symbol, ∀ callback ∈ subscribersOf source.obSubs symbol, ∀ snapshot,
    (Delivery.orderbook callback snapshot).Known cfg subs
  trade : ∀ symbol, ∀ callback ∈ subscribersOf source.tradeSubs symbol, ∀ trade,
    (Delivery.trade callback trade).Aside ε
  funding : ∀ symbol, ∀ callback ∈ subscribersOf source.fundingSubs symbol, ∀ rate,
    (Delivery.funding callback rate).Aside ε

variable {cfg subs}

theorem wired_lift (source : LiveMarketDataSource ε) :
    (source.lift : LiveMarketDataSource (PaperWorld ε)).Wired cfg subs where
  book _ _ hmem snapshot := .inr (mem_subscribersOf_lift hmem snapshot)
  trade _ _ hmem trade := mem_subscribersOf_lift hmem trade
  funding _ _ hmem rate := mem_subscribersOf_lift hmem rate

/-- The source has been subscribed to before it starts, or it is as it was. -/
theorem exec_subscribeOrderbook {W : Type} (symbol : Symbol)
    (callback : OrderbookSnapshot → Coro W Unit) (source : LiveMarketDataSource W) :
    ((subscribeOrderbook symbol callback).exec source).1 =
      if source.started then source
      else { source with obSubs := addSubscriber source.obSubs symbol callback } := by
  simp only [subscribeOrderbook, requireNotStarted, Co.bind_eq, Co.exec_bind, Co.exec_get]
  by_cases hstarted : source.started = true
  · rw [if_pos hstarted, if_pos hstarted]
    rfl
  · rw [if_neg hstarted, if_neg hstarted]
    rfl

theorem wired_paperSource (source : LiveMarketDataSource ε) (symbols : List Symbol) :
    (paperSource cfg subs source symbols).Wired cfg subs := by
  have hstart : ((PaperVenue.start cfg subs symbols).exec source.lift).1.Wired cfg subs := by
    apply Co.exec_forEach_inv _ _ (wired_lift source)
    intro symbol _ s hs
    rw [exec_subscribeOrderbook]
    split
    · exact hs
    · refine ⟨fun other callback hmem snapshot => ?_, hs.trade, hs.funding⟩
      rw [subscribersOf_add, List.mem_append] at hmem
      rcases hmem with hmem | hmem
      · exact hs.book other callback hmem snapshot
      · have hsymbol : other = symbol := by
          by_contra hne
          rw [if_neg hne] at hmem
          cases hmem
        rw [if_pos hsymbol, List.mem_singleton] at hmem
        exact .inl ⟨snapshot, hmem ▸ rfl⟩
  exact ⟨hstart.book, hstart.trade, hstart.funding⟩

end Wiring

/-- The messages are some of the exchange's, and each of them fits what came before it. -/
def Exchange.Sends (ex : Exchange) (ms : List OrderbookMessage) : Prop :=
  ∃ packets, ms = packets.map ex.message ∧ ex.InStep packets

theorem Exchange.sends_nil (ex : Exchange) : ex.Sends [] :=
  ⟨[], rfl, fun before packet after h => by simp at h⟩

theorem Exchange.Sends.true {ex : Exchange} {ms : List OrderbookMessage} (h : ex.Sends ms)
    {s : OrderbookSnapshot} (hs : s ∈ (OrderbookFeed.handleAll ex.symbol ms).dispatched) :
    ex.TrueAt s := by
  obtain ⟨packets, rfl, hstep⟩ := h
  exact ((ex.faithful_iff_inStep packets).mpr hstep).true s hs

section Feed

variable {ε : Type} (cfg : PaperConfig) (subs : Subscribers ε) (exchanges : Symbol → Exchange)

/-- The messages come from the exchanges, and snapshots from the source alone. -/
def LiveOp.Fits : LiveOp PaperOp → LiveWorld (PaperWorld ε) → Prop
  | .orderbook symbol m, w => (exchanges symbol).Sends (w.messages symbol ++ [m])
  | .other (.onOrderbook _), _ => False
  | _, _ => True

/-- A book that the exchange of its symbol had. -/
def TrueBook (book : OrderbookSnapshot) : Prop := (exchanges book.symbol).TrueAt book

/-- Between the receiver thread and the venue. -/
structure Fed (source : LiveMarketDataSource (PaperWorld ε)) (w : LiveWorld (PaperWorld ε)) :
    Prop where
  fans : FansOut source.obSubs w
  sends : ∀ symbol, (exchanges symbol).Sends (w.messages symbol)
  trades : w.source.tradeSubs = source.tradeSubs
  fundings : w.source.fundingSubs = source.fundingSubs
  known : ∀ d ∈ w.queue, d.Known cfg subs

variable {cfg subs exchanges} {source : LiveMarketDataSource (PaperWorld ε)}
  {w : LiveWorld (PaperWorld ε)}

theorem Fed.hand (h : Fed cfg subs exchanges source w) {ds : List (Delivery (PaperWorld ε))}
    (hds : ∀ symbol, ds.filterMap (Delivery.bookOf symbol) = [])
    (hknown : ∀ d ∈ ds, d.Known cfg subs) : Fed cfg subs exchanges source (w.hand ds) := by
  refine ⟨h.fans.hand hds, h.sends, h.trades, h.fundings, fun d hd => ?_⟩
  rcases List.mem_append.mp hd with hd | hd
  · exact h.known d hd
  · exact hknown d hd

theorem Fed.next (h : Fed cfg subs exchanges source w) : Fed cfg subs exchanges source w.next :=
  ⟨h.fans.next, h.sends, h.trades, h.fundings, fun d hd => h.known d (List.mem_of_mem_tail hd)⟩

theorem Fed.put (h : Fed cfg subs exchanges source w) (e : PaperWorld ε) :
    Fed cfg subs exchanges source (Part.put e w) :=
  ⟨h.fans.congr ⟨rfl, rfl, rfl⟩ rfl fun _ => rfl, h.sends, h.trades, h.fundings, h.known⟩

theorem Fed.hear (hwired : source.Wired cfg subs) (h : Fed cfg subs exchanges source w)
    {symbol : Symbol} {m : OrderbookMessage} {book : OrderbookState}
    (hsends : (exchanges symbol).Sends (w.messages symbol ++ [m]))
    (hbook : w.source.books.get symbol = some book) :
    Fed cfg subs exchanges source (w.hear symbol m (book.apply m)) := by
  refine ⟨h.fans.hear hbook m, fun other => ?_, h.trades, h.fundings, fun d hd => ?_⟩
  · rw [messages, LiveWorld.hear, messagesFor_concat]
    by_cases heq : symbol = other
    · rw [if_pos heq]
      exact heq ▸ hsends
    · rw [if_neg heq, List.append_nil]
      exact h.sends other
  · rcases List.mem_append.mp hd with hd | hd
    · exact h.known d hd
    · obtain ⟨callback, hcallback, rfl⟩ := List.mem_map.mp hd
      rw [h.fans.subs] at hcallback
      exact hwired.book symbol callback hcallback _

/-- What the loop has been handed for the venue are books of the exchanges. -/
theorem Fed.true (h : Fed cfg subs exchanges source w)
    (hsymbols : ∀ symbol, (exchanges symbol).symbol = symbol)
    {callback : OrderbookSnapshot → Coro (PaperWorld ε) Unit} {snapshot : OrderbookSnapshot}
    (hmem : .orderbook callback snapshot ∈ w.begun ++ w.queue) : TrueBook exchanges snapshot := by
  have hhanded : (callback, snapshot) ∈ w.handed snapshot.symbol :=
    List.mem_filterMap.mpr ⟨_, hmem, if_pos rfl⟩
  rw [h.fans.handed, fanOut] at hhanded
  obtain ⟨s, hs, hpair⟩ := List.mem_flatMap.mp hhanded
  obtain ⟨_, -, heq⟩ := List.mem_map.mp hpair
  cases heq
  apply (h.sends snapshot.symbol).true
  rw [hsymbols]
  exact hs

/-- The handlers keep the way to the venue in order. -/
theorem handles_fed {P : List (Delivery (PaperWorld ε)) → PaperWorld ε → Prop}
    (hwired : source.Wired cfg subs) :
    HandlersKeep (fun symbol m w => (exchanges symbol).Sends (w.messages symbol ++ [m]))
      fun w => P w.begun w.env ∧ Fed cfg subs exchanges source w where
  started h := h.2.fans.started
  hear hsends hbook h := ⟨h.1, h.2.hear hwired hsends hbook⟩
  trade symbol trade h := by
    refine ⟨h.1, h.2.hand (filterMap_bookOf_trades _ trade) fun d hd => ?_⟩
    obtain ⟨callback, hcallback, rfl⟩ := List.mem_map.mp hd
    rw [h.2.trades] at hcallback
    exact .inr (hwired.trade symbol callback hcallback trade)
  funding symbol rate h := by
    refine ⟨h.1, h.2.hand (filterMap_bookOf_fundings _ rate) fun d hd => ?_⟩
    obtain ⟨callback, hcallback, rfl⟩ := List.mem_map.mp hd
    rw [h.2.fundings] at hcallback
    exact .inr (hwired.funding symbol callback hcallback rate)
  stop h := ⟨h.1, h.2.fans.congr ⟨rfl, rfl, rfl⟩ rfl fun _ => rfl, h.2.sends, h.2.trades,
    h.2.fundings, h.2.known⟩

variable (cfg exchanges) in
/-- The venue has only gone through transitions over the exchanges' books. -/
def Traded (w₀ w : PaperWorld ε) : Prop := PaperSteps cfg (TrueBook exchanges) w₀ w

variable (cfg exchanges) in
abbrev StaysTraded (w₀ : PaperWorld ε) {α : Type} (p : Coro (PaperWorld ε) α) : Prop :=
  (invariance (Traded cfg exchanges w₀)).Keeps (fun _ _ => Traded cfg exchanges w₀) p

variable {w₀ : PaperWorld ε}

theorem keeps_untraded {α : Type} (p : Coro ε α) :
    StaysTraded cfg exchanges w₀ (p.lift : Coro (PaperWorld ε) α) :=
  keeps_lift p (fun _ _ _ _ h => h) invariance_wait

theorem keeps_heard {α : Type} (cbs : List (α → Coro ε Unit)) (x : α) :
    StaysTraded cfg exchanges w₀ (Co.forEach
      (cbs.map fun cb y => ((cb y).lift : Coro (PaperWorld ε) Unit)) fun cb => cb x) := by
  apply keeps_forEach
  intro cb hcb
  obtain ⟨p, -, rfl⟩ := List.mem_map.mp hcb
  exact keeps_untraded (p x)

theorem announces_traded : Announces (invariance (Traded cfg exchanges w₀)) cfg
    (TrueBook exchanges) (subs.lift : Subscribers (PaperWorld ε))
    (fun _ _ => Traded cfg exchanges w₀) (fun _ _ _ => Traded cfg exchanges w₀) where
  tick h := h
  raised _ h := h
  observe hbook h := h.tail (.observe _ _ hbook)
  fill {l s₀} s {_ _ _ _ f updated} hopen hbook hfill hup h := by
    have hstep : Traded cfg exchanges w₀
        { s with venue := store updated f s.venue, trace := s.trace ++ [.fill f, .update updated] } :=
      h.tail (.fill hopen hbook hfill hup)
    exact keeps_bind (keeps_heard subs.fillCbs f) (fun _ => keeps_heard subs.orderCbs updated)
      l s₀ _ hstep
  cancel {l s₀} _ {_ _} now hopen h :=
    keeps_heard subs.orderCbs _ l s₀ _ (h.tail (.cancel now hopen))

theorem keeps_paperOp (op : PaperOp) (hop : op.Allowed (TrueBook exchanges) w₀) :
    StaysTraded cfg exchanges w₀ (op.prog cfg subs.lift) := by
  have hrules := @announces_traded ε cfg subs exchanges w₀
  cases op with
  | placeOrder request =>
    refine keeps_bind (fun l s₀ s h => ?_) fun _ => keeps_pure ()
    exact Announces.placeOrder (fun _ _ => Traded cfg exchanges w₀) (fun _ => hrules) (fun h => h)
      request (fun {l s₀} s now h => keeps_heard subs.orderCbs _ l s₀ _
        (h.tail (.place _ _ request now))) h
  | cancelOrder oid =>
    exact keeps_bind (fun _ _ _ h => hrules.cancelOrder oid h) fun _ => keeps_pure ()
  | onOrderbook snapshot => exact fun _ _ _ h => hrules.onOrderbook hop h

/-- What the loop starts keeps it, and so does the alert if it raises. -/
theorem keeps_safeCall {reprs : Reprs} {alert : Alert → Coro ε Unit}
    {d : Delivery (PaperWorld ε)} (hknown : d.Known cfg subs)
    (htrue : ∀ callback snapshot, d = .orderbook callback snapshot → TrueBook exchanges snapshot) :
    StaysTraded cfg exchanges w₀ (safeCall reprs (fun a => (alert a).lift) d) := by
  refine keeps_bind (keeps_caught ?_) fun outcome => ?_
  · rcases hknown with ⟨snapshot, rfl⟩ | ⟨q, hq⟩
    · exact keeps_paperOp (.onOrderbook snapshot) (htrue _ _ rfl)
    · rw [hq]
      exact keeps_untraded q
  · cases outcome with
    | ok _ => exact keeps_pure ()
    | error exc =>
      exact keeps_bind (keeps_lift _ (fun _ _ _ _ h => h) invariance_wait) fun now =>
        keeps_untraded (alert _)

end Feed

section Books

variable {ε : Type} {cfg : PaperConfig} {subs : Subscribers ε}

def PaperWorld.books (w : PaperWorld ε) : Dict Symbol OrderbookSnapshot := w.venue.latestBook

theorem books_heard {α : Type} (cbs : List (α → Coro ε Unit)) (x : α) :
    (Co.forEach (cbs.map fun cb y => ((cb y).lift : Coro (PaperWorld ε) Unit)) fun cb =>
      cb x).Frames PaperWorld.books := by
  apply Co.frames_forEach
  intro cb hcb
  obtain ⟨p, -, rfl⟩ := List.mem_map.mp hcb
  exact Co.frames_lift _ fun _ _ => rfl

theorem books_record {f : PaperVenue → PaperVenue} (owed : List Notification)
    (hf : ∀ v, (f v).latestBook = v.latestBook) :
    (record f owed : Coro (PaperWorld ε) Unit).Frames PaperWorld.books :=
  fun w => ⟨hf w.venue, trivial⟩

theorem books_readVenue : (readVenue : Coro (PaperWorld ε) PaperVenue).Frames PaperWorld.books :=
  fun _ => ⟨rfl, trivial⟩

theorem books_readNow : (readNow : Coro (PaperWorld ε) Time).Frames PaperWorld.books :=
  fun _ => ⟨rfl, trivial⟩

theorem books_tryFillOrder (oid : OrderId) (book : OrderbookSnapshot) :
    (tryFillOrder cfg (subs.lift : Subscribers (PaperWorld ε)) oid book).Frames
      PaperWorld.books := by
  refine Co.frames_bind books_readVenue fun v => ?_
  split
  · exact Co.frames_pure ()
  · refine Co.frames_bind books_readNow fun time => ?_
    split
    · exact Co.frames_pure ()
    · exact Co.frames_bind (Co.frames_ofExcept _) fun updated =>
        Co.frames_bind (books_record _ fun _ => rfl) fun _ =>
        Co.frames_bind (books_heard subs.fillCbs _) fun _ => books_heard subs.orderCbs _

/-- Only a snapshot is a new book. -/
theorem books_paperOp (op : PaperOp) (hop : ∀ snapshot, op ≠ .onOrderbook snapshot) :
    (op.prog cfg subs.lift : Coro (PaperWorld ε) Unit).Frames PaperWorld.books := by
  cases op with
  | onOrderbook snapshot => exact absurd rfl (hop snapshot)
  | cancelOrder oid =>
    refine Co.frames_bind (Co.frames_bind books_readVenue fun v => ?_) fun _ => Co.frames_pure ()
    split
    · exact Co.frames_pure _
    · exact Co.frames_bind books_readNow fun time =>
        Co.frames_bind (books_record _ fun _ => rfl) fun _ =>
        Co.frames_bind (books_heard subs.orderCbs _) fun _ => Co.frames_pure _
  | placeOrder request =>
    refine Co.frames_bind ?_ fun _ => Co.frames_pure ()
    refine Co.frames_bind (books_record _ fun _ => rfl) fun _ =>
      Co.frames_bind books_readVenue fun v => Co.frames_bind books_readNow fun time =>
      Co.frames_bind (books_record _ fun _ => rfl) fun _ =>
      Co.frames_bind (books_heard subs.orderCbs _) fun _ => ?_
    split
    · refine Co.frames_bind (Co.frames_bind books_readVenue fun v => ?_) fun _ => Co.frames_pure _
      split
      · exact Co.frames_pure ()
      · exact books_tryFillOrder _ _
    · exact Co.frames_pure _

/-- What the venue does with a snapshot once it knows it. -/
def fillAll (cfg : PaperConfig) (subs : Subscribers (PaperWorld ε)) (snapshot : OrderbookSnapshot) :
    Coro (PaperWorld ε) Unit := do
  let v ← readVenue
  let ids := (v.openOrders.entries.filter fun e => e.2.symbol = snapshot.symbol).map Prod.fst
  Co.forEach ids fun oid => tryFillOrder cfg subs oid snapshot

theorem books_fillAll (snapshot : OrderbookSnapshot) :
    (fillAll cfg (subs.lift : Subscribers (PaperWorld ε)) snapshot).Frames PaperWorld.books :=
  Co.frames_bind books_readVenue fun _ => Co.frames_forEach fun oid _ =>
    books_tryFillOrder oid snapshot

/-- The snapshot is known before anything can go wrong or wait. -/
theorem safeCall_onOrderbook (reprs : Reprs) (alert : Alert → Coro ε Unit)
    (snapshot : OrderbookSnapshot) :
    safeCall reprs (fun a => (alert a).lift)
        (.orderbook (onOrderbook cfg (subs.lift : Subscribers (PaperWorld ε))) snapshot) =
      (record (observe snapshot) []).bind fun _ =>
        safeCall reprs (fun a => (alert a).lift) (.orderbook (fillAll cfg subs.lift) snapshot) := rfl

theorem books_safeCall {reprs : Reprs} {alert : Alert → Coro ε Unit}
    {d : Delivery (PaperWorld ε)} (hd : d.callback.Frames PaperWorld.books) :
    (safeCall reprs (fun a => (alert a).lift) d).Frames PaperWorld.books :=
  frames_safeCall hd (Co.frames_lift _ fun _ _ => rfl) fun _ => Co.frames_lift _ fun _ _ => rfl

open Classical in
/-- The snapshots that some deliveries bring to the venue. -/
noncomputable def paperSnapshots (cfg : PaperConfig) (subs : Subscribers ε)
    (ds : List (Delivery (PaperWorld ε))) : List OrderbookSnapshot :=
  ds.filterMap fun
    | .orderbook callback snapshot =>
      if callback = onOrderbook cfg subs.lift then some snapshot else none
    | _ => none

variable (cfg subs) in
/-- The books are the last ones that the loop has started to bring. -/
def UpTo (begun : List (Delivery (PaperWorld ε))) (w : PaperWorld ε) : Prop :=
  ∀ symbol, w.books.get symbol =
    latest OrderbookSnapshot.symbol symbol (paperSnapshots cfg subs begun)

theorem UpTo.observe {begun : List (Delivery (PaperWorld ε))} {w : PaperWorld ε}
    (h : UpTo cfg subs begun w) (snapshot : OrderbookSnapshot) (trace : List Notification) :
    UpTo cfg subs (begun ++ [.orderbook (onOrderbook cfg subs.lift) snapshot])
      { w with venue := w.venue.observe snapshot, trace := trace } := by
  intro symbol
  have hnew : paperSnapshots cfg subs (begun ++ [.orderbook (onOrderbook cfg subs.lift) snapshot]) =
      paperSnapshots cfg subs begun ++ [snapshot] := by
    simp [paperSnapshots]
  rw [hnew, latest_concat, ← h symbol]
  change (w.venue.latestBook.set snapshot.symbol snapshot).get symbol = _
  rw [Dict.get_set]
  by_cases hsame : snapshot.symbol = symbol
  · rw [if_pos hsame.symm, if_pos hsame]
  · rw [if_neg fun e => hsame e.symm, if_neg hsame]
    rfl

theorem UpTo.aside {begun : List (Delivery (PaperWorld ε))} {w : PaperWorld ε}
    (h : UpTo cfg subs begun w) {d : Delivery (PaperWorld ε)}
    (hd : ∀ snapshot, d ≠ .orderbook (onOrderbook cfg subs.lift) snapshot) :
    UpTo cfg subs (begun ++ [d]) w := by
  intro symbol
  have hnone : paperSnapshots cfg subs [d] = [] := by
    cases d with
    | orderbook callback snapshot =>
      have hne : callback ≠ onOrderbook cfg subs.lift := fun e => hd snapshot (e ▸ rfl)
      simp [paperSnapshots, hne]
    | trade callback trade => rfl
    | funding callback rate => rfl
  have hsame : paperSnapshots cfg subs (begun ++ [d]) = paperSnapshots cfg subs begun := by
    rw [paperSnapshots, List.filterMap_append]
    change paperSnapshots cfg subs begun ++ paperSnapshots cfg subs [d] = _
    rw [hnone, List.append_nil]
  rw [hsame]
  exact h symbol

variable {exchanges : Symbol → Exchange} {source : LiveMarketDataSource (PaperWorld ε)}

variable (cfg subs exchanges source) in
/-- The way to the venue is in order, up to the books. -/
def Current (w : LiveWorld (PaperWorld ε)) : Prop :=
  UpTo cfg subs w.begun w.env ∧ Fed cfg subs exchanges source w

/-- What leaves the books alone leaves them current. -/
theorem keeps_current {α : Type} {p : Coro (PaperWorld ε) α} (hp : p.Frames PaperWorld.books) :
    (invariance (Current cfg subs exchanges source)).Keeps
      (fun _ _ => Current cfg subs exchanges source)
      (p.lift : Coro (LiveWorld (PaperWorld ε)) α) := by
  have haside : (p.lift : Coro (LiveWorld (PaperWorld ε)) α).Frames fun w =>
      (w.source, w.queue, w.begun, w.heard) := Co.frames_lift p fun _ _ => rfl
  refine keeps_of_frames (haside.prod hp.lift) (fun l s₀ s s' heq h => ?_) invariance_wait
  have hput : s' = Part.put s'.env s := by
    cases s
    cases s'
    simp only [Prod.mk.injEq] at heq
    obtain ⟨⟨rfl, rfl, rfl, rfl⟩, -⟩ := heq
    rfl
  have hbooks : s'.env.books = s.env.books := congrArg Prod.snd heq
  have hbegun : s'.begun = s.begun := congrArg (fun v => v.1.2.2.1) heq
  refine ⟨fun symbol => ?_, ?_⟩
  · rw [hbooks, hbegun]
    exact h.1 symbol
  · rw [hput]
    exact h.2.put s'.env

theorem keeps_next {reprs : Reprs} {alert : Alert → Coro ε Unit}
    {l : Unit} {s₀ s : LiveWorld (PaperWorld ε)} {d : Delivery (PaperWorld ε)}
    {queue : List (Delivery (PaperWorld ε))} (hqueue : s.queue = d :: queue)
    (h : Current cfg subs exchanges source s) :
    (invariance (Current cfg subs exchanges source)).Follows
      (fun _ _ _ => Current cfg subs exchanges source)
      (fun _ _ _ => Current cfg subs exchanges source)
      ((safeCall reprs (fun a => (alert a).lift) d).lift : Coro (LiveWorld (PaperWorld ε)) Unit)
      l s₀ s.next := by
  have hbegun : s.next.begun = s.begun ++ [d] := by
    rw [LiveWorld.next, hqueue]
    rfl
  by_cases hvenue : ∃ snapshot, d = .orderbook (onOrderbook cfg subs.lift) snapshot
  · obtain ⟨snapshot, rfl⟩ := hvenue
    rw [safeCall_onOrderbook, Co.lift_bind, follows_bind]
    apply keeps_current (books_safeCall (books_fillAll snapshot))
    refine ⟨?_, h.2.next.put _⟩
    change UpTo cfg subs s.next.begun _
    rw [hbegun]
    exact h.1.observe snapshot _
  · have haside : ∀ snapshot, d ≠ .orderbook (onOrderbook cfg subs.lift) snapshot :=
      fun snapshot heq => hvenue ⟨snapshot, heq⟩
    obtain ⟨q, hq⟩ := (h.2.known d (hqueue ▸ List.mem_cons_self)).resolve_left hvenue
    have hbooks : d.callback.Frames PaperWorld.books := by
      rw [hq]
      exact Co.frames_lift q fun _ _ => rfl
    apply keeps_current (books_safeCall hbooks)
    refine ⟨?_, h.2.next⟩
    rw [hbegun]
    exact h.1.aside haside

end Books

section Last

variable {ε : Type} {cfg : PaperConfig} {subs : Subscribers ε}

/-- The venue is among the subscribers of the symbols it was given. -/
theorem mem_subscribersOf_start {source : LiveMarketDataSource (PaperWorld ε)}
    (hstarted : source.started = false) {symbol : Symbol} {symbols : List Symbol}
    (h : onOrderbook cfg subs.lift ∈ subscribersOf source.obSubs symbol ∨ symbol ∈ symbols) :
    onOrderbook cfg subs.lift ∈ subscribersOf
      ((PaperVenue.start cfg subs symbols).exec source).1.obSubs symbol := by
  induction symbols generalizing source with
  | nil => exact h.resolve_right (by simp)
  | cons first symbols ih =>
    have hexec : (subscribeOrderbook first (onOrderbook cfg subs.lift)).exec source =
        ({ source with obSubs := addSubscriber source.obSubs first (onOrderbook cfg subs.lift) },
          .ok ()) := by
      simp only [subscribeOrderbook, requireNotStarted, Co.bind_eq, Co.exec_bind, Co.exec_get]
      rw [if_neg (Bool.not_eq_true _ ▸ hstarted)]
      rfl
    rw [PaperVenue.start, Co.forEach_cons, Co.exec_bind_ok hexec]
    apply ih
    · exact hstarted
    · rw [subscribersOf_add, List.mem_append]
      by_cases hfirst : symbol = first
      · exact .inl (.inr (by simp [hfirst]))
      · rcases h with h | h
        · exact .inl (.inl h)
        · exact .inr ((List.mem_cons.mp h).resolve_left hfirst)

open Classical in
theorem filter_paperSnapshots (symbol : Symbol) (ds : List (Delivery (PaperWorld ε))) :
    ((paperSnapshots cfg subs ds).filter fun s => s.symbol = symbol) =
      (ds.filterMap (Delivery.bookOf symbol)).filterMap fun x =>
        if x.1 = onOrderbook cfg subs.lift then some x.2 else none := by
  induction ds with
  | nil => rfl
  | cons d ds ih =>
    cases d with
    | orderbook callback snapshot =>
      by_cases hsymbol : snapshot.symbol = symbol <;>
        by_cases hvenue : callback = onOrderbook cfg subs.lift <;>
        simp_all [paperSnapshots, Delivery.bookOf]
    | trade callback trade => exact ih
    | funding callback rate => exact ih

/-- Once everything handed over for a symbol is started, its book is that of the last message. -/
theorem latest_of_handed {obSubs : Dict Symbol (List (OrderbookSnapshot → Coro (PaperWorld ε) Unit))}
    {symbol : Symbol} {ds : List (Delivery (PaperWorld ε))} {snapshots : List OrderbookSnapshot}
    {last : OrderbookSnapshot}
    (hds : ds.filterMap (Delivery.bookOf symbol) = fanOut obSubs symbol (snapshots ++ [last]))
    (hvenue : onOrderbook cfg subs.lift ∈ subscribersOf obSubs symbol) :
    latest OrderbookSnapshot.symbol symbol (paperSnapshots cfg subs ds) = some last := by
  classical
  let brought : (OrderbookSnapshot → Coro (PaperWorld ε) Unit) × OrderbookSnapshot →
      Option OrderbookSnapshot :=
    fun x => if x.1 = onOrderbook cfg subs.lift then some x.2 else none
  have hlast : last ∈ (fanOut obSubs symbol [last]).filterMap brought :=
    List.mem_filterMap.mpr ⟨(onOrderbook cfg subs.lift, last), by simpa [fanOut] using hvenue,
      if_pos rfl⟩
  have hall : ∀ x ∈ (fanOut obSubs symbol [last]).filterMap brought, x = last := by
    intro x hx
    obtain ⟨pair, hpair, hx⟩ := List.mem_filterMap.mp hx
    obtain ⟨callback, -, rfl⟩ : ∃ callback ∈ subscribersOf obSubs symbol, (callback, last) = pair := by
      simpa [fanOut] using hpair
    exact (Option.some.inj ((Option.ite_none_right_eq_some.mp hx).2)).symm
  have hsplit : fanOut obSubs symbol (snapshots ++ [last]) =
      fanOut obSubs symbol snapshots ++ fanOut obSubs symbol [last] := List.flatMap_append
  rw [latest, filter_paperSnapshots, hds, hsplit, List.filterMap_append, List.getLast?_append]
  obtain ⟨x, hx⟩ := Option.ne_none_iff_exists'.mp fun hnone =>
    List.ne_nil_of_mem hlast (List.getLast?_eq_none_iff.mp hnone)
  have hsome : ((fanOut obSubs symbol [last]).filterMap brought).getLast? = some last := by
    rw [hx, hall x (List.mem_of_getLast? hx)]
  rw [hsome]
  rfl

end Last

section Runs

variable (cfg subs) (reprs : Reprs) (alert : Alert → Coro ε Unit) (clock : Clock) (env : ε)
  {exchanges : Symbol → Exchange} (source : LiveMarketDataSource ε) (symbols : List Symbol)
  {c : Config (LiveWorld (PaperWorld ε)) PyError}
  (h : Reaches (LiveOp.prog reprs (fun a => (alert a).lift) (PaperOp.prog cfg subs.lift))
    (LiveOp.Fits exchanges)
    ⟨.begin (paperSource cfg subs source symbols) ⟨clock, .new, [], env⟩, []⟩ c)

include h

theorem traded_of_reaches (hsymbols : ∀ symbol, (exchanges symbol).symbol = symbol) :
    Traded cfg exchanges ⟨clock, .new, [], env⟩ c.state.env := by
  have hwired := @wired_paperSource ε cfg subs source symbols
  let J : LiveWorld (PaperWorld ε) → Prop := fun w =>
    Traded cfg exchanges ⟨clock, .new, [], env⟩ (Part.view w) ∧
      Fed cfg subs exchanges (paperSource cfg subs source symbols) w
  have hlift : ∀ {p : Coro (PaperWorld ε) Unit},
      StaysTraded cfg exchanges ⟨clock, .new, [], env⟩ p →
        (invariance J).Keeps (fun _ _ => J) (p.lift : Coro (LiveWorld (PaperWorld ε)) Unit) :=
    fun hp => keeps_lift_invariance (fun e s hs => hs.put e) hp
  have hinit : J (.begin (paperSource cfg subs source symbols) ⟨clock, .new, [], env⟩) := by
    have hfans := fansOut_begin ((PaperVenue.start cfg subs symbols).exec source.lift).1
      (⟨clock, .new, [], env⟩ : PaperWorld ε)
    exact ⟨.refl, hfans, fun symbol => (exchanges symbol).sends_nil, rfl, rfl, by simp [begin]⟩
  have hops : ∀ op w, J w → LiveOp.Fits exchanges op w → (invariance J).Follows (fun _ _ _ => J)
      (fun _ _ _ => J)
      (LiveOp.prog reprs (fun a => (alert a).lift) (PaperOp.prog cfg subs.lift) op) () w w := by
    intro op w hw hop
    refine (handles_fed (P := fun _ e => Traded cfg exchanges ⟨clock, .new, [], env⟩ e)
      hwired).op (fun {l s₀ s} delivery queue hs hqueue => ?_) op hw
      (fun symbol m hm => ?_) fun o ho => ?_
    · have hmem : delivery ∈ s.queue := hqueue ▸ List.mem_cons_self
      refine hlift (keeps_safeCall (hs.2.known delivery hmem) fun callback snapshot heq => ?_)
        l s₀ _ ⟨hs.1, hs.2.next⟩
      exact hs.2.true hsymbols (heq ▸ List.mem_append_right _ hmem)
    · subst hm
      exact hop
    · subst ho
      apply hlift (keeps_paperOp o _) _ _ _ hw
      cases o with
      | placeOrder request => trivial
      | cancelOrder oid => trivial
      | onOrderbook snapshot => exact hop.elim
  exact (Reaches.invariant_of hops hinit h).1

theorem current_of_reaches :
    Current cfg subs exchanges (paperSource cfg subs source symbols) c.state := by
  have hwired := @wired_paperSource ε cfg subs source symbols
  let J : LiveWorld (PaperWorld ε) → Prop :=
    Current cfg subs exchanges (paperSource cfg subs source symbols)
  have hinit : J (.begin (paperSource cfg subs source symbols) ⟨clock, .new, [], env⟩) := by
    have hfans := fansOut_begin ((PaperVenue.start cfg subs symbols).exec source.lift).1
      (⟨clock, .new, [], env⟩ : PaperWorld ε)
    exact ⟨fun _ => rfl, hfans, fun symbol => (exchanges symbol).sends_nil, rfl, rfl,
      by simp [begin]⟩
  have hops : ∀ op w, J w → LiveOp.Fits exchanges op w → (invariance J).Follows (fun _ _ _ => J)
      (fun _ _ _ => J)
      (LiveOp.prog reprs (fun a => (alert a).lift) (PaperOp.prog cfg subs.lift) op) () w w := by
    intro op w hw hop
    refine (handles_fed (P := UpTo cfg subs) hwired).op
      (fun delivery queue hs hqueue => keeps_next hqueue hs) op hw (fun symbol m hm => ?_)
      fun o ho => ?_
    · subst hm
      exact hop
    · subst ho
      apply keeps_current (books_paperOp o fun snapshot heq => ?_) _ _ _ hw
      subst heq
      exact hop
  exact Reaches.invariant_of hops hinit h

/-- However receiver thread, loop and tasks interleave, each fill of the venue is what the
engine makes of a book that the exchange had, at the update id that the book carries. -/
theorem fills_at_true_books (hsymbols : ∀ symbol, (exchanges symbol).symbol = symbol) :
    ∀ before f after, c.state.env.trace = before ++ .fill f :: after →
      ∃ order book, (exchanges f.symbol).TrueAt book ∧
        latest Order.orderId f.orderId (updatesOf before) = some order ∧
        cfg.fillEngine.tryFill order book f.timestamp = some f := by
  intro before f after heq
  have hrun := traded_of_reaches cfg subs reprs alert clock env source symbols h hsymbols
  obtain ⟨order, book, htrue, horder, hfill⟩ :=
    (sourced_steps hrun sourced_new).fills before f after heq
  refine ⟨order, book, ?_, horder, hfill⟩
  rw [(FillEngine.tryFill_describes hfill).symbol, FillEngine.tryFill_symbol hfill]
  exact htrue

/-- When the loop has nothing waiting for a symbol that the venue follows, the venue's book
is the exchange's, as it was at the last message. -/
theorem books_up_to_date (hsymbols : ∀ symbol, (exchanges symbol).symbol = symbol)
    (hstarted : source.started = false) {symbol : Symbol} (hmem : symbol ∈ symbols)
    (hidle : ∀ d ∈ c.state.queue, d.bookOf symbol = none) :
    ∃ packets : List Packet, c.state.messages symbol = packets.map (exchanges symbol).message ∧
      ∀ last, packets.getLast? = some last → ∃ book,
        c.state.env.venue.latestBook.get symbol = some book ∧ (exchanges symbol).TrueAt book ∧
          book.sequence = (exchanges symbol).start + last.reached := by
  obtain ⟨hupto, hfed⟩ := current_of_reaches cfg subs reprs alert clock env source symbols h
  obtain ⟨packets, hpackets, hstep⟩ := hfed.sends symbol
  refine ⟨packets, hpackets, fun last hlast => ?_⟩
  have hvenue : onOrderbook cfg subs.lift ∈
      subscribersOf (paperSource cfg subs source symbols).obSubs symbol :=
    @mem_subscribersOf_start ε cfg subs source.lift hstarted symbol symbols (.inr hmem)
  obtain ⟨before, rfl⟩ := List.getLast?_eq_some_iff.mp hlast
  let ex := exchanges symbol
  let book := (ex.deliver (before ++ [last])).book.toSnapshot (ex.message last).ts
  have hdispatched : (c.state.feed symbol).dispatched = (ex.deliver before).dispatched ++ [book] := by
    rw [LiveWorld.feed, hpackets, ← ex.dispatched_concat, Exchange.deliver, hsymbols]
  have hbegun : c.state.begun.filterMap (Delivery.bookOf symbol) = fanOut
      (paperSource cfg subs source symbols).obSubs symbol
        ((ex.deliver before).dispatched ++ [book]) := by
    rw [← hdispatched, ← hfed.fans.handed, LiveWorld.handed, List.filterMap_append,
      List.filterMap_eq_nil_iff.mpr hidle, List.append_nil]
  refine ⟨book, (hupto symbol).trans (latest_of_handed hbegun hvenue), ?_,
    ex.sequence_concat before last _⟩
  apply ((ex.faithful_iff_inStep _).mpr hstep).true
  rw [ex.dispatched_concat]
  exact List.mem_append_right _ List.mem_cons_self

end Runs

/-- Everywhere a bid of one at 100. -/
def oneBid (symbol : Symbol) : Exchange :=
  .ofChanges symbol 1 (fun side => match side with
    | .bid => [⟨⟨100, 0⟩, ⟨1, 0⟩⟩]
    | .ask => []) fun _ _ => []

def sellOne : List (Label (LiveOp PaperOp)) :=
  [.call (.orderbook "BTC" ((oneBid "BTC").snapshot 0)), .call .startNext,
    .call (.other (.placeOrder ⟨"BTC", .sell, .market, 1, "a", none, .gtc, false⟩))]

def liveProg : LiveOp PaperOp → Coro (LiveWorld (PaperWorld Unit)) Unit :=
  LiveOp.prog ⟨id, PyError.message⟩ (fun _ => (Co.pure () : Coro Unit Unit).lift)
    (PaperOp.prog ⟨.immediate "USDT", 1000, "USDT"⟩
      (Subscribers.lift (⟨[], []⟩ : Subscribers Unit)))

def liveStart : Config (LiveWorld (PaperWorld Unit)) PyError :=
  ⟨.begin (paperSource ⟨.immediate "USDT", 1000, "USDT"⟩ ⟨[], []⟩ (.new 50) ["BTC"])
    ⟨⟨fun n => n, 0⟩, .new, [], ()⟩, []⟩

def soldLive : Config (LiveWorld (PaperWorld Unit)) PyError := liveStart.run liveProg sellOne

theorem reaches_soldLive : Reaches liveProg (LiveOp.Fits oneBid) liveStart soldLive := by
  refine .of_allowed .refl sellOne ⟨⟨[.snapshot 0], rfl, ?_⟩, trivial, trivial, trivial⟩
  obtain ⟨packets, hnil, hstep⟩ := (oneBid "BTC").sends_nil
  rw [List.map_eq_nil_iff.mp hnil.symm] at hstep
  exact ((oneBid "BTC").inStep_concat [] _).mpr ⟨hstep, trivial⟩

def soldAtBid : Fill := ⟨"paper-1", "BTC", .sell, 100, 1, 0, "USDT", false, 1⟩

theorem soldAtBid_true_book : ∃ order book, (oneBid "BTC").TrueAt book ∧
    latest Order.orderId "paper-1" (updatesOf (soldLive.state.env.trace.take 1)) = some order ∧
      FillEngine.tryFill (.immediate "USDT") order book 1 = some soldAtBid := by
  have hfilled : soldLive.state.env.trace = soldLive.state.env.trace.take 1 ++
      .fill soldAtBid :: soldLive.state.env.trace.drop 2 := by decide +kernel
  exact fills_at_true_books _ _ _ (fun _ => .pure ()) _ _ _ _ reaches_soldLive (fun _ => rfl)
    _ soldAtBid _ hfilled

theorem soldLive_up_to_date : ∃ book, soldLive.state.env.venue.latestBook.get "BTC" = some book ∧
    (oneBid "BTC").TrueAt book := by
  have hqueue : soldLive.state.queue = [] := List.length_eq_zero_iff.mp (by decide +kernel)
  obtain ⟨packets, hpackets, hlast⟩ := books_up_to_date _ _ _ (fun _ => .pure ()) _ _ _ _
    reaches_soldLive (fun _ => rfl) rfl List.mem_cons_self fun d hd => by
      rw [hqueue] at hd
      cases hd
  have hone : packets.length = 1 := by
    have hlength := congrArg List.length hpackets
    rw [List.length_map] at hlength
    rw [← hlength]
    decide +kernel
  obtain ⟨last, rfl⟩ := List.length_eq_one_iff.mp hone
  obtain ⟨book, hbook, htrue, -⟩ := hlast last rfl
  exact ⟨book, hbook, htrue⟩

end Trading
