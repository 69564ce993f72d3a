import Trading.Async.Frame
import Trading.LiveMarketData
import Trading.RiskManager

/-!
# The live market data source and its subscribers

The receiver thread turns messages into events and hands the event loop a coroutine for
each subscriber, which the loop starts in this order. Once started, they interleave.
-/
namespace Trading

open Async Data Contract

structure Trade where
  symbol : Symbol
  price : Decimal
  quantity : Decimal
  side : OrderSide
  timestamp : Time
  deriving DecidableEq, Repr

/-- How Python shows a text and an exception. -/
structure Reprs where
  text : String → String
  exc : PyError → String

/-- A number is a text of the wire; `none` is the empty one. -/
def Wire.toDecimal : Option Numeral → Except PyError Decimal
  | none => .error ⟨"ValueError", "expected a numeric string, got empty string"⟩
  | some number => .ok number.toDecimal

def Wire.sideFromBybit (reprs : Reprs) (value : String) : Except PyError OrderSide :=
  if value = "Buy" then .ok .buy
  else if value = "Sell" then .ok .sell
  else .error ⟨"ValueError", s!"unknown Bybit order side: {reprs.text value}"⟩

/-- An entry of a message of the trade stream. -/
structure TradeEntry where
  s : Symbol
  p : Option Numeral
  v : Option Numeral
  side : String
  t : Time
  deriving DecidableEq, Repr

def TradeEntry.trade (reprs : Reprs) (entry : TradeEntry) : Except PyError Trade := do
  let price ← Wire.toDecimal entry.p
  let quantity ← Wire.toDecimal entry.v
  let side ← Wire.sideFromBybit reprs entry.side
  pure ⟨entry.s, price, quantity, side, entry.t⟩

/-- A message of the ticker stream; a rate that is empty is none. -/
structure TickerMessage where
  symbol : Symbol
  fundingRate : Option Numeral
  nextFundingTime : Option Time
  ts : Time
  deriving DecidableEq, Repr

/-- Changes of the ticker without a funding rate say nothing. -/
def TickerMessage.funding (m : TickerMessage) : Except PyError (Option FundingRate) :=
  match m.fundingRate with
  | none => .ok none
  | some rate =>
    match m.nextFundingTime with
    | none => .error ⟨"KeyError", "'nextFundingTime'"⟩
    | some next => .ok (some ⟨m.symbol, rate.toDecimal, none, next, m.ts⟩)

inductive Stream where
  | orderbook (depth : Nat) (symbol : Symbol)
  | trade (symbol : Symbol)
  | ticker (symbol : Symbol)
  deriving DecidableEq, Repr

/-- `ws` is the connection, by the streams it was asked for. The loop is known from
`start()` on, as `started` says. -/
structure LiveMarketDataSource (ε : Type) where
  depth : Nat
  ws : Option (List Stream)
  obSubs : Dict Symbol (List (OrderbookSnapshot → Coro ε Unit))
  tradeSubs : Dict Symbol (List (Trade → Coro ε Unit))
  fundingSubs : Dict Symbol (List (FundingRate → Coro ε Unit))
  books : Dict Symbol OrderbookState
  started : Bool

/-- An event on its way to one subscriber. -/
inductive Delivery (ε : Type) where
  | orderbook (callback : OrderbookSnapshot → Coro ε Unit) (snapshot : OrderbookSnapshot)
  | trade (callback : Trade → Coro ε Unit) (trade : Trade)
  | funding (callback : FundingRate → Coro ε Unit) (rate : FundingRate)

def Delivery.callback {ε : Type} : Delivery ε → Coro ε Unit
  | .orderbook callback snapshot => callback snapshot
  | .trade callback event => callback event
  | .funding callback rate => callback rate

/-- A dictionary of lists, each of which is empty at first. -/
def subscribersOf {α : Type} (subs : Dict Symbol (List α)) (symbol : Symbol) : List α :=
  (subs.get symbol).getD []

def addSubscriber {α : Type} (subs : Dict Symbol (List α)) (symbol : Symbol) (callback : α) :
    Dict Symbol (List α) :=
  subs.set symbol (subscribersOf subs symbol ++ [callback])

theorem subscribersOf_add {α : Type} (subs : Dict Symbol (List α)) (symbol other : Symbol)
    (callback : α) : subscribersOf (addSubscriber subs symbol callback) other =
      subscribersOf subs other ++ if other = symbol then [callback] else [] := by
  by_cases h : other = symbol
  · rw [h, if_pos rfl, subscribersOf, addSubscriber, Dict.get_set_same]
    rfl
  · rw [if_neg h, List.append_nil, subscribersOf, addSubscriber, Dict.get_set_other _ _ h]
    rfl

/-- A delivery whose callback only knows the part. -/
def Delivery.Aside (S : Type) {W : Type} [Part S W] (d : Delivery W) : Prop :=
  ∃ q : Coro S Unit, d.callback = q.lift

/-- Subscribers that know a part of the state only. -/
def LiveMarketDataSource.lift {S W : Type} [Part S W] (source : LiveMarketDataSource S) :
    LiveMarketDataSource W where
  depth := source.depth
  ws := source.ws
  obSubs := source.obSubs.mapValues (List.map fun callback event => (callback event).lift)
  tradeSubs := source.tradeSubs.mapValues (List.map fun callback event => (callback event).lift)
  fundingSubs := source.fundingSubs.mapValues (List.map fun callback event => (callback event).lift)
  books := source.books
  started := source.started

theorem mem_subscribersOf_lift {S W α : Type} [Part S W]
    {subscribers : Dict Symbol (List (α → Coro S Unit))} {symbol : Symbol}
    {callback : α → Coro W Unit} (h : callback ∈ subscribersOf (subscribers.mapValues
      (List.map fun callback event => ((callback event).lift : Coro W Unit))) symbol)
    (event : α) : ∃ q : Coro S Unit, callback event = q.lift := by
  rw [subscribersOf, Dict.get_mapValues] at h
  cases hsubs : subscribers.get symbol with
  | none =>
    rw [hsubs] at h
    cases h
  | some callbacks =>
    rw [hsubs] at h
    obtain ⟨q, -, rfl⟩ := List.mem_map.mp h
    exact ⟨q event, rfl⟩

namespace LiveMarketDataSource

variable {ε : Type}

def new (depth : Nat) : LiveMarketDataSource ε := ⟨depth, none, .empty, .empty, .empty, .empty, false⟩

def requireNotStarted : Coro (LiveMarketDataSource ε) Unit := do
  let source ← Co.get
  if source.started then .throw ⟨"RuntimeError",
    "subscribe_*() must be called before start() — LiveMarketDataSource " ++
      "wires one WS stream per subscribed symbol at start()"⟩

def subscribeOrderbook (symbol : Symbol) (callback : OrderbookSnapshot → Coro ε Unit) :
    Coro (LiveMarketDataSource ε) Unit := do
  requireNotStarted
  Co.modify fun source => { source with obSubs := addSubscriber source.obSubs symbol callback }

def subscribeTrades (symbol : Symbol) (callback : Trade → Coro ε Unit) :
    Coro (LiveMarketDataSource ε) Unit := do
  requireNotStarted
  Co.modify fun source => { source with tradeSubs := addSubscriber source.tradeSubs symbol callback }

def subscribeFunding (symbol : Symbol) (callback : FundingRate → Coro ε Unit) :
    Coro (LiveMarketDataSource ε) Unit := do
  requireNotStarted
  Co.modify fun source =>
    { source with fundingSubs := addSubscriber source.fundingSubs symbol callback }

/-- A stream for each symbol of each kind of subscription. -/
def streams (source : LiveMarketDataSource ε) : List Stream :=
  source.obSubs.keys.map (.orderbook source.depth) ++ source.tradeSubs.keys.map .trade ++
    source.fundingSubs.keys.map .ticker

/-- The source once it is started: a new book for each symbol. -/
def opened (source : LiveMarketDataSource ε) : LiveMarketDataSource ε :=
  { source with
    started := true
    ws := some source.streams
    books := (source.obSubs.keys.map OrderbookState.new).foldl
      (fun books book => books.set book.symbol book) source.books }

def start : Coro (LiveMarketDataSource ε) Unit := Co.modify opened

def stop : Coro (LiveMarketDataSource ε) Unit := Co.modify fun source => { source with ws := none }

end LiveMarketDataSource

/-- The source, what the loop has been handed and not started, and everything else. What
was started and the messages heard are ghosts. -/
structure LiveWorld (ε : Type) where
  source : LiveMarketDataSource ε
  queue : List (Delivery ε)
  begun : List (Delivery ε)
  heard : List (Symbol × OrderbookMessage)
  env : ε

def messagesFor (symbol : Symbol) (heard : List (Symbol × OrderbookMessage)) :
    List OrderbookMessage :=
  (heard.filter fun m => m.1 = symbol).map Prod.snd

theorem messagesFor_concat (symbol other : Symbol) (heard : List (Symbol × OrderbookMessage))
    (m : OrderbookMessage) : messagesFor other (heard ++ [(symbol, m)]) =
      messagesFor other heard ++ if symbol = other then [m] else [] := by
  by_cases h : symbol = other <;> simp [messagesFor, h]

namespace LiveWorld

variable {ε : Type}

instance : Part (LiveMarketDataSource ε) (LiveWorld ε) where
  view w := w.source
  put source w := { w with source := source }
  view_put _ _ := rfl
  put_view _ := rfl
  put_put _ _ _ := rfl

instance : Part ε (LiveWorld ε) where
  view w := w.env
  put e w := { w with env := e }
  view_put _ _ := rfl
  put_view _ := rfl
  put_put _ _ _ := rfl

/-- Nothing has come in yet. -/
def begin (source : LiveMarketDataSource ε) (env : ε) : LiveWorld ε := ⟨source, [], [], [], env⟩

/-- The messages of one symbol's stream, and what became of them. -/
def messages (w : LiveWorld ε) (symbol : Symbol) : List OrderbookMessage :=
  messagesFor symbol w.heard

def feed (w : LiveWorld ε) (symbol : Symbol) : OrderbookFeed := .handleAll symbol (w.messages symbol)

/-- The first delivery that waits leaves the queue. -/
def next (w : LiveWorld ε) : LiveWorld ε :=
  { w with queue := w.queue.tail, begun := w.begun ++ w.queue.take 1 }

end LiveWorld

namespace LiveMarketDataSource

open LiveWorld

variable {ε : Type} [Part Clock ε] (reprs : Reprs) (alert : Alert → Coro ε Unit)

/-- `_dispatch`, to all subscribers of an event. -/
def dispatch (deliveries : List (Delivery ε)) : Coro (LiveWorld ε) Unit :=
  Co.modify fun w => if w.source.started then { w with queue := w.queue ++ deliveries } else w

/-- A message of a stream that was asked for finds a book. -/
def orderbookHandler (symbol : Symbol) (m : OrderbookMessage) : Coro (LiveWorld ε) Unit := do
  let w ← Co.get
  match w.source.books.get symbol with
  | none => .throw ⟨"KeyError", reprs.text symbol⟩
  | some book => do
    let book := book.apply m
    Co.modify fun w =>
      { w with
        source := { w.source with books := w.source.books.set symbol book }
        heard := w.heard ++ [(symbol, m)] }
    dispatch ((subscribersOf w.source.obSubs symbol).map fun callback =>
      .orderbook callback (book.toSnapshot m.ts))

/-- An entry that cannot be read ends the handling of its message. -/
def tradeHandler (symbol : Symbol) (entries : List TradeEntry) : Coro (LiveWorld ε) Unit :=
  Co.forEach entries fun entry => do
    let trade ← Co.ofExcept (entry.trade reprs)
    let w ← Co.get
    dispatch ((subscribersOf w.source.tradeSubs symbol).map fun callback => .trade callback trade)

def fundingHandler (symbol : Symbol) (m : TickerMessage) : Coro (LiveWorld ε) Unit := do
  let funding ← Co.ofExcept m.funding
  match funding with
  | none => pure ()
  | some rate => do
    let w ← Co.get
    dispatch ((subscribersOf w.source.fundingSubs symbol).map fun callback => .funding callback rate)

def callbackAlert (exc : PyError) (now : Time) : Alert where
  level := .alert
  component := "LiveMarketDataSource"
  message := s!"market-data subscriber callback raised: {reprs.exc exc}"
  timestamp := now
  correlationKey := some "market_data:callback_error"

/-- An error of a callback is alerted. -/
def safeCall (delivery : Delivery ε) : Coro ε Unit := do
  match ← delivery.callback.caught with
  | .ok _ => pure ()
  | .error exc => do
    let now ← (Clock.now.lift : Coro ε Time)
    alert (callbackAlert reprs exc now)

/-- The loop starts what it was handed first. -/
def startNext : Coro (LiveWorld ε) Unit := do
  let w ← Co.get
  match w.queue with
  | [] => pure ()
  | delivery :: _ => do
    Co.modify next
    (safeCall reprs alert delivery).lift

end LiveMarketDataSource

/-- What the receiver thread and the loop do, and the operations of everything else. -/
inductive LiveOp (Op : Type) where
  | orderbook (symbol : Symbol) (m : OrderbookMessage)
  | trades (symbol : Symbol) (entries : List TradeEntry)
  | ticker (symbol : Symbol) (m : TickerMessage)
  | startNext
  | stop
  | other (op : Op)

section Ops

open LiveMarketDataSource

variable {ε Op : Type} [Part Clock ε] (reprs : Reprs) (alert : Alert → Coro ε Unit)
  (others : Op → Coro ε Unit)

def LiveOp.prog : LiveOp Op → Coro (LiveWorld ε) Unit
  | .orderbook symbol m => orderbookHandler reprs symbol m
  | .trades symbol entries => tradeHandler reprs symbol entries
  | .ticker symbol m => fundingHandler symbol m
  | .startNext => LiveMarketDataSource.startNext reprs alert
  | .stop => (LiveMarketDataSource.stop : Coro (LiveMarketDataSource ε) Unit).lift
  | .other op => (others op).lift

end Ops

/-- What neither callback nor alert sees, the loop leaves alone. -/
theorem LiveMarketDataSource.frames_safeCall {ε ν : Type} [Part Clock ε] {view : ε → ν}
    {reprs : Reprs} {alert : Alert → Coro ε Unit} {d : Delivery ε} (hd : d.callback.Frames view)
    (hclock : (Clock.now.lift : Coro ε Time).Frames view) (halert : ∀ a, (alert a).Frames view) :
    (safeCall reprs alert d).Frames view := by
  refine Co.frames_bind (Co.frames_caught hd) fun outcome => ?_
  cases outcome with
  | ok _ => exact Co.frames_pure ()
  | error exc => exact Co.frames_bind hclock fun now => halert _

/-- A message reaches its book, and the subscribers are handed what the book shows then. -/
def LiveWorld.hear (symbol : Symbol) (m : OrderbookMessage) (book : OrderbookState)
    (w : LiveWorld ε) : LiveWorld ε :=
  { w with
    source := { w.source with books := w.source.books.set symbol book }
    heard := w.heard ++ [(symbol, m)]
    queue := w.queue ++ (subscribersOf w.source.obSubs symbol).map fun callback =>
      .orderbook callback (book.toSnapshot m.ts) }

/-- Events that come from the books of no symbol are handed over too. -/
def LiveWorld.hand {ε : Type} (ds : List (Delivery ε)) (w : LiveWorld ε) : LiveWorld ε :=
  { w with queue := w.queue ++ ds }

/-- The handlers keep `I`, which allows messages of which `pre` holds. -/
structure HandlersKeep {ε : Type} (pre : Symbol → OrderbookMessage → LiveWorld ε → Prop)
    (I : LiveWorld ε → Prop) : Prop where
  started : ∀ {w}, I w → w.source.started = true
  hear : ∀ {w symbol m book}, pre symbol m w → w.source.books.get symbol = some book → I w →
    I (w.hear symbol m (book.apply m))
  trade : ∀ {w} symbol trade, I w →
    I (w.hand ((subscribersOf w.source.tradeSubs symbol).map fun callback => .trade callback trade))
  funding : ∀ {w} symbol rate, I w →
    I (w.hand ((subscribersOf w.source.fundingSubs symbol).map fun callback =>
      .funding callback rate))
  stop : ∀ {w}, I w → I { w with source := { w.source with ws := none } }

namespace HandlersKeep

open LiveMarketDataSource

variable {ε ℓ : Type} {C : Contract (LiveWorld ε) ℓ} {reprs : Reprs}
  {pre : Symbol → OrderbookMessage → LiveWorld ε → Prop} {I : LiveWorld ε → Prop} {l : ℓ}
  {s₀ s : LiveWorld ε}

theorem orderbook (h : HandlersKeep pre I) {symbol : Symbol} {m : OrderbookMessage} (hI : I s)
    (hpre : pre symbol m s) : C.Follows (fun _ _ _ => I) (fun _ _ _ => I)
      (orderbookHandler reprs symbol m) l s₀ s := by
  rw [orderbookHandler, Co.bind_eq, follows_bind, follows_get]
  cases hbook : s.source.books.get symbol with
  | none => exact hI
  | some book =>
    have hheard := h.hear hpre hbook hI
    dsimp only
    rw [Co.bind_eq, follows_bind, follows_modify, dispatch, follows_modify, if_pos (h.started hI)]
    exact hheard

theorem trades (h : HandlersKeep pre I) (symbol : Symbol) (entries : List TradeEntry) :
    C.Keeps (fun _ _ => I) (tradeHandler reprs symbol entries) := by
  refine keeps_forEach fun entry _ => keeps_bind (keeps_ofExcept _) fun trade => ?_
  intro l s₀ s hI
  rw [Co.bind_eq, follows_bind, follows_get, dispatch, follows_modify, if_pos (h.started hI)]
  exact h.trade symbol trade hI

theorem ticker (h : HandlersKeep pre I) (symbol : Symbol) (m : TickerMessage) :
    C.Keeps (fun _ _ => I) (fundingHandler symbol m) := by
  refine keeps_bind (keeps_ofExcept _) fun funding => ?_
  cases funding with
  | none => exact keeps_pure ()
  | some rate =>
    intro l s₀ s hI
    dsimp only
    rw [Co.bind_eq, follows_bind, follows_get, dispatch, follows_modify, if_pos (h.started hI)]
    exact h.funding symbol rate hI

/-- To keep `I` the loop and the other tasks have to, whatever the handlers do. -/
theorem op {Op : Type} [Part Clock ε] {alert : Alert → Coro ε Unit} {others : Op → Coro ε Unit}
    (h : HandlersKeep pre I)
    (hnext : ∀ {l s₀ s} delivery queue, I s → s.queue = delivery :: queue →
      C.Follows (fun _ _ _ => I) (fun _ _ _ => I)
        ((safeCall reprs alert delivery).lift : Coro (LiveWorld ε) Unit) l s₀ s.next)
    (op : LiveOp Op) (hI : I s)
    (hbook : ∀ symbol m, op = .orderbook symbol m → pre symbol m s)
    (hother : ∀ o, op = .other o → C.Follows (fun _ _ _ => I) (fun _ _ _ => I)
      ((others o).lift : Coro (LiveWorld ε) Unit) l s₀ s) :
    C.Follows (fun _ _ _ => I) (fun _ _ _ => I) (op.prog reprs alert others) l s₀ s := by
  cases op with
  | orderbook symbol m => exact h.orderbook hI (hbook symbol m rfl)
  | trades symbol entries => exact h.trades symbol entries l s₀ s hI
  | ticker symbol m => exact h.ticker symbol m l s₀ s hI
  | startNext =>
    rw [LiveOp.prog, LiveMarketDataSource.startNext, Co.bind_eq, follows_bind, follows_get]
    cases hqueue : s.queue with
    | nil => exact hI
    | cons delivery queue =>
      dsimp only
      rw [Co.bind_eq, follows_bind, follows_modify]
      exact hnext delivery queue hI hqueue
  | stop => exact h.stop hI
  | other o => exact hother o rfl

end HandlersKeep

/-- A stream that is asked for has an empty book at first. -/
theorem opened_book {ε : Type} (source : LiveMarketDataSource ε) {symbol : Symbol}
    (h : source.obSubs.get symbol ≠ none) :
    source.opened.books.get symbol = some (.new symbol) := by
  have hsome : ((source.obSubs.keys.map OrderbookState.new).reverse.find? fun book =>
      book.symbol = symbol).isSome := by
    rw [List.find?_isSome]
    refine ⟨.new symbol, ?_, decide_eq_true rfl⟩
    exact List.mem_reverse.mpr (List.mem_map_of_mem (Dict.mem_keys.mpr h))
  obtain ⟨book, hbook⟩ := Option.isSome_iff_exists.mp hsome
  have hsymbol : book.symbol = symbol := of_decide_eq_true
    (List.find?_some (p := fun book : OrderbookState => decide (book.symbol = symbol)) hbook)
  obtain ⟨other, -, rfl⟩ := List.mem_map.mp (List.mem_reverse.mp (List.mem_of_find?_eq_some hbook))
  have hother : other = symbol := hsymbol
  rw [LiveMarketDataSource.opened, Dict.get_foldl_set, hbook, hother]
  rfl

section FanOut

open LiveMarketDataSource LiveWorld

variable {ε Op : Type}

/-- Who gets which snapshot of the symbol. -/
def Delivery.bookOf (symbol : Symbol) :
    Delivery ε → Option ((OrderbookSnapshot → Coro ε Unit) × OrderbookSnapshot)
  | .orderbook callback snapshot =>
    if snapshot.symbol = symbol then some (callback, snapshot) else none
  | _ => none

/-- Everything handed to the loop so far, in this order. -/
def LiveWorld.handed (w : LiveWorld ε) (symbol : Symbol) :
    List ((OrderbookSnapshot → Coro ε Unit) × OrderbookSnapshot) :=
  (w.begun ++ w.queue).filterMap (Delivery.bookOf symbol)

/-- What the symbol's subscribers should get for some snapshots. -/
def fanOut (obSubs : Dict Symbol (List (OrderbookSnapshot → Coro ε Unit))) (symbol : Symbol)
    (snapshots : List OrderbookSnapshot) :
    List ((OrderbookSnapshot → Coro ε Unit) × OrderbookSnapshot) :=
  snapshots.flatMap fun snapshot => (subscribersOf obSubs symbol).map fun callback =>
    (callback, snapshot)

/-- The books follow the messages, and the subscribers are handed what the books show. -/
structure FansOut (obSubs : Dict Symbol (List (OrderbookSnapshot → Coro ε Unit)))
    (w : LiveWorld ε) : Prop where
  started : w.source.started = true
  subs : w.source.obSubs = obSubs
  books : ∀ symbol, obSubs.get symbol ≠ none →
    w.source.books.get symbol = some (w.feed symbol).book
  handed : ∀ symbol, w.handed symbol = fanOut obSubs symbol (w.feed symbol).dispatched

variable {obSubs : Dict Symbol (List (OrderbookSnapshot → Coro ε Unit))} {w w' : LiveWorld ε}

theorem symbol_handleAll (symbol : Symbol) (ms : List OrderbookMessage) :
    (OrderbookFeed.handleAll symbol ms).book.symbol = symbol := by
  induction ms using List.reverseRecOn with
  | nil => rfl
  | append_singleton ms m ih =>
    rw [OrderbookFeed.handleAll_concat]
    exact ih

/-- What is known about the books and the messages, and what was handed over, is kept. -/
theorem FansOut.congr (h : FansOut obSubs w) (hsource : w'.source.started = w.source.started ∧
    w'.source.obSubs = w.source.obSubs ∧ w'.source.books = w.source.books)
    (hheard : w'.heard = w.heard) (hhanded : ∀ symbol, w'.handed symbol = w.handed symbol) :
    FansOut obSubs w' := by
  have hfeed : ∀ symbol, w'.feed symbol = w.feed symbol := by
    intro symbol
    rw [feed, messages, hheard]
    rfl
  refine ⟨hsource.1.trans h.started, hsource.2.1.trans h.subs, fun symbol hsome => ?_,
    fun symbol => ?_⟩
  · rw [hsource.2.2, hfeed]
    exact h.books symbol hsome
  · rw [hhanded, hfeed]
    exact h.handed symbol

theorem feed_hear_same (symbol : Symbol) (m : OrderbookMessage) (book : OrderbookState)
    (w : LiveWorld ε) : (w.hear symbol m book).feed symbol = (w.feed symbol).handle m := by
  rw [feed, messages, hear, messagesFor_concat, if_pos rfl, OrderbookFeed.handleAll_concat]
  rfl

theorem feed_hear_other {symbol other : Symbol} (m : OrderbookMessage) (book : OrderbookState)
    (w : LiveWorld ε) (h : symbol ≠ other) : (w.hear symbol m book).feed other = w.feed other := by
  rw [feed, messages, hear, messagesFor_concat, if_neg h, List.append_nil]
  rfl

theorem filterMap_bookOf_trades (callbacks : List (Trade → Coro ε Unit)) (trade : Trade)
    (symbol : Symbol) : (callbacks.map fun callback =>
      Delivery.trade callback trade).filterMap (Delivery.bookOf symbol) = [] := by
  simp [List.filterMap_map, Function.comp_def, Delivery.bookOf]

theorem filterMap_bookOf_fundings (callbacks : List (FundingRate → Coro ε Unit))
    (rate : FundingRate) (symbol : Symbol) : (callbacks.map fun callback =>
      Delivery.funding callback rate).filterMap (Delivery.bookOf symbol) = [] := by
  simp [List.filterMap_map, Function.comp_def, Delivery.bookOf]

theorem filterMap_bookOf (obSubs : Dict Symbol (List (OrderbookSnapshot → Coro ε Unit)))
    (symbol other : Symbol) (snapshot : OrderbookSnapshot) :
    ((subscribersOf obSubs symbol).map fun callback =>
      Delivery.orderbook callback snapshot).filterMap (Delivery.bookOf other) =
      if snapshot.symbol = other then fanOut obSubs symbol [snapshot] else [] := by
  rw [List.filterMap_map]
  by_cases h : snapshot.symbol = other <;>
    simp [Function.comp_def, Delivery.bookOf, h, fanOut]

theorem handed_hear (symbol other : Symbol) (m : OrderbookMessage) (book : OrderbookState)
    (w : LiveWorld ε) : (w.hear symbol m book).handed other = w.handed other ++
      if book.symbol = other then fanOut w.source.obSubs symbol [book.toSnapshot m.ts] else [] := by
  rw [LiveWorld.handed, hear, ← List.append_assoc, List.filterMap_append, filterMap_bookOf]
  rfl

/-- One more message of a stream. -/
theorem FansOut.hear (h : FansOut obSubs w) {symbol : Symbol} {book : OrderbookState}
    (hbook : w.source.books.get symbol = some book) (m : OrderbookMessage) :
    FansOut obSubs (w.hear symbol m (book.apply m)) := by
  have hnew : obSubs.get symbol ≠ none → book = (w.feed symbol).book :=
    fun hsome => Option.some.inj (hbook.symm.trans (h.books symbol hsome))
  refine ⟨h.started, h.subs, fun other hsome => ?_, fun other => ?_⟩
  · by_cases heq : symbol = other
    · subst heq
      rw [feed_hear_same, hnew hsome]
      exact Dict.get_set_same _ _ _
    · rw [feed_hear_other _ _ _ heq, ← h.books other hsome]
      exact Dict.get_set_other _ _ (Ne.symm heq)
  · rw [handed_hear, h.handed, h.subs]
    by_cases hsubs : obSubs.get symbol = none
    · have hnobody : ∀ snapshots, fanOut obSubs symbol snapshots = [] := by
        intro snapshots
        rw [fanOut, subscribersOf, hsubs]
        simp
      by_cases heq : symbol = other
      · subst heq
        simp [hnobody]
      · simp [hnobody, feed_hear_other _ _ _ heq]
    · have hsymbol : (book.apply m).symbol = symbol := by
        rw [hnew hsubs]
        exact symbol_handleAll symbol _
      rw [hsymbol]
      by_cases heq : symbol = other
      · subst heq
        rw [if_pos rfl, feed_hear_same, OrderbookFeed.handle, ← hnew hsubs, fanOut, fanOut, fanOut,
          List.flatMap_append]
      · rw [if_neg heq, feed_hear_other _ _ _ heq, List.append_nil]

variable [Part Clock ε] {reprs : Reprs} {alert : Alert → Coro ε Unit} {others : Op → Coro ε Unit}

omit [Part Clock ε] in
/-- Handing over what is no snapshot makes no difference to the books. -/
theorem FansOut.hand (h : FansOut obSubs w) {ds : List (Delivery ε)}
    (hds : ∀ symbol, ds.filterMap (Delivery.bookOf symbol) = []) : FansOut obSubs (w.hand ds) := by
  refine h.congr ⟨rfl, rfl, rfl⟩ rfl fun symbol => ?_
  rw [LiveWorld.handed, LiveWorld.hand, ← List.append_assoc, List.filterMap_append, hds,
    List.append_nil]
  rfl

omit [Part Clock ε] in
theorem FansOut.next (h : FansOut obSubs w) : FansOut obSubs w.next := by
  have hqueue : w.queue.take 1 ++ w.queue.tail = w.queue := by
    rw [← List.drop_one]
    exact List.take_append_drop 1 w.queue
  refine h.congr ⟨rfl, rfl, rfl⟩ rfl fun symbol => ?_
  change ((w.begun ++ w.queue.take 1) ++ w.queue.tail).filterMap _ = _
  rw [List.append_assoc, hqueue]
  rfl

omit [Part Clock ε] in
theorem fansOut_begin (source : LiveMarketDataSource ε) (env : ε) :
    FansOut source.obSubs (.begin source.opened env) :=
  ⟨rfl, rfl, fun _ hsome => opened_book source hsome, fun _ => rfl⟩

end FanOut

end Trading
