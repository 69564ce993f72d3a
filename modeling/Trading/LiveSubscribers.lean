import Trading.LiveSource
import Trading.RuntimeParts

/-!
# Who hears what the live source sends

Each subscriber to the books of a symbol notes that it is called before it does anything
else, and may then do, await and raise what it likes. What is noted is compared with the
messages that the receiver thread was given.
-/
namespace Trading

open Async Data Contract LiveMarketDataSource LiveWorld

/-- A call of a subscriber, known by its place among those of the symbol. -/
structure Called where
  symbol : Symbol
  place : Nat
  snapshot : OrderbookSnapshot
  deriving DecidableEq, Repr

section Listening

variable {ε Op : Type}

def noting (symbol : Symbol) (place : Nat) (callback : OrderbookSnapshot → Coro ε Unit)
    (snapshot : OrderbookSnapshot) : Coro (Noted (List Called) ε) Unit := do
  record ⟨symbol, place, snapshot⟩
  (callback snapshot).lift

/-- The source, to which all subscribe who note their calls. -/
def LiveMarketDataSource.noting (source : LiveMarketDataSource ε) :
    LiveMarketDataSource (Noted (List Called) ε) :=
  { (source.lift : LiveMarketDataSource (Noted (List Called) ε)) with
    obSubs := source.obSubs.mapEntries fun symbol => List.mapIdx (Trading.noting symbol) }

/-- The messages that the receiver thread is given for a symbol. -/
def delivered (symbol : Symbol) (labels : List (Label (LiveOp Op))) : List OrderbookMessage :=
  labels.filterMap fun
    | .call (.orderbook key m) => if key = symbol then some m else none
    | _ => none

/-- The calls that some snapshots of a symbol call for: each subscriber in turn. -/
def LiveMarketDataSource.callsFor (source : LiveMarketDataSource ε) (symbol : Symbol)
    (snapshots : List OrderbookSnapshot) : List Called :=
  snapshots.flatMap fun snapshot =>
    (List.range (subscribersOf source.obSubs symbol).length).map fun place =>
      ⟨symbol, place, snapshot⟩

def callsOf (symbol : Symbol) (log : List Called) : List Called :=
  log.filter fun call => call.symbol = symbol

/-- Who is handed the snapshot will note this call. -/
def Called.By (call : Called)
    (d : (OrderbookSnapshot → Coro (Noted (List Called) ε) Unit) × OrderbookSnapshot) : Prop :=
  ∃ callback, d = (Trading.noting call.symbol call.place callback, call.snapshot)

variable {source : LiveMarketDataSource ε} {w : LiveWorld (Noted (List Called) ε)}

theorem callsFor_concat (source : LiveMarketDataSource ε) (symbol : Symbol)
    (snapshots : List OrderbookSnapshot) (snapshot : OrderbookSnapshot) :
    source.callsFor symbol (snapshots ++ [snapshot]) =
      source.callsFor symbol snapshots ++ source.callsFor symbol [snapshot] := by
  rw [callsFor, callsFor, callsFor, List.flatMap_append]

theorem symbol_of_mem_callsFor {symbol : Symbol} {snapshots : List OrderbookSnapshot}
    {call : Called} (h : call ∈ source.callsFor symbol snapshots) : call.symbol = symbol := by
  obtain ⟨snapshot, -, hcall⟩ := List.mem_flatMap.mp h
  obtain ⟨place, -, rfl⟩ := List.mem_map.mp hcall
  rfl

theorem callsOf_concat (symbol : Symbol) (log : List Called) (call : Called) :
    callsOf symbol (log ++ [call]) =
      callsOf symbol log ++ if call.symbol = symbol then [call] else [] := by
  by_cases h : call.symbol = symbol <;> simp [callsOf, h]

theorem subscribersOf_noting (source : LiveMarketDataSource ε) (symbol : Symbol) :
    subscribersOf source.noting.obSubs symbol =
      (subscribersOf source.obSubs symbol).mapIdx (Trading.noting symbol) := by
  rw [subscribersOf, subscribersOf, LiveMarketDataSource.noting, Dict.get_mapEntries]
  cases source.obSubs.get symbol <;> rfl

/-- What the subscribers are handed for a snapshot are the calls that they note. -/
theorem callsFor_by (source : LiveMarketDataSource ε) (symbol : Symbol)
    (snapshot : OrderbookSnapshot) : List.Forall₂ Called.By (source.callsFor symbol [snapshot])
      (fanOut source.noting.obSubs symbol [snapshot]) := by
  rw [callsFor, fanOut, List.flatMap_singleton, List.flatMap_singleton, subscribersOf_noting]
  rw [List.forall₂_iff_get]
  refine ⟨by simp, fun i hi hi' => ?_⟩
  have hplace : i < (subscribersOf source.obSubs symbol).length := by
    rw [List.length_map, List.length_range] at hi
    exact hi
  refine ⟨(subscribersOf source.obSubs symbol)[i], ?_⟩
  simp

/-- What a symbol has heard, and whether there is a book that listens. -/
def LiveWorld.hears (symbol : Symbol) (w : LiveWorld ε) : List OrderbookMessage × Bool :=
  (w.messages symbol, (w.source.books.get symbol).isSome)

/-- Only a message does anything to that, and only when it is handed over. -/
def LiveOp.hearing (symbol : Symbol) : LiveOp Op → List OrderbookMessage × Bool →
    List OrderbookMessage × Bool
  | .orderbook key m, v => if key = symbol ∧ v.2 = true then (v.1 ++ [m], v.2) else v
  | _, v => v

variable {symbol : Symbol}

theorem hears_dispatch (deliveries : List (Delivery ε)) :
    (dispatch deliveries : Coro (LiveWorld ε) Unit).Frames (LiveWorld.hears symbol) := by
  intro w
  refine ⟨?_, trivial⟩
  dsimp only
  split
  · rfl
  · rfl

/-- A message without a book raises; any other is heard by its book. -/
theorem block_orderbookHandler (reprs : Reprs) (key : Symbol) (m : OrderbookMessage)
    (w : LiveWorld ε) :
    (w.source.books.get key = none ∧ ∃ e,
      (orderbookHandler reprs key m).block w = (w, .failed e)) ∨
    ∃ book w', w.source.books.get key = some book ∧
      (orderbookHandler reprs key m).block w = (w', .done ()) ∧
      w'.heard = w.heard ++ [(key, m)] ∧
      w'.source.books = w.source.books.set key (book.apply m) := by
  rw [orderbookHandler, Co.bind_eq, Co.block_bind_done (rfl : Co.get.block w = (w, .done w))]
  cases hbook : w.source.books.get key with
  | none => exact .inl ⟨rfl, _, rfl⟩
  | some book =>
    refine .inr ⟨book, _, rfl, rfl, ?_, ?_⟩
    · show (ite _ _ _ : LiveWorld ε).heard = _
      split
      · rfl
      · rfl
    · show (ite _ _ _ : LiveWorld ε).source.books = _
      split
      · rfl
      · rfl

theorem acts_orderbookHandler (reprs : Reprs) (key : Symbol) (m : OrderbookMessage) :
    (orderbookHandler reprs key m : Coro (LiveWorld ε) Unit).ActsFirst (LiveWorld.hears symbol)
      ((.orderbook key m : LiveOp Op).hearing symbol) where
  first w := by
    rcases block_orderbookHandler reprs key m w with
      ⟨hnone, e, hblock⟩ | ⟨book, w', hbook, hblock, hheard, hbooks⟩
    · rw [hblock, LiveOp.hearing, if_neg]
      rintro ⟨rfl, hsome⟩
      rw [hears, hnone] at hsome
      cases hsome
    · rw [hblock]
      have hmessages : w'.messages symbol =
          w.messages symbol ++ if key = symbol then [m] else [] := by
        rw [messages, hheard, messagesFor_concat]
        rfl
      rw [hears, hmessages, hbooks, LiveOp.hearing]
      by_cases hkey : key = symbol
      · subst hkey
        have hlisten : (w.hears key).2 = true := by rw [hears, hbook]; rfl
        rw [if_pos rfl, if_pos ⟨rfl, hlisten⟩, Dict.get_set_same, hlisten]
        rfl
      · rw [if_neg hkey, if_neg fun h => hkey h.1, List.append_nil,
          Dict.get_set_other _ _ (Ne.symm hkey)]
        rfl
  rest {w w' k} hwait := by
    rcases block_orderbookHandler reprs key m w with
      ⟨-, e, hblock⟩ | ⟨book, w'', -, hblock, -, -⟩
    · rw [hblock] at hwait
      cases hwait
    · rw [hblock] at hwait
      cases hwait

variable [Part Clock ε] {reprs : Reprs} {alert : Alert → Coro ε Unit} {others : Op → Coro ε Unit}

/-- The other operations hand over events at most. -/
theorem acts_op (op : LiveOp Op) : (op.prog reprs alert others).ActsFirst
    (LiveWorld.hears symbol) (op.hearing symbol) := by
  have haside : ∀ {α : Type} (p : Coro ε α),
      (p.lift : Coro (LiveWorld ε) α).Frames (LiveWorld.hears symbol) :=
    fun p => Co.frames_lift p fun _ _ => rfl
  cases op with
  | orderbook key m => exact acts_orderbookHandler reprs key m
  | trades key entries =>
    refine Co.Frames.actsFirst (Co.frames_forEach fun entry _ => ?_)
    exact Co.frames_bind (Co.frames_ofExcept _) fun trade =>
      Co.frames_bind Co.frames_get fun w => hears_dispatch _
  | ticker key m =>
    refine Co.Frames.actsFirst (Co.frames_bind (Co.frames_ofExcept _) fun funding => ?_)
    cases funding with
    | none => exact Co.frames_pure ()
    | some rate => exact Co.frames_bind Co.frames_get fun w => hears_dispatch _
  | startNext =>
    refine Co.Frames.actsFirst (Co.frames_bind Co.frames_get fun w => ?_)
    cases w.queue with
    | nil => exact Co.frames_pure ()
    | cons delivery queue => exact Co.frames_bind (fun _ => ⟨rfl, trivial⟩) fun _ => haside _
  | stop => exact Co.Frames.actsFirst fun _ => ⟨rfl, trivial⟩
  | other op => exact (haside (others op)).actsFirst

/-- Whatever else happens, a symbol that was subscribed to hears all its messages in order. -/
theorem messages_run (source : LiveMarketDataSource ε) (env : ε)
    (labels : List (Label (LiveOp Op))) (hsubs : source.obSubs.get symbol ≠ none) :
    (Config.run (LiveOp.prog reprs alert others) ⟨.begin source.opened env, []⟩
      labels).state.messages symbol = delivered symbol labels := by
  have hfold : ∀ (labels : List (Label (LiveOp Op))) (ms : List OrderbookMessage),
      labels.foldl (Label.acting (LiveOp.hearing symbol)) (ms, true) =
        (ms ++ delivered symbol labels, true) := by
    intro labels
    induction labels with
    | nil => exact fun ms => by rw [delivered, List.filterMap_nil, List.append_nil]; rfl
    | cons label labels ih =>
      intro ms
      rw [List.foldl_cons]
      cases label with
      | resume i => exact ih ms
      | call op =>
        cases op with
        | orderbook key m =>
          by_cases hkey : key = symbol
          · simp [Label.acting, LiveOp.hearing, delivered, hkey, ih]
          · simp [Label.acting, LiveOp.hearing, delivered, hkey, ih]
        | trades key entries => exact ih ms
        | ticker key m => exact ih ms
        | startNext => exact ih ms
        | stop => exact ih ms
        | other op => exact ih ms
  have hacts : ∀ op : LiveOp Op, (op.prog reprs alert others).ActsFirst (LiveWorld.hears symbol)
      (op.hearing symbol) := acts_op
  have hrun := Config.view_run hacts (c := ⟨.begin source.opened env, []⟩)
    (fun p hp => absurd hp List.not_mem_nil) labels
  have hbegin : (LiveWorld.begin source.opened env).hears symbol = ([], true) := by
    rw [hears]
    exact Prod.ext rfl (congrArg Option.isSome (opened_book source hsubs))
  rw [hbegin, hfold, List.nil_append] at hrun
  exact congrArg Prod.fst hrun

end Listening

section Calls

variable {ε Op : Type} (source : LiveMarketDataSource ε)

/-- What was noted and what waits are the calls that the messages so far call for. -/
structure Overheard (w : LiveWorld (Noted (List Called) ε)) : Prop where
  fans : FansOut source.noting.obSubs w
  trades : w.source.tradeSubs = source.noting.tradeSubs
  fundings : w.source.fundingSubs = source.noting.fundingSubs
  aside : ∀ d ∈ w.queue, (∀ symbol, d.bookOf symbol = none) → d.Aside ε
  calls : ∀ symbol, ∃ waiting,
    callsOf symbol w.env.log ++ waiting = source.callsFor symbol (w.feed symbol).dispatched ∧
      List.Forall₂ Called.By waiting (w.queue.filterMap (Delivery.bookOf symbol))

variable {source} {w w' : LiveWorld (Noted (List Called) ε)}

theorem overheard_begin (env : ε) :
    Overheard source (.begin source.noting.opened ⟨[], env⟩) where
  fans := fansOut_begin source.noting _
  trades := rfl
  fundings := rfl
  aside _ hd := absurd hd List.not_mem_nil
  calls _ := ⟨[], rfl, .nil⟩

/-- It looks at nothing but these parts of the state. -/
theorem Overheard.congr (h : Overheard source w) (hsource : w'.source = w.source)
    (hqueue : w'.queue = w.queue) (hbegun : w'.begun = w.begun) (hheard : w'.heard = w.heard)
    (hlog : w'.env.log = w.env.log) : Overheard source w' := by
  have hfeed : ∀ symbol, w'.feed symbol = w.feed symbol := by
    intro symbol
    rw [feed, messages, hheard]
    rfl
  refine ⟨h.fans.congr (by rw [hsource]; exact ⟨rfl, rfl, rfl⟩) hheard fun symbol => ?_, ?_, ?_,
    ?_, fun symbol => ?_⟩
  · rw [LiveWorld.handed, LiveWorld.handed, hqueue, hbegun]
  · rw [hsource]
    exact h.trades
  · rw [hsource]
    exact h.fundings
  · rw [hqueue]
    exact h.aside
  · rw [hqueue, hlog, hfeed]
    exact h.calls symbol

theorem Overheard.hand (h : Overheard source w) {ds : List (Delivery (Noted (List Called) ε))}
    (hds : ∀ symbol, ds.filterMap (Delivery.bookOf symbol) = []) (haside : ∀ d ∈ ds, d.Aside ε) :
    Overheard source (w.hand ds) where
  fans := h.fans.hand hds
  trades := h.trades
  fundings := h.fundings
  aside d hd hnone := (List.mem_append.mp hd).elim (fun hd => h.aside d hd hnone) (haside d)
  calls symbol := by
    obtain ⟨waiting, hcalls, hwait⟩ := h.calls symbol
    refine ⟨waiting, hcalls, ?_⟩
    rw [LiveWorld.hand, List.filterMap_append, hds, List.append_nil]
    exact hwait

/-- The first that waits leaves the queue without a call of a subscriber to the books. -/
theorem Overheard.next_aside (h : Overheard source w) {d : Delivery (Noted (List Called) ε)}
    {queue : List (Delivery (Noted (List Called) ε))} (hqueue : w.queue = d :: queue)
    (hnone : ∀ symbol, d.bookOf symbol = none) : Overheard source w.next where
  fans := h.fans.next
  trades := h.trades
  fundings := h.fundings
  aside d hd := h.aside d (List.mem_of_mem_tail hd)
  calls symbol := by
    obtain ⟨waiting, hcalls, hwait⟩ := h.calls symbol
    refine ⟨waiting, hcalls, ?_⟩
    rw [hqueue, List.filterMap_cons_none (hnone symbol)] at hwait
    rw [LiveWorld.next, hqueue]
    exact hwait

/-- The first that waits is called, as it was to be. -/
theorem Overheard.next_call (h : Overheard source w)
    {callback : OrderbookSnapshot → Coro (Noted (List Called) ε) Unit}
    {snapshot : OrderbookSnapshot} {queue : List (Delivery (Noted (List Called) ε))}
    (hqueue : w.queue = .orderbook callback snapshot :: queue) :
    ∃ place callback', callback = Trading.noting snapshot.symbol place callback' ∧
      Overheard source { w.next with
        env := { w.env with log := w.env.log ++ [⟨snapshot.symbol, place, snapshot⟩] } } := by
  have hbook : ∀ symbol, (Delivery.orderbook callback snapshot).bookOf symbol =
      if snapshot.symbol = symbol then some (callback, snapshot) else none := fun _ => rfl
  obtain ⟨waiting, hcalls, hwait⟩ := h.calls snapshot.symbol
  rw [hqueue, List.filterMap_cons_some ((hbook _).trans (if_pos rfl))] at hwait
  cases hwait with
  | @cons call _ rest _ hby hrest =>
    obtain ⟨callback', hpair⟩ := hby
    obtain ⟨rfl, hsnapshot⟩ := Prod.mk.inj hpair
    have hmem : call ∈ source.callsFor snapshot.symbol (w.feed snapshot.symbol).dispatched :=
      hcalls ▸ List.mem_append_right _ List.mem_cons_self
    have hsymbol : call.symbol = snapshot.symbol := symbol_of_mem_callsFor hmem
    have hcall : call = ⟨snapshot.symbol, call.place, snapshot⟩ := by
      rw [← hsymbol, hsnapshot]
    refine ⟨call.place, callback', by rw [hsymbol], ?_⟩
    rw [← hcall]
    refine ⟨h.fans.next.congr ⟨rfl, rfl, rfl⟩ rfl fun _ => rfl, h.trades, h.fundings,
      fun d hd => h.aside d (List.mem_of_mem_tail hd), fun symbol => ?_⟩
    by_cases hsame : snapshot.symbol = symbol
    · subst hsame
      refine ⟨rest, ?_, ?_⟩
      · rw [callsOf_concat, if_pos hsymbol, List.append_assoc]
        exact hcalls
      · rw [LiveWorld.next, hqueue]
        exact hrest
    · obtain ⟨waiting, hcalls, hwait⟩ := h.calls symbol
      refine ⟨waiting, ?_, ?_⟩
      · rw [callsOf_concat, if_neg (hsymbol ▸ hsame), List.append_nil]
        exact hcalls
      · rw [hqueue, List.filterMap_cons_none ((hbook _).trans (if_neg hsame))] at hwait
        rw [LiveWorld.next, hqueue]
        exact hwait

/-- Who is not subscribed to is not called for. -/
theorem callsFor_nobody {symbol : Symbol} (h : source.noting.obSubs.get symbol = none)
    (snapshots : List OrderbookSnapshot) : source.callsFor symbol snapshots = [] := by
  rw [LiveMarketDataSource.noting, Dict.get_mapEntries, Option.map_eq_none_iff] at h
  rw [callsFor, subscribersOf, h]
  simp

/-- One more message of a stream calls for one more snapshot of its symbol. -/
theorem Overheard.calls_hear (h : Overheard source w) {symbol : Symbol} {book : OrderbookState}
    (hbook : w.source.books.get symbol = some book) (m : OrderbookMessage) (key : Symbol) :
    ∃ waiting, callsOf key w.env.log ++ waiting =
        source.callsFor key ((w.hear symbol m (book.apply m)).feed key).dispatched ∧
      List.Forall₂ Called.By waiting (w.queue.filterMap (Delivery.bookOf key) ++
        if (book.apply m).symbol = key then
          fanOut source.noting.obSubs symbol [(book.apply m).toSnapshot m.ts] else []) := by
  obtain ⟨waiting, hcalls, hwait⟩ := h.calls key
  by_cases hsubs : source.noting.obSubs.get symbol = none
  · have hnobody : fanOut source.noting.obSubs symbol [(book.apply m).toSnapshot m.ts] = [] := by
      rw [fanOut, subscribersOf, hsubs]
      rfl
    refine ⟨waiting, ?_, by rw [hnobody, ite_self, List.append_nil]; exact hwait⟩
    by_cases hkey : symbol = key
    · subst hkey
      rw [callsFor_nobody hsubs] at hcalls ⊢
      exact hcalls
    · rw [feed_hear_other _ _ _ hkey]
      exact hcalls
  · have hlast : book = (w.feed symbol).book :=
      Option.some.inj (hbook.symm.trans (h.fans.books symbol hsubs))
    have hsymbol : (book.apply m).symbol = symbol := by
      rw [hlast]
      exact symbol_handleAll symbol _
    rw [hsymbol]
    by_cases hkey : symbol = key
    · subst hkey
      refine ⟨waiting ++ source.callsFor symbol [(book.apply m).toSnapshot m.ts], ?_, ?_⟩
      · rw [feed_hear_same, OrderbookFeed.handle, ← hlast, callsFor_concat, ← hcalls,
          List.append_assoc]
      · rw [if_pos rfl]
        exact List.rel_append hwait (callsFor_by source symbol _)
    · refine ⟨waiting, ?_, by rw [if_neg hkey, List.append_nil]; exact hwait⟩
      rw [feed_hear_other _ _ _ hkey]
      exact hcalls

theorem Overheard.hear (h : Overheard source w) {symbol : Symbol} {book : OrderbookState}
    (hbook : w.source.books.get symbol = some book) (m : OrderbookMessage) :
    Overheard source (w.hear symbol m (book.apply m)) := by
  refine ⟨h.fans.hear hbook m, h.trades, h.fundings, fun d hd hnone => ?_, fun key => ?_⟩
  · rcases List.mem_append.mp hd with hd | hd
    · exact h.aside d hd hnone
    · obtain ⟨callback, -, rfl⟩ := List.mem_map.mp hd
      have hsome : (Delivery.orderbook callback ((book.apply m).toSnapshot m.ts)).bookOf
          (book.apply m).symbol = some (callback, (book.apply m).toSnapshot m.ts) := if_pos rfl
      exact absurd (hnone _) (hsome ▸ Option.some_ne_none _)
  · rw [LiveWorld.hear, List.filterMap_append, filterMap_bookOf, h.fans.subs]
    exact h.calls_hear hbook m key

theorem handles_overheard :
    HandlersKeep (fun _ _ _ => True) (Overheard (ε := ε) source) where
  started h := h.fans.started
  hear _ hbook h := h.hear hbook _
  trade symbol trade h := by
    refine h.hand (filterMap_bookOf_trades _ trade) fun d hd => ?_
    obtain ⟨callback, hcallback, rfl⟩ := List.mem_map.mp hd
    rw [h.trades] at hcallback
    exact mem_subscribersOf_lift hcallback trade
  funding symbol rate h := by
    refine h.hand (filterMap_bookOf_fundings _ rate) fun d hd => ?_
    obtain ⟨callback, hcallback, rfl⟩ := List.mem_map.mp hd
    rw [h.fundings] at hcallback
    exact mem_subscribersOf_lift hcallback rate
  stop h := ⟨h.fans.congr ⟨rfl, rfl, rfl⟩ rfl fun _ => rfl, h.trades, h.fundings, h.aside, h.calls⟩

/-- What does not know of the notes leaves all this alone. -/
theorem keeps_overheard {α : Type} {p : Coro (Noted (List Called) ε) α} (hp : p.Frames Noted.log) :
    (invariance (Overheard source)).Keeps (fun _ _ => Overheard source)
      (p.lift : Coro (LiveWorld (Noted (List Called) ε)) α) := by
  have haside : (p.lift : Coro (LiveWorld (Noted (List Called) ε)) α).Frames fun w =>
      (w.source, w.queue, w.begun, w.heard) := Co.frames_lift p fun _ _ => rfl
  refine keeps_of_frames (haside.prod hp.lift) (fun l s₀ s s' heq h => ?_) invariance_wait
  simp only [Prod.mk.injEq] at heq
  obtain ⟨⟨hsource, hqueue, hbegun, hheard⟩, hlog⟩ := heq
  exact h.congr hsource hqueue hbegun hheard hlog

variable [Part Clock ε] {reprs : Reprs} {alert : Alert → Coro ε Unit}

/-- The call is noted before anything can go wrong or wait. -/
theorem safeCall_noting (symbol : Symbol) (place : Nat)
    (callback : OrderbookSnapshot → Coro ε Unit) (snapshot : OrderbookSnapshot) :
    safeCall reprs (fun a => (alert a).lift)
        (.orderbook (Trading.noting symbol place callback) snapshot) =
      (record ⟨symbol, place, snapshot⟩ : Coro (Noted (List Called) ε) Unit).bind fun _ =>
        safeCall reprs (fun a => (alert a).lift)
          (.orderbook (fun snapshot => (callback snapshot).lift) snapshot) := rfl

/-- The loop starts what it was handed first. -/
theorem keeps_startNext {l : Unit} {s₀ s : LiveWorld (Noted (List Called) ε)}
    {d : Delivery (Noted (List Called) ε)} {queue : List (Delivery (Noted (List Called) ε))}
    (h : Overheard source s) (hqueue : s.queue = d :: queue) :
    (invariance (Overheard source)).Follows (fun _ _ _ => Overheard source)
      (fun _ _ _ => Overheard source)
      ((safeCall reprs (fun a => (alert a).lift) d).lift :
        Coro (LiveWorld (Noted (List Called) ε)) Unit) l s₀ s.next := by
  have hunnoted : ∀ d : Delivery (Noted (List Called) ε), d.Aside ε →
      (safeCall reprs (fun a => (alert a).lift) d).Frames Noted.log := by
    rintro d ⟨q, hq⟩
    have hd : d.callback.Frames Noted.log := by
      rw [hq]
      exact Co.frames_lift q fun _ _ => rfl
    exact frames_safeCall hd (Co.frames_lift _ fun _ _ => rfl) fun _ =>
      Co.frames_lift _ fun _ _ => rfl
  have haside : (∀ symbol, d.bookOf symbol = none) → (invariance (Overheard source)).Follows
      (fun _ _ _ => Overheard source) (fun _ _ _ => Overheard source)
      ((safeCall reprs (fun a => (alert a).lift) d).lift :
        Coro (LiveWorld (Noted (List Called) ε)) Unit) l s₀ s.next := fun hnone =>
    keeps_overheard (hunnoted d (h.aside d (hqueue ▸ List.mem_cons_self) hnone)) _ _ _
      (h.next_aside hqueue hnone)
  cases d with
  | trade callback trade => exact haside fun _ => rfl
  | funding callback rate => exact haside fun _ => rfl
  | orderbook callback snapshot =>
    obtain ⟨place, callback', rfl, hnext⟩ := h.next_call hqueue
    rw [safeCall_noting, Co.lift_bind, follows_bind]
    exact keeps_overheard (hunnoted _ ⟨callback' snapshot, rfl⟩) _ _ _ hnext

variable {others : Op → Coro ε Unit}

theorem keeps_liveOp (op : LiveOp Op) : (invariance (Overheard source)).Keeps
    (fun _ _ => Overheard source)
    (op.prog reprs (fun a => (alert a).lift) fun op => (others op).lift) := by
  intro l s₀ s h
  exact handles_overheard.op (fun _ _ hs hqueue => keeps_startNext hs hqueue) op h
    (fun _ _ _ => trivial)
    fun op _ => keeps_overheard (Co.frames_lift _ fun _ _ => rfl) l s₀ s h

/-- A turn of the loop takes the first that waits. -/
theorem queue_startNext (reprs : Reprs) (alert : Alert → Coro ε Unit) (w : LiveWorld ε) :
    ((LiveMarketDataSource.startNext reprs alert).block w).1.queue = w.queue.tail := by
  rw [LiveMarketDataSource.startNext, Co.bind_eq,
    Co.block_bind_done (rfl : Co.get.block w = (w, .done w))]
  cases hqueue : w.queue with
  | nil => exact hqueue
  | cons d queue =>
    have hframes : ((safeCall reprs alert d).lift : Coro (LiveWorld ε) Unit).Frames
        LiveWorld.queue := Co.frames_lift _ fun _ _ => rfl
    refine (hframes.block w.next).trans ?_
    rw [LiveWorld.next, hqueue]

/-- Whatever comes in whatever order, and whatever the subscribers do or raise: each of them
has been called with the snapshot that each message of the symbol leads to, once and in the
order of the messages, but for the calls that wait; and the loop's next turn starts the first
of all that waits. -/
theorem subscribers_called_in_order (reprs : Reprs) (alert : Alert → Coro ε Unit)
    (others : Op → Coro ε Unit) (source : LiveMarketDataSource ε) (env : ε)
    (labels : List (Label (LiveOp Op))) (symbol : Symbol) :
    let prog := LiveOp.prog reprs (fun a => (alert a).lift) fun op => (others op).lift
    let c := Config.run prog ⟨.begin source.noting.opened ⟨[], env⟩, []⟩ labels
    (∃ waiting, callsOf symbol c.state.env.log ++ waiting = source.callsFor symbol
        (OrderbookFeed.handleAll symbol (delivered symbol labels)).dispatched ∧
      waiting.length = (c.state.queue.filterMap (Delivery.bookOf symbol)).length) ∧
      (c.step prog (.call .startNext)).state.queue = c.state.queue.tail := by
  intro prog c
  have hrun : Reaches prog (fun _ _ => True) ⟨.begin source.noting.opened ⟨[], env⟩, []⟩ c :=
    .of_run _ labels fun _ _ _ => trivial
  have hc : Overheard source c.state := hrun.invariant keeps_liveOp (overheard_begin env)
  obtain ⟨waiting, hcalls, hwait⟩ := hc.calls symbol
  refine ⟨⟨waiting, hcalls.trans ?_, hwait.length_eq⟩, ?_⟩
  · by_cases hsubs : source.noting.obSubs.get symbol = none
    · rw [callsFor_nobody hsubs, callsFor_nobody hsubs]
    · rw [LiveWorld.feed, messages_run source.noting _ labels hsubs]
  · rw [Config.step, Config.call, Config.state_settle]
    exact queue_startNext reprs _ c.state

end Calls

end Trading
