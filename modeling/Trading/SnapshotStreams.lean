import Trading.SerialRuns

/-!
# One stream of snapshots for each symbol

The feeds of the symbols are merged somehow. What becomes of a symbol, at the venue and in
the manager's cache, is decided by its own snapshots.
-/
namespace Trading

open Async Data Relation PaperVenue PaperWorld

section Streams

variable {J ρ : Type} {cfg : PaperConfig} {journal : OrderJournal J} {before after : Subscribers ρ}

/-- Snapshots handled one after another. -/
def processAll (cfg : PaperConfig) (journal : OrderJournal J) (before after : Subscribers ρ)
    (w : OmsWorld J ρ) (books : List OrderbookSnapshot) : OmsWorld J ρ :=
  performAll cfg journal before after w (books.map .onOrderbook)

theorem processAll_eq (w : OmsWorld J ρ) (books : List OrderbookSnapshot) :
    processAll cfg journal before after w books =
      books.foldl (fun w book => processed cfg (managerSubs journal before after) book w) w := by
  rw [processAll, performAll, List.foldl_map]
  rfl

/-- Two streams that agree on a symbol leave its share of the venue alike. -/
theorem share_of_streams (hj : journal.Reliable) (hb : before.Quiet) (ha : after.Quiet)
    {w : OmsWorld J ρ} (h : Mirrors w) {books books' : List OrderbookSnapshot} {symbol : Symbol}
    (hsame : (books.filter fun book => book.symbol = symbol) =
      books'.filter fun book => book.symbol = symbol) :
    ((processAll cfg journal before after w books).venue.only symbol).untimed =
      ((processAll cfg journal before after w books').venue.only symbol).untimed := by
  have hanswers : AnswersBy cfg (managerSubs journal before after) (fun _ _ => true)
      (fun _ => True) w := answersBy_manager hj hb ha h.sound.toPaperMaps h.tracks
  have hlocal : ∀ book : OrderbookSnapshot, LocalAt
      (fun (w : OmsWorld J ρ) symbol => (w.venue.only symbol).untimed)
      (Met cfg (managerSubs journal before after) (fun _ => True) w)
      (processed cfg (managerSubs journal before after) book) book.symbol
      (handled cfg.fillEngine (fun _ _ => true) book) :=
    fun book => processed_local hanswers trivial
  rw [processAll_eq, processAll_eq]
  exact LocalAt.view_foldl_congr (fun book _ => hlocal book) (fun book _ => hlocal book)
    ⟨.refl, h.sound.toPaperMaps⟩ hsame

/-- What becomes of a symbol does not depend on the snapshots of the others. -/
theorem symbol_sees_own_snapshots (hj : journal.Reliable) (hb : before.Quiet) (ha : after.Quiet)
    (j : J) (clock : Clock) (rest : ρ) (ops : List OmsOp) (books : List OrderbookSnapshot)
    (symbol : Symbol) :
    let w := performAll cfg journal before after (.new j clock rest) ops
    let own := books.filter fun book => book.symbol = symbol
    ((processAll cfg journal before after w books).venue.only symbol).untimed =
      ((processAll cfg journal before after w own).venue.only symbol).untimed := by
  intro w own
  have hw : Mirrors w := mirrors_performAll hj hb ha ops (mirrors_new j clock rest)
  refine share_of_streams hj hb ha hw ?_
  rw [List.filter_filter]
  simp

/-- The feeds may be merged in any way that keeps the order within each symbol: venue and
manager end up with the same orders but for their times, and with the same positions. -/
theorem merged_streams_agree (hj : journal.Reliable) (hb : before.Quiet) (ha : after.Quiet)
    (j : J) (clock : Clock) (rest : ρ) (ops : List OmsOp) (books books' : List OrderbookSnapshot)
    (hmerged : ∀ symbol, (books.filter fun book => book.symbol = symbol) =
      books'.filter fun book => book.symbol = symbol) :
    let w := performAll cfg journal before after (.new j clock rest) ops
    let first := processAll cfg journal before after w books
    let last := processAll cfg journal before after w books'
    SameButTimes first.venue last.venue ∧
      ∀ oid, (first.env.oms.orders.get oid).map Order.untimed =
        (last.env.oms.orders.get oid).map Order.untimed := by
  intro w first last
  have hw : Mirrors w := mirrors_performAll hj hb ha ops (mirrors_new j clock rest)
  have hfirst : Mirrors first := mirrors_performAll hj hb ha _ hw
  have hlast : Mirrors last := mirrors_performAll hj hb ha _ hw
  have hsame : SameButTimes first.venue last.venue :=
    same_of_shares fun symbol => share_of_streams hj hb ha hw (hmerged symbol)
  refine ⟨hsame, fun oid => ?_⟩
  rw [hfirst.cache, hlast.cache]
  exact hsame.allOrders oid

end Streams

def bidIn (symbol : Symbol) (cid : ClientOrderId) : OmsOp :=
  .submit cid ⟨symbol, .buy, .limit, 1, some 100, .gtc, false⟩

/-- The system with a bid for each of two symbols. -/
def twoBids : OmsWorld OrderTables Unit :=
  performAll paperImmediate InMemoryOrderJournal.journal ⟨[], []⟩ ⟨[], []⟩
    (.new ⟨[], []⟩ ⟨fun n => n, 0⟩ ()) [bidIn "BTC" "c1", bidIn "ETH" "c2"]

def afterBooks (books : List OrderbookSnapshot) : OmsWorld OrderTables Unit :=
  processAll paperImmediate InMemoryOrderJournal.journal ⟨[], []⟩ ⟨[], []⟩ twoBids books

/-- The bid for the one symbol is filled, by its own snapshot alone. -/
theorem bid_filled_by_own_snapshot :
    ((afterBooks [askFor "ETH", askFor "BTC"]).venue.allOrders.get "paper-1").map Order.status =
        some .filled ∧
      ((afterBooks [askFor "ETH", askFor "BTC"]).venue.only "BTC").untimed =
        ((afterBooks [askFor "BTC"]).venue.only "BTC").untimed :=
  ⟨by decide +kernel, symbol_sees_own_snapshots InMemoryOrderJournal.reliable ⟨by simp, by simp⟩
    ⟨by simp, by simp⟩ ⟨[], []⟩ ⟨fun n => n, 0⟩ () [bidIn "BTC" "c1", bidIn "ETH" "c2"]
    [askFor "ETH", askFor "BTC"] "BTC"⟩

theorem two_feeds_in_either_order :
    SameButTimes (afterBooks [askFor "ETH", askFor "BTC"]).venue
      (afterBooks [askFor "BTC", askFor "ETH"]).venue := by
  have hmerged : ∀ symbol, ([askFor "ETH", askFor "BTC"].filter fun b => b.symbol = symbol) =
      [askFor "BTC", askFor "ETH"].filter fun b => b.symbol = symbol := by
    intro symbol
    by_cases heth : "ETH" = symbol
    · subst heth
      decide
    · by_cases hbtc : "BTC" = symbol
      · subst hbtc
        decide
      · simp [askFor, heth, hbtc]
  exact (merged_streams_agree InMemoryOrderJournal.reliable ⟨by simp, by simp⟩ ⟨by simp, by simp⟩
    ⟨[], []⟩ ⟨fun n => n, 0⟩ () [bidIn "BTC" "c1", bidIn "ETH" "c2"] _ _ hmerged).1

end Trading
