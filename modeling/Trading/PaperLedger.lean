import Mathlib.Data.List.Dedup
import Trading.PaperSteps

/-!
# The paper venue keeps its books

Over any run, with either engine and any subscribers, the venue's balance is the
initial balance plus the cash flow of every fill ever emitted, open inventory
valued at the current mark. The positions hold the same sum symbol by symbol.
-/
namespace Trading

open Async Data Relation PaperVenue PaperWorld

/-- What a fill contributes to the equity of its symbol marked at `mark`. -/
def Fill.cashFlow (mark : Decimal) (f : Fill) : Decimal := f.signed * (mark - f.price) - f.fee

/-- The positions are those the fills lead to: the traded symbols, and under any
marks the equity that the fills' cash flows add up to. -/
structure LedgerOf (fills : List Fill) (positions : Dict Symbol PositionState) : Prop where
  traded : ∀ symbol, symbol ∈ fills.map Fill.symbol ↔ positions.get symbol ≠ none
  equity : ∀ mark : Symbol → Decimal,
    (positions.total fun symbol s => s.equity (mark symbol)) =
      (fills.map fun f => f.cashFlow (mark f.symbol)).sum

theorem LedgerOf.empty : LedgerOf [] .empty where
  traded := by simp
  equity _ := rfl

/-- One more fill keeps the books. -/
theorem LedgerOf.store {fills : List Fill} {v : PaperVenue} (h : LedgerOf fills v.positions)
    (updated : Order) (f : Fill) : LedgerOf (fills ++ [f]) (store updated f v).positions where
  traded symbol := by
    have ht := h.traded symbol
    by_cases hs : symbol = f.symbol
    · simp [PaperVenue.store, hs]
    · have hne : f.symbol ≠ symbol := fun e => hs e.symm
      simp only [PaperVenue.store, Dict.get_set_other _ _ hs, ← ht]
      simp [hs]
  equity mark := by
    have hold : (v.positions.get f.symbol).elim 0 (fun s => s.equity (mark f.symbol)) =
        (v.position f.symbol).equity (mark f.symbol) := by
      rw [position]
      cases v.positions.get f.symbol with
      | none => exact (PositionState.equity_default _).symm
      | some s => rfl
    have hnew := (v.position f.symbol).applyFill_equity f (mark f.symbol)
    rw [PaperVenue.store, Dict.total_set, hold, hnew, h.equity mark, List.map_append,
      List.sum_append]
    simp only [List.map_cons, List.map_nil, List.sum_cons, List.sum_nil, Fill.cashFlow]
    ring

section Runs

variable {ε : Type} {cfg : PaperConfig} {B : OrderbookSnapshot → Prop}

theorem ledger_step {c c' : PaperCore} (hstep : PaperStep cfg B c c')
    (h : LedgerOf (fillsOf c.2) c.1.positions) : LedgerOf (fillsOf c'.2) c'.1.positions := by
  cases hstep with
  | place v tr request now => simpa [enter] using h
  | fill hopen hbook hfill hupdated => simpa using h.store _ _
  | cancel now hopen => simpa [remove] using h
  | observe v tr hbook => exact h

theorem ledger_steps {c c' : PaperCore} (hsteps : ReflTransGen (PaperStep cfg B) c c')
    (h : LedgerOf (fillsOf c.2) c.1.positions) : LedgerOf (fillsOf c'.2) c'.1.positions := by
  induction hsteps with
  | refl => exact h
  | tail _ hstep ih => exact ledger_step hstep ih

end Runs

namespace PaperVenue

variable {ε : Type}

/-- The mark of a symbol, its entry price standing in where there is no book. -/
def mark (v : PaperVenue) (symbol : Symbol) : Decimal :=
  v.markPrice symbol (v.position symbol).entryPrice

/-- Both branches of the unrealized PnL are the signed one. -/
theorem unrealizedPnl_eq (v : PaperVenue) (symbol : Symbol) (s : PositionState) :
    v.unrealizedPnl symbol s = s.netQty * (v.markPrice symbol s.entryPrice - s.entryPrice) := by
  unfold unrealizedPnl
  split
  · ring
  · next h =>
    rw [abs_of_nonpos (not_lt.mp h)]
    ring

/-- Realized and unrealized PnL together are the equity of the positions. -/
theorem totalRealized_add_totalUnrealized (v : PaperVenue) :
    v.totalRealized + v.totalUnrealized =
      v.positions.total fun symbol s => s.equity (v.mark symbol) := by
  rw [totalRealized, totalUnrealized, ← Dict.total_add]
  apply Dict.total_congr
  intro symbol s hs
  have hmark : v.mark symbol = v.markPrice symbol s.entryPrice := by simp [mark, position, hs]
  rw [PositionState.equity, hmark]
  split
  · next hz => simp [hz]
  · rw [unrealizedPnl_eq]

/-- The positions built from some entries carry their unrealized PnL. -/
theorem exec_buildPositions (es : List (Symbol × PositionState)) (w : PaperWorld ε) :
    ∃ w' ps, (buildPositions es).exec w = (w', .ok ps) ∧ w'.venue = w.venue ∧
      (ps.map Position.unrealizedPnl).sum =
        (es.map fun e => if e.2.netQty = 0 then 0 else w.venue.unrealizedPnl e.1 e.2).sum := by
  induction es generalizing w with
  | nil => exact ⟨w, [], rfl, rfl, rfl⟩
  | cons e es ih =>
    obtain ⟨symbol, state⟩ := e
    by_cases hz : state.netQty = 0
    · simpa [buildPositions, hz] using ih w
    · obtain ⟨w', ps, hexec, hv, hsum⟩ :=
        ih w.tick
      simp only [buildPositions, if_neg hz, buildPosition, Co.bind_eq, Co.pure_eq, Co.exec_bind,
        exec_readVenue, exec_readNow, Co.exec_pure, hexec]
      refine ⟨w', _, rfl, hv, ?_⟩
      simp only [List.map_cons, List.sum_cons, hsum, if_neg hz, unrealizedPnl]
      by_cases hpos : 0 < state.netQty
      · simp [hpos, abs_of_pos hpos]
      · simp [hpos]

theorem exec_getPositions (w : PaperWorld ε) :
    ∃ w' ps, getPositions.exec w = (w', .ok ps) ∧
      (ps.map Position.unrealizedPnl).sum = w.venue.totalUnrealized := by
  obtain ⟨w', ps, hexec, -, hsum⟩ := exec_buildPositions w.venue.positions.entries w
  refine ⟨w', ps, ?_, hsum⟩
  rw [getPositions, Co.bind_eq, Co.exec_bind_ok (exec_readVenue w), hexec]

theorem exec_getBalance (cfg : PaperConfig) (w : PaperWorld ε) :
    ∃ w' b, (getBalance cfg).exec w = (w', .ok b) ∧
      b.total = cfg.initialBalance + w.venue.totalRealized + w.venue.totalUnrealized :=
  ⟨_, _, rfl, rfl⟩

end PaperVenue

/-- In every reachable configuration the reported balance is the initial balance
plus the cash flow of all fills, and plus the realized PnL of every symbol traded
and the unrealized PnL of the positions reported. -/
theorem balance_eq_cashFlow {ε : Type} (cfg : PaperConfig) (subs : Subscribers ε) (clock : Clock)
    (env : ε) (c : Config (PaperWorld ε) PyError)
    (hc : Reaches (PaperOp.prog cfg subs.lift) (fun _ _ => True)
      ⟨⟨clock, .new, [], env⟩, []⟩ c) :
    ∃ w₁ balance w₂ positions,
      (getBalance cfg).exec c.state = (w₁, .ok balance) ∧
      getPositions.exec c.state = (w₂, .ok positions) ∧
      balance.total = cfg.initialBalance +
        ((fillsOf c.state.trace).map fun f =>
          f.signed * (c.state.venue.mark f.symbol - f.price) - f.fee).sum ∧
      balance.total = cfg.initialBalance +
        (((fillsOf c.state.trace).map Fill.symbol).dedup.map fun symbol =>
          (c.state.venue.position symbol).realizedPnl).sum +
        (positions.map Position.unrealizedPnl).sum := by
  have hrun : PaperSteps cfg (fun _ => True) ⟨clock, .new, [], env⟩ c.state := by
    refine (reaches_paperSteps .refl (hc.mono fun op _ _ => ?_)).2
    cases op <;> trivial
  have hbooks : LedgerOf (fillsOf c.state.trace) c.state.venue.positions :=
    ledger_steps hrun .empty
  obtain ⟨w₁, balance, hbalance, htotal⟩ := exec_getBalance cfg c.state
  obtain ⟨w₂, positions, hpositions, hunrealized⟩ := exec_getPositions c.state
  refine ⟨w₁, balance, w₂, positions, hbalance, hpositions, ?_, ?_⟩
  · rw [htotal, add_assoc, totalRealized_add_totalUnrealized, hbooks.equity]
    rfl
  · have hrealized : c.state.venue.totalRealized =
        (((fillsOf c.state.trace).map Fill.symbol).dedup.map fun symbol =>
          (c.state.venue.position symbol).realizedPnl).sum := by
      rw [totalRealized, Dict.total_eq_sum _ _ (List.nodup_dedup _)
        fun symbol => List.mem_dedup.trans (hbooks.traded symbol)]
      congr 1
      apply List.map_congr_left
      intro symbol _
      rw [position]
      cases c.state.venue.positions.get symbol <;> rfl
    rw [htotal, hunrealized, hrealized]

/-- A book with one bid and one ask of quantity ten. -/
def spread (symbol : Symbol) (bid ask : Decimal) : OrderbookSnapshot :=
  ⟨symbol, [⟨bid, 10⟩], [⟨ask, 10⟩], 0, 0⟩

/-- Buy one, sell three through zero, then let the book move. -/
def flipRun : List (Label PaperOp) :=
  [.call (.onOrderbook (spread "BTC" 99 101)),
    .call (.placeOrder ⟨"BTC", .buy, .market, 1, "a", none, .gtc, false⟩),
    .call (.onOrderbook (spread "BTC" 109 111)),
    .call (.placeOrder ⟨"BTC", .sell, .market, 3, "b", none, .gtc, false⟩),
    .call (.onOrderbook (spread "BTC" 105 107))]

theorem balance_eq_cashFlow_flip :
    let cfg : PaperConfig := ⟨.orderbook 0 (1 / 1000) "USDT", 1000, "USDT"⟩
    let c : Config (PaperWorld Unit) PyError := Config.run (PaperOp.prog cfg ⟨[], []⟩)
      ⟨⟨⟨fun n => n, 0⟩, .new, [], ()⟩, []⟩ flipRun
    ∃ w balance, (getBalance cfg).exec c.state = (w, .ok balance) ∧
      balance.total = 1000 + (5 - 101 / 1000) + (9 - 327 / 1000) := by
  intro cfg c
  obtain ⟨w, balance, _, _, hbalance, -, htotal, -⟩ :=
    balance_eq_cashFlow cfg ⟨[], []⟩ ⟨fun n => n, 0⟩ () c (.of_run _ flipRun fun _ _ _ => trivial)
  refine ⟨w, balance, hbalance, ?_⟩
  rw [htotal]
  decide +kernel

end Trading
