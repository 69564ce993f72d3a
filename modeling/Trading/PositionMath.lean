import Mathlib.Tactic.FieldSimp
import Mathlib.Tactic.Linarith
import Mathlib.Tactic.LinearCombination
import Mathlib.Tactic.Ring
import Trading.Domain

/-!
# Position accounting

The paper venue keeps one net position per symbol with its entry price and the
PnL realized so far. Valued at any mark, every fill changes the equity of a
position by the same amount, whichever branch of the accounting it takes.
-/
namespace Trading

/-- Net quantity (positive long, negative short), entry price, realized PnL. -/
structure PositionState where
  netQty : Decimal := 0
  entryPrice : Decimal := 0
  realizedPnl : Decimal := 0
  deriving DecidableEq, Repr

structure ApplyResult where
  newState : PositionState
  realizedPnlDelta : Decimal := 0
  deriving DecidableEq, Repr

namespace PositionState

/-- `_apply_fill`: open from flat, add at the weighted average, or reduce, close
and flip. -/
def applyFill (state : PositionState) (fill : Fill) : ApplyResult :=
  let signed := if fill.side = .buy then fill.quantity else -fill.quantity
  let newQty := state.netQty + signed
  let fee := fill.fee
  if state.netQty = 0 then
    { newState := ⟨newQty, fill.price, state.realizedPnl - fee⟩, realizedPnlDelta := -fee }
  else if (0 < state.netQty ∧ 0 < signed) ∨ (state.netQty < 0 ∧ signed < 0) then
    let oldNotional := |state.netQty| * state.entryPrice
    let addedNotional := |signed| * fill.price
    let newAvg := (oldNotional + addedNotional) / |newQty|
    { newState := ⟨newQty, newAvg, state.realizedPnl - fee⟩, realizedPnlDelta := -fee }
  else
    let closed := min |state.netQty| |signed|
    let pnl := if 0 < state.netQty then (fill.price - state.entryPrice) * closed
      else (state.entryPrice - fill.price) * closed
    let newRealized := state.realizedPnl + pnl - fee
    let flipped := |state.netQty| < |signed|
    let newEntry := if flipped then fill.price else state.entryPrice
    { newState := ⟨newQty, newEntry, newRealized⟩, realizedPnlDelta := pnl - fee }

/-- Realized plus unrealized PnL at the given mark. -/
def equity (mark : Decimal) (s : PositionState) : Decimal :=
  s.realizedPnl + s.netQty * (mark - s.entryPrice)

@[simp] theorem equity_default (mark : Decimal) : equity mark {} = 0 := by simp [equity]

@[simp] theorem applyFill_netQty (s : PositionState) (f : Fill) :
    (s.applyFill f).newState.netQty = s.netQty + f.signed := by
  have hsigned : (if f.side = .buy then f.quantity else -f.quantity) = f.signed := rfl
  simp only [applyFill, hsigned]
  split
  · rfl
  · split <;> rfl

/-- Adding in the direction of the position: the new notional is the sum. -/
theorem add_equity {net signed entry price mark : Decimal}
    (h : (0 < net ∧ 0 < signed) ∨ (net < 0 ∧ signed < 0)) :
    (net + signed) * (mark - (|net| * entry + |signed| * price) / |net + signed|) =
      net * (mark - entry) + signed * (mark - price) := by
  rcases h with ⟨hn, hs⟩ | ⟨hn, hs⟩
  · have hsum : 0 < net + signed := by linarith
    have hne : net + signed ≠ 0 := ne_of_gt hsum
    rw [abs_of_pos hn, abs_of_pos hs, abs_of_pos hsum]
    field_simp
    ring
  · have hsum : net + signed < 0 := by linarith
    have hne : net + signed ≠ 0 := ne_of_lt hsum
    have hneg : -net * entry + -signed * price = -(net * entry + signed * price) := by ring
    rw [abs_of_neg hn, abs_of_neg hs, abs_of_neg hsum, hneg, neg_div_neg_eq]
    field_simp
    ring

/-- Trading against the position: what is closed is realized, the rest is open
at the fill's price. -/
theorem reduce_equity {net signed entry price mark : Decimal} (hnet : net ≠ 0)
    (h : ¬((0 < net ∧ 0 < signed) ∨ (net < 0 ∧ signed < 0))) :
    (if 0 < net then (price - entry) * min |net| |signed|
        else (entry - price) * min |net| |signed|) +
      (net + signed) * (mark - if |net| < |signed| then price else entry) =
      net * (mark - entry) + signed * (mark - price) := by
  rcases lt_or_gt_of_ne hnet with hn | hn
  · have hs : 0 ≤ signed := not_lt.mp fun hs => h (.inr ⟨hn, hs⟩)
    rw [if_neg (not_lt.mpr hn.le), abs_of_neg hn, abs_of_nonneg hs]
    split
    · next hf => rw [min_eq_left hf.le]; ring
    · next hf => rw [min_eq_right (not_lt.mp hf)]; ring
  · have hs : signed ≤ 0 := not_lt.mp fun hs => h (.inl ⟨hn, hs⟩)
    rw [if_pos hn, abs_of_pos hn, abs_of_nonpos hs]
    split
    · next hf => rw [min_eq_left hf.le]; ring
    · next hf => rw [min_eq_right (not_lt.mp hf)]; ring

/-- Every fill moves the equity by its own cash flow, valued at the mark. -/
theorem applyFill_equity (s : PositionState) (f : Fill) (mark : Decimal) :
    equity mark (s.applyFill f).newState =
      equity mark s + (f.signed * (mark - f.price) - f.fee) := by
  have hsigned : (if f.side = .buy then f.quantity else -f.quantity) = f.signed := rfl
  simp only [applyFill, hsigned]
  split
  · next hz =>
    simp only [equity, hz]
    ring
  · next hnz =>
    split
    · next hdir =>
      have h := @add_equity s.netQty f.signed s.entryPrice f.price mark hdir
      simp only [equity, h]
      ring
    · next hdir =>
      have h := @reduce_equity s.netQty f.signed s.entryPrice f.price mark hnz hdir
      simp only [equity]
      linear_combination h

end PositionState

end Trading
