import Mathlib.Data.List.Induction
import Trading.PaperSteps

/-!
# The entry price

Where a fill leads depends on how large the position is in the fill's own direction.
Seen so, an execution may be cut into fills at any place, and the entry price stays
between the prices at which the position was built.
-/
namespace Trading

namespace PositionState

/-- The size of the position towards a side: positive if a fill of that side adds to it. -/
def toward (s : PositionState) (side : OrderSide) : Decimal :=
  if side = .buy then s.netQty else -s.netQty

/-- The entry price after a fill, by the size of the position towards the fill's side. -/
def entryAfter (size entry quantity price : Decimal) : Decimal :=
  if size = 0 then price
  else if 0 < size then (size * entry + quantity * price) / (size + quantity)
  else if quantity ≤ -size then entry
  else price

variable {s : PositionState} {f : Fill}

@[simp] theorem toward_applyFill (s : PositionState) (f : Fill) :
    (s.applyFill f).newState.toward f.side = s.toward f.side + f.quantity := by
  simp only [toward, applyFill_netQty, Fill.signed]
  split
  · rfl
  · ring

theorem toward_eq_zero {side : OrderSide} : s.toward side = 0 ↔ s.netQty = 0 := by
  unfold toward
  split
  · rfl
  · exact neg_eq_zero

/-- A fill has the direction of the position when it is towards its side. -/
theorem same_direction_iff (hf : 0 < f.quantity) :
    ((0 < s.netQty ∧ 0 < f.signed) ∨ (s.netQty < 0 ∧ f.signed < 0)) ↔ 0 < s.toward f.side := by
  unfold toward Fill.signed
  split
  · simp [hf, hf.not_gt]
  · simp [hf, hf.not_gt]

theorem abs_signed (hf : 0 < f.quantity) : |f.signed| = f.quantity := by
  unfold Fill.signed
  split
  · exact abs_of_pos hf
  · rw [abs_neg, abs_of_pos hf]

theorem abs_toward (s : PositionState) (side : OrderSide) : |s.netQty| = |s.toward side| := by
  unfold toward
  split
  · rfl
  · exact (abs_neg s.netQty).symm

theorem applyFill_entryPrice (hf : 0 < f.quantity) :
    (s.applyFill f).newState.entryPrice =
      entryAfter (s.toward f.side) s.entryPrice f.quantity f.price := by
  have hsigned : (if f.side = .buy then f.quantity else -f.quantity) = f.signed := rfl
  have hnew : |s.netQty + f.signed| = |s.toward f.side + f.quantity| := by
    rw [← applyFill_netQty, abs_toward _ f.side, toward_applyFill]
  simp only [applyFill, entryAfter, hsigned, toward_eq_zero, same_direction_iff hf, hnew,
    abs_signed hf, abs_toward s f.side]
  split
  · rfl
  · split
    · next hadd => rw [abs_of_pos hadd, abs_of_pos (add_pos hadd hf)]
    · next hadd =>
      dsimp only
      rw [abs_of_nonpos (not_lt.mp hadd)]
      by_cases hflip : -s.toward f.side < f.quantity
      · rw [if_pos hflip, if_neg (not_le.mpr hflip)]
      · rw [if_neg hflip, if_pos (not_lt.mp hflip)]

/-- The reported change of the realized PnL is the change. -/
theorem applyFill_delta (s : PositionState) (f : Fill) :
    (s.applyFill f).realizedPnlDelta = (s.applyFill f).newState.realizedPnl - s.realizedPnl := by
  have hsigned : (if f.side = .buy then f.quantity else -f.quantity) = f.signed := rfl
  simp only [applyFill, hsigned]
  split
  · ring
  · split <;> ring

/-- The entry price after a fill determines what the fill realizes. -/
theorem applyFill_realizedPnl (s : PositionState) (f : Fill) :
    (s.applyFill f).newState.realizedPnl =
      s.realizedPnl - s.netQty * s.entryPrice - f.signed * f.price - f.fee +
        (s.netQty + f.signed) * (s.applyFill f).newState.entryPrice := by
  have hequity := applyFill_equity s f 0
  simp only [equity, applyFill_netQty] at hequity
  linear_combination hequity

/-- Filling in two parts at one price leads to the entry price of filling at once. -/
theorem entryAfter_add {size entry q₁ q₂ price : Decimal} (h₁ : 0 < q₁) (h₂ : 0 < q₂) :
    entryAfter (size + q₁) (entryAfter size entry q₁ price) q₂ price =
      entryAfter size entry (q₁ + q₂) price := by
  unfold entryAfter
  rcases lt_trichotomy size 0 with hsize | rfl | hsize
  · have hopen : size ≠ 0 := hsize.ne
    simp only [hopen, hsize.not_gt, if_false]
    rcases lt_trichotomy q₁ (-size) with hpart | hall | hflip
    · rw [if_neg (by linarith), if_neg (by linarith), if_pos hpart.le]
      by_cases hrest : q₂ ≤ -(size + q₁)
      · rw [if_pos hrest, if_pos (by linarith)]
      · rw [if_neg hrest, if_neg (by linarith)]
    · rw [if_pos (by linarith), if_neg (by linarith)]
    · have hsum : size + q₁ + q₂ ≠ 0 := by linarith
      rw [if_neg (by linarith), if_pos (by linarith), if_neg (by linarith), if_neg (by linarith),
        ← add_mul, mul_div_cancel_left₀ _ hsum]
  · have hsum : q₁ + q₂ ≠ 0 := by linarith
    rw [if_pos rfl, if_pos rfl, zero_add, if_neg h₁.ne', if_pos h₁, ← add_mul,
      mul_div_cancel_left₀ _ hsum]
  · have hsum : size + q₁ ≠ 0 := by linarith
    rw [if_neg hsize.ne', if_pos hsize, if_neg hsize.ne', if_pos hsize, if_neg hsum,
      if_pos (by linarith), mul_div_cancel₀ _ hsum]
    ring

/-- `first` and `second` together are the execution `whole`. -/
structure Cut (whole first second : Fill) : Prop where
  sides : first.side = whole.side ∧ second.side = whole.side
  prices : first.price = whole.price ∧ second.price = whole.price
  positive : 0 < first.quantity ∧ 0 < second.quantity
  quantity : first.quantity + second.quantity = whole.quantity
  fee : first.fee + second.fee = whole.fee

/-- Wherever zero is crossed, two parts of an execution do to a position what the whole does. -/
theorem applyFill_cut (s : PositionState) (whole first second : Fill)
    (hcut : Cut whole first second) :
    let once := s.applyFill whole
    let early := s.applyFill first
    let late := early.newState.applyFill second
    late.newState = once.newState ∧
      early.realizedPnlDelta + late.realizedPnlDelta = once.realizedPnlDelta := by
  intro once early late
  have hwhole : 0 < whole.quantity := by
    rw [← hcut.quantity]
    exact add_pos hcut.positive.1 hcut.positive.2
  have hsigned : first.signed + second.signed = whole.signed := by
    unfold Fill.signed
    rw [hcut.sides.1, hcut.sides.2, ← hcut.quantity]
    split <;> ring
  have hnet : late.newState.netQty = once.newState.netQty := by
    rw [applyFill_netQty, applyFill_netQty, applyFill_netQty, add_assoc, hsigned]
  have hentry : late.newState.entryPrice = once.newState.entryPrice := by
    rw [applyFill_entryPrice hcut.positive.2, applyFill_entryPrice hwhole,
      applyFill_entryPrice hcut.positive.1, hcut.sides.2, ← hcut.sides.1, toward_applyFill,
      hcut.prices.1, hcut.prices.2, ← hcut.quantity]
    exact entryAfter_add hcut.positive.1 hcut.positive.2
  have hrealized : late.newState.realizedPnl = once.newState.realizedPnl := by
    rw [applyFill_realizedPnl, applyFill_realizedPnl, applyFill_realizedPnl, applyFill_netQty,
      hentry, hcut.prices.1, hcut.prices.2, ← hcut.fee, ← hsigned]
    ring
  have hstate : late.newState = once.newState := by
    calc late.newState
        = ⟨late.newState.netQty, late.newState.entryPrice, late.newState.realizedPnl⟩ := rfl
      _ = ⟨once.newState.netQty, once.newState.entryPrice, once.newState.realizedPnl⟩ := by
        rw [hnet, hentry, hrealized]
      _ = once.newState := rfl
  refine ⟨hstate, ?_⟩
  rw [applyFill_delta, applyFill_delta, applyFill_delta, hrealized]
  ring

def sold (quantity fee : Decimal) : Fill :=
  ⟨"paper-1", "BTC", .sell, 110, quantity, fee, "USDT", false, 0⟩

/-- Five are sold from a position of two, the first three in one fill. -/
theorem applyFill_cut_flip :
    (((⟨2, 101, 0⟩ : PositionState).applyFill (sold 3 1)).newState.applyFill (sold 2 1)).newState =
      ⟨-3, 110, 16⟩ := by
  have hcut : Cut (sold 5 2) (sold 3 1) (sold 2 1) :=
    ⟨⟨rfl, rfl⟩, ⟨rfl, rfl⟩, by decide, by decide +kernel, by decide +kernel⟩
  calc _ = ((⟨2, 101, 0⟩ : PositionState).applyFill (sold 5 2)).newState :=
        (applyFill_cut ⟨2, 101, 0⟩ _ _ _ hcut).1
    _ = ⟨-3, 110, 16⟩ := by decide +kernel

/-- The position a sequence of fills leads to. -/
def ofFills (fills : List Fill) : PositionState :=
  fills.foldl (fun s f => (s.applyFill f).newState) {}

theorem ofFills_snoc (fills : List Fill) (f : Fill) :
    ofFills (fills ++ [f]) = ((ofFills fills).applyFill f).newState := by
  simp [ofFills]

/-- The side of the fills that build the position. -/
def side (s : PositionState) : OrderSide := if 0 < s.netQty then .buy else .sell

/-- After `before` the position was last flat or last changed sign: `since` is all that
was executed from then on. -/
structure Since (before since : List Fill) : Prop where
  start : (ofFills before).netQty * (ofFills (before ++ since)).netQty ≤ 0
  kept : ∀ early late, since = early ++ late → early ≠ [] →
    0 < (ofFills (before ++ early)).netQty * (ofFills (before ++ since)).netQty

/-- The entry price lies between prices of the position's own side. -/
def Between (since : List Fill) (s : PositionState) : Prop :=
  (∃ f ∈ since, f.side = s.side ∧ f.price ≤ s.entryPrice) ∧
    ∃ f ∈ since, f.side = s.side ∧ s.entryPrice ≤ f.price

theorem Since.unique {before since before' since' : List Fill} (h : Since before since)
    (h' : Since before' since') (heq : before ++ since = before' ++ since') : before = before' := by
  have hlonger : ∀ {before since before' since' : List Fill}, Since before since →
      Since before' since' → before ++ since = before' ++ since' →
      ∀ more, before' = before ++ more → since = more ++ since' → more = [] := by
    intro before since before' since' h h' heq more hbefore hsince
    by_contra hmore
    have hkept := h.kept more since' hsince hmore
    have hstart := h'.start
    rw [← heq, hbefore] at hstart
    exact absurd hkept (not_lt.mpr hstart)
  obtain ⟨more, hbefore, hsince⟩ | ⟨more, hbefore, hsince⟩ := List.append_eq_append_iff.mp heq
  · rw [hbefore, hlonger h h' heq more hbefore hsince, List.append_nil]
  · rw [hbefore, hlonger h' h heq.symm more hbefore hsince, List.append_nil]

theorem mul_netQty (s s' : PositionState) (side : OrderSide) :
    s.netQty * s'.netQty = s.toward side * s'.toward side := by
  unfold toward
  split <;> ring

theorem side_of_toward_pos {side : OrderSide} (h : 0 < s.toward side) : s.side = side := by
  unfold toward at h
  unfold PositionState.side
  cases side with
  | buy => exact if_pos h
  | sell =>
    simp only [reduceCtorEq, if_false] at h
    exact if_neg (by linarith)

theorem side_eq_of_mul_pos {s' : PositionState} (h : 0 < s.netQty * s'.netQty) :
    s.side = s'.side := by
  unfold PositionState.side
  rcases pos_and_pos_or_neg_and_neg_of_mul_pos h with ⟨hs, hs'⟩ | ⟨hs, hs'⟩
  · rw [if_pos hs, if_pos hs']
  · rw [if_neg hs.not_gt, if_neg hs'.not_gt]

theorem mul_pos_of_mul_pos {a b c : Decimal} (hab : 0 < a * b) (hbc : 0 < b * c) : 0 < a * c := by
  rcases pos_and_pos_or_neg_and_neg_of_mul_pos hab with ⟨ha, hb⟩ | ⟨ha, hb⟩
  · exact mul_pos ha ((mul_pos_iff_of_pos_left hb).mp hbc)
  · exact mul_pos_of_neg_of_neg ha (neg_of_mul_pos_right hbc hb.le)

section Step

variable {before since fills : List Fill}

/-- A fill that leaves the position on its side prolongs what was executed since. -/
theorem Since.snoc (h : Since before since)
    (hsign : 0 < (ofFills (before ++ since)).netQty * (ofFills (before ++ since ++ [f])).netQty) :
    Since before (since ++ [f]) := by
  rw [List.append_assoc] at hsign
  constructor
  · by_contra hstart
    have hback := hsign
    rw [mul_comm] at hback
    exact absurd (mul_pos_of_mul_pos (not_le.mp hstart) hback) (not_lt.mpr h.start)
  · intro early late hsplit hearly
    rcases List.eq_nil_or_concat late with rfl | ⟨late, g, rfl⟩
    · rw [List.append_nil] at hsplit
      rw [← hsplit]
      exact mul_self_pos.mpr (right_ne_zero_of_mul hsign.ne')
    · rw [List.concat_eq_append, ← List.append_assoc] at hsplit
      obtain ⟨hsince, -⟩ := List.append_inj' hsplit rfl
      exact mul_pos_of_mul_pos (h.kept early late hsince hearly) hsign

/-- A fill that opens or turns the position begins anew. -/
theorem since_singleton
    (hsign : (ofFills fills).netQty * (ofFills (fills ++ [f])).netQty ≤ 0)
    (hnet : (ofFills (fills ++ [f])).netQty ≠ 0) : Since fills [f] := by
  refine ⟨hsign, fun early late hsplit hearly => ?_⟩
  cases early with
  | nil => exact absurd rfl hearly
  | cons g early =>
    obtain ⟨rfl, hrest⟩ := List.cons.inj hsplit
    obtain ⟨rfl, -⟩ := List.append_eq_nil_iff.mp hrest.symm
    exact mul_self_pos.mpr hnet

theorem mul_netQty_snoc (fills : List Fill) (f : Fill) :
    (ofFills fills).netQty * (ofFills (fills ++ [f])).netQty =
      (ofFills fills).toward f.side * ((ofFills fills).toward f.side + f.quantity) := by
  rw [ofFills_snoc, mul_netQty _ _ f.side, toward_applyFill]

theorem entryPrice_snoc (fills : List Fill) (hf : 0 < f.quantity) :
    (ofFills (fills ++ [f])).entryPrice =
      entryAfter ((ofFills fills).toward f.side) (ofFills fills).entryPrice f.quantity f.price := by
  rw [ofFills_snoc, applyFill_entryPrice hf]

/-- The position after a fill that opens or turns it has the fill's side and price. -/
theorem between_singleton (hf : 0 < f.quantity)
    (hsign : (ofFills fills).netQty * (ofFills (fills ++ [f])).netQty ≤ 0)
    (hnet : (ofFills (fills ++ [f])).netQty ≠ 0) : Between [f] (ofFills (fills ++ [f])) := by
  have htoward : (ofFills (fills ++ [f])).toward f.side =
      (ofFills fills).toward f.side + f.quantity := by
    rw [ofFills_snoc, toward_applyFill]
  have hnonzero : (ofFills fills).toward f.side + f.quantity ≠ 0 := by
    rw [← htoward]
    exact fun h => hnet (toward_eq_zero.mp h)
  rw [mul_netQty_snoc] at hsign
  have hsize : (ofFills fills).toward f.side ≤ 0 := by
    by_contra hpos
    have hpos' := not_le.mp hpos
    exact absurd (mul_pos hpos' (add_pos hpos' hf)) (not_lt.mpr hsign)
  have hturned : 0 < (ofFills fills).toward f.side + f.quantity := by
    refine lt_of_le_of_ne (not_lt.mp fun hneg => ?_) hnonzero.symm
    have hopen : (ofFills fills).toward f.side < 0 := by linarith
    exact absurd (mul_pos_of_neg_of_neg hopen hneg) (not_lt.mpr hsign)
  have hside : f.side = (ofFills (fills ++ [f])).side := by
    rw [← htoward] at hturned
    exact (side_of_toward_pos hturned).symm
  have hentry : (ofFills (fills ++ [f])).entryPrice = f.price := by
    rw [entryPrice_snoc fills hf, entryAfter, if_neg (not_lt.mpr hsize)]
    split
    · rfl
    · exact if_neg (by linarith)
  have hmem := List.mem_singleton_self f
  exact ⟨⟨f, hmem, hside, hentry.ge⟩, f, hmem, hside, hentry.le⟩

/-- Adding to a position moves its entry price towards the price of the fill. -/
theorem entryAfter_add_bounds {size entry quantity price : Decimal} (hsize : 0 < size)
    (hquantity : 0 < quantity) : min entry price ≤ entryAfter size entry quantity price ∧
      entryAfter size entry quantity price ≤ max entry price := by
  have hsum : 0 < size + quantity := add_pos hsize hquantity
  rw [entryAfter, if_neg hsize.ne', if_pos hsize, le_div_iff₀ hsum, div_le_iff₀ hsum]
  constructor
  · have hentry := mul_le_mul_of_nonneg_left (min_le_left entry price) hsize.le
    have hprice := mul_le_mul_of_nonneg_left (min_le_right entry price) hquantity.le
    linarith
  · have hentry := mul_le_mul_of_nonneg_left (le_max_left entry price) hsize.le
    have hprice := mul_le_mul_of_nonneg_left (le_max_right entry price) hquantity.le
    linarith

theorem between_snoc (hf : 0 < f.quantity) (h : Between since (ofFills fills))
    (hsign : 0 < (ofFills fills).netQty * (ofFills (fills ++ [f])).netQty) :
    Between (since ++ [f]) (ofFills (fills ++ [f])) := by
  obtain ⟨⟨low, hlow, hlowSide, hlowPrice⟩, high, hhigh, hhighSide, hhighPrice⟩ := h
  have hside := side_eq_of_mul_pos hsign
  have hmem : ∀ {g}, g ∈ since → g ∈ since ++ [f] := fun hg => List.mem_append_left [f] hg
  have hentry := entryPrice_snoc fills hf
  rw [mul_netQty_snoc] at hsign
  rcases pos_and_pos_or_neg_and_neg_of_mul_pos hsign with ⟨hsize, hnew⟩ | ⟨hsize, hnew⟩
  · have hfside : f.side = (ofFills (fills ++ [f])).side :=
      (side_of_toward_pos hsize).symm.trans hside
    have hlast : f ∈ since ++ [f] := List.mem_append_right since (List.mem_singleton_self f)
    obtain ⟨hmin, hmax⟩ := @entryAfter_add_bounds _ (ofFills fills).entryPrice _ f.price hsize hf
    rw [← hentry] at hmin hmax
    constructor
    · rcases min_le_iff.mp hmin with hle | hle
      · exact ⟨low, hmem hlow, hlowSide.trans hside, hlowPrice.trans hle⟩
      · exact ⟨f, hlast, hfside, hle⟩
    · rcases le_max_iff.mp hmax with hle | hle
      · exact ⟨high, hmem hhigh, hhighSide.trans hside, hle.trans hhighPrice⟩
      · exact ⟨f, hlast, hfside, hle⟩
  · -- The fill only reduces the position.
    have hkept : (ofFills (fills ++ [f])).entryPrice = (ofFills fills).entryPrice := by
      rw [hentry, entryAfter, if_neg hsize.ne, if_neg hsize.not_gt, if_pos (by linarith)]
    rw [Between, hkept, ← hside]
    exact ⟨⟨low, hmem hlow, hlowSide, hlowPrice⟩, high, hmem hhigh, hhighSide, hhighPrice⟩

end Step

/-- Since it was last flat or turned, a position has an entry price between the prices
executed on its own side. -/
theorem exists_since (fills : List Fill) (hfills : ∀ f ∈ fills, 0 < f.quantity)
    (hnet : (ofFills fills).netQty ≠ 0) :
    ∃ before since, before ++ since = fills ∧ Since before since ∧
      Between since (ofFills fills) := by
  induction fills using List.reverseRecOn with
  | nil => exact absurd rfl hnet
  | append_singleton fills f ih =>
    have hf : 0 < f.quantity := hfills f (by simp)
    have hrest : ∀ g ∈ fills, 0 < g.quantity := fun g hg => hfills g (List.mem_append_left [f] hg)
    by_cases hsign : 0 < (ofFills fills).netQty * (ofFills (fills ++ [f])).netQty
    · obtain ⟨before, since, rfl, hsince, hbetween⟩ := ih hrest (left_ne_zero_of_mul hsign.ne')
      exact ⟨before, since ++ [f], (List.append_assoc _ _ _).symm, hsince.snoc hsign,
        between_snoc hf hbetween hsign⟩
    · have hturn := not_lt.mp hsign
      exact ⟨fills, [f], rfl, since_singleton hturn hnet, between_singleton hf hturn hnet⟩

/-- The entry price of an open position lies between the smallest and the largest price
executed on its own side since it was last flat or changed sign, and a fill that only
reduces the position leaves it alone. -/
theorem entry_price_between (fills : List Fill) (hfills : ∀ f ∈ fills, 0 < f.quantity)
    (hnet : (ofFills fills).netQty ≠ 0) :
    (∃ before since, before ++ since = fills ∧ Since before since) ∧
      (∀ before since, before ++ since = fills → Since before since →
        Between since (ofFills fills)) ∧
      ∀ f, 0 < f.quantity → f.side ≠ (ofFills fills).side →
        f.quantity ≤ |(ofFills fills).netQty| →
        (ofFills (fills ++ [f])).entryPrice = (ofFills fills).entryPrice := by
  obtain ⟨before, since, hsplit, hsince, hbetween⟩ := exists_since fills hfills hnet
  refine ⟨⟨before, since, hsplit, hsince⟩, ?_, ?_⟩
  · intro before' since' hsplit' hsince'
    have hbefore := hsince.unique hsince' (hsplit.trans hsplit'.symm)
    subst hbefore
    rw [← hsplit'] at hsplit
    rw [← List.append_cancel_left hsplit]
    exact hbetween
  · intro f hf hside hle
    have hneg : (ofFills fills).toward f.side < 0 := by
      refine lt_of_le_of_ne (not_lt.mp fun hpos => hside (side_of_toward_pos hpos).symm)
        fun hzero => ?_
      exact hnet (toward_eq_zero.mp hzero)
    rw [abs_toward _ f.side, abs_of_neg hneg] at hle
    rw [entryPrice_snoc fills hf, entryAfter, if_neg hneg.ne, if_neg hneg.not_gt, if_pos hle]

/-- A long of two at 101 is turned by selling five at 110 and added to at 120. -/
def turned : List Fill :=
  [{ sold 2 0 with side := .buy, price := 101 }, sold 5 0, { sold 1 0 with price := 120 }]

theorem entry_price_between_turned :
    (ofFills turned).netQty = -4 ∧ (ofFills turned).entryPrice = 225 / 2 ∧
      (∃ before since, before ++ since = turned ∧ Since before since ∧
        Between since (ofFills turned)) ∧
      (ofFills (turned ++ [{ sold 3 0 with side := .buy }])).entryPrice = 225 / 2 := by
  have hentry : (ofFills turned).entryPrice = 225 / 2 := by decide +kernel
  obtain ⟨⟨before, since, hsplit, hsince⟩, hbetween, hreduce⟩ :=
    entry_price_between turned (by decide) (by decide +kernel)
  refine ⟨by decide +kernel, hentry, ⟨before, since, hsplit, hsince, ?_⟩, ?_⟩
  · exact hbetween before since hsplit hsince
  · rw [hreduce { sold 3 0 with side := .buy } (by decide) (by decide +kernel) (by decide +kernel)]
    exact hentry

end PositionState

open Async Data Relation PaperVenue

/-- Every position is what the fills of its symbol lead to. -/
def PositionsOfFills (c : PaperCore) : Prop :=
  ∀ symbol, c.1.position symbol = PositionState.ofFills (fillsIn symbol c.2)

theorem positionsOfFills_step {cfg : PaperConfig} {B : OrderbookSnapshot → Prop}
    {c c' : PaperCore} (hstep : PaperStep cfg B c c') (h : PositionsOfFills c) :
    PositionsOfFills c' := by
  intro symbol
  cases hstep with
  | place v tr request now => simpa [position, enter, fillsIn] using h symbol
  | @fill v tr oid order updated book now f hopen hbook hfill hupdated =>
    rw [position_store, fillsIn_append, fillsIn_fill]
    by_cases hsymbol : symbol = f.symbol
    · rw [if_pos hsymbol, if_pos hsymbol.symm, PositionState.ofFills_snoc, hsymbol, ← h f.symbol]
    · rw [if_neg hsymbol, if_neg fun e => hsymbol e.symm, List.append_nil]
      exact h symbol
  | cancel now hopen => simpa [position, remove, fillsIn] using h symbol
  | observe v tr hbook => exact h symbol

theorem positionsOfFills_steps {cfg : PaperConfig} {B : OrderbookSnapshot → Prop}
    {c c' : PaperCore} (hsteps : ReflTransGen (PaperStep cfg B) c c') (h : PositionsOfFills c) :
    PositionsOfFills c' := by
  induction hsteps with
  | refl => exact h
  | tail _ hstep ih => exact positionsOfFills_step hstep ih

/-- In every run, so that what is said above holds of the venue's positions. -/
theorem positionsOfFills_run {ε : Type} (cfg : PaperConfig) (subs : Subscribers ε) (clock : Clock)
    (env : ε) (labels : List (Label PaperOp)) :
    PositionsOfFills (Config.run (PaperOp.prog cfg subs.lift) ⟨⟨clock, .new, [], env⟩, []⟩
      labels).state.core := by
  have hrun : PaperSteps cfg (fun _ => True) ⟨clock, .new, [], env⟩
      (Config.run (PaperOp.prog cfg subs.lift) ⟨⟨clock, .new, [], env⟩, []⟩ labels).state :=
    steps_of_run fun _ _ => trivial
  exact positionsOfFills_steps hrun fun _ => rfl

end Trading
