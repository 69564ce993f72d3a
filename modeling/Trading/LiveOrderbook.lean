import Mathlib.Algebra.Order.Ring.Rat
import Mathlib.Data.List.Sort
import Trading.Data.Latest
import Trading.Domain

/-!
# The live orderbook

A book per symbol, kept as two dictionaries from price to size: a snapshot message
resets it, a delta overwrites levels, a size of zero deletes one. The reference
book remembers, for every price, the last size written since the last snapshot.
-/
namespace Trading

open Data

/-- A decimal number as it is written: `1000` with scale 1 is the text 100.0. -/
structure Numeral where
  digits : Int
  scale : Nat
  deriving DecidableEq, Repr

/-- `Decimal(text)`. -/
def Numeral.toDecimal (n : Numeral) : Decimal := n.digits / 10 ^ n.scale

structure RawLevel where
  price : Numeral
  size : Numeral
  deriving DecidableEq, Repr

/-- A message of the orderbook stream; `u` is absent if it is no integer. -/
structure OrderbookMessage where
  type : Option String
  b : Option (List RawLevel)
  a : Option (List RawLevel)
  u : Option Int
  ts : Time
  deriving DecidableEq, Repr

inductive BookSide where
  | bid | ask
  deriving DecidableEq, Repr

namespace OrderbookMessage

def isSnapshot (m : OrderbookMessage) : Bool := m.type.getD "delta" = "snapshot"

def levels (m : OrderbookMessage) : BookSide → List RawLevel
  | .bid => m.b.getD []
  | .ask => m.a.getD []

end OrderbookMessage

/-- `_OrderbookState`. -/
structure OrderbookState where
  symbol : Symbol
  bids : Dict Decimal Decimal
  asks : Dict Decimal Decimal
  lastUpdateId : Option Int

namespace OrderbookState

def new (symbol : Symbol) : OrderbookState := ⟨symbol, .empty, .empty, none⟩

def applyLevel (side : Dict Decimal Decimal) (level : RawLevel) : Dict Decimal Decimal :=
  if level.size.toDecimal = 0 then side.pop level.price.toDecimal
  else side.set level.price.toDecimal level.size.toDecimal

def applySide (side : Dict Decimal Decimal) (levels : List RawLevel) : Dict Decimal Decimal :=
  levels.foldl applyLevel side

/-- A delta whose update id does not exceed the last one is applied all the same. -/
def apply (s : OrderbookState) (m : OrderbookMessage) : OrderbookState :=
  { s with
    bids := applySide (if m.isSnapshot then .empty else s.bids) (m.levels .bid)
    asks := applySide (if m.isSnapshot then .empty else s.asks) (m.levels .ask)
    lastUpdateId := m.u.or s.lastUpdateId }

/-- The ids of the warning that is logged before a delta is applied. -/
def warning (s : OrderbookState) (m : OrderbookMessage) : Option (Int × Int) :=
  match m.isSnapshot, s.lastUpdateId, m.u with
  | false, some last, some newId => if newId ≤ last then some (newId, last) else none
  | _, _, _ => none

def levelsAt (side : Dict Decimal Decimal) (prices : List Decimal) : List Level :=
  prices.map fun p => ⟨p, (side.get p).getD 0⟩

def toSnapshot (s : OrderbookState) (timestamp : Time) : OrderbookSnapshot where
  symbol := s.symbol
  bids := levelsAt s.bids (s.bids.keys.insertionSort (· ≥ ·))
  asks := levelsAt s.asks (s.asks.keys.insertionSort (· ≤ ·))
  sequence := s.lastUpdateId.getD 0
  timestamp := timestamp

/-- The state after a sequence of messages. -/
def applyAll (s : OrderbookState) (ms : List OrderbookMessage) : OrderbookState := ms.foldl apply s

theorem applyAll_concat (s : OrderbookState) (ms : List OrderbookMessage) (m : OrderbookMessage) :
    s.applyAll (ms ++ [m]) = (s.applyAll ms).apply m := by
  rw [applyAll, List.foldl_append]
  rfl

def side (s : OrderbookState) : BookSide → Dict Decimal Decimal
  | .bid => s.bids
  | .ask => s.asks

theorem side_apply (s : OrderbookState) (m : OrderbookMessage) (side : BookSide) :
    (s.apply m).side side =
      applySide (if m.isSnapshot then .empty else s.side side) (m.levels side) := by
  cases side <;> rfl

/-- A level leaves every other price alone. -/
theorem applyLevel_get (side : Dict Decimal Decimal) (level : RawLevel) (p : Decimal) :
    (applyLevel side level).get p = if level.price.toDecimal = p then
      (some level.size.toDecimal).filter (· ≠ 0) else side.get p := by
  by_cases hp : level.price.toDecimal = p
  · by_cases hzero : level.size.toDecimal = 0 <;>
      simp [applyLevel, hp, hzero, Dict.get_pop, Option.filter]
  · have hp' : ¬ p = level.price.toDecimal := fun e => hp e.symm
    by_cases hzero : level.size.toDecimal = 0 <;>
      simp [applyLevel, hp, hp', hzero, Dict.get_pop, Dict.get_set]

/-- Of several levels with one price the last decides. -/
theorem applySide_get (side : Dict Decimal Decimal) (levels : List RawLevel) (p : Decimal) :
    (applySide side levels).get p = match latest (·.price.toDecimal) p levels with
      | some level => (some level.size.toDecimal).filter (· ≠ 0)
      | none => side.get p := by
  induction levels using List.reverseRecOn with
  | nil => rfl
  | append_singleton levels level ih =>
    rw [applySide, List.foldl_append, List.foldl_cons, List.foldl_nil, ← applySide,
      applyLevel_get, latest_concat, ih]
    split <;> rfl

end OrderbookState

/-- The messages from the last snapshot message on. -/
def sinceSnapshot : List OrderbookMessage → List OrderbookMessage
  | [] => []
  | m :: ms => if ms.any OrderbookMessage.isSnapshot then sinceSnapshot ms else m :: ms

/-- The last size written for a price. -/
def lastSize (side : BookSide) (ms : List OrderbookMessage) (p : Decimal) : Option Decimal :=
  (latest (·.price.toDecimal) p ((sinceSnapshot ms).flatMap (·.levels side))).map
    (·.size.toDecimal)

theorem sinceSnapshot_concat (ms : List OrderbookMessage) (m : OrderbookMessage) :
    sinceSnapshot (ms ++ [m]) = if m.isSnapshot then [m] else sinceSnapshot ms ++ [m] := by
  induction ms with
  | nil => cases m.isSnapshot <;> simp [sinceSnapshot]
  | cons l ls ih =>
    rw [List.cons_append, sinceSnapshot, sinceSnapshot, ih]
    cases hm : m.isSnapshot <;> simp [hm]
    split <;> rfl

/-- The last message decides on the prices it mentions. -/
theorem lastSize_concat (side : BookSide) (ms : List OrderbookMessage) (m : OrderbookMessage)
    (p : Decimal) : lastSize side (ms ++ [m]) p =
      ((latest (·.price.toDecimal) p (m.levels side)).map (·.size.toDecimal)).or
        (if m.isSnapshot then none else lastSize side ms p) := by
  rw [lastSize, sinceSnapshot_concat]
  cases m.isSnapshot with
  | true => simp
  | false => simp [latest_append, lastSize, Option.map_or]

namespace OrderbookState

/-- The dictionaries hold the reference book. -/
theorem applyAll_get (symbol : Symbol) (ms : List OrderbookMessage) (side : BookSide)
    (p : Decimal) : (((new symbol).applyAll ms).side side).get p =
      (lastSize side ms p).filter (· ≠ 0) := by
  induction ms using List.reverseRecOn with
  | nil => cases side <;> rfl
  | append_singleton ms m ih =>
    rw [applyAll_concat, side_apply, applySide_get, lastSize_concat]
    cases latest (·.price.toDecimal) p (m.levels side) with
    | some level => rfl
    | none =>
      cases m.isSnapshot with
      | true => rfl
      | false => exact ih

theorem mem_levelsAt {side : Dict Decimal Decimal} {prices : List Decimal}
    (h : ∀ p, p ∈ prices ↔ p ∈ side.keys) (l : Level) :
    l ∈ levelsAt side prices ↔ side.get l.price = some l.quantity := by
  simp only [levelsAt, List.mem_map, h, Dict.mem_keys]
  constructor
  · rintro ⟨p, hp, rfl⟩
    obtain ⟨q, hq⟩ := Option.ne_none_iff_exists'.mp hp
    simp [hq]
  · intro hl
    exact ⟨l.price, by simp [hl], by simp [hl]⟩

theorem price_levelsAt (side : Dict Decimal Decimal) (prices : List Decimal) :
    (levelsAt side prices).map Level.price = prices := by
  simp [levelsAt, Function.comp_def]

variable (s : OrderbookState) (t : Time)

theorem mem_bids (l : Level) : l ∈ (s.toSnapshot t).bids ↔ s.bids.get l.price = some l.quantity :=
  mem_levelsAt (fun _ => List.mem_insertionSort _) l

theorem mem_asks (l : Level) : l ∈ (s.toSnapshot t).asks ↔ s.asks.get l.price = some l.quantity :=
  mem_levelsAt (fun _ => List.mem_insertionSort _) l

/-- The bids are the reference book's. -/
theorem applyAll_bids (symbol : Symbol) (ms : List OrderbookMessage) (l : Level) :
    l ∈ (((new symbol).applyAll ms).toSnapshot t).bids ↔
      lastSize .bid ms l.price = some l.quantity ∧ l.quantity ≠ 0 := by
  have hget := applyAll_get symbol ms .bid l.price
  rw [mem_bids, show bids _ = side _ .bid from rfl, hget, Option.filter_eq_some_iff,
    decide_eq_true_eq]

/-- The asks are the reference book's. -/
theorem applyAll_asks (symbol : Symbol) (ms : List OrderbookMessage) (l : Level) :
    l ∈ (((new symbol).applyAll ms).toSnapshot t).asks ↔
      lastSize .ask ms l.price = some l.quantity ∧ l.quantity ≠ 0 := by
  have hget := applyAll_get symbol ms .ask l.price
  rw [mem_asks, show asks _ = side _ .ask from rfl, hget, Option.filter_eq_some_iff,
    decide_eq_true_eq]

theorem bids_descend : ((s.toSnapshot t).bids.map Level.price).Pairwise (· > ·) := by
  have hnodup : (s.bids.keys.insertionSort (· ≥ ·)).Nodup :=
    (List.perm_insertionSort _ _).nodup_iff.mpr s.bids.nodup
  rw [toSnapshot, price_levelsAt]
  exact (List.sortedGE_insertionSort.sortedGT_of_nodup hnodup).pairwise

theorem asks_ascend : ((s.toSnapshot t).asks.map Level.price).Pairwise (· < ·) := by
  have hnodup : (s.asks.keys.insertionSort (· ≤ ·)).Nodup :=
    (List.perm_insertionSort _ _).nodup_iff.mpr s.asks.nodup
  rw [toSnapshot, price_levelsAt]
  exact (List.sortedLE_insertionSort.sortedLT_of_nodup hnodup).pairwise

end OrderbookState

/-- The head of a list whose keys are strictly ordered is its extreme entry. -/
theorem head?_iff_extreme {r : Decimal → Decimal → Prop} (hirrefl : ∀ p, ¬ r p p)
    (hasymm : ∀ p q, r p q → ¬ r q p) {ls : List Level} (h : (ls.map Level.price).Pairwise r)
    (l : Level) : ls.head? = some l ↔ l ∈ ls ∧ ∀ k ∈ ls, ¬ r k.price l.price := by
  cases ls with
  | nil => simp
  | cons best rest =>
    rw [List.map_cons, List.pairwise_cons] at h
    constructor
    · intro hhead
      cases hhead
      refine ⟨List.mem_cons_self, fun k hk => ?_⟩
      cases List.mem_cons.mp hk with
      | inl he => exact he ▸ hirrefl _
      | inr hk => exact hasymm _ _ (h.1 _ (List.mem_map_of_mem hk))
    · rintro ⟨hl, hbest⟩
      cases List.mem_cons.mp hl with
      | inl he => rw [he]; rfl
      | inr hl => exact absurd (h.1 _ (List.mem_map_of_mem hl)) (hbest best List.mem_cons_self)

/-- After any messages the snapshot is the reference book, sorted: no level is empty
and the best levels are first. -/
theorem snapshot_is_reference_book (symbol : Symbol) (ms : List OrderbookMessage) (t : Time) :
    let snapshot := ((OrderbookState.new symbol).applyAll ms).toSnapshot t
    (snapshot.bids.map Level.price).Pairwise (· > ·) ∧
      (snapshot.asks.map Level.price).Pairwise (· < ·) ∧
      (∀ l ∈ snapshot.bids ++ snapshot.asks, l.quantity ≠ 0) ∧
      (∀ l, l ∈ snapshot.bids ↔ lastSize .bid ms l.price = some l.quantity ∧ l.quantity ≠ 0) ∧
      (∀ l, l ∈ snapshot.asks ↔ lastSize .ask ms l.price = some l.quantity ∧ l.quantity ≠ 0) ∧
      (∀ l, snapshot.bestBid = some l ↔
        l ∈ snapshot.bids ∧ ∀ k ∈ snapshot.bids, k.price ≤ l.price) ∧
      ∀ l, snapshot.bestAsk = some l ↔
        l ∈ snapshot.asks ∧ ∀ k ∈ snapshot.asks, l.price ≤ k.price := by
  intro snapshot
  have hbids := OrderbookState.applyAll_bids t symbol ms
  have hasks := OrderbookState.applyAll_asks t symbol ms
  have hdescend := OrderbookState.bids_descend ((OrderbookState.new symbol).applyAll ms) t
  have hascend := OrderbookState.asks_ascend ((OrderbookState.new symbol).applyAll ms) t
  refine ⟨hdescend, hascend, fun l hl => ?_, hbids, hasks, fun l => ?_, fun l => ?_⟩
  · cases List.mem_append.mp hl with
    | inl hl => exact ((hbids l).mp hl).2
    | inr hl => exact ((hasks l).mp hl).2
  · have hbest := head?_iff_extreme (r := (· > ·)) lt_irrefl (fun _ _ h => lt_asymm h) hdescend l
    simp only [gt_iff_lt, not_lt] at hbest
    exact hbest
  · have hbest := head?_iff_extreme (r := (· < ·)) lt_irrefl (fun _ _ h => lt_asymm h) hascend l
    simp only [not_lt] at hbest
    exact hbest

end Trading
