import Mathlib.Algebra.BigOperators.Ring.List
import Mathlib.Algebra.Order.BigOperators.Group.List
import Mathlib.Algebra.Order.Field.Basic
import Mathlib.Tactic.Linarith

/-!
# Filling a demand from the cheapest offers

A greedy buyer goes through a list of offers and takes of each as much as it still
wants. From offers of ascending price no other allocation of the same total is cheaper:
some marginal price separates what is taken in full from what is left alone.
-/
namespace Data

section Cost

variable {ν K : Type} [Ring K]

def cost (price : ν → K) : List ν → List K → K
  | o :: offers, x :: takes => x * price o + cost price offers takes
  | _, _ => 0

variable {price : ν → K} {offers : List ν} {takes : List K}

theorem cost_neg : cost (fun o => -price o) offers takes = -cost price offers takes := by
  induction offers generalizing takes with
  | nil => simp [cost]
  | cons o offers ih =>
    cases takes with
    | nil => simp [cost]
    | cons x takes => rw [cost, cost, ih, mul_neg, neg_add]

theorem cost_map_mul (c : K) :
    cost price offers (takes.map fun x => c * x) = c * cost price offers takes := by
  induction offers generalizing takes with
  | nil => simp [cost]
  | cons o offers ih =>
    cases takes with
    | nil => simp [cost]
    | cons x takes => rw [List.map_cons, cost, cost, ih, mul_add, mul_assoc]

theorem cost_zero : cost price offers (offers.map fun _ => 0) = 0 := by
  induction offers with
  | nil => rfl
  | cons o offers ih => rw [List.map_cons, cost, zero_mul, ih, add_zero]

end Cost

section Greedy

variable {ν K : Type} [Ring K] [LinearOrder K]

/-- `takes` takes of every offer no less than nothing and no more than there is. -/
def Allocation (amount : ν → K) (offers : List ν) (takes : List K) : Prop :=
  List.Forall₂ (fun o x => 0 ≤ x ∧ x ≤ amount o) offers takes

/-- Take of each offer in turn as much as is still wanted. -/
def greedy (amount : ν → K) : K → List ν → List K
  | _, [] => []
  | wanted, o :: offers =>
    let take := min wanted (amount o)
    take :: greedy amount (wanted - take) offers

/-- Offers below the price `m` are taken in full, those above it are left alone. -/
def Marginal (amount price : ν → K) (m : K) (offers : List ν) (takes : List K) : Prop :=
  List.Forall₂ (fun o x => (price o < m → x = amount o) ∧ (m < price o → x = 0)) offers takes

variable {amount price : ν → K} {offers : List ν} {wanted : K}

/-- Who wants nothing takes nothing. -/
theorem greedy_zero (hamount : ∀ o ∈ offers, 0 ≤ amount o) :
    greedy amount 0 offers = offers.map fun _ => 0 := by
  induction offers with
  | nil => rfl
  | cons o offers ih =>
    have ho := hamount o List.mem_cons_self
    rw [greedy, List.map_cons, min_eq_left ho, sub_zero,
      ih fun o' h => hamount o' (List.mem_cons_of_mem o h)]

theorem marginal_zero {m : K} (h : ∀ o ∈ offers, m ≤ price o) :
    Marginal amount price m offers (offers.map fun _ => 0) := by
  induction offers with
  | nil => exact .nil
  | cons o offers ih =>
    refine .cons ⟨fun hlt => absurd hlt ?_, fun _ => rfl⟩ (ih fun o' ho' => ?_)
    · exact not_lt.mpr (h o List.mem_cons_self)
    · exact h o' (List.mem_cons_of_mem o ho')

/-- The last offer the buyer reaches sets the marginal price. -/
theorem exists_marginal {least : K} (hamount : ∀ o ∈ offers, 0 ≤ amount o)
    (hsorted : offers.Pairwise fun o o' => price o ≤ price o')
    (hleast : ∀ o ∈ offers, least ≤ price o) :
    ∃ m, least ≤ m ∧ Marginal amount price m offers (greedy amount wanted offers) := by
  induction offers generalizing wanted least with
  | nil => exact ⟨least, le_refl least, .nil⟩
  | cons o offers ih =>
    have hrest : ∀ o' ∈ offers, 0 ≤ amount o' := fun o' h => hamount o' (List.mem_cons_of_mem o h)
    have hafter : ∀ o' ∈ offers, price o ≤ price o' :=
      fun _ h => List.rel_of_pairwise_cons hsorted h
    have ho := hleast o List.mem_cons_self
    rw [greedy]
    by_cases htake : wanted ≤ amount o
    · refine ⟨price o, ho, .cons ?_ ?_⟩
      · exact ⟨fun h => absurd h (lt_irrefl _), fun h => absurd h (lt_irrefl _)⟩
      rw [min_eq_left htake, sub_self, greedy_zero hrest]
      exact marginal_zero hafter
    · obtain ⟨m, hm, hmarginal⟩ :=
        @ih (wanted - min wanted (amount o)) (price o) hrest hsorted.of_cons hafter
      refine ⟨m, ho.trans hm, .cons ⟨fun _ => ?_, fun h => absurd h (not_lt.mpr hm)⟩ hmarginal⟩
      exact min_eq_right (le_of_not_ge htake)

end Greedy

section Field

variable {ν K : Type} [Field K] [LinearOrder K] [IsStrictOrderedRing K] {amount price : ν → K}
  {offers : List ν} {takes others : List K} {wanted : K}

/-- Part of an allocation is an allocation. -/
theorem Allocation.map_mul {c : K} (hc : 0 ≤ c) (hc' : c ≤ 1) (h : Allocation amount offers takes) :
    Allocation amount offers (takes.map fun x => c * x) := by
  induction h with
  | nil => exact .nil
  | @cons o x offers takes htake _ ih =>
    refine .cons ⟨mul_nonneg hc htake.1, ?_⟩ ih
    calc c * x ≤ 1 * x := mul_le_mul_of_nonneg_right hc' htake.1
      _ = x := one_mul x
      _ ≤ amount o := htake.2

theorem greedy_allocation (hamount : ∀ o ∈ offers, 0 ≤ amount o) (hwanted : 0 ≤ wanted) :
    Allocation amount offers (greedy amount wanted offers) := by
  induction offers generalizing wanted with
  | nil => exact .nil
  | cons o offers ih =>
    have ho := hamount o List.mem_cons_self
    refine .cons ⟨le_min hwanted ho, min_le_right _ _⟩ (ih (fun o' h => ?_) ?_)
    · exact hamount o' (List.mem_cons_of_mem o h)
    · exact sub_nonneg.mpr (min_le_left _ _)

/-- All that is wanted, or all there is. -/
theorem sum_greedy (hamount : ∀ o ∈ offers, 0 ≤ amount o) (hwanted : 0 ≤ wanted) :
    (greedy amount wanted offers).sum = min wanted (offers.map amount).sum := by
  induction offers generalizing wanted with
  | nil => simp [greedy, min_eq_right hwanted]
  | cons o offers ih =>
    have hrest : ∀ o' ∈ offers, 0 ≤ amount o' := fun o' h => hamount o' (List.mem_cons_of_mem o h)
    have hdepth : 0 ≤ (offers.map amount).sum := by
      apply List.sum_nonneg
      intro x hx
      obtain ⟨o', ho', rfl⟩ := List.mem_map.mp hx
      exact hrest o' ho'
    rw [greedy, List.sum_cons, List.map_cons, List.sum_cons,
      ih hrest (sub_nonneg.mpr (min_le_left _ _))]
    by_cases htake : wanted ≤ amount o
    · rw [min_eq_left htake, sub_self, min_eq_left hdepth, add_zero, min_eq_left (by linarith)]
    · rw [min_eq_right (by linarith), ← min_add_add_left, add_sub_cancel]

/-- Against the marginal price no allocation saves more. -/
theorem Marginal.cost_le {m : K} (h : Marginal amount price m offers takes)
    (hothers : Allocation amount offers others) :
    cost price offers takes - m * takes.sum ≤ cost price offers others - m * others.sum := by
  induction h generalizing others with
  | nil => cases hothers; exact le_refl _
  | @cons o x offers takes htake _ ih =>
    cases hothers with
    | @cons _ y _ others hother hothers =>
      have hhead : 0 ≤ (y - x) * (price o - m) := by
        rcases lt_trichotomy (price o) m with hlt | heq | hgt
        · rw [htake.1 hlt]
          exact mul_nonneg_of_nonpos_of_nonpos (by linarith) (by linarith)
        · rw [heq, sub_self, mul_zero]
        · rw [htake.2 hgt]
          exact mul_nonneg (by linarith) (by linarith)
      have hrest := ih hothers
      rw [cost, cost, List.sum_cons, List.sum_cons]
      linarith

section Sorted

variable (hamount : ∀ o ∈ offers, 0 ≤ amount o)
  (hsorted : offers.Pairwise fun o o' => price o ≤ price o')

include hamount hsorted

theorem cost_greedy_le (htakes : Allocation amount offers takes)
    (hsum : takes.sum = (greedy amount wanted offers).sum) :
    cost price offers (greedy amount wanted offers) ≤ cost price offers takes := by
  cases offers with
  | nil => exact le_refl _
  | cons o offers =>
    have hleast : ∀ o' ∈ o :: offers, price o ≤ price o' := by
      intro o' ho'
      cases List.mem_cons.mp ho' with
      | inl h => rw [h]
      | inr h => exact List.rel_of_pairwise_cons hsorted h
    obtain ⟨m, -, hmarginal⟩ : ∃ m, price o ≤ m ∧
        Marginal amount price m (o :: offers) (greedy amount wanted (o :: offers)) :=
      exists_marginal hamount hsorted hleast
    have hcost := hmarginal.cost_le htakes
    rw [hsum] at hcost
    linarith

/-- Who wants more pays on average no less. -/
theorem average_greedy_mono {more : K} (hwanted : 0 ≤ wanted) (hmore : wanted ≤ more)
    (hsome : 0 < (greedy amount wanted offers).sum) :
    cost price offers (greedy amount wanted offers) / (greedy amount wanted offers).sum ≤
      cost price offers (greedy amount more offers) / (greedy amount more offers).sum := by
  have hmore' : 0 ≤ more := hwanted.trans hmore
  have hle : (greedy amount wanted offers).sum ≤ (greedy amount more offers).sum := by
    rw [sum_greedy hamount hwanted, sum_greedy hamount hmore']
    exact min_le_min_right _ hmore
  have hpos : 0 < (greedy amount more offers).sum := hsome.trans_le hle
  -- The part of the larger allocation that has the smaller total is one to compare with.
  let part := (greedy amount wanted offers).sum / (greedy amount more offers).sum
  have hpart : Allocation amount offers ((greedy amount more offers).map fun x => part * x) :=
    (greedy_allocation hamount hmore').map_mul (div_nonneg hsome.le hpos.le)
      ((div_le_one hpos).mpr hle)
  have hsum : ((greedy amount more offers).map fun x => part * x).sum =
      (greedy amount wanted offers).sum := by
    rw [List.sum_map_mul_left, List.map_id', div_mul_cancel₀ _ hpos.ne']
  have hcost := cost_greedy_le hamount hsorted hpart hsum
  rw [cost_map_mul] at hcost
  rw [div_le_div_iff₀ hsome hpos, ← le_div_iff₀ hpos]
  calc cost price offers (greedy amount wanted offers)
      ≤ part * cost price offers (greedy amount more offers) := hcost
    _ = cost price offers (greedy amount more offers) * (greedy amount wanted offers).sum /
        (greedy amount more offers).sum := by rw [div_mul_eq_mul_div, mul_comm]

end Sorted

end Field

end Data
