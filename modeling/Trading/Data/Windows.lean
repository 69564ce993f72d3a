import Mathlib.Order.Lattice

/-!
# Sliding windows

Entries are dropped once they lie before a cutoff. As long as the cutoffs move forward,
a list pruned on the way shows the same recent entries as one that never was.
-/
namespace Data

variable {ν τ : Type} [LinearOrder τ]

/-- The entries from `cutoff` on. -/
def recent (key : ν → τ) (cutoff : τ) (xs : List ν) : List ν := xs.filter fun x => cutoff ≤ key x

variable {key : ν → τ} {c c' : τ} {xs ys : List ν} {x : ν}

@[simp] theorem recent_nil : recent key c [] = [] := rfl

theorem mem_recent : x ∈ recent key c xs ↔ x ∈ xs ∧ c ≤ key x := by simp [recent]

theorem recent_append : recent key c (xs ++ ys) = recent key c xs ++ recent key c ys :=
  List.filter_append ..

/-- Pruning at an earlier cutoff is not seen later. -/
theorem recent_recent (h : c ≤ c') (xs : List ν) :
    recent key c' (recent key c xs) = recent key c' xs := by
  rw [recent, recent, recent, List.filter_filter]
  apply List.filter_congr
  intro x _
  by_cases hx : c' ≤ key x
  · simp [hx, le_trans h hx]
  · simp [hx]

end Data
