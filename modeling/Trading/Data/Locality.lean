import Mathlib.Logic.Function.Basic

/-!
# Steps on one part of a state

A state is seen through a family of parts. A step that reads and changes one of them commutes
with a step on another.
-/
namespace Data

variable {σ ι ν : Type} [DecidableEq ι]

/-- In the states of `P` the step `f` changes the part at `i`, by `g`, and no other part. -/
structure LocalAt (view : σ → ι → ν) (P : σ → Prop) (f : σ → σ) (i : ι) (g : ν → ν) : Prop where
  keeps : ∀ s, P s → P (f s)
  view : ∀ s, P s → view (f s) = Function.update (view s) i (g (view s i))

namespace LocalAt

variable {view : σ → ι → ν} {P : σ → Prop} {f f' : σ → σ} {i j : ι} {g g' : ν → ν} {s : σ}

/-- A step is local if it treats its own part right and leaves the others alone. -/
theorem of_parts (hkeeps : ∀ s, P s → P (f s)) (hsame : ∀ s, P s → view (f s) i = g (view s i))
    (hother : ∀ s, P s → ∀ j ≠ i, view (f s) j = view s j) : LocalAt view P f i g where
  keeps := hkeeps
  view s hs := by
    funext j
    by_cases hj : j = i
    · subst hj
      rw [Function.update_self, hsame s hs]
    · rw [Function.update_of_ne hj, hother s hs j hj]

theorem comm (h : LocalAt view P f i g) (h' : LocalAt view P f' j g') (hij : i ≠ j) (hs : P s) :
    view (f (f' s)) = view (f' (f s)) := by
  rw [h.view _ (h'.keeps s hs), h'.view _ (h.keeps s hs), h'.view s hs, h.view s hs,
    Function.update_of_ne hij, Function.update_of_ne hij.symm, Function.update_comm hij]

section Streams

variable {α : Type} {key : α → ι} {act : α → σ → σ} {own : α → ν → ν} {xs ys : List α}

/-- A part sees of a stream the steps on it, in their order. -/
theorem view_foldl (h : ∀ x ∈ xs, LocalAt view P (act x) (key x) (own x)) (hs : P s) (i : ι) :
    view (xs.foldl (fun s x => act x s) s) i =
      (xs.filter fun x => key x = i).foldl (fun v x => own x v) (view s i) := by
  induction xs generalizing s with
  | nil => rfl
  | cons x xs ih =>
    obtain ⟨hx, hrest⟩ := List.forall_mem_cons.mp h
    rw [List.foldl_cons, ih hrest (hx.keeps s hs), hx.view s hs]
    by_cases hi : key x = i
    · subst hi
      rw [Function.update_self, List.filter_cons_of_pos (by simp), List.foldl_cons]
    · rw [Function.update_of_ne (Ne.symm hi), List.filter_cons_of_neg (by simpa using hi)]

/-- Streams that are alike in the steps on a part leave it alike. -/
theorem view_foldl_congr (hx : ∀ x ∈ xs, LocalAt view P (act x) (key x) (own x))
    (hy : ∀ y ∈ ys, LocalAt view P (act y) (key y) (own y)) (hs : P s) {i : ι}
    (hsame : (xs.filter fun x => key x = i) = ys.filter fun y => key y = i) :
    view (xs.foldl (fun s x => act x s) s) i = view (ys.foldl (fun s y => act y s) s) i := by
  rw [view_foldl hx hs, view_foldl hy hs, hsame]

end Streams

end LocalAt

end Data
