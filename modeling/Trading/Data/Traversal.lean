import Mathlib.Data.List.Forall2

/-!
# Lists walked through with exceptions
-/
namespace Data

variable {ε α β : Type}

theorem mapM_eq_ok_iff {f : α → Except ε β} {xs : List α} {ys : List β} :
    xs.mapM f = .ok ys ↔ List.Forall₂ (fun x y => f x = .ok y) xs ys := by
  induction xs generalizing ys with
  | nil =>
    rw [List.mapM_nil, List.forall₂_nil_left_iff]
    exact ⟨fun h => (Except.ok.inj h).symm, fun h => congrArg Except.ok h.symm⟩
  | cons x xs ih =>
    rw [List.mapM_cons, List.forall₂_cons_left_iff]
    cases hx : f x with
    | error e => simp [bind, Except.bind]
    | ok y =>
      cases hxs : xs.mapM f with
      | error e =>
        have hno : ∀ zs, ¬ List.Forall₂ (fun x y => f x = .ok y) xs zs := fun zs h => by
          rw [← ih, hxs] at h
          cases h
        simp [bind, Except.bind, hno]
      | ok zs =>
        have hsome : ∀ us, List.Forall₂ (fun x y => f x = .ok y) xs us ↔ zs = us := fun us => by
          rw [← ih, hxs, Except.ok.injEq]
        simp [bind, Except.bind, pure, Except.pure, hsome, eq_comm]

theorem exists_of_mem_mapM {f : α → Except ε β} {xs : List α} {ys : List β}
    (h : xs.mapM f = .ok ys) {y : β} (hy : y ∈ ys) : ∃ x ∈ xs, f x = .ok y := by
  have hall := mapM_eq_ok_iff.mp h
  clear h
  induction hall with
  | nil => cases hy
  | cons hx _ ih =>
    cases List.mem_cons.mp hy with
    | inl hhead => exact ⟨_, List.mem_cons_self, hhead ▸ hx⟩
    | inr htail =>
      obtain ⟨x, hmem, hx⟩ := ih htail
      exact ⟨x, List.mem_cons_of_mem _ hmem, hx⟩

theorem filterAuxM_map {p : β → Except ε Bool} {q : α → Bool} {g : α → β} {xs : List α}
    (h : ∀ x ∈ xs, p (g x) = .ok (q x)) (acc : List β) :
    (xs.map g).filterAuxM p acc = .ok (((xs.filter q).map g).reverse ++ acc) := by
  induction xs generalizing acc with
  | nil => rfl
  | cons x xs ih =>
    have hrest := ih fun y hy => h y (List.mem_cons_of_mem x hy)
    rw [List.map_cons, List.filterAuxM, h x List.mem_cons_self]
    cases hq : q x <;> simp [bind, Except.bind, hrest, hq]

/-- A test that does not raise on the list selects as it would without exceptions. -/
theorem filterM_map {p : β → Except ε Bool} {q : α → Bool} {g : α → β} {xs : List α}
    (h : ∀ x ∈ xs, p (g x) = .ok (q x)) :
    (xs.map g).filterM p = .ok ((xs.filter q).map g) := by
  rw [List.filterM, filterAuxM_map h]
  simp [bind, Except.bind, pure, Except.pure]

/-- Of two tests, one stronger than the other, that select equally many entries, both
select the same ones. -/
theorem imp_of_length_filter {p q : α → Bool} {xs : List α} (himp : ∀ x ∈ xs, q x → p x)
    (hlength : (xs.filter p).length = (xs.filter q).length) {x : α} (hx : x ∈ xs) (hp : p x) :
    q x := by
  have hq : xs.filter q = (xs.filter p).filter q := by
    rw [List.filter_filter]
    apply List.filter_congr
    intro y hy
    have hy := himp y hy
    cases hqy : q y <;> simp_all
  have hsame : xs.filter q = xs.filter p := by
    apply List.Sublist.eq_of_length _ hlength.symm
    rw [hq]
    exact List.filter_sublist
  have hmem : x ∈ xs.filter q := hsame ▸ List.mem_filter.mpr ⟨hx, hp⟩
  exact (List.mem_filter.mp hmem).2

end Data
