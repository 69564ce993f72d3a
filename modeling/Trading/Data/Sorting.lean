import Mathlib.Data.List.Sort
import Mathlib.Data.Prod.Lex
import Trading.Data.Latest

/-!
# Stable sorting by a key

The ascending order of a list, entries with one key keeping their places: there
is one such list, and the insertion sort finds it.
-/
namespace Data

variable {ν τ : Type} [LinearOrder τ]

/-- `ys` holds the entries of `xs` by ascending key, those of one key in their old order. -/
structure Ascends (key : ν → τ) (xs ys : List ν) : Prop where
  sorted : ys.Pairwise fun x y => key x ≤ key y
  stable : ∀ t, ys.filter (fun y => key y = t) = xs.filter fun y => key y = t

def sortBy (key : ν → τ) (xs : List ν) : List ν :=
  xs.insertionSort fun x y => key x ≤ key y

namespace Ascends

variable {key : ν → τ} {xs ys zs : List ν}

theorem mem_iff (h : Ascends key xs ys) (y : ν) : y ∈ ys ↔ y ∈ xs := by
  have hmem : y ∈ ys.filter (fun z => key z = key y) ↔ y ∈ xs.filter fun z => key z = key y := by
    rw [h.stable]
  simpa using hmem

/-- Two ascending lists agree as soon as they agree on every key. -/
theorem eq_of_filter (hy : ys.Pairwise fun x y => key x ≤ key y)
    (hz : zs.Pairwise fun x y => key x ≤ key y)
    (hkeys : ∀ t, ys.filter (fun y => key y = t) = zs.filter fun y => key y = t) : ys = zs := by
  induction ys generalizing zs with
  | nil =>
    cases zs with
    | nil => rfl
    | cons z zs => simpa using hkeys (key z)
  | cons y ys ih =>
    cases zs with
    | nil => simpa using hkeys (key y)
    | cons z zs =>
      have hmem : ∀ w, w ∈ y :: ys ↔ w ∈ z :: zs := fun w => by
        have hw : w ∈ (y :: ys).filter (fun v => key v = key w) ↔
            w ∈ (z :: zs).filter fun v => key v = key w := by rw [hkeys]
        simpa using hw
      have hyz : key y ≤ key z := by
        cases List.mem_cons.mp ((hmem z).mpr List.mem_cons_self) with
        | inl h => rw [h]
        | inr h => exact List.rel_of_pairwise_cons hy h
      have hzy : key z ≤ key y := by
        cases List.mem_cons.mp ((hmem y).mp List.mem_cons_self) with
        | inl h => rw [h]
        | inr h => exact List.rel_of_pairwise_cons hz h
      have hkey : key z = key y := le_antisymm hzy hyz
      have hheads := hkeys (key y)
      simp only [List.filter_cons, hkey, decide_true, if_true, List.cons.injEq] at hheads
      obtain ⟨rfl, -⟩ := hheads
      congr 1
      apply ih hy.of_cons hz.of_cons
      intro t
      have ht := hkeys t
      by_cases hkt : key y = t <;> simpa [hkt] using ht

theorem unique (hy : Ascends key xs ys) (hz : Ascends key xs zs) : ys = zs :=
  eq_of_filter hy.sorted hz.sorted fun t => (hy.stable t).trans (hz.stable t).symm

/-- Entries of the latest key go last, also when earlier ones are listed after them. -/
theorem append_latest {new late : List ν} {k : τ} (h : Ascends key (xs ++ late) ys)
    (hnew : ∀ x ∈ new, key x = k) (hys : ∀ y ∈ ys, key y ≤ k) (hlate : ∀ y ∈ late, key y < k) :
    Ascends key (xs ++ new ++ late) (ys ++ new) where
  sorted := by
    rw [List.pairwise_append]
    refine ⟨h.sorted, ?_, fun y hy x hx => ?_⟩
    · have hequal : new.Pairwise fun _ _ => True := List.pairwise_of_forall fun _ _ => trivial
      apply hequal.imp_of_mem
      intro x y hx hy _
      rw [hnew x hx, hnew y hy]
    · rw [hnew x hx]
      exact hys y hy
  stable t := by
    have hstable := h.stable t
    rw [List.filter_append] at hstable
    rw [List.filter_append, hstable, List.filter_append, List.filter_append]
    by_cases ht : k = t
    · have hnone : late.filter (fun y => key y = t) = [] := by
        rw [List.filter_eq_nil_iff]
        intro y hy
        simpa using (ht ▸ hlate y hy).ne
      rw [hnone, List.append_nil, List.append_nil]
    · have hnone : new.filter (fun y => key y = t) = [] := by
        rw [List.filter_eq_nil_iff]
        intro y hy
        simpa [hnew y hy] using ht
      rw [hnone, List.append_nil, List.append_nil]

/-- Keys that compare alike sort alike. -/
theorem map {μ κ : Type} [LinearOrder κ] {key' : μ → κ} {f : ν → μ}
    (hle : ∀ x y, key' (f x) ≤ key' (f y) ↔ key x ≤ key y) (h : Ascends key xs ys) :
    Ascends key' (xs.map f) (ys.map f) where
  sorted := by
    rw [List.pairwise_map]
    exact h.sorted.imp fun hxy => (hle _ _).mpr hxy
  stable t := by
    rw [List.filter_map, List.filter_map]
    congr 1
    by_cases ht : ∃ x, key' (f x) = t
    · obtain ⟨x, rfl⟩ := ht
      have heq : ∀ y, key' (f y) = key' (f x) ↔ key y = key x := fun y => by
        rw [le_antisymm_iff, le_antisymm_iff, hle, hle]
      simp only [Function.comp_def, heq]
      exact h.stable (key x)
    · have hnone : ∀ y, key' (f y) ≠ t := fun y hy => ht ⟨y, hy⟩
      simp [Function.comp_def, hnone]

theorem self_iff : Ascends key xs xs ↔ xs.Pairwise fun x y => key x ≤ key y :=
  ⟨fun h => h.sorted, fun h => ⟨h, fun _ => rfl⟩⟩

end Ascends

section SortBy

variable (key : ν → τ)

theorem filter_orderedInsert_other {t : τ} {x : ν} (hx : key x ≠ t) (ys : List ν) :
    (ys.orderedInsert (fun a b => key a ≤ key b) x).filter (fun y => key y = t) =
      ys.filter fun y => key y = t := by
  induction ys with
  | nil => simp [hx]
  | cons y ys ih =>
    rw [List.orderedInsert_cons]
    split
    · simp [hx]
    · rw [List.filter_cons, List.filter_cons, ih]

/-- An entry is put before those of its own key. -/
theorem filter_orderedInsert_same (x : ν) (ys : List ν) :
    (ys.orderedInsert (fun a b => key a ≤ key b) x).filter (fun y => key y = key x) =
      x :: ys.filter fun y => key y = key x := by
  induction ys with
  | nil => simp
  | cons y ys ih =>
    rw [List.orderedInsert_cons]
    split
    · simp
    · next hlt =>
      have hne : key y ≠ key x := fun h => hlt h.ge
      simp [hne, ih]

theorem ascends_sortBy (xs : List ν) : Ascends key xs (sortBy key xs) where
  sorted := List.pairwise_insertionSort (fun x y => key x ≤ key y) xs
  stable t := by
    induction xs with
    | nil => rfl
    | cons x xs ih =>
      rw [sortBy] at ih ⊢
      rw [List.insertionSort_cons]
      by_cases hx : key x = t
      · subst hx
        rw [filter_orderedInsert_same, ih]
        simp
      · rw [filter_orderedInsert_other key hx, ih]
        simp [hx]

theorem length_sortBy (xs : List ν) : (sortBy key xs).length = xs.length :=
  List.length_insertionSort _ xs

theorem sortBy_eq_iff {xs ys : List ν} : sortBy key xs = ys ↔ Ascends key xs ys :=
  ⟨fun h => h ▸ ascends_sortBy key xs, fun h => (ascends_sortBy key xs).unique h⟩

theorem sortBy_eq_self_iff {xs : List ν} :
    sortBy key xs = xs ↔ xs.Pairwise fun x y => key x ≤ key y :=
  (sortBy_eq_iff key).trans Ascends.self_iff

/-- Sorting undoes any shuffling of what ascends strictly. -/
theorem sortBy_of_perm {xs ys : List ν} (hperm : xs.Perm ys)
    (hys : ys.Pairwise fun x y => key x < key y) : sortBy key xs = ys := by
  have hsorted : (sortBy key xs).Perm ys := (List.perm_insertionSort _ xs).trans hperm
  have hkeys : (ys.map key).Nodup := List.pairwise_map.mpr (hys.imp fun h => h.ne)
  refine hsorted.eq_of_pairwise (fun x y hx hy hxy hyx => ?_) (ascends_sortBy key xs).sorted
    (hys.imp fun h => h.le)
  exact List.inj_on_of_nodup_map hkeys (hsorted.subset hx) hy (le_antisymm hxy hyx)

theorem sortBy_map {μ κ : Type} [LinearOrder κ] {key' : μ → κ} {f : ν → μ}
    (hle : ∀ x y, key' (f x) ≤ key' (f y) ↔ key x ≤ key y) (xs : List ν) :
    sortBy key' (xs.map f) = (sortBy key xs).map f :=
  (sortBy_eq_iff key').mpr ((ascends_sortBy key xs).map hle)

theorem sortBy_congr {κ : Type} [LinearOrder κ] {key' : ν → κ}
    (hle : ∀ x y, key' x ≤ key' y ↔ key x ≤ key y) (xs : List ν) :
    sortBy key' xs = sortBy key xs := by
  have hmap := sortBy_map (f := id) key hle xs
  rwa [List.map_id, List.map_id] at hmap

/-- Entries of one key are in the order of the list, hence of any position ascending in it. -/
theorem sortBy_toLex {ι : Type} [LinearOrder ι] {pos : ν → ι} {xs : List ν}
    (hpos : xs.Pairwise fun x y => pos x < pos y) :
    sortBy (fun x => toLex (key x, pos x)) xs = sortBy key xs := by
  have hascends := ascends_sortBy key xs
  rw [sortBy_eq_iff]
  constructor
  · rw [List.pairwise_iff_forall_sublist]
    intro x y hsub
    have hle : key x ≤ key y := List.pairwise_iff_forall_sublist.mp hascends.sorted hsub
    cases hle.lt_or_eq with
    | inl hlt => exact Prod.Lex.toLex_le_toLex.mpr (.inl hlt)
    | inr heq =>
      have hkept := hsub.filter fun z => key z = key y
      rw [hascends.stable] at hkept
      simp only [heq, decide_true, List.filter_cons_of_pos, List.filter_nil] at hkept
      have hlt := List.pairwise_iff_forall_sublist.mp hpos (hkept.trans List.filter_sublist)
      exact Prod.Lex.toLex_le_toLex.mpr (.inr ⟨heq, hlt.le⟩)
  · intro t
    have hboth : ∀ zs : List ν, zs.filter (fun z => toLex (key z, pos z) = t) =
        (zs.filter fun z => key z = (ofLex t).1).filter fun z => pos z = (ofLex t).2 := by
      intro zs
      have hiff : ∀ z, toLex (key z, pos z) = t ↔ pos z = (ofLex t).2 ∧ key z = (ofLex t).1 := by
        intro z
        constructor
        · rintro rfl
          exact ⟨rfl, rfl⟩
        · rintro ⟨hpos, hkey⟩
          rw [hpos, hkey]
          rfl
      rw [List.filter_filter]
      simp only [hiff, Bool.decide_and]
    rw [hboth, hboth, hascends.stable]

/-- The newest entry is the last one in ascending order. -/
theorem getLast?_sortBy (xs : List ν) : (sortBy key xs).getLast? = newest key xs := by
  have hascends := ascends_sortBy key xs
  rw [← newest_of_pairwise hascends.sorted]
  cases hys : newest key (sortBy key xs) with
  | none =>
    have hlength := length_sortBy key xs
    rw [survivor_eq_none hys] at hlength
    rw [List.length_eq_zero_iff.mp hlength.symm]
    rfl
  | some b =>
    cases hxs : newest key xs with
    | none =>
      obtain ⟨hmem, -⟩ := newest_le hys
      rw [hascends.mem_iff, survivor_eq_none hxs] at hmem
      cases hmem
    | some c =>
      -- Both have the greatest key, and of the entries with it both are the last.
      obtain ⟨hb, hyb⟩ := newest_le hys
      obtain ⟨hc, hxc⟩ := newest_le hxs
      have hkey : key b = key c :=
        le_antisymm (hxc b ((hascends.mem_iff b).mp hb)) (hyb c ((hascends.mem_iff c).mpr hc))
      have hlast := newest_getLast? hys
      rw [hascends.stable, hkey, newest_getLast? hxs] at hlast
      exact hlast.symm

/-- A list ascends as soon as all its parts from some key on do. -/
theorem pairwise_from_iff {xs : List ν} :
    (∀ t, (xs.filter fun x => t ≤ key x).Pairwise fun x y => key x ≤ key y) ↔
      xs.Pairwise fun x y => key x ≤ key y := by
  constructor
  · intro h
    rw [List.pairwise_iff_forall_sublist]
    intro x y hsub
    -- both are in the part from the lesser of their keys on
    have hboth := (h (min (key x) (key y))).sublist
      (hsub.filter fun z => min (key x) (key y) ≤ key z)
    simpa using hboth
  · exact fun h t => h.filter _

end SortBy

end Data
