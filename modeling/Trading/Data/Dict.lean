import Mathlib.Algebra.BigOperators.Group.List.Basic
import Mathlib.Tactic.Abel

/-!
# Insertion-ordered dictionaries

Assigning to a present key keeps its place, a new key goes to the end, and a
key that was popped and assigned again is new. Keys never repeat.
-/
namespace Data

section Entries

variable {κ ν : Type} [DecidableEq κ]

def assign (k : κ) (v : ν) : List (κ × ν) → List (κ × ν)
  | [] => [(k, v)]
  | e :: es => if e.1 = k then (k, v) :: es else e :: assign k v es

def lookup (k : κ) : List (κ × ν) → Option ν
  | [] => none
  | e :: es => if e.1 = k then some e.2 else lookup k es

theorem mem_keys_assign (k j : κ) (v : ν) (es : List (κ × ν)) :
    j ∈ (assign k v es).map Prod.fst ↔ j = k ∨ j ∈ es.map Prod.fst := by
  induction es with
  | nil => simp [assign]
  | cons e es ih =>
    by_cases h : e.1 = k
    · simp [assign, h]
    · simp only [assign, h, if_false, List.map_cons, List.mem_cons, ih]
      tauto

theorem nodup_assign (k : κ) (v : ν) {es : List (κ × ν)} (h : (es.map Prod.fst).Nodup) :
    ((assign k v es).map Prod.fst).Nodup := by
  induction es with
  | nil => simp [assign]
  | cons e es ih =>
    have hc := List.nodup_cons.mp h
    by_cases he : e.1 = k
    · simpa [assign, he] using h
    · have hn : e.1 ∉ (assign k v es).map Prod.fst := by
        rw [mem_keys_assign]
        exact fun hj => hj.elim he hc.1
      simpa only [assign, he, if_false, List.map_cons] using List.nodup_cons.mpr ⟨hn, ih hc.2⟩

theorem lookup_assign (k j : κ) (v : ν) (es : List (κ × ν)) :
    lookup j (assign k v es) = if j = k then some v else lookup j es := by
  induction es with
  | nil => by_cases h : k = j <;> simp [assign, lookup, h, eq_comm]
  | cons e es ih =>
    by_cases he : e.1 = k
    · by_cases hj : j = k
      · simp [assign, lookup, he, hj]
      · simp [assign, lookup, he, hj, Ne.symm hj]
    · by_cases hj : j = k
      · subst j; simp [assign, lookup, he, ih]
      · simp [assign, lookup, he, hj, ih]

theorem lookup_filter (k j : κ) (es : List (κ × ν)) :
    lookup j (es.filter fun e => e.1 ≠ k) = if j = k then none else lookup j es := by
  induction es with
  | nil => simp [lookup]
  | cons e es ih =>
    by_cases he : e.1 = k
    · by_cases hj : j = k
      · simp_all
      · have hk : k ≠ j := Ne.symm hj
        simp_all [lookup]
    · by_cases hj : j = k
      · subst j; simp_all [lookup]
      · simp_all [lookup]

theorem lookup_eq_some {k : κ} {v : ν} {es : List (κ × ν)} (h : (es.map Prod.fst).Nodup) :
    lookup k es = some v ↔ (k, v) ∈ es := by
  induction es with
  | nil => simp [lookup]
  | cons e es ih =>
    have hc := List.nodup_cons.mp h
    by_cases he : e.1 = k
    · have hk : (k, v) ∉ es := fun hm => hc.1 (List.mem_map.mpr ⟨_, hm, he.symm⟩)
      simp [lookup, he, hk, Prod.ext_iff, eq_comm]
    · have hne : ¬ (k, v) = e := fun hm => he (by rw [← hm])
      simp [lookup, he, ih hc.2, hne]

theorem filter_keyed {key : ν → κ} (k : κ) {es : List (κ × ν)} (h : (es.map Prod.fst).Nodup)
    (hkey : ∀ e ∈ es, key e.2 = e.1) :
    (es.map Prod.snd).filter (fun v => key v = k) = (lookup k es).toList := by
  induction es with
  | nil => rfl
  | cons e es ih =>
    have hc := List.nodup_cons.mp h
    have hhead := hkey e List.mem_cons_self
    have htail := ih hc.2 fun x hx => hkey x (List.mem_cons_of_mem _ hx)
    by_cases he : e.1 = k
    · have hrest : lookup k es = none := by
        by_contra hsome
        obtain ⟨v, hv⟩ := Option.ne_none_iff_exists'.mp hsome
        have hmem : (k, v) ∈ es := (lookup_eq_some hc.2).mp hv
        exact hc.1 (he ▸ List.mem_map_of_mem hmem)
      rw [hrest] at htail
      simp only [List.map_cons, lookup, if_pos he, Option.toList_some]
      rw [List.filter_cons_of_pos (by simp [hhead, he]), htail]
      rfl
    · simp only [List.map_cons, lookup, if_neg he]
      rw [List.filter_cons_of_neg (by simp [hhead, he]), htail]

end Entries

structure Dict (κ ν : Type) where
  entries : List (κ × ν)
  nodup : (entries.map Prod.fst).Nodup

namespace Dict

variable {κ ν : Type}

def empty : Dict κ ν := ⟨[], List.nodup_nil⟩

def keys (d : Dict κ ν) : List κ := d.entries.map Prod.fst

def values (d : Dict κ ν) : List ν := d.entries.map Prod.snd

variable [DecidableEq κ]

def get (d : Dict κ ν) (k : κ) : Option ν := lookup k d.entries

def set (d : Dict κ ν) (k : κ) (v : ν) : Dict κ ν := ⟨assign k v d.entries, nodup_assign k v d.nodup⟩

def pop (d : Dict κ ν) (k : κ) : Dict κ ν :=
  ⟨d.entries.filter fun e => e.1 ≠ k, d.nodup.sublist (List.filter_sublist.map Prod.fst)⟩

/-- Assign only where the key is absent. -/
def setDefault (d : Dict κ ν) (k : κ) (v : ν) : Dict κ ν :=
  if (d.get k).isSome then d else d.set k v

/-- The comprehension `{key(x): x for x in xs}`: a later element replaces an earlier one. -/
def ofList (key : ν → κ) (xs : List ν) : Dict κ ν := xs.foldl (fun d x => d.set (key x) x) empty

@[simp] theorem get_empty (k : κ) : (empty : Dict κ ν).get k = none := rfl

theorem get_set (d : Dict κ ν) (k j : κ) (v : ν) :
    (d.set k v).get j = if j = k then some v else d.get j := lookup_assign k j v d.entries

@[simp] theorem get_set_same (d : Dict κ ν) (k : κ) (v : ν) : (d.set k v).get k = some v := by
  simp [get_set]

theorem get_set_other (d : Dict κ ν) {k j : κ} (v : ν) (h : j ≠ k) :
    (d.set k v).get j = d.get j := by simp [get_set, h]

/-- Assigning makes one key present and keeps the others so. -/
theorem get_set_ne_none {d : Dict κ ν} {k j : κ} (v : ν) (h : j = k ∨ d.get j ≠ none) :
    (d.set k v).get j ≠ none := by
  rw [get_set]
  split
  · exact Option.some_ne_none v
  · next hj => exact h.resolve_left hj

theorem get_pop (d : Dict κ ν) (k j : κ) :
    (d.pop k).get j = if j = k then none else d.get j := lookup_filter k j d.entries

theorem setDefault_present {d : Dict κ ν} {k : κ} (h : d.get k ≠ none) (v : ν) :
    d.setDefault k v = d := by
  simp [setDefault, Option.isSome_iff_ne_none, h]

theorem mem_entries {d : Dict κ ν} {k : κ} {v : ν} : (k, v) ∈ d.entries ↔ d.get k = some v :=
  (lookup_eq_some d.nodup).symm

theorem mem_keys {d : Dict κ ν} {k : κ} : k ∈ d.keys ↔ d.get k ≠ none := by
  simp only [keys, List.mem_map, Prod.exists, exists_and_right, exists_eq_right]
  constructor
  · rintro ⟨v, hv⟩
    simp [mem_entries.mp hv]
  · intro h
    obtain ⟨v, hv⟩ := Option.ne_none_iff_exists'.mp h
    exact ⟨v, mem_entries.mpr hv⟩

theorem mem_values {d : Dict κ ν} {v : ν} : v ∈ d.values ↔ ∃ k, d.get k = some v := by
  simp only [values, List.mem_map, Prod.exists, exists_eq_right, mem_entries]

/-- `sub` holds exactly the entries of `all` whose value satisfies `P`. -/
def Selection (P : ν → Prop) (all sub : Dict κ ν) : Prop :=
  ∀ k v, sub.get k = some v ↔ all.get k = some v ∧ P v

namespace Selection

variable {P : ν → Prop} {all sub : Dict κ ν} {k : κ} {v : ν}

theorem set (h : Selection P all sub) (hv : P v) : Selection P (all.set k v) (sub.set k v) := by
  intro j u
  rw [get_set, get_set]
  split
  · constructor
    · intro hu
      exact ⟨hu, Option.some.inj hu ▸ hv⟩
    · exact fun hu => hu.1
  · exact h j u

theorem pop (h : Selection P all sub) (hv : ¬P v) : Selection P (all.set k v) (sub.pop k) := by
  intro j u
  rw [get_set, get_pop]
  split
  · constructor
    · intro hu
      cases hu
    · intro hu
      exact absurd (Option.some.inj hu.1 ▸ hu.2) hv
  · exact h j u

/-- A new entry outside the selection. -/
theorem skip (h : Selection P all sub) (hk : all.get k = none) (hv : ¬P v) :
    Selection P (all.set k v) sub := by
  intro j u
  rw [get_set]
  split
  · next hj =>
    subst hj
    have hsub : sub.get j ≠ some u := by
      intro hu
      rw [((h j u).mp hu).1] at hk
      cases hk
    constructor
    · exact fun hu => absurd hu hsub
    · exact fun hu => absurd (Option.some.inj hu.1 ▸ hu.2) hv
  · exact h j u

end Selection

section Total

variable {M : Type} [AddCommGroup M]

def total (f : κ → ν → M) (d : Dict κ ν) : M := (d.entries.map fun e => f e.1 e.2).sum

theorem sum_assign (f : κ → ν → M) (k : κ) (v : ν) {es : List (κ × ν)} :
    ((assign k v es).map fun e => f e.1 e.2).sum =
      (es.map fun e => f e.1 e.2).sum - (lookup k es).elim 0 (f k) + f k v := by
  induction es with
  | nil => simp [assign, lookup]
  | cons e es ih =>
    by_cases he : e.1 = k
    · simp only [assign, lookup, he, if_true, List.map_cons, List.sum_cons, Option.elim_some]
      abel
    · simp only [assign, lookup, he, if_false, List.map_cons, List.sum_cons, ih]
      abel

/-- Assigning replaces one summand. -/
theorem total_set (f : κ → ν → M) (d : Dict κ ν) (k : κ) (v : ν) :
    (d.set k v).total f = d.total f - (d.get k).elim 0 (f k) + f k v :=
  sum_assign f k v

theorem total_congr {f g : κ → ν → M} {d : Dict κ ν}
    (h : ∀ k v, d.get k = some v → f k v = g k v) : d.total f = d.total g := by
  rw [total, total, List.map_congr_left]
  exact fun e he => h e.1 e.2 (mem_entries.mp he)

omit [DecidableEq κ] in
theorem total_add (f g : κ → ν → M) (d : Dict κ ν) :
    (d.total fun k v => f k v + g k v) = d.total f + d.total g :=
  List.sum_map_add

/-- A total may be taken over any list that names each key once. -/
theorem total_eq_sum (f : κ → ν → M) (d : Dict κ ν) {ks : List κ} (hnodup : ks.Nodup)
    (hks : ∀ k, k ∈ ks ↔ d.get k ≠ none) :
    d.total f = (ks.map fun k => (d.get k).elim 0 (f k)).sum := by
  have hperm : d.keys.Perm ks :=
    (List.perm_ext_iff_of_nodup d.nodup hnodup).mpr fun k => mem_keys.trans (hks k).symm
  have hget : ∀ e ∈ d.entries, f e.1 e.2 = (d.get e.1).elim 0 (f e.1) := by
    intro e he
    rw [mem_entries.mp he, Option.elim_some]
  rw [total, List.map_congr_left hget, ← (hperm.map _).sum_eq, keys, List.map_map]
  rfl

end Total

attribute [ext] Dict

/-- The comprehension `{k: v for k, v in d.items() if p(k, v)}`. -/
def restrict (p : κ → ν → Bool) (d : Dict κ ν) : Dict κ ν :=
  ⟨d.entries.filter fun e => p e.1 e.2, d.nodup.sublist (List.filter_sublist.map Prod.fst)⟩

/-- The comprehension `{k: f(k, v) for k, v in d.items()}`. -/
def mapEntries {μ : Type} (f : κ → ν → μ) (d : Dict κ ν) : Dict κ μ :=
  ⟨d.entries.map fun e => (e.1, f e.1 e.2), by
    rw [List.map_map]
    exact d.nodup⟩

/-- The comprehension `{k: f(v) for k, v in d.items()}`. -/
def mapValues {μ : Type} (f : ν → μ) (d : Dict κ ν) : Dict κ μ :=
  ⟨d.entries.map fun e => (e.1, f e.2), by
    rw [List.map_map]
    exact d.nodup⟩

section Restrict

variable {p : κ → ν → Bool} {d : Dict κ ν} {k : κ} {v : ν}

theorem get_restrict : (d.restrict p).get k = (d.get k).filter (p k) := by
  apply Option.ext
  intro u
  rw [← mem_entries, restrict, List.mem_filter, mem_entries, Option.filter_eq_some_iff]

theorem filter_assign {es : List (κ × ν)} (hnew : p k v = true)
    (hold : ∀ e ∈ es, e.1 = k → p e.1 e.2 = true) :
    (assign k v es).filter (fun e => p e.1 e.2) = assign k v (es.filter fun e => p e.1 e.2) := by
  induction es with
  | nil => simp [assign, hnew]
  | cons e es ih =>
    have htail := ih fun x hx => hold x (List.mem_cons_of_mem e hx)
    by_cases he : e.1 = k
    · have hkept : (e :: es).filter (fun x => p x.1 x.2) = e :: es.filter fun x => p x.1 x.2 :=
        List.filter_cons_of_pos (hold e List.mem_cons_self he)
      rw [hkept]
      simp [assign, he, hnew]
    · by_cases hkept : p e.1 e.2 = true
      · simp [assign, he, hkept, htail]
      · simp [assign, he, hkept, htail]

theorem filter_assign_of_not {es : List (κ × ν)} (hnew : p k v = false)
    (hold : ∀ e ∈ es, e.1 = k → p e.1 e.2 = false) :
    (assign k v es).filter (fun e => p e.1 e.2) = es.filter fun e => p e.1 e.2 := by
  induction es with
  | nil => simp [assign, hnew]
  | cons e es ih =>
    have htail := ih fun x hx => hold x (List.mem_cons_of_mem e hx)
    by_cases he : e.1 = k
    · have hdropped : (e :: es).filter (fun x => p x.1 x.2) = es.filter fun x => p x.1 x.2 :=
        List.filter_cons_of_neg (by simp [hold e List.mem_cons_self he])
      rw [hdropped]
      simp [assign, he, hnew]
    · simp [assign, he, htail, List.filter_cons]

/-- Assigning within the part. -/
theorem restrict_set (hnew : p k v = true) (hold : ∀ u, d.get k = some u → p k u = true) :
    (d.set k v).restrict p = (d.restrict p).set k v := by
  apply Dict.ext
  refine filter_assign hnew fun e he hk => ?_
  rw [hk]
  exact hold e.2 (mem_entries.mp (hk ▸ he))

/-- Assigning outside it. -/
theorem restrict_set_of_not (hnew : p k v = false)
    (hold : ∀ u, d.get k = some u → p k u = false) : (d.set k v).restrict p = d.restrict p := by
  apply Dict.ext
  refine filter_assign_of_not hnew fun e he hk => ?_
  rw [hk]
  exact hold e.2 (mem_entries.mp (hk ▸ he))

theorem restrict_pop : (d.pop k).restrict p = (d.restrict p).pop k := by
  apply Dict.ext
  exact List.filter_comm _ _ _

theorem restrict_pop_of_not (hold : ∀ u, d.get k = some u → p k u = false) :
    (d.pop k).restrict p = d.restrict p := by
  rw [restrict_pop]
  apply Dict.ext
  refine List.filter_eq_self.mpr fun e he => ?_
  rw [restrict, List.mem_filter, mem_entries] at he
  simp only [ne_eq, decide_not, Bool.not_eq_true', decide_eq_false_iff_not]
  intro hk
  rw [hk] at he
  rw [hold e.2 he.1] at he
  exact Bool.false_ne_true he.2

end Restrict

theorem get_mapEntries {μ : Type} {f : κ → ν → μ} {d : Dict κ ν} {k : κ} :
    (d.mapEntries f).get k = (d.get k).map (f k) := by
  have hlookup : ∀ es : List (κ × ν),
      lookup k (es.map fun e => (e.1, f e.1 e.2)) = (lookup k es).map (f k) := by
    intro es
    induction es with
    | nil => rfl
    | cons e es ih =>
      by_cases he : e.1 = k
      · subst he
        simp [lookup]
      · simp [lookup, he, ih]
  exact hlookup d.entries

section MapValues

variable {μ : Type} {f : ν → μ} {d : Dict κ ν} {k : κ} {v : ν}

theorem get_mapValues : (d.mapValues f).get k = (d.get k).map f := by
  have hlookup : ∀ es : List (κ × ν),
      lookup k (es.map fun e => (e.1, f e.2)) = (lookup k es).map f := by
    intro es
    induction es with
    | nil => rfl
    | cons e es ih => by_cases he : e.1 = k <;> simp [lookup, he, ih]
  exact hlookup d.entries

theorem mapValues_set : (d.set k v).mapValues f = (d.mapValues f).set k (f v) := by
  have hassign : ∀ es : List (κ × ν), (assign k v es).map (fun e => (e.1, f e.2)) =
      assign k (f v) (es.map fun e => (e.1, f e.2)) := by
    intro es
    induction es with
    | nil => rfl
    | cons e es ih => by_cases he : e.1 = k <;> simp [assign, he, ih]
  exact Dict.ext (hassign d.entries)

theorem mapValues_pop : (d.pop k).mapValues f = (d.mapValues f).pop k := by
  apply Dict.ext
  simp only [pop, mapValues, List.filter_map]
  rfl

omit [DecidableEq κ] in
theorem keys_mapValues : (d.mapValues f).keys = d.keys := by
  rw [keys, mapValues, List.map_map]
  rfl

end MapValues

theorem get_foldl_set (key : ν → κ) (xs : List ν) (d : Dict κ ν) (k : κ) :
    (xs.foldl (fun d x => d.set (key x) x) d).get k =
      ((xs.reverse.find? fun x => key x = k).or (d.get k)) := by
  induction xs generalizing d with
  | nil => simp
  | cons x xs ih =>
    rw [List.foldl_cons, ih, get_set, List.reverse_cons, List.find?_append]
    by_cases h : k = key x
    · subst k
      cases xs.reverse.find? (fun y => key y = key x) <;> simp
    · have h' : ¬ key x = k := fun e => h e.symm
      cases xs.reverse.find? (fun y => key y = k) <;> simp [h, h']

/-- A comprehension holds under each key the last element with that key. -/
theorem get_ofList (key : ν → κ) (xs : List ν) (k : κ) :
    (ofList key xs).get k = xs.reverse.find? fun x => key x = k := by
  rw [ofList, get_foldl_set]
  simp

theorem mem_of_get_ofList {key : ν → κ} {xs : List ν} {k : κ} {v : ν}
    (h : (ofList key xs).get k = some v) : v ∈ xs ∧ key v = k := by
  rw [get_ofList] at h
  have hkey := List.find?_some h
  exact ⟨List.mem_reverse.mp (List.mem_of_find?_eq_some h), by simpa using hkey⟩

/-- If no two elements share a key, the comprehension is a lookup by key. -/
theorem get_ofList_iff {key : ν → κ} {xs : List ν}
    (hinj : ∀ x ∈ xs, ∀ y ∈ xs, key x = key y → x = y) {k : κ} {v : ν} :
    (ofList key xs).get k = some v ↔ v ∈ xs ∧ key v = k := by
  refine ⟨mem_of_get_ofList, fun ⟨hv, hkey⟩ => ?_⟩
  cases hget : (ofList key xs).get k with
  | none =>
    rw [get_ofList, List.find?_eq_none] at hget
    exact absurd hkey (by simpa using hget v (List.mem_reverse.mpr hv))
  | some y =>
    obtain ⟨hy, hkey'⟩ := mem_of_get_ofList hget
    rw [hinj y hy v hv (hkey'.trans hkey.symm)]

/-- A comprehension over the values of a function of their own keys is that function. -/
theorem get_ofList_eq {key : ν → κ} {xs : List ν} {F : κ → Option ν}
    (hF : ∀ k v, F k = some v → key v = k) (hmem : ∀ v, v ∈ xs ↔ F (key v) = some v) (k : κ) :
    (ofList key xs).get k = F k := by
  have hinj : ∀ x ∈ xs, ∀ y ∈ xs, key x = key y → x = y := by
    intro x hx y hy hkey
    have hsame := (hmem x).mp hx
    rw [hkey, (hmem y).mp hy] at hsame
    exact (Option.some.inj hsame).symm
  apply Option.ext
  intro v
  rw [get_ofList_iff hinj, hmem]
  constructor
  · rintro ⟨hv, rfl⟩
    exact hv
  · intro hv
    rw [hF k v hv]
    exact ⟨hv, rfl⟩

/-- In a dictionary keyed by a projection, one value at most has a given key. -/
theorem values_filter {key : ν → κ} {d : Dict κ ν} (hkey : ∀ k v, d.get k = some v → key v = k)
    (k : κ) : d.values.filter (fun v => key v = k) = (d.get k).toList := by
  refine filter_keyed k d.nodup fun e he => hkey e.1 e.2 (mem_entries.mp he)

end Dict

end Data
