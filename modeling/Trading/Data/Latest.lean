import Mathlib.Data.List.Induction
import Mathlib.Order.Lattice

/-!
# The latest entry of a log

A log is a list with its oldest entry first. Under every key, the latest entry
is the last one with that key; the newest is the one with the greatest time, of
several the last, or the first.
-/
namespace Data

variable {κ ν : Type} [DecidableEq κ]

def latest (key : ν → κ) (k : κ) (xs : List ν) : Option ν :=
  (xs.filter fun x => key x = k).getLast?

theorem latest_concat (key : ν → κ) (k : κ) (xs : List ν) (x : ν) :
    latest key k (xs ++ [x]) = if key x = k then some x else latest key k xs := by
  by_cases h : key x = k <;> simp [latest, h]

theorem latest_append (key : ν → κ) (k : κ) (xs ys : List ν) :
    latest key k (xs ++ ys) = (latest key k ys).or (latest key k xs) := by
  rw [latest, List.filter_append, List.getLast?_append, latest, latest]

theorem latest_mem {key : ν → κ} {k : κ} {xs : List ν} {x : ν} (h : latest key k xs = some x) :
    x ∈ xs ∧ key x = k := by
  have hx := List.mem_of_getLast? h
  rw [List.mem_filter, decide_eq_true_eq] at hx
  exact hx

section Survivor

variable (replaces : ν → ν → Prop) [DecidableRel replaces]

def supersede (best : Option ν) (x : ν) : Option ν :=
  match best with
  | none => some x
  | some b => if replaces b x then some x else some b

/-- Read a log keeping one entry, which the next one may replace. -/
def survivor (xs : List ν) : Option ν := xs.foldl (supersede replaces) none

variable {replaces}

omit [DecidableEq κ] in
theorem survivor_concat (xs : List ν) (x : ν) :
    survivor replaces (xs ++ [x]) = supersede replaces (survivor replaces xs) x := by
  rw [survivor, List.foldl_append]
  rfl

omit [DecidableEq κ] in
theorem survivor_eq_none {xs : List ν} (h : survivor replaces xs = none) : xs = [] := by
  cases xs using List.reverseRecOn with
  | nil => rfl
  | append_singleton xs x =>
    rw [survivor_concat] at h
    cases hbest : survivor replaces xs with
    | none => simp [hbest, supersede] at h
    | some b =>
      simp only [hbest, supersede] at h
      split at h <;> cases h

omit [DecidableEq κ] in
/-- Where replacing follows a time, no entry exceeds the survivor. -/
theorem survivor_le {τ : Type} [LinearOrder τ] {time : ν → τ}
    (hreplace : ∀ b x, replaces b x → time b ≤ time x)
    (hkeep : ∀ b x, ¬ replaces b x → time x ≤ time b) {xs : List ν} {b : ν}
    (h : survivor replaces xs = some b) : b ∈ xs ∧ ∀ y ∈ xs, time y ≤ time b := by
  induction xs using List.reverseRecOn generalizing b with
  | nil => cases h
  | append_singleton xs x ih =>
    rw [survivor_concat] at h
    cases hbest : survivor replaces xs with
    | none =>
      rw [hbest] at h
      cases h
      simp [survivor_eq_none hbest]
    | some c =>
      obtain ⟨hc, hle⟩ := ih hbest
      simp only [hbest, supersede] at h
      split at h
      · next hrep =>
        cases h
        have hnew := hreplace c x hrep
        simp only [List.mem_append, List.mem_singleton]
        exact ⟨.inr trivial, fun y hy => hy.elim (fun h => (hle y h).trans hnew) fun e => e ▸ le_rfl⟩
      · next hstay =>
        have hnew := hkeep c x hstay
        rw [← Option.some.inj h]
        simp only [List.mem_append, List.mem_singleton]
        exact ⟨.inl hc, fun y hy => hy.elim (hle y) fun e => e ▸ hnew⟩

end Survivor

section Newest

variable {τ : Type} [LinearOrder τ] (time : ν → τ)

/-- The last entry with the greatest time. -/
def newest (xs : List ν) : Option ν := survivor (fun b x => time b ≤ time x) xs

/-- The first entry with the greatest time. -/
def firstNewest (xs : List ν) : Option ν := survivor (fun b x => time b < time x) xs

/-- The newest entry under a key. -/
def newestFor (key : ν → κ) (k : κ) (xs : List ν) : Option ν :=
  newest time (xs.filter fun x => key x = k)

variable {time}

omit [DecidableEq κ] in
theorem newest_le {xs : List ν} {b : ν} (h : newest time xs = some b) :
    b ∈ xs ∧ ∀ y ∈ xs, time y ≤ time b :=
  survivor_le (fun _ _ h => h) (fun _ _ h => (not_le.mp h).le) h

omit [DecidableEq κ] in
theorem firstNewest_le {xs : List ν} {b : ν} (h : firstNewest time xs = some b) :
    b ∈ xs ∧ ∀ y ∈ xs, time y ≤ time b :=
  survivor_le (fun _ _ h => h.le) (fun _ _ h => not_lt.mp h) h

omit [DecidableEq κ] in
/-- The last entry is the newest if and only if no other exceeds it. -/
theorem newest_concat_iff {xs : List ν} {x : ν} :
    newest time (xs ++ [x]) = some x ↔ ∀ y ∈ xs, time y ≤ time x := by
  constructor
  · intro h y hy
    exact (newest_le h).2 y (List.mem_append_left _ hy)
  · intro h
    rw [newest, survivor_concat]
    cases hbest : survivor (fun b x => time b ≤ time x) xs with
    | none => rfl
    | some b => simp only [supersede, if_pos (h b (newest_le hbest).1)]

omit [DecidableEq κ] in
/-- A last entry older than the newest so far changes nothing. -/
theorem newest_concat_of_lt {xs : List ν} {x b : ν} (hb : newest time xs = some b)
    (hlt : time x < time b) : newest time (xs ++ [x]) = some b := by
  rw [newest] at hb
  rw [newest, survivor_concat, hb]
  simp only [supersede, if_neg (not_le.mpr hlt)]

omit [DecidableEq κ] in
theorem firstNewest_find {xs : List ν} {b : ν} (h : firstNewest time xs = some b) :
    xs.find? (fun y => time y = time b) = some b := by
  induction xs using List.reverseRecOn generalizing b with
  | nil => cases h
  | append_singleton xs x ih =>
    rw [firstNewest, survivor_concat] at h
    cases hbest : survivor (fun b x => time b < time x) xs with
    | none =>
      rw [hbest] at h
      cases h
      simp [survivor_eq_none hbest]
    | some c =>
      simp only [hbest, supersede] at h
      split at h
      · next hlt =>
        cases h
        have hnone : xs.find? (fun y => time y = time x) = none := by
          rw [List.find?_eq_none]
          intro y hy
          have hyx := ((firstNewest_le hbest).2 y hy).trans_lt hlt
          simpa using hyx.ne
        simp [List.find?_append, hnone]
      · cases h
        rw [List.find?_append, ih hbest, Option.some_or]

omit [DecidableEq κ] in
/-- The last entry is chosen if and only if none exceeds it and the first with its
time is the same. -/
theorem firstNewest_concat_iff {xs : List ν} {x : ν} :
    firstNewest time (xs ++ [x]) = some x ↔ (∀ y ∈ xs, time y ≤ time x) ∧
      ∀ b, xs.find? (fun y => time y = time x) = some b → b = x := by
  constructor
  · intro h
    refine ⟨fun y hy => (firstNewest_le h).2 y (List.mem_append_left _ hy), fun b hb => ?_⟩
    have hfind := firstNewest_find h
    rw [List.find?_append, hb, Option.some_or] at hfind
    exact Option.some.inj hfind
  · intro ⟨hle, hfirst⟩
    rw [firstNewest, survivor_concat]
    cases hbest : survivor (fun b x => time b < time x) xs with
    | none => rfl
    | some b =>
      simp only [supersede]
      split
      · rfl
      · next hge =>
        have htie : time b = time x := le_antisymm (hle b (firstNewest_le hbest).1) (not_lt.mp hge)
        have hfind := firstNewest_find hbest
        rw [htie] at hfind
        rw [hfirst b hfind]

omit [DecidableEq κ] in
/-- The newest entry: none before it is later, all after it are earlier. -/
theorem newest_eq_some_iff {xs : List ν} {b : ν} :
    newest time xs = some b ↔ ∃ older newer, xs = older ++ b :: newer ∧
      (∀ y ∈ older, time y ≤ time b) ∧ ∀ y ∈ newer, time y < time b := by
  induction xs using List.reverseRecOn generalizing b with
  | nil => simp [newest, survivor]
  | append_singleton xs x ih =>
    constructor
    · intro h
      rw [newest, survivor_concat] at h
      cases hbest : survivor (fun b x => time b ≤ time x) xs with
      | none =>
        rw [hbest] at h
        cases h
        exact ⟨[], [], by simp [survivor_eq_none hbest]⟩
      | some c =>
        simp only [hbest, supersede] at h
        split at h
        · next hle =>
          cases h
          exact ⟨xs, [], rfl, fun y hy => ((newest_le hbest).2 y hy).trans hle, by simp⟩
        · next hlt =>
          cases h
          obtain ⟨older, newer, rfl, holder, hnewer⟩ := ih.mp hbest
          refine ⟨older, newer ++ [x], by simp, holder, fun y hy => ?_⟩
          cases List.mem_append.mp hy with
          | inl hy => exact hnewer y hy
          | inr hy => exact List.mem_singleton.mp hy ▸ not_le.mp hlt
    · rintro ⟨older, newer, heq, holder, hnewer⟩
      cases newer using List.reverseRecOn with
      | nil =>
        obtain ⟨rfl, hx⟩ := List.append_inj' heq rfl
        cases hx
        exact newest_concat_iff.mpr holder
      | append_singleton newer y =>
        rw [← List.cons_append, ← List.append_assoc] at heq
        obtain ⟨rfl, hx⟩ := List.append_inj' heq rfl
        cases hx
        refine newest_concat_of_lt (ih.mpr ⟨older, newer, rfl, holder, fun z hz => ?_⟩)
          (hnewer x (by simp))
        exact hnewer z (by simp [hz])

omit [DecidableEq κ] in
/-- Of the entries with the greatest time the newest is the last. -/
theorem newest_getLast? {xs : List ν} {b : ν} (h : newest time xs = some b) :
    (xs.filter fun y => time y = time b).getLast? = some b := by
  obtain ⟨older, newer, rfl, -, hnewer⟩ := newest_eq_some_iff.mp h
  have hnone : newer.filter (fun y => time y = time b) = [] := by
    rw [List.filter_eq_nil_iff]
    intro y hy
    simpa using (hnewer y hy).ne
  simp [hnone]

omit [DecidableEq κ] in
theorem newest_eq_getLast?_iff {xs : List ν} : newest time xs = xs.getLast? ↔
    ∀ older x, xs = older ++ [x] → ∀ y ∈ older, time y ≤ time x := by
  cases xs using List.reverseRecOn with
  | nil => simp [newest, survivor]
  | append_singleton xs x =>
    rw [List.getLast?_concat, newest_concat_iff]
    constructor
    · intro h older y heq
      obtain ⟨rfl, hy⟩ := List.append_inj' heq rfl
      cases hy
      exact h
    · exact fun h => h xs x rfl

omit [DecidableEq κ] in
/-- Of a log in order the last entry is the newest. -/
theorem newest_of_pairwise {xs : List ν} (h : xs.Pairwise fun x y => time x ≤ time y) :
    newest time xs = xs.getLast? := by
  rw [newest_eq_getLast?_iff]
  rintro older x rfl y hy
  exact (List.pairwise_append.mp h).2.2 y hy x (by simp)

omit [DecidableEq κ] in
theorem firstNewest_eq_getLast?_iff {xs : List ν} : firstNewest time xs = xs.getLast? ↔
    ∀ older x, xs = older ++ [x] → (∀ y ∈ older, time y ≤ time x) ∧
      ∀ b, older.find? (fun y => time y = time x) = some b → b = x := by
  cases xs using List.reverseRecOn with
  | nil => simp [firstNewest, survivor]
  | append_singleton xs x =>
    rw [List.getLast?_concat, firstNewest_concat_iff]
    constructor
    · intro h older y heq
      obtain ⟨rfl, hy⟩ := List.append_inj' heq rfl
      cases hy
      exact h
    · exact fun h => h xs x rfl

theorem newestFor_mem {key : ν → κ} {k : κ} {xs : List ν} {b : ν}
    (h : newestFor time key k xs = some b) : b ∈ xs ∧ key b = k := by
  have hb := (newest_le h).1
  rw [List.mem_filter, decide_eq_true_eq] at hb
  exact hb

theorem newestFor_concat_same {key : ν → κ} {xs : List ν} {x : ν} {k : κ} (hk : key x = k)
    (h : ∀ y ∈ xs, time y ≤ time x) : newestFor time key k (xs ++ [x]) = some x := by
  have hx : [x].filter (fun y => key y = k) = [x] := by simp [hk]
  rw [newestFor, List.filter_append, hx]
  exact newest_concat_iff.mpr fun y hy => h y (List.mem_filter.mp hy).1

theorem newestFor_concat_older {key : ν → κ} {xs : List ν} {x b : ν} {k : κ} (hk : key x = k)
    (hb : newestFor time key k xs = some b) (hlt : time x < time b) :
    newestFor time key k (xs ++ [x]) = some b := by
  have hx : [x].filter (fun y => key y = k) = [x] := by simp [hk]
  rw [newestFor, List.filter_append, hx]
  exact newest_concat_of_lt hb hlt

/-- A last entry no older than the newest so far takes its place. -/
theorem newestFor_concat_newer {key : ν → κ} {xs : List ν} {x b : ν} {k : κ} (hk : key x = k)
    (hb : newestFor time key k xs = some b) (hle : time b ≤ time x) :
    newestFor time key k (xs ++ [x]) = some x := by
  have hx : [x].filter (fun y => key y = k) = [x] := by simp [hk]
  rw [newestFor, List.filter_append, hx]
  exact newest_concat_iff.mpr fun y hy => ((newest_le hb).2 y hy).trans hle

theorem newestFor_concat_other {key : ν → κ} {xs : List ν} {x : ν} {k : κ} (hk : key x ≠ k) :
    newestFor time key k (xs ++ [x]) = newestFor time key k xs := by
  rw [newestFor, List.filter_append]
  simp [hk, newestFor]

end Newest

end Data
