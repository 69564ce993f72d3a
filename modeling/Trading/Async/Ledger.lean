import Mathlib.Algebra.BigOperators.Group.List.Basic
import Trading.Async.Frame

/-!
# Tasks that keep a ledger

Something is made in one place and entered in another, by tasks that may wait in
between. A task's ghost value is what it has made and not entered yet. No block may
change what is made less what is entered and owed, so the books balance whenever no
task is left.
-/
namespace Async

variable {σ ε α M : Type} [AddCancelCommMonoid M]

namespace Co

/-- `p` enters `x` in all, makes nothing and does not raise. -/
def Enters (made entered : σ → M) : M → Co σ ε α → Prop
  | x, .pure _ => x = 0
  | _, .throw _ => False
  | x, .act f k => ∀ s, made (f s) = made s ∧
      ∃ rest, entered (f s) + rest = entered s + x ∧ (k s).Enters made entered rest
  | x, .suspend k => k.Enters made entered x

variable {made entered : σ → M} {x : M}

theorem enters_modify {f : σ → σ} (hmade : ∀ s, made (f s) = made s)
    (hentered : ∀ s, entered (f s) = entered s + x) :
    (Co.modify f : Co σ ε Unit).Enters made entered x :=
  fun s => ⟨hmade s, 0, by rw [hentered, add_zero], rfl⟩

theorem NoThrow.lift {S : Type} [Part S σ] {p : Co S ε α} (h : p.NoThrow) :
    (p.lift : Co σ ε α).NoThrow := by
  induction p with
  | pure a => trivial
  | throw e => exact h
  | act f k ih => exact fun s => ih _ (h _)
  | suspend k ih => exact ih h

/-- What enters something within a part enters it within the whole. -/
theorem Enters.lift {S : Type} [Part S σ] {made' entered' : S → M} {p : Co S ε α}
    (hp : p.Enters made' entered' x) (hmade : ∀ (v : S) s, made (Part.put v s) = made s)
    (hentered : ∀ s, entered s = entered' (Part.view s)) :
    (p.lift : Co σ ε α).Enters made entered x := by
  induction p generalizing x with
  | pure a => exact hp
  | throw e => exact hp
  | act f k ih =>
    intro s
    obtain ⟨-, rest, hrest, hk⟩ := hp (Part.view s)
    refine ⟨hmade _ s, rest, ?_, ih _ hk⟩
    rw [hentered, hentered, Part.view_put]
    exact hrest
  | suspend k ih => exact ih hp

end Co

namespace Contract

variable (made entered : σ → M)

/-- What a block makes it enters, or owes from then on. -/
def ledger : Contract σ M where
  rely _ _ := True
  guar owed s owed' s' := made s' + (owed + entered s) = made s + (owed' + entered s')
  idle owed := owed = 0
  rely_refl _ := trivial
  rely_trans _ _ := trivial

/-- The task owes `x` here, in a block that began at `s₀` owing `owed`. -/
def Owes (x owed : M) (s₀ s : σ) : Prop :=
  made s + (owed + entered s₀) = made s₀ + (x + entered s)

variable {made entered} {x y owed : M} {s₀ s s' : σ}

theorem owes_wait (h : Owes made entered x owed s₀ s) :
    ∃ owed', (ledger made entered).guar owed s₀ owed' s ∧
      ∀ t, (ledger made entered).rely s t → Owes made entered x owed' t t :=
  ⟨x, h, fun _ _ => rfl⟩

theorem Owes.congr (h : Owes made entered x owed s₀ s) (hmade : made s' = made s)
    (hentered : entered s' = entered s) : Owes made entered x owed s₀ s' := by
  rw [Owes, hmade, hentered]
  exact h

theorem Owes.make (h : Owes made entered x owed s₀ s) (hmade : made s' = made s + y)
    (hentered : entered s' = entered s) : Owes made entered (x + y) owed s₀ s' := by
  rw [Owes, hmade, hentered]
  calc made s + y + (owed + entered s₀)
      = made s + (owed + entered s₀) + y := add_right_comm _ _ _
    _ = made s₀ + (x + entered s) + y := by rw [h]
    _ = made s₀ + (x + y + entered s) := by rw [add_assoc, add_right_comm x]

theorem Owes.enter (h : Owes made entered (x + y) owed s₀ s) (hmade : made s' = made s)
    {z : M} (hentered : entered s' + z = entered s + y) :
    Owes made entered (x + z) owed s₀ s' := by
  rw [Owes, hmade, h, add_assoc x z, add_comm z, hentered, add_comm (entered s), add_assoc x]

/-- What sees neither side of the ledger changes nothing about it. -/
theorem keeps_owes {p : Co σ ε α} (hp : p.Frames fun s => (made s, entered s)) :
    (ledger made entered).Keeps (Owes made entered x) p := by
  apply keeps_of_frames hp
  · intro owed s₀ s s' hview h
    exact h.congr (congrArg Prod.fst hview) (congrArg Prod.snd hview)
  · exact fun _ _ _ h => owes_wait h

/-- The same, of what never raises. -/
theorem follows_owes {X : ε → M → σ → σ → Prop} {p : Co σ ε α}
    (hp : p.Frames fun s => (made s, entered s)) (hquiet : p.NoThrow)
    (h : Owes made entered x owed s₀ s) :
    (ledger made entered).Follows (fun _ => Owes made entered x) X p owed s₀ s := by
  induction p generalizing owed s₀ s with
  | pure a => exact h
  | throw e => exact hquiet.elim
  | act f k ih =>
    have hshown := (hp s).1
    exact ih s (hp s).2 (hquiet s)
      (h.congr (congrArg Prod.fst hshown) (congrArg Prod.snd hshown))
  | suspend k ih =>
    obtain ⟨owed', hguar, hrely⟩ := owes_wait h
    exact ⟨owed', hguar, fun t ht => ih hp hquiet (hrely t ht)⟩

/-- What enters `y` settles as much. -/
theorem follows_enters {X : ε → M → σ → σ → Prop} {p : Co σ ε α} (hp : p.Enters made entered y)
    (h : Owes made entered (x + y) owed s₀ s) :
    (ledger made entered).Follows (fun _ => Owes made entered x) X p owed s₀ s := by
  induction p generalizing y owed s₀ s with
  | pure a =>
    have hnone : y = 0 := hp
    rw [hnone, add_zero] at h
    exact h
  | throw e => exact hp.elim
  | act f k ih =>
    obtain ⟨hmade, rest, hrest, hk⟩ := hp s
    exact ih s hk (h.enter hmade hrest)
  | suspend k ih =>
    obtain ⟨owed', hguar, hrely⟩ := owes_wait h
    exact ⟨owed', hguar, fun t ht => ih hp (hrely t ht)⟩

variable (made entered) in
/-- The books balance: all that was made is entered, or owed by some task. -/
def Balanced (s : σ) (owed : List M) : Prop := made s = owed.sum + entered s

theorem balanced_block {before after : List M} {owed' : M}
    (h : Balanced made entered s (before ++ owed :: after))
    (hguar : (ledger made entered).guar owed s owed' s') :
    Balanced made entered s' (before ++ owed' :: after) := by
  have hsum : ∀ d : M, (before ++ d :: after).sum = before.sum + after.sum + d := fun d => by
    rw [List.sum_append, List.sum_cons, add_assoc, add_comm after.sum]
  have hguar : made s' + (owed + entered s) = made s + (owed' + entered s') := hguar
  rw [Balanced, hsum, add_assoc] at h ⊢
  rw [h, add_right_comm] at hguar
  exact add_right_cancel hguar

/-- In every interleaving the books balance, and nobody owes anything at the end. -/
theorem reaches_balanced {Op : Type} {prog : Op → Co σ ε Unit} {pre : Op → σ → Prop}
    (hops : ∀ op, (ledger made entered).Keeps (Owes made entered 0) (prog op))
    (hs : made s = entered s) {c : Config σ ε} (h : Reaches prog pre ⟨s, []⟩ c) :
    (∃ owed : M, made c.state = owed + entered c.state) ∧
      (c.tasks = [] → made c.state = entered c.state) := by
  have hinit : (ledger made entered).Holds (Balanced made entered)
      (⟨s, []⟩ : Config σ ε) := ⟨[], .nil, by rw [Balanced, List.sum_nil, zero_add, hs]⟩
  have hall : (ledger made entered).Holds (Balanced made entered) c := by
    apply reaches_holds _ _ _ hinit h
    · exact fun _ _ _ _ _ _ hJ hguar => ⟨trivial, balanced_block hJ hguar⟩
    · intro t before owed after hJ hidle
      have hidle : owed = 0 := hidle
      rw [Balanced, List.sum_append, List.sum_cons, hidle, zero_add] at hJ
      rw [Balanced, List.sum_append]
      exact hJ
    · intro t owed op hJ _
      refine ⟨0, ?_, ?_⟩
      · rw [Balanced, List.sum_append, List.sum_singleton, add_zero]
        exact hJ
      · exact (hops op 0 t t rfl).mono (fun _ _ _ _ h => ⟨0, h, rfl⟩) fun _ _ _ _ h => ⟨0, h, rfl⟩
  obtain ⟨owed, htasks, hbalanced⟩ := hall
  refine ⟨⟨owed.sum, hbalanced⟩, fun hdone => ?_⟩
  rw [hdone] at htasks
  cases htasks
  rw [hbalanced, List.sum_nil, zero_add]

end Contract

end Async
