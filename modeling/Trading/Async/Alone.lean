import Trading.Async.Frame

/-!
# A coroutine on its own

Where nobody else runs, an assertion is about what the coroutine has done when it ends.
-/
namespace Async

namespace Co

variable {σ ε α β ν μ : Type}

theorem exec_of_block {p : Co σ ε α} {s s' : σ} {a : α} (h : p.block s = (s', .done a)) :
    p.exec s = (s', .ok a) := by
  induction p generalizing s with
  | pure b => cases h; rfl
  | throw e => cases h
  | act f k ih => exact ih s h
  | suspend k ih => cases h

/-- A part's coroutine, run within the whole. -/
theorem exec_lift_ok {S W : Type} [Part S W] {p : Co S ε α} {w : W} {s : S} {a : α}
    (h : p.exec (Part.view w) = (s, .ok a)) :
    (p.lift : Co W ε α).exec w = (Part.put s w, .ok a) := by
  rw [exec_lift, h]

theorem exec_lift_eq_ok {S W : Type} [Part S W] {p : Co S ε α} {w w' : W} {a : α}
    (h : (p.lift : Co W ε α).exec w = (w', .ok a)) :
    ∃ s, p.exec (Part.view w) = (s, .ok a) ∧ w' = Part.put s w := by
  rw [exec_lift, Prod.mk.injEq] at h
  exact ⟨_, Prod.ext rfl h.2, h.1.symm⟩

namespace Frames

variable {view : σ → ν} {p : Co σ ε α}

theorem exec (hp : p.Frames view) (s : σ) : view (p.exec s).1 = view s := by
  induction p generalizing s with
  | pure a => rfl
  | throw e => rfl
  | act f k ih => exact (ih s (hp s).2 (f s)).trans (hp s).1
  | suspend k ih => exact ih hp s

/-- What is computed from a view is framed with it. -/
theorem comp (hp : p.Frames view) (f : ν → μ) : p.Frames fun s => f (view s) := by
  induction p with
  | pure a => trivial
  | throw e => trivial
  | act g k ih => exact fun s => ⟨congrArg f (hp s).1, ih s (hp s).2⟩
  | suspend k ih => exact ih hp

end Frames

/-- A loop passes from `P` to `Q` if no turn that returns leaves the two, none leaves `Q`, one
of them gets from `P` to `Q`, and none fails before it is there. -/
theorem exec_forEach_reaches {P Q : σ → Prop} {body : α → Co σ ε Unit} {xs : List α} {x : α}
    (hx : x ∈ xs) (hreach : ∀ s, P s → Q ((body x).exec s).1)
    (hkeep : ∀ y ∈ xs, ∀ s, P s →
      (body y).exec s = (((body y).exec s).1, .ok ()) ∧ P ((body y).exec s).1 ∨
        Q ((body y).exec s).1)
    (hstay : ∀ y ∈ xs, ∀ s, Q s → Q ((body y).exec s).1) {s : σ} (h : P s) :
    Q ((forEach xs body).exec s).1 := by
  induction xs generalizing s with
  | nil => cases hx
  | cons y ys ih =>
    have hrest : ∀ z ∈ ys, z ∈ y :: ys := fun z hz => List.mem_cons_of_mem y hz
    have hthere : Q ((body y).exec s).1 → Q ((forEach (y :: ys) body).exec s).1 := by
      intro hQ
      rw [forEach_cons, exec_bind]
      rcases hexec : (body y).exec s with ⟨s', e | u⟩
      · rwa [hexec] at hQ
      · rw [hexec] at hQ
        exact exec_forEach_inv ys (fun z hz => hstay z (hrest z hz)) hQ
    rcases List.mem_cons.mp hx with rfl | hlater
    · exact hthere (hreach s h)
    · rcases hkeep y List.mem_cons_self s h with ⟨hexec, hP⟩ | hQ
      · rw [forEach_cons, exec_bind_ok hexec]
        exact ih hlater (fun z hz => hkeep z (hrest z hz)) (fun z hz => hstay z (hrest z hz)) hP
      · exact hthere hQ

end Co

namespace Contract

variable {σ ε α : Type}

theorem follows_alone {Q : α → σ → Prop} {X : ε → σ → Prop} {p : Co σ ε α} {l : Unit} {s₀ s : σ} :
    (alone σ).Follows (fun a _ _ => Q a) (fun e _ _ => X e) p l s₀ s ↔
      match p.exec s with
      | (s', .ok a) => Q a s'
      | (s', .error e) => X e s' := by
  induction p generalizing l s₀ s with
  | pure a => rfl
  | throw e => rfl
  | act f k ih => exact ih s
  | suspend k ih =>
    constructor
    · rintro ⟨l', -, hk⟩
      exact (ih (l := l')).mp (hk s rfl)
    · exact fun h => ⟨l, trivial, fun t ht => ht ▸ ih.mpr h⟩

/-- To keep an assertion is to leave it true. -/
theorem keeps_alone {P : σ → Prop} {p : Co σ ε α} :
    (alone σ).Keeps (fun _ _ => P) p ↔ ∀ s, P s → P (p.exec s).1 := by
  constructor
  · exact fun h s hs => h.exec hs
  · intro h l s₀ s hs
    have hend := h s hs
    rw [follows_alone]
    rcases hexec : p.exec s with ⟨s', e | a⟩
    all_goals
      rw [hexec] at hend
      exact hend

/-- Whatever the outcome. -/
theorem Keeps.of_exec {ℓ : Type} [Inhabited ℓ] {C : Contract σ ℓ} {P : σ → Prop} {p : Co σ ε α}
    (hp : C.Keeps (fun _ _ => P) p) {s s' : σ} {r : Except ε α} (h : p.exec s = (s', r))
    (hs : P s) : P s' := by
  have hend := hp.exec hs
  rwa [h] at hend

end Contract

end Async
