import Mathlib.Data.List.ReduceOption
import Trading.Async.Frame

/-!
# Tasks in phases

A task may be in a phase of an activity that the state keeps an account of. The account
stays right if every block that takes its task from one phase to another takes the state
along, whatever phases the other tasks are in.
-/
namespace Async

namespace Contract

variable {σ φ ε α β : Type} (B : σ → Prop) (K : σ → List φ → Prop)

/-- Where `s` accounts for a task in phase `k`, `s'` does for the task in phase `k'`. -/
def Carries (s : σ) (k : Option φ) (s' : σ) (k' : Option φ) : Prop :=
  ∀ before after, K s (before ++ k.toList ++ after) → K s' (before ++ k'.toList ++ after)

/-- `B` holds at all times, and `K` of the phases that the live tasks are in. -/
def phased : Contract σ (Option φ) where
  rely := (invariance B).rely
  guar k s k' s' := B s' ∧ Carries K s k s' k'
  idle k := k = none
  rely_refl := (invariance B).rely_refl
  rely_trans := (invariance B).rely_trans

/-- The block that began at `s₀` in phase `l` has got to phase `k`. -/
def At (k l : Option φ) (s₀ s : σ) : Prop := B s ∧ Carries K s₀ l s k

/-- From phase `k` to phase `k'`, without raising. -/
def Moves (k : Option φ) (p : Co σ ε α) (k' : Option φ) : Prop :=
  ∀ l s₀ s, At B K k l s₀ s →
    (phased B K).Follows (fun _ => At B K k') (fun _ _ _ _ => False) p l s₀ s

/-- The same for a coroutine that may also raise when it has got there. -/
def Tries (k : Option φ) (p : Co σ ε α) (k' : Option φ) : Prop :=
  ∀ l s₀ s, At B K k l s₀ s →
    (phased B K).Follows (fun _ => At B K k') (fun _ => At B K k') p l s₀ s

variable {B K} {k k' k'' l : Option φ} {s₀ s s' : σ}

theorem Carries.refl : Carries K s k s k := fun _ _ h => h

/-- A change of state that the account does not see. -/
theorem carries_same (h : ∀ ks, K s ks → K s' ks) : Carries K s k s' k := fun _ _ => h _

theorem At.refl (h : B s) : At B K k k s s := ⟨h, .refl⟩

theorem At.step (h : At B K k l s₀ s) (hB : B s') (hK : Carries K s k s' k') :
    At B K k' l s₀ s' :=
  ⟨hB, fun before after hks => hK before after (h.2 before after hks)⟩

theorem At.wait (h : At B K k l s₀ s) :
    ∃ l', (phased B K).guar l s₀ l' s ∧ ∀ t, (phased B K).rely s t → At B K k l' t t :=
  ⟨k, h, fun _ ht => .refl (ht h.1)⟩

theorem moves_pure (a : α) : Moves B K k (.pure a : Co σ ε α) k := fun _ _ _ h => h

theorem moves_modify {f : σ → σ} (h : ∀ s, B s → B (f s) ∧ Carries K s k (f s) k') :
    Moves B K k (Co.modify f : Co σ ε Unit) k' :=
  fun _ _ s hk => hk.step (h s hk.1).1 (h s hk.1).2

theorem moves_bind {p : Co σ ε α} {f : α → Co σ ε β} (hp : Moves B K k p k')
    (hf : ∀ a, Moves B K k' (f a) k'') : Moves B K k (p.bind f) k'' := by
  intro l s₀ s h
  rw [follows_bind]
  apply (hp l s₀ s h).mono
  · exact fun a l s₀ s => hf a l s₀ s
  · exact fun _ _ _ _ h => h.elim

theorem tries_bind {p : Co σ ε α} {f : α → Co σ ε β} (hp : Moves B K k p k')
    (hf : ∀ a, Tries B K k' (f a) k'') : Tries B K k (p.bind f) k'' := by
  intro l s₀ s h
  rw [follows_bind]
  apply (hp l s₀ s h).mono
  · exact fun a l s₀ s => hf a l s₀ s
  · exact fun _ _ _ _ h => h.elim

/-- Where nothing is left to be done after a failure, it does not matter who raises. -/
theorem tries_bind_stay {p : Co σ ε α} {f : α → Co σ ε β} (hp : Tries B K k p k')
    (hf : ∀ a, Tries B K k' (f a) k') : Tries B K k (p.bind f) k' := by
  intro l s₀ s h
  rw [follows_bind]
  apply (hp l s₀ s h).mono
  · exact fun a l s₀ s => hf a l s₀ s
  · exact fun _ _ _ _ h => h

theorem Moves.tries {p : Co σ ε α} (h : Moves B K k p k') : Tries B K k p k' := by
  intro l s₀ s hk
  apply (h l s₀ s hk).mono
  · exact fun _ _ _ _ h => h
  · exact fun _ _ _ _ h => h.elim

/-- A coroutine that raises only errors does not raise where they are suppressed. -/
theorem moves_suppress [Catchable ε] {p : Co σ ε α}
    (hraises : p.Raises fun e => Catchable.catchable e = true) (h : Tries B K k p k') :
    Moves B K k p.suppress k' := by
  intro l s₀ s hk
  rw [Co.suppress, Co.suppressOnly, follows_tryCatch, follows_bind]
  apply (h l s₀ s hk).raises hraises
  intro e l s₀ s he hk
  rw [if_pos he]
  exact hk

/-- A coroutine confined to a part that the account does not see stays in its phase. -/
theorem tries_lift {S : Type} [Part S σ] (p : Co S ε α) (hB : ∀ s (v : S), B s → B (Part.put v s))
    (hK : ∀ s (v : S) ks, K s ks → K (Part.put v s) ks) :
    Tries B K k (p.lift : Co σ ε α) k :=
  keeps_lift p (fun _ _ s v h => h.step (hB s v h.1) (carries_same (hK s v))) fun _ _ _ => At.wait

theorem moves_lift {S : Type} [Part S σ] {p : Co S ε α} (hp : p.NoThrow)
    (hB : ∀ s (v : S), B s → B (Part.put v s))
    (hK : ∀ s (v : S) ks, K s ks → K (Part.put v s) ks) :
    Moves B K k (p.lift : Co σ ε α) k :=
  fun _ _ _ h => follows_lift_noThrow hp
    (fun _ _ s v h => h.step (hB s v h.1) (carries_same (hK s v))) (fun _ _ _ => At.wait) h

end Contract

/-- In every configuration the state accounts for the phases of the live tasks. -/
theorem Reaches.phased {σ φ ε Op : Type} {B : σ → Prop} {K : σ → List φ → Prop}
    {prog : Op → Co σ ε Unit} {pre : Op → σ → Prop} {s : σ} {c : Config σ ε}
    (hops : ∀ op t, pre op t → B t → (Contract.phased B K).Follows
      (fun _ => Contract.At B K none) (fun _ => Contract.At B K none) (prog op) none t t)
    (hB : B s) (hK : K s []) (h : Reaches prog pre ⟨s, []⟩ c) :
    B c.state ∧ ∃ ks, ks.length ≤ c.tasks.length ∧ K c.state ks := by
  have hsplit : ∀ (lb : List (Option φ)) l la, (lb ++ l :: la).reduceOption =
      lb.reduceOption ++ l.toList ++ la.reduceOption := by
    intro lb l la
    cases l <;> simp [List.reduceOption_append, List.reduceOption_cons_of_some,
      List.reduceOption_cons_of_none]
  have hinit : (Contract.phased B K).Holds (fun t ls => B t ∧ K t ls.reduceOption)
      (⟨s, []⟩ : Config σ ε) := ⟨[], .nil, hB, hK⟩
  have hall : (Contract.phased B K).Holds (fun t ls => B t ∧ K t ls.reduceOption) c := by
    apply Contract.reaches_holds _ _ _ hinit h
    · intro t lb l la l' t' ht hg
      rw [hsplit] at ht ⊢
      exact ⟨fun _ => hg.1, hg.1, hg.2 _ _ ht.2⟩
    · intro t lb l la ht hidle
      rw [hsplit, show l = none from hidle, Option.toList, List.append_nil,
        ← List.reduceOption_append] at ht
      exact ht
    · intro t ls op ht hpre
      refine ⟨none, ?_, ?_⟩
      · rwa [List.reduceOption_append, List.reduceOption_singleton, Option.toList, List.append_nil]
      · apply (hops op t hpre ht.1).mono
        · exact fun _ _ _ _ hk => ⟨none, hk, rfl⟩
        · exact fun _ _ _ _ hk => ⟨none, hk, rfl⟩
  obtain ⟨ls, htasks, hB', hK'⟩ := hall
  refine ⟨hB', ls.reduceOption, ?_, hK'⟩
  rw [htasks.length_eq]
  exact List.reduceOption_length_le ls

end Async
