import Mathlib.Data.List.Forall2
import Trading.Async.Pool

/-!
# Rely and guarantee for coroutines

A contract says what one block may do (`guar`) and what a suspended task may
find changed when it is resumed (`rely`). Every task carries a ghost value that
its blocks move along; a task may only end with an idle ghost value. Whatever
the contract keeps true of the state together with the ghost values of the live
tasks is then true in every reachable configuration.
-/
namespace Async

structure Contract (σ ℓ : Type) where
  rely : σ → σ → Prop
  guar : ℓ → σ → ℓ → σ → Prop
  idle : ℓ → Prop
  rely_refl : ∀ s, rely s s
  rely_trans : ∀ {s t u}, rely s t → rely t u → rely s u

namespace Contract

variable {σ ℓ ε α β : Type} (C : Contract σ ℓ)

/-- `p`, in a block begun at `s₀` with ghost value `l` and now at `s`, keeps the
contract at each suspension and meets `Q` or `X` where it ends. -/
def Follows (Q : α → ℓ → σ → σ → Prop) (X : ε → ℓ → σ → σ → Prop) :
    Co σ ε α → ℓ → σ → σ → Prop
  | .pure a, l, s₀, s => Q a l s₀ s
  | .throw e, l, s₀, s => X e l s₀ s
  | .act f k, l, s₀, s => Follows Q X (k s) l s₀ (f s)
  | .suspend k, l, s₀, s => ∃ l', C.guar l s₀ l' s ∧ ∀ t, C.rely s t → Follows Q X k l' t t

section Rules

variable {C} {Q : α → ℓ → σ → σ → Prop} {X : ε → ℓ → σ → σ → Prop} {l : ℓ} {s₀ s : σ}

@[simp] theorem follows_act (f : σ → σ) (k : σ → Co σ ε α) :
    C.Follows Q X (.act f k) l s₀ s ↔ C.Follows Q X (k s) l s₀ (f s) := Iff.rfl
@[simp] theorem follows_suspend (k : Co σ ε α) :
    C.Follows Q X (.suspend k) l s₀ s ↔
      ∃ l', C.guar l s₀ l' s ∧ ∀ t, C.rely s t → C.Follows Q X k l' t t := Iff.rfl
@[simp] theorem follows_get {Q : σ → ℓ → σ → σ → Prop} :
    C.Follows Q X (Co.get : Co σ ε σ) l s₀ s ↔ Q s l s₀ s := Iff.rfl
@[simp] theorem follows_modify {Q : Unit → ℓ → σ → σ → Prop} (f : σ → σ) :
    C.Follows Q X (Co.modify f : Co σ ε Unit) l s₀ s ↔ Q () l s₀ (f s) := Iff.rfl

@[simp] theorem follows_bind {Q : β → ℓ → σ → σ → Prop} (p : Co σ ε α) (f : α → Co σ ε β) :
    C.Follows Q X (p.bind f) l s₀ s ↔
      C.Follows (fun a => C.Follows Q X (f a)) X p l s₀ s := by
  induction p generalizing l s₀ s with
  | pure a => rfl
  | throw e => rfl
  | act g k ih => exact ih s
  | suspend k ih => simp only [Co.bind, follows_suspend, ih]

@[simp] theorem follows_tryCatch (p : Co σ ε α) (h : ε → Co σ ε α) :
    C.Follows Q X (p.tryCatch h) l s₀ s ↔
      C.Follows Q (fun e => C.Follows Q X (h e)) p l s₀ s := by
  induction p generalizing l s₀ s with
  | pure a => rfl
  | throw e => rfl
  | act g k ih => exact ih s
  | suspend k ih => simp only [Co.tryCatch, follows_suspend, ih]

@[simp] theorem follows_attempt {Q : Except ε α → ℓ → σ → σ → Prop} (p : Co σ ε α) :
    C.Follows Q X p.attempt l s₀ s ↔
      C.Follows (fun a => Q (.ok a)) (fun e => Q (.error e)) p l s₀ s := by
  simp only [Co.attempt, follows_tryCatch, follows_bind]
  rfl

theorem follows_caught [Catchable ε] {Q : Except ε α → ℓ → σ → σ → Prop} (p : Co σ ε α) :
    C.Follows Q X p.caught l s₀ s ↔
      C.Follows (fun a => Q (.ok a))
        (fun e l s₀ s => if Catchable.catchable e then Q (.error e) l s₀ s else X e l s₀ s)
        p l s₀ s := by
  simp only [Co.caught, follows_tryCatch, follows_bind]
  have hcase : (fun e => C.Follows Q X
      (if Catchable.catchable e then .pure (.error e) else .throw e)) =
        fun (e : ε) l s₀ s =>
          if Catchable.catchable e then Q (.error e) l s₀ s else X e l s₀ s := by
    funext e l s₀ s
    split
    · rfl
    · rfl
  rw [hcase]
  rfl

/-- The consequence rule. -/
theorem Follows.mono {Q' : α → ℓ → σ → σ → Prop} {X' : ε → ℓ → σ → σ → Prop} {p : Co σ ε α}
    (h : C.Follows Q X p l s₀ s)
    (hQ : ∀ a l s₀ s, Q a l s₀ s → Q' a l s₀ s) (hX : ∀ e l s₀ s, X e l s₀ s → X' e l s₀ s) :
    C.Follows Q' X' p l s₀ s := by
  induction p generalizing l s₀ s with
  | pure a => exact hQ a l s₀ s h
  | throw e => exact hX e l s₀ s h
  | act g k ih => exact ih s h
  | suspend k ih =>
    obtain ⟨l', hg, hk⟩ := h
    exact ⟨l', hg, fun t ht => ih (hk t ht)⟩

/-- Where it does not matter whether the exception is caught. -/
theorem Follows.caught [Catchable ε] {Q : Except ε α → ℓ → σ → σ → Prop} {p : Co σ ε α}
    (h : C.Follows (fun a => Q (.ok a)) (fun e l s₀ s => Q (.error e) l s₀ s ∧ X e l s₀ s)
      p l s₀ s) : C.Follows Q X p.caught l s₀ s := by
  rw [follows_caught]
  apply h.mono (fun _ _ _ _ h => h)
  intro e l s₀ s h
  split
  · exact h.1
  · exact h.2

/-- Only what may be raised has to be answered for. -/
theorem Follows.raises {P : ε → Prop} {X' : ε → ℓ → σ → σ → Prop} {p : Co σ ε α}
    (h : C.Follows Q X p l s₀ s) (hp : p.Raises P)
    (hX : ∀ e l s₀ s, P e → X e l s₀ s → X' e l s₀ s) : C.Follows Q X' p l s₀ s := by
  induction p generalizing l s₀ s with
  | pure a => exact h
  | throw e => exact hX e l s₀ s hp h
  | act g k ih => exact ih s h (hp s)
  | suspend k ih =>
    obtain ⟨l', hg, hk⟩ := h
    exact ⟨l', hg, fun t ht => ih (hk t ht) hp⟩

/-- The loop rule: a body that restores `I` may be repeated over any list. -/
theorem follows_forEach {I : ℓ → σ → σ → Prop} (xs : List α) (body : α → Co σ ε Unit)
    (hbody : ∀ x ∈ xs, ∀ l s₀ s, I l s₀ s → C.Follows (fun _ => I) X (body x) l s₀ s)
    (h : I l s₀ s) : C.Follows (fun _ => I) X (Co.forEach xs body) l s₀ s := by
  induction xs generalizing l s₀ s with
  | nil => exact h
  | cons x xs ih =>
    rw [Co.forEach_cons, follows_bind]
    refine (hbody x (by simp) l s₀ s h).mono (fun _ l s₀ s hI => ?_) (fun _ _ _ _ hx => hx)
    exact ih (fun y hy => hbody y (List.mem_cons_of_mem x hy)) hI

/-- A coroutine confined to a part of the state keeps every assertion that does
not look at that part and survives a suspension. -/
theorem follows_lift {S : Type} [Part S σ] {I : ℓ → σ → σ → Prop} (p : Co S ε α)
    (hput : ∀ l s₀ s v, I l s₀ s → I l s₀ (Part.put (v : S) s))
    (hwait : ∀ l s₀ s, I l s₀ s → ∃ l', C.guar l s₀ l' s ∧ ∀ t, C.rely s t → I l' t t)
    (h : I l s₀ s) : C.Follows (fun _ => I) (fun _ => I) (p.lift : Co σ ε α) l s₀ s := by
  induction p generalizing l s₀ s with
  | pure a => exact h
  | throw e => exact h
  | act f k ih => exact ih _ (hput l s₀ s _ h)
  | suspend k ih =>
    obtain ⟨l', hg, ht⟩ := hwait l s₀ s h
    exact ⟨l', hg, fun t hst => ih (ht t hst)⟩

/-- The same for a coroutine that never raises. -/
theorem follows_lift_noThrow {S : Type} [Part S σ] {I : ℓ → σ → σ → Prop} {p : Co S ε α}
    (hp : p.NoThrow)
    (hput : ∀ l s₀ s v, I l s₀ s → I l s₀ (Part.put (v : S) s))
    (hwait : ∀ l s₀ s, I l s₀ s → ∃ l', C.guar l s₀ l' s ∧ ∀ t, C.rely s t → I l' t t)
    (h : I l s₀ s) : C.Follows (fun _ => I) X (p.lift : Co σ ε α) l s₀ s := by
  induction p generalizing l s₀ s with
  | pure a => exact h
  | throw e => exact hp.elim
  | act f k ih => exact ih _ (hp _) (hput l s₀ s _ h)
  | suspend k ih =>
    obtain ⟨l', hg, ht⟩ := hwait l s₀ s h
    exact ⟨l', hg, fun t hst => ih hp (ht t hst)⟩

end Rules

/-- `p` keeps the assertion `I`, wherever it is begun and however it ends. -/
def Keeps (I : ℓ → σ → σ → Prop) (p : Co σ ε α) : Prop :=
  ∀ l s₀ s, I l s₀ s → C.Follows (fun _ => I) (fun _ => I) p l s₀ s

section Keeps

variable {C} {I : ℓ → σ → σ → Prop}

theorem keeps_pure (a : α) : C.Keeps I (.pure a : Co σ ε α) := fun _ _ _ h => h

theorem keeps_throw (e : ε) : C.Keeps I (.throw e : Co σ ε α) := fun _ _ _ h => h

theorem keeps_get : C.Keeps I (Co.get : Co σ ε σ) := fun _ _ _ h => h

theorem keeps_modify {f : σ → σ} (h : ∀ l s₀ s, I l s₀ s → I l s₀ (f s)) :
    C.Keeps I (Co.modify f : Co σ ε Unit) := h

theorem keeps_bind {p : Co σ ε α} {f : α → Co σ ε β} (hp : C.Keeps I p)
    (hf : ∀ a, C.Keeps I (f a)) : C.Keeps I (p.bind f) := by
  intro l s₀ s h
  rw [follows_bind]
  exact (hp l s₀ s h).mono (fun a l s₀ s => hf a l s₀ s) fun _ _ _ _ h => h

theorem keeps_tryCatch {p : Co σ ε α} {h : ε → Co σ ε α} (hp : C.Keeps I p)
    (hh : ∀ e, C.Keeps I (h e)) : C.Keeps I (p.tryCatch h) := by
  intro l s₀ s hs
  rw [follows_tryCatch]
  exact (hp l s₀ s hs).mono (fun _ _ _ _ hs => hs) fun e l s₀ s hs => hh e l s₀ s hs

theorem keeps_ofExcept (r : Except ε α) : C.Keeps I (Co.ofExcept r : Co σ ε α) := by
  cases r with
  | error e => exact keeps_throw e
  | ok a => exact keeps_pure a

theorem keeps_caught [Catchable ε] {p : Co σ ε α} (hp : C.Keeps I p) : C.Keeps I p.caught := by
  refine keeps_tryCatch (keeps_bind hp fun _ => keeps_pure _) fun e => ?_
  split
  · exact keeps_pure _
  · exact keeps_throw e

theorem keeps_suppressOnly {accepts : ε → Bool} {p : Co σ ε Unit} (hp : C.Keeps I p) :
    C.Keeps I (p.suppressOnly accepts) := by
  refine keeps_tryCatch hp fun e => ?_
  split
  · exact keeps_pure _
  · exact keeps_throw e

theorem keeps_suppress [Catchable ε] {p : Co σ ε α} (hp : C.Keeps I p) :
    C.Keeps I p.suppress :=
  keeps_suppressOnly (keeps_bind hp fun _ => keeps_pure ())

theorem keeps_forEach {xs : List α} {body : α → Co σ ε Unit}
    (hbody : ∀ x ∈ xs, C.Keeps I (body x)) : C.Keeps I (Co.forEach xs body) :=
  fun _ _ _ h => follows_forEach xs body hbody h

theorem keeps_lift {S : Type} [Part S σ] (p : Co S ε α)
    (hput : ∀ l s₀ s v, I l s₀ s → I l s₀ (Part.put (v : S) s))
    (hwait : ∀ l s₀ s, I l s₀ s → ∃ l', C.guar l s₀ l' s ∧ ∀ t, C.rely s t → I l' t t) :
    C.Keeps I (p.lift : Co σ ε α) :=
  fun _ _ _ h => follows_lift p hput hwait h

end Keeps

/-- How a task may end: its last block keeps the contract and leaves it idle. -/
def Ends (l : ℓ) (s₀ s : σ) : Prop := ∃ l', C.guar l s₀ l' s ∧ C.idle l'

/-- A task's program, from its current ghost value and state to its end. -/
def Task (p : Co σ ε Unit) (l : ℓ) (s : σ) : Prop :=
  C.Follows (fun _ => C.Ends) (fun _ => C.Ends) p l s s

/-- A suspended task is fit to be resumed in whatever state the others leave. -/
def Ready (s : σ) (p : Co σ ε Unit) (l : ℓ) : Prop := ∀ t, C.rely s t → C.Task p l t

variable {C}

theorem Ready.rely {s t : σ} {p : Co σ ε Unit} {l : ℓ} (h : C.Ready s p l) (hst : C.rely s t) :
    C.Ready t p l :=
  fun u htu => h u (C.rely_trans hst htu)

/-- What one block of a task does, by the way in which it stops. -/
theorem Follows.block {Q : α → ℓ → σ → σ → Prop} {X : ε → ℓ → σ → σ → Prop} {p : Co σ ε α}
    {l : ℓ} {s₀ s : σ} (h : C.Follows Q X p l s₀ s) :
    match (p.block s).2 with
    | .done a => Q a l s₀ (p.block s).1
    | .failed e => X e l s₀ (p.block s).1
    | .waiting k => ∃ l', C.guar l s₀ l' (p.block s).1 ∧
        ∀ t, C.rely (p.block s).1 t → C.Follows Q X k l' t t := by
  induction p generalizing l s₀ s with
  | pure a => exact h
  | throw e => exact h
  | act f k ih => exact ih s h
  | suspend k ih => exact h

/-- The live tasks of a configuration keep the contract from ghost values that,
with the state, satisfy `J`. -/
def Holds (C : Contract σ ℓ) (J : σ → List ℓ → Prop) (c : Config σ ε) : Prop :=
  ∃ ls, List.Forall₂ (C.Ready c.state) c.tasks ls ∧ J c.state ls

variable {J : σ → List ℓ → Prop}

/-- Settling a task after one block of a program that keeps the contract. -/
theorem settle_holds {before after : List (Co σ ε Unit)} {lsb lsa : List ℓ}
    {p : Co σ ε Unit} {l : ℓ} {s : σ}
    (hguar : ∀ s lb l la l' s', J s (lb ++ l :: la) → C.guar l s l' s' →
      C.rely s s' ∧ J s' (lb ++ l' :: la))
    (hend : ∀ s lb l la, J s (lb ++ l :: la) → C.idle l → J s (lb ++ la))
    (hb : List.Forall₂ (C.Ready s) before lsb) (ha : List.Forall₂ (C.Ready s) after lsa)
    (hJ : J s (lsb ++ l :: lsa)) (hp : C.Task p l s) :
    C.Holds J (Config.settle before after (p.block s)) := by
  have hstep := Follows.block hp
  have hrest : ∀ {l' s'}, C.guar l s l' s' → List.Forall₂ (C.Ready s') before lsb ∧
      List.Forall₂ (C.Ready s') after lsa ∧ J s' (lsb ++ l' :: lsa) := by
    intro l' s' hg
    obtain ⟨hr, hJ'⟩ := hguar s lsb l lsa l' s' hJ hg
    exact ⟨hb.imp fun _ _ h => h.rely hr, ha.imp fun _ _ h => h.rely hr, hJ'⟩
  rcases hblock : p.block s with ⟨s', a | e | k⟩
  · rw [hblock] at hstep
    obtain ⟨l', hg, hidle⟩ := hstep
    obtain ⟨hb', ha', hJ'⟩ := hrest hg
    exact ⟨lsb ++ lsa, List.rel_append hb' ha', hend s' lsb l' lsa hJ' hidle⟩
  · rw [hblock] at hstep
    obtain ⟨l', hg, hidle⟩ := hstep
    obtain ⟨hb', ha', hJ'⟩ := hrest hg
    exact ⟨lsb ++ lsa, List.rel_append hb' ha', hend s' lsb l' lsa hJ' hidle⟩
  · rw [hblock] at hstep
    obtain ⟨l', hg, hk⟩ := hstep
    obtain ⟨hb', ha', hJ'⟩ := hrest hg
    exact ⟨lsb ++ l' :: lsa, List.rel_append hb' (.cons hk ha'), hJ'⟩

/-- Ghost values of a pool split along with its tasks. -/
theorem forall₂_split {α β : Type} {R : α → β → Prop} {x : α} {as bs : List α} {ls : List β}
    (h : List.Forall₂ R (as ++ x :: bs) ls) :
    ∃ la l lb, ls = la ++ l :: lb ∧ List.Forall₂ R as la ∧ R x l ∧ List.Forall₂ R bs lb := by
  induction as generalizing ls with
  | nil =>
    cases h with
    | cons hx hb => exact ⟨[], _, _, rfl, .nil, hx, hb⟩
  | cons a as ih =>
    cases h with
    | cons ha h =>
      obtain ⟨la, l, lb, rfl, has, hx, hb⟩ := ih h
      exact ⟨_ :: la, l, lb, rfl, .cons ha has, hx, hb⟩

/-- Every reachable configuration satisfies what the contract preserves. -/
theorem reaches_holds {Op : Type} {prog : Op → Co σ ε Unit} {pre : Op → σ → Prop}
    (hguar : ∀ s lb l la l' s', J s (lb ++ l :: la) → C.guar l s l' s' →
      C.rely s s' ∧ J s' (lb ++ l' :: la))
    (hend : ∀ s lb l la, J s (lb ++ l :: la) → C.idle l → J s (lb ++ la))
    (hcall : ∀ s ls op, J s ls → pre op s → ∃ l, J s (ls ++ [l]) ∧ C.Task (prog op) l s)
    {c d : Config σ ε} (hc : C.Holds J c) (h : Reaches prog pre c d) : C.Holds J d := by
  induction h with
  | refl => exact hc
  | @call d op _ hp ih =>
    obtain ⟨ls, htasks, hJ⟩ := ih
    obtain ⟨l, hJ', ht⟩ := hcall _ _ op hJ hp
    exact settle_holds hguar hend htasks .nil hJ' ht
  | @resume d i _ ih =>
    rcases Config.resume_cases i d with hd | ⟨before, p, after, htasks, hd⟩
    · rwa [hd]
    · obtain ⟨ls, hall, hJ⟩ := ih
      rw [htasks] at hall
      obtain ⟨lsb, l, lsa, rfl, hb, hp, ha⟩ := forall₂_split hall
      rw [hd]
      exact settle_holds hguar hend hb ha hJ (hp _ (C.rely_refl _))

end Contract

/-- Nobody else runs: a block may do anything, and nothing changes while it waits. -/
def Contract.alone (σ : Type) : Contract σ Unit where
  rely s t := s = t
  guar _ _ _ _ := True
  idle _ := True
  rely_refl _ := rfl
  rely_trans h h' := h.trans h'

/-- Nothing is lost by waiting. -/
theorem Contract.alone_wait {σ : Type} {P : σ → Prop} (l : Unit) (s₀ s : σ) (h : P s) :
    ∃ l', (Contract.alone σ).guar l s₀ l' s ∧ ∀ t, (Contract.alone σ).rely s t → P t :=
  ⟨l, trivial, fun _ e => e ▸ h⟩

/-- Every coroutine does something. -/
theorem Contract.alone_keeps {σ ε α : Type} (p : Co σ ε α) :
    (Contract.alone σ).Keeps (fun _ _ _ => True) p := by
  induction p with
  | pure a => exact keeps_pure a
  | throw e => exact keeps_throw e
  | act f k ih => exact fun l s₀ s h => ih s l s₀ (f s) h
  | suspend k ih => exact fun l s₀ s h => ⟨l, trivial, fun t _ => ih l t t h⟩

theorem Contract.Follows.exec {σ ℓ ε α : Type} {C : Contract σ ℓ} {P : σ → Prop} {p : Co σ ε α}
    {l : ℓ} {s₀ s : σ} (h : C.Follows (fun _ _ _ => P) (fun _ _ _ => P) p l s₀ s) :
    P (p.exec s).1 := by
  induction p generalizing l s₀ s with
  | pure a => exact h
  | throw e => exact h
  | act f k ih => exact ih s h
  | suspend k ih =>
    obtain ⟨l', -, hk⟩ := h
    exact ih (hk s (C.rely_refl s))

/-- An assertion about the state that a coroutine keeps holds when it has run. -/
theorem Contract.Keeps.exec {σ ℓ ε α : Type} [Inhabited ℓ] {C : Contract σ ℓ} {P : σ → Prop}
    {p : Co σ ε α} (h : C.Keeps (fun _ _ => P) p) {s : σ} (hs : P s) : P (p.exec s).1 :=
  (h default s s hs).exec

/-- Without ghost values a contract is one preorder, kept by each block and
relied upon by all the others. -/
def Contract.ofPreorder {σ : Type} (R : σ → σ → Prop) (hrefl : ∀ s, R s s)
    (htrans : ∀ {s t u}, R s t → R t u → R s u) : Contract σ Unit where
  rely := R
  guar _ s _ s' := R s s'
  idle _ := True
  rely_refl := hrefl
  rely_trans := htrans

/-- A coroutine that keeps to the preorder may run as a task. -/
theorem Contract.Keeps.task {σ ε : Type} {R : σ → σ → Prop} {hrefl : ∀ s, R s s}
    {htrans : ∀ {s t u}, R s t → R t u → R s u} {p : Co σ ε Unit}
    (h : (Contract.ofPreorder R hrefl @htrans).Keeps (fun _ => R) p) (s : σ) :
    (Contract.ofPreorder R hrefl @htrans).Task p () s :=
  (h () s s (hrefl s)).mono (fun _ _ _ _ h => ⟨(), h, trivial⟩) fun _ _ _ _ h => ⟨(), h, trivial⟩

/-- Two successive configurations of a run are related by the preorder of its blocks. -/
theorem Reaches.preorder {σ ε Op : Type} {R : σ → σ → Prop} {hrefl : ∀ s, R s s}
    {htrans : ∀ {s t u}, R s t → R t u → R s u}
    {prog : Op → Co σ ε Unit} {pre : Op → σ → Prop} {s : σ} {c d : Config σ ε}
    (htask : ∀ op t, R s t → pre op t →
      (Contract.ofPreorder R hrefl @htrans).Task (prog op) () t)
    (hc : Reaches prog pre ⟨s, []⟩ c) (hd : Reaches prog pre c d) :
    R s c.state ∧ R c.state d.state := by
  let C := Contract.ofPreorder R hrefl @htrans
  have run : ∀ u, R s u → ∀ {c d : Config σ ε},
      C.Holds (fun t _ => R u t) c → Reaches prog pre c d → C.Holds (fun t _ => R u t) d := by
    intro u hu c d hc h
    refine Contract.reaches_holds ?_ (fun _ _ _ _ h _ => h) ?_ hc h
    · exact fun t _ _ _ _ t' ht hg => ⟨hg, htrans ht hg⟩
    · exact fun t _ op ht hp => ⟨(), ht, htask op t (htrans hu ht) hp⟩
  have h₁ := run s (hrefl s) (c := ⟨s, []⟩) ⟨[], .nil, hrefl s⟩ hc
  obtain ⟨ls, hready, hsc⟩ := h₁
  obtain ⟨_, _, hcd⟩ := run c.state hsc ⟨ls, hready, hrefl c.state⟩ hd
  exact ⟨hsc, hcd⟩

end Async
