import Mathlib.Logic.Basic

/-!
# Coroutines over a shared state

A coroutine is a finite tree of atomic state accesses and suspension points,
ending in a result or in an exception. `block` runs it to its next suspension,
which is all that another task can ever observe; `exec` runs it to its end with
nobody else in between.
-/
namespace Async

/-- The exceptions that a handler for errors catches. The others, such as a
cancellation, go past it. -/
class Catchable (ε : Type) where
  catchable : ε → Bool

inductive Co (σ ε α : Type) : Type where
  | pure (a : α)
  | throw (e : ε)
  | act (f : σ → σ) (k : σ → Co σ ε α)
  | suspend (k : Co σ ε α)

namespace Co

variable {σ ε α β γ : Type}

def bind : Co σ ε α → (α → Co σ ε β) → Co σ ε β
  | .pure a, f => f a
  | .throw e, _ => .throw e
  | .act g k, f => .act g fun s => (k s).bind f
  | .suspend k, f => .suspend (k.bind f)

instance : Monad (Co σ ε) where
  pure := Co.pure
  bind := Co.bind

/-- Run `p`, and the handler instead of the rest of `p` once it raises. -/
def tryCatch : Co σ ε α → (ε → Co σ ε α) → Co σ ε α
  | .pure a, _ => .pure a
  | .throw e, h => h e
  | .act g k, h => .act g fun s => (k s).tryCatch h
  | .suspend k, h => .suspend (k.tryCatch h)

/-- The whole state, read without suspending. -/
def get : Co σ ε σ := .act id .pure

def modify (f : σ → σ) : Co σ ε Unit := .act f fun _ => .pure ()

/-- A point where any other task may run. -/
def yield : Co σ ε Unit := .suspend (.pure ())

/-- A computation that may raise but does not touch the state. -/
def ofExcept : Except ε α → Co σ ε α
  | .ok a => .pure a
  | .error e => .throw e

/-- Run `p` and return what it raised as a value. -/
def attempt (p : Co σ ε α) : Co σ ε (Except ε α) :=
  tryCatch (p.bind fun a => .pure (.ok a)) fun e => .pure (.error e)

/-- Swallow the exceptions that `accepts` names. -/
def suppressOnly (accepts : ε → Bool) (p : Co σ ε Unit) : Co σ ε Unit :=
  p.tryCatch fun e => if accepts e then .pure () else .throw e

/-- Run `p` and return the error it raised as a value; other exceptions pass. -/
def caught [Catchable ε] (p : Co σ ε α) : Co σ ε (Except ε α) :=
  tryCatch (p.bind fun a => .pure (.ok a)) fun e =>
    if Catchable.catchable e then .pure (.error e) else .throw e

/-- Drop the result and swallow an error; other exceptions pass. -/
def suppress [Catchable ε] (p : Co σ ε α) : Co σ ε Unit :=
  suppressOnly Catchable.catchable (p.bind fun _ => .pure ())

/-- Await `body` on every element in turn; an exception ends the loop. -/
def forEach : List α → (α → Co σ ε Unit) → Co σ ε Unit
  | [], _ => .pure ()
  | x :: xs, body => (body x).bind fun _ => forEach xs body

@[simp] theorem forEach_cons (x : α) (xs : List α) (body : α → Co σ ε Unit) :
    forEach (x :: xs) body = (body x).bind fun _ => forEach xs body := rfl

@[simp] theorem pure_eq (a : α) : (Pure.pure a : Co σ ε α) = .pure a := rfl
@[simp] theorem bind_eq (p : Co σ ε α) (f : α → Co σ ε β) : p >>= f = p.bind f := rfl

@[simp] theorem pure_bind (a : α) (f : α → Co σ ε β) : (Co.pure a).bind f = f a := rfl
@[simp] theorem throw_bind (e : ε) (f : α → Co σ ε β) : (Co.throw e).bind f = .throw e := rfl

@[simp] theorem bind_pure (p : Co σ ε α) : p.bind .pure = p := by
  induction p with
  | pure a => rfl
  | throw e => rfl
  | act g k ih => simp only [bind, ih]
  | suspend k ih => simp only [bind, ih]

theorem bind_assoc (p : Co σ ε α) (f : α → Co σ ε β) (g : β → Co σ ε γ) :
    (p.bind f).bind g = p.bind fun a => (f a).bind g := by
  induction p with
  | pure a => rfl
  | throw e => rfl
  | act h k ih => simp only [bind, ih]
  | suspend k ih => simp only [bind, ih]

theorem forEach_append (xs ys : List α) (body : α → Co σ ε Unit) :
    forEach (xs ++ ys) body = (forEach xs body).bind fun _ => forEach ys body := by
  induction xs with
  | nil => rfl
  | cons x xs ih => simp only [List.cons_append, forEach_cons, ih, bind_assoc]

instance : LawfulMonad (Co σ ε) := LawfulMonad.mk' _
  (fun p => bind_pure p) (fun _ _ => rfl) bind_assoc

/-- Run to the end, resuming at once after every suspension. -/
def exec : Co σ ε α → σ → σ × Except ε α
  | .pure a, s => (s, .ok a)
  | .throw e, s => (s, .error e)
  | .act f k, s => (k s).exec (f s)
  | .suspend k, s => k.exec s

@[simp] theorem exec_pure (a : α) (s : σ) : (Co.pure a : Co σ ε α).exec s = (s, .ok a) := rfl
@[simp] theorem exec_throw (e : ε) (s : σ) :
    (Co.throw e : Co σ ε α).exec s = (s, .error e) := rfl
@[simp] theorem exec_get (s : σ) : (get : Co σ ε σ).exec s = (s, .ok s) := rfl
@[simp] theorem exec_modify (f : σ → σ) (s : σ) :
    (modify f : Co σ ε Unit).exec s = (f s, .ok ()) := rfl

theorem exec_ofExcept (r : Except ε α) (s : σ) :
    (ofExcept r : Co σ ε α).exec s = (s, r) := by
  cases r <;> rfl

theorem exec_bind (p : Co σ ε α) (f : α → Co σ ε β) (s : σ) :
    (p.bind f).exec s = match p.exec s with
      | (s', .ok a) => (f a).exec s'
      | (s', .error e) => (s', .error e) := by
  induction p generalizing s with
  | pure a => rfl
  | throw e => rfl
  | act g k ih => exact ih s (g s)
  | suspend k ih => exact ih s

theorem exec_tryCatch (p : Co σ ε α) (h : ε → Co σ ε α) (s : σ) :
    (p.tryCatch h).exec s = match p.exec s with
      | (s', .ok a) => (s', .ok a)
      | (s', .error e) => (h e).exec s' := by
  induction p generalizing s with
  | pure a => rfl
  | throw e => rfl
  | act g k ih => exact ih s (g s)
  | suspend k ih => exact ih s

/-- A bind whose first part is known to return. -/
theorem exec_bind_ok {p : Co σ ε α} {f : α → Co σ ε β} {s s' : σ} {a : α}
    (h : p.exec s = (s', .ok a)) : (p.bind f).exec s = (f a).exec s' := by
  rw [exec_bind, h]

theorem exec_bind_error {p : Co σ ε α} {f : α → Co σ ε β} {s s' : σ} {e : ε}
    (h : p.exec s = (s', .error e)) : (p.bind f).exec s = (s', .error e) := by
  rw [exec_bind, h]

/-- A bind that returns: both parts do. -/
theorem exec_bind_eq_ok {p : Co σ ε α} {f : α → Co σ ε β} {s s' : σ} {b : β}
    (h : (p.bind f).exec s = (s', .ok b)) :
    ∃ s₁ a, p.exec s = (s₁, .ok a) ∧ (f a).exec s₁ = (s', .ok b) := by
  rw [exec_bind] at h
  rcases hexec : p.exec s with ⟨s₁, e | a⟩
  · rw [hexec] at h
    cases h
  · rw [hexec] at h
    exact ⟨s₁, a, rfl, h⟩

theorem exec_discard (p : Co σ ε α) (b : β) (s : σ) :
    ((p.bind fun _ => .pure b).exec s).1 = (p.exec s).1 := by
  rw [exec_bind]
  rcases p.exec s with ⟨s', e | a⟩ <;> rfl

@[simp] theorem exec_attempt (p : Co σ ε α) (s : σ) :
    p.attempt.exec s = ((p.exec s).1, .ok (p.exec s).2) := by
  rw [attempt, exec_tryCatch, exec_bind]
  rcases p.exec s with ⟨s', a | e⟩ <;> rfl

/-- What every iteration preserves, the loop preserves, even if one of them raises. -/
theorem exec_forEach_inv {P : σ → Prop} {body : α → Co σ ε Unit} (xs : List α)
    (hbody : ∀ x ∈ xs, ∀ s, P s → P ((body x).exec s).1) {s : σ} (h : P s) :
    P ((forEach xs body).exec s).1 := by
  induction xs generalizing s with
  | nil => exact h
  | cons x xs ih =>
    have hx := hbody x List.mem_cons_self s h
    rw [forEach_cons, exec_bind]
    rcases hexec : (body x).exec s with ⟨s', e | u⟩
    · rwa [hexec] at hx
    · rw [hexec] at hx
      exact ih (fun y hy => hbody y (List.mem_cons_of_mem x hy)) hx

/-- A loop whose bodies succeed and preserve `P` succeeds and preserves `P`. -/
theorem exec_forEach_succeeds {P : σ → Prop} {body : α → Co σ ε Unit} (xs : List α)
    (hbody : ∀ x ∈ xs, ∀ s, P s → ∃ s', (body x).exec s = (s', .ok ()) ∧ P s') {s : σ}
    (h : P s) : ∃ s', (forEach xs body).exec s = (s', .ok ()) ∧ P s' := by
  induction xs generalizing s with
  | nil => exact ⟨s, rfl, h⟩
  | cons x xs ih =>
    obtain ⟨s', hexec, h'⟩ := hbody x List.mem_cons_self s h
    rw [forEach_cons, exec_bind_ok hexec]
    exact ih (fun y hy => hbody y (List.mem_cons_of_mem x hy)) h'

/-- A loop whose bodies always succeed folds what they do. -/
theorem exec_forEach_ok {body : α → Co σ ε Unit} {f : σ → α → σ}
    (hbody : ∀ x s, (body x).exec s = (f s x, .ok ())) (xs : List α) (s : σ) :
    (forEach xs body).exec s = (xs.foldl f s, .ok ()) := by
  induction xs generalizing s with
  | nil => rfl
  | cons x xs ih => rw [forEach_cons, exec_bind_ok (hbody x s), ih, List.foldl_cons]

section Suppress

variable [Catchable ε]

/-- Whatever becomes of the exception, the state is the one that the body reached. -/
@[simp] theorem exec_suppress_fst (p : Co σ ε α) (s : σ) :
    (p.suppress.exec s).1 = (p.exec s).1 := by
  rw [suppress, suppressOnly, exec_tryCatch, exec_bind]
  rcases p.exec s with ⟨s', e | a⟩
  · show ((ite _ _ _ : Co σ ε Unit).exec s').1 = s'
    split
    · rfl
    · rfl
  · rfl

/-- A suppressed coroutine returns, unless it raises more than an error. -/
theorem exec_suppress {p : Co σ ε α} {s : σ}
    (h : ∀ e, (p.exec s).2 = .error e → Catchable.catchable e = true) :
    p.suppress.exec s = ((p.exec s).1, .ok ()) := by
  rw [suppress, suppressOnly, exec_tryCatch, exec_bind]
  rcases hexec : p.exec s with ⟨s', e | a⟩
  · have he := h e (by rw [hexec])
    show (ite _ _ _ : Co σ ε Unit).exec s' = _
    rw [if_pos he]
    rfl
  · rfl

theorem exec_caught (p : Co σ ε α) (s : σ) : p.caught.exec s = match p.exec s with
    | (s', .ok a) => (s', .ok (.ok a))
    | (s', .error e) =>
      if Catchable.catchable e then (s', .ok (.error e)) else (s', .error e) := by
  rw [caught, exec_tryCatch, exec_bind]
  rcases p.exec s with ⟨s', e | a⟩
  · by_cases he : Catchable.catchable e = true
    · simp [he]
    · simp [he]
  · rfl

theorem exec_caught_ok {p : Co σ ε α} {s s' : σ} {a : α} (h : p.exec s = (s', .ok a)) :
    p.caught.exec s = (s', .ok (.ok a)) := by
  rw [exec_caught, h]

end Suppress

inductive Outcome (σ ε α : Type) : Type where
  | done (a : α)
  | failed (e : ε)
  | waiting (k : Co σ ε α)

/-- One atomic block: everything up to the next suspension, result or exception. -/
def block : Co σ ε α → σ → σ × Outcome σ ε α
  | .pure a, s => (s, .done a)
  | .throw e, s => (s, .failed e)
  | .act f k, s => (k s).block (f s)
  | .suspend k, s => (s, .waiting k)

/-- What does not wait is over within the block. -/
theorem block_bind_done {p : Co σ ε α} {f : α → Co σ ε β} {s s' : σ} {a : α}
    (h : p.block s = (s', .done a)) : (p.bind f).block s = (f a).block s' := by
  induction p generalizing s with
  | pure b =>
    cases h
    rfl
  | throw e => cases h
  | act g k ih => exact ih s h
  | suspend k ih => cases h

theorem block_bind_failed {p : Co σ ε α} {f : α → Co σ ε β} {s s' : σ} {e : ε}
    (h : p.block s = (s', .failed e)) : (p.bind f).block s = (s', .failed e) := by
  induction p generalizing s with
  | pure b => cases h
  | throw e' =>
    cases h
    rfl
  | act g k ih => exact ih s h
  | suspend k ih => cases h

def NoThrow : Co σ ε α → Prop
  | .pure _ => True
  | .throw _ => False
  | .act _ k => ∀ s, (k s).NoThrow
  | .suspend k => k.NoThrow

theorem NoThrow.exec {p : Co σ ε α} (h : p.NoThrow) (s : σ) :
    ∃ a, p.exec s = ((p.exec s).1, .ok a) := by
  induction p generalizing s with
  | pure a => exact ⟨a, rfl⟩
  | throw e => exact h.elim
  | act f k ih => exact ih s (h s) (f s)
  | suspend k ih => exact ih h s

theorem NoThrow.exec_unit {p : Co σ ε Unit} (h : p.NoThrow) (s : σ) :
    p.exec s = ((p.exec s).1, .ok ()) :=
  (h.exec s).choose_spec

/-- Whatever `p` raises satisfies `P`. -/
def Raises (P : ε → Prop) : Co σ ε α → Prop
  | .pure _ => True
  | .throw e => P e
  | .act _ k => ∀ s, (k s).Raises P
  | .suspend k => k.Raises P

/-- It raises no more than what a handler for errors catches. -/
abbrev RaisesErrors [Catchable ε] (p : Co σ ε α) : Prop :=
  p.Raises fun e => Catchable.catchable e = true

section Raises

variable {P : ε → Prop} {p : Co σ ε α}

theorem NoThrow.raises (h : p.NoThrow) : p.Raises P := by
  induction p with
  | pure a => trivial
  | throw e => exact h.elim
  | act f k ih => exact fun s => ih s (h s)
  | suspend k ih => exact ih h

theorem Raises.mono {P' : ε → Prop} (h : p.Raises P) (hP : ∀ e, P e → P' e) :
    p.Raises P' := by
  induction p with
  | pure a => trivial
  | throw e => exact hP e h
  | act f k ih => exact fun s => ih s (h s)
  | suspend k ih => exact ih h

theorem raises_pure (a : α) : (Co.pure a : Co σ ε α).Raises P := trivial

theorem raises_get : (get : Co σ ε σ).Raises P := fun _ => trivial

theorem raises_modify (f : σ → σ) : (modify f : Co σ ε Unit).Raises P := fun _ => trivial

theorem raises_bind {f : α → Co σ ε β} (hp : p.Raises P) (hf : ∀ a, (f a).Raises P) :
    (p.bind f).Raises P := by
  induction p with
  | pure a => exact hf a
  | throw e => exact hp
  | act g k ih => exact fun s => ih s (hp s)
  | suspend k ih => exact ih hp

theorem raises_tryCatch {P' : ε → Prop} {h : ε → Co σ ε α} (hp : p.Raises P')
    (hh : ∀ e, P' e → (h e).Raises P) : (p.tryCatch h).Raises P := by
  induction p with
  | pure a => trivial
  | throw e => exact hh e hp
  | act g k ih => exact fun s => ih s (hp s)
  | suspend k ih => exact ih hp

theorem raises_suppressOnly {accepts : ε → Bool} {p : Co σ ε Unit}
    (hp : p.Raises fun e => accepts e = true) : (p.suppressOnly accepts).NoThrow := by
  induction p with
  | pure a => trivial
  | throw e =>
    have he : accepts e = true := hp
    show (ite _ _ _ : Co σ ε Unit).NoThrow
    rw [if_pos he]
    trivial
  | act g k ih => exact fun s => ih s (hp s)
  | suspend k ih => exact ih hp

theorem raises_suppress [Catchable ε] (hp : p.RaisesErrors) : p.suppress.NoThrow :=
  raises_suppressOnly (raises_bind hp fun _ => raises_pure ())

theorem raises_forEach {body : α → Co σ ε Unit} {xs : List α}
    (hbody : ∀ x ∈ xs, (body x).Raises P) : (forEach xs body).Raises P := by
  induction xs with
  | nil => trivial
  | cons x xs ih =>
    exact raises_bind (hbody x List.mem_cons_self)
      fun _ => ih fun y hy => hbody y (List.mem_cons_of_mem x hy)

theorem Raises.exec (h : p.Raises P) {s : σ} {e : ε} (he : (p.exec s).2 = .error e) : P e := by
  induction p generalizing s with
  | pure a => cases he
  | throw e' =>
    cases he
    exact h
  | act f k ih => exact ih s (h s) he
  | suspend k ih => exact ih h he

end Raises

end Co

/-- `S` is a component of `W` that can be read and replaced on its own. -/
class Part (S W : Type) where
  view : W → S
  put : S → W → W
  view_put : ∀ s w, view (put s w) = s
  put_view : ∀ w, put (view w) w = w
  put_put : ∀ s t w, put s (put t w) = put s w

namespace Co

variable {S W ε α β : Type} [Part S W]

/-- Run a coroutine of the part inside the whole. -/
def lift : Co S ε α → Co W ε α
  | .pure a => .pure a
  | .throw e => .throw e
  | .act f k => .act (fun w => Part.put (f (Part.view w)) w) fun w => (k (Part.view w)).lift
  | .suspend k => .suspend k.lift

theorem lift_bind (p : Co S ε α) (f : α → Co S ε β) :
    ((p.bind f).lift : Co W ε β) = p.lift.bind fun a => (f a).lift := by
  induction p with
  | pure a => rfl
  | throw e => rfl
  | act g k ih => simp only [bind, lift, ih]
  | suspend k ih => simp only [bind, lift, ih]

theorem lift_tryCatch (p : Co S ε α) (h : ε → Co S ε α) :
    ((p.tryCatch h).lift : Co W ε α) = p.lift.tryCatch fun e => (h e).lift := by
  induction p with
  | pure a => rfl
  | throw e => rfl
  | act g k ih => simp only [tryCatch, lift, ih]
  | suspend k ih => simp only [tryCatch, lift, ih]

theorem lift_suppressOnly (accepts : ε → Bool) (p : Co S ε Unit) :
    ((p.suppressOnly accepts).lift : Co W ε Unit) = p.lift.suppressOnly accepts := by
  rw [suppressOnly, lift_tryCatch, suppressOnly]
  apply congrArg
  funext e
  split
  · rfl
  · rfl

theorem Raises.lift {P : ε → Prop} {p : Co S ε α} (h : p.Raises P) :
    (p.lift : Co W ε α).Raises P := by
  induction p with
  | pure a => trivial
  | throw e => exact h
  | act f k ih => exact fun w => ih _ (h _)
  | suspend k ih => exact ih h

theorem lift_suppress [Catchable ε] (p : Co S ε α) :
    (p.suppress.lift : Co W ε Unit) = p.lift.suppress := by
  rw [suppress, lift_suppressOnly, lift_bind]
  rfl

theorem lift_forEach (xs : List α) (body : α → Co S ε Unit) :
    ((forEach xs body).lift : Co W ε Unit) = forEach xs fun x => (body x).lift := by
  induction xs with
  | nil => rfl
  | cons x xs ih => rw [forEach_cons, lift_bind, ih, forEach_cons]

def Outcome.lift : Outcome S ε α → Outcome W ε α
  | .done a => .done a
  | .failed e => .failed e
  | .waiting k => .waiting k.lift

theorem block_lift (p : Co S ε α) (w : W) :
    (p.lift : Co W ε α).block w =
      (Part.put (p.block (Part.view w)).1 w, (p.block (Part.view w)).2.lift) := by
  induction p generalizing w with
  | pure a => simp [lift, block, Outcome.lift, Part.put_view]
  | throw e => simp [lift, block, Outcome.lift, Part.put_view]
  | act f k ih => simp [lift, block, ih, Part.view_put, Part.put_put]
  | suspend k ih => simp [lift, block, Outcome.lift, Part.put_view]

theorem block_lift_done {p : Co S ε α} {w : W} {s' : S} {a : α}
    (h : p.block (Part.view w) = (s', .done a)) :
    (p.lift : Co W ε α).block w = (Part.put s' w, .done a) := by
  rw [block_lift, h]
  rfl

theorem block_lift_failed {p : Co S ε α} {w : W} {s' : S} {e : ε}
    (h : p.block (Part.view w) = (s', .failed e)) :
    (p.lift : Co W ε α).block w = (Part.put s' w, .failed e) := by
  rw [block_lift, h]
  rfl

/-- The rest of the whole is untouched by a lifted coroutine. -/
@[simp] theorem exec_lift (p : Co S ε α) (w : W) :
    (p.lift : Co W ε α).exec w =
      (Part.put (p.exec (Part.view w)).1 w, (p.exec (Part.view w)).2) := by
  induction p generalizing w with
  | pure a => simp [lift, exec, Part.put_view]
  | throw e => simp [lift, exec, Part.put_view]
  | act f k ih => simp [lift, exec, ih, Part.view_put, Part.put_put]
  | suspend k ih => exact ih w

end Co

instance {S T : Type} : Part S (S × T) where
  view w := w.1
  put s w := (s, w.2)
  view_put _ _ := rfl
  put_view _ := rfl
  put_put _ _ _ := rfl

/-- A part of a part is a part. -/
@[reducible] def Part.trans {S T W : Type} (_ : Part S T) (_ : Part T W) : Part S W where
  view w := (Part.view (Part.view w : T) : S)
  put s w := Part.put (Part.put s (Part.view w : T)) w
  view_put s w := by rw [Part.view_put, Part.view_put]
  put_view w := by rw [Part.put_view, Part.put_view]
  put_put s t w := by rw [Part.view_put, Part.put_put, Part.put_put]

/-- Lifting in two stages is lifting to the part of the part. -/
theorem Co.lift_lift {S T W ε α : Type} [p : Part S T] [q : Part T W] (c : Co S ε α) :
    ((c.lift : Co T ε α).lift : Co W ε α) = @Co.lift S W ε α (p.trans q) c := by
  induction c with
  | pure a => rfl
  | throw e => rfl
  | act f k ih =>
    simp only [lift, ih]
    rfl
  | suspend k ih => simp only [lift, ih]

end Async
