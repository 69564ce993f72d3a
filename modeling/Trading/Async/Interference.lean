import Trading.Async.Coroutine

/-!
# Running amid others

One coroutine run to its end while others change the state at each of its suspensions.
`others n` is what they do at the `n`-th of these.
-/
namespace Async.Co

variable {σ ε α β : Type}

/-- Run to the end from the `n`-th suspension on; the count goes on with the state. -/
def execAmid (others : Nat → σ → σ) : Co σ ε α → Nat → σ → (σ × Nat) × Except ε α
  | .pure a, n, s => ((s, n), .ok a)
  | .throw e, n, s => ((s, n), .error e)
  | .act f k, n, s => (k s).execAmid others n (f s)
  | .suspend k, n, s => k.execAmid others (n + 1) (others n s)

variable {others : Nat → σ → σ}

@[simp] theorem execAmid_pure (a : α) (n : Nat) (s : σ) :
    (Co.pure a : Co σ ε α).execAmid others n s = ((s, n), .ok a) := rfl

@[simp] theorem execAmid_throw (e : ε) (n : Nat) (s : σ) :
    (Co.throw e : Co σ ε α).execAmid others n s = ((s, n), .error e) := rfl

@[simp] theorem execAmid_get (n : Nat) (s : σ) :
    (get : Co σ ε σ).execAmid others n s = ((s, n), .ok s) := rfl

@[simp] theorem execAmid_modify (f : σ → σ) (n : Nat) (s : σ) :
    (modify f : Co σ ε Unit).execAmid others n s = ((f s, n), .ok ()) := rfl

theorem execAmid_bind (p : Co σ ε α) (f : α → Co σ ε β) (n : Nat) (s : σ) :
    (p.bind f).execAmid others n s = match p.execAmid others n s with
      | ((s', n'), .ok a) => (f a).execAmid others n' s'
      | ((s', n'), .error e) => ((s', n'), .error e) := by
  induction p generalizing n s with
  | pure a => rfl
  | throw e => rfl
  | act g k ih => exact ih s n (g s)
  | suspend k ih => exact ih (n + 1) (others n s)

@[simp] theorem execAmid_lift_modify {S : Type} [Part S σ] (f : S → S) (n : Nat) (s : σ) :
    ((modify f : Co S ε Unit).lift : Co σ ε Unit).execAmid others n s =
      ((Part.put (f (Part.view s)) s, n), .ok ()) := rfl

@[simp] theorem execAmid_lift_get {S : Type} [Part S σ] (n : Nat) (s : σ) :
    ((get : Co S ε S).lift : Co σ ε S).execAmid others n s = ((s, n), .ok (Part.view s)) := by
  change ((Part.put (Part.view s) s, n), Except.ok (Part.view s)) = _
  rw [Part.put_view]

/-- With nobody else around it is the plain run. -/
theorem execAmid_id (p : Co σ ε α) (n : Nat) (s : σ) :
    (p.execAmid (fun _ => id) n s).2 = (p.exec s).2 := by
  induction p generalizing n s with
  | pure a => rfl
  | throw e => rfl
  | act g k ih => exact ih s n (g s)
  | suspend k ih => exact ih (n + 1) s

/-- Of a bind that returns, the second part returns from wherever the first ends. -/
theorem execAmid_bind_eq_ok {p : Co σ ε α} {f : α → Co σ ε β} {n : Nat} {s : σ} {b : β}
    (h : ((p.bind f).execAmid others n s).2 = .ok b) :
    ∃ n' s' a, ((f a).execAmid others n' s').2 = .ok b := by
  rw [execAmid_bind] at h
  rcases hp : p.execAmid others n s with ⟨⟨s', n'⟩, e | a⟩
  · rw [hp] at h
    cases h
  · rw [hp] at h
    exact ⟨n', s', a, h⟩

/-- The others only touch the part. -/
def within {S W : Type} [Part S W] (others : Nat → S → S) (n : Nat) (w : W) : W :=
  Part.put (others n (Part.view w)) w

/-- A lifted coroutine among others that touch the same part only: the run of the part. -/
theorem execAmid_lift {S W : Type} [Part S W] (others : Nat → S → S) (p : Co S ε α)
    (n : Nat) (w : W) :
    (p.lift : Co W ε α).execAmid (within others) n w =
      ((Part.put (p.execAmid others n (Part.view w)).1.1 w,
        (p.execAmid others n (Part.view w)).1.2), (p.execAmid others n (Part.view w)).2) := by
  induction p generalizing n w with
  | pure a => simp [lift, Part.put_view]
  | throw e => simp [lift, Part.put_view]
  | act f k ih => simp [lift, execAmid, ih, Part.view_put, Part.put_put]
  | suspend k ih => simp [lift, execAmid, within, ih, Part.view_put, Part.put_put]

end Async.Co
