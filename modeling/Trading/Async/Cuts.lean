import Trading.Async.Coroutine

/-!
# Where a coroutine can be cut short

A crash takes effect while a coroutine is suspended, an exception at its end. The
states at these points are all that is left of a run that goes no further.
-/
namespace Async.Co

variable {σ ε α β : Type}

/-- The states at the suspensions of an uninterrupted run. -/
def waits : Co σ ε α → σ → List σ
  | .pure _, _ => []
  | .throw _, _ => []
  | .act f k, s => (k s).waits (f s)
  | .suspend k, s => s :: k.waits s

/-- The states at its suspensions and at its end. -/
def cuts (p : Co σ ε α) (s : σ) : List σ := p.waits s ++ [(p.exec s).1]

theorem waits_bind (p : Co σ ε α) (f : α → Co σ ε β) (s : σ) :
    (p.bind f).waits s = p.waits s ++ match p.exec s with
      | (s', .ok a) => (f a).waits s'
      | (_, .error _) => [] := by
  induction p generalizing s with
  | pure a => rfl
  | throw e => rfl
  | act g k ih => exact ih s (g s)
  | suspend k ih => exact congrArg (s :: ·) (ih s)

theorem waits_tryCatch (p : Co σ ε α) (h : ε → Co σ ε α) (s : σ) :
    (p.tryCatch h).waits s = p.waits s ++ match p.exec s with
      | (_, .ok _) => []
      | (s', .error e) => (h e).waits s' := by
  induction p generalizing s with
  | pure a => rfl
  | throw e => rfl
  | act g k ih => exact ih s (g s)
  | suspend k ih => exact congrArg (s :: ·) (ih s)

@[simp] theorem waits_caught [Catchable ε] (p : Co σ ε α) (s : σ) :
    p.caught.waits s = p.waits s := by
  rw [caught, waits_tryCatch, waits_bind, exec_bind]
  rcases p.exec s with ⟨s', e | a⟩
  · show (p.waits s ++ []) ++ (ite _ _ _ : Co σ ε (Except ε α)).waits s' = _
    split <;> simp [waits]
  · simp [waits]

@[simp] theorem waits_lift {S W : Type} [Part S W] (p : Co S ε α) (w : W) :
    (p.lift : Co W ε α).waits w = (p.waits (Part.view w)).map (Part.put · w) := by
  induction p generalizing w with
  | pure a => rfl
  | throw e => rfl
  | act f k ih => simp [lift, waits, ih, Part.view_put, Part.put_put]
  | suspend k ih => simp [lift, waits, ih, Part.put_view]

theorem cuts_bind (p : Co σ ε α) (f : α → Co σ ε β) (s : σ) :
    (p.bind f).cuts s = p.waits s ++ match p.exec s with
      | (s', .ok a) => (f a).cuts s'
      | (s', .error _) => [s'] := by
  rw [cuts, waits_bind, exec_bind]
  rcases p.exec s with ⟨s', e | a⟩ <;> simp [cuts]

/-- What is done with the result alone adds no point. -/
theorem cuts_bind_pure (p : Co σ ε α) (f : α → β) (s : σ) :
    (p.bind fun a => .pure (f a)).cuts s = p.cuts s := by
  rw [cuts_bind, cuts]
  rcases p.exec s with ⟨s', e | a⟩ <;> rfl

theorem cuts_lift {S W : Type} [Part S W] (p : Co S ε α) (w : W) :
    (p.lift : Co W ε α).cuts w = (p.cuts (Part.view w)).map (Part.put · w) := by
  rw [cuts, waits_lift, exec_lift, cuts, List.map_append, List.map_singleton]

end Async.Co
