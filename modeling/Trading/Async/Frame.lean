import Trading.Async.Contract

/-!
# What a coroutine leaves alone

A coroutine frames a view of the state if none of its accesses changes what the view
shows, so that it keeps every assertion about the view, alone or among other tasks.
-/
namespace Async

namespace Co

variable {σ ε α β ν : Type} {view : σ → ν}

def Frames (view : σ → ν) : Co σ ε α → Prop
  | .pure _ => True
  | .throw _ => True
  | .act f k => ∀ s, view (f s) = view s ∧ (k s).Frames view
  | .suspend k => k.Frames view

theorem frames_pure (a : α) : (Co.pure a : Co σ ε α).Frames view := trivial

theorem frames_throw (e : ε) : (Co.throw e : Co σ ε α).Frames view := trivial

theorem frames_get : (Co.get : Co σ ε σ).Frames view := fun _ => ⟨rfl, trivial⟩

theorem frames_bind {p : Co σ ε α} {f : α → Co σ ε β} (hp : p.Frames view)
    (hf : ∀ a, (f a).Frames view) : (p.bind f).Frames view := by
  induction p with
  | pure a => exact hf a
  | throw e => trivial
  | act g k ih => exact fun s => ⟨(hp s).1, ih s (hp s).2⟩
  | suspend k ih => exact ih hp

theorem frames_ofExcept (r : Except ε α) : (Co.ofExcept r : Co σ ε α).Frames view := by
  cases r with
  | error e => trivial
  | ok a => trivial

theorem frames_tryCatch {p : Co σ ε α} {h : ε → Co σ ε α} (hp : p.Frames view)
    (hh : ∀ e, (h e).Frames view) : (p.tryCatch h).Frames view := by
  induction p with
  | pure a => trivial
  | throw e => exact hh e
  | act g k ih => exact fun s => ⟨(hp s).1, ih s (hp s).2⟩
  | suspend k ih => exact ih hp

theorem frames_suppress [Catchable ε] {p : Co σ ε α} (hp : p.Frames view) :
    p.suppress.Frames view := by
  apply frames_tryCatch (frames_bind hp fun _ => frames_pure ())
  intro e
  split
  · exact frames_pure ()
  · exact frames_throw e

theorem frames_caught [Catchable ε] {p : Co σ ε α} (hp : p.Frames view) :
    p.caught.Frames view := by
  apply frames_tryCatch (frames_bind hp fun _ => frames_pure _)
  intro e
  split
  · exact frames_pure _
  · exact frames_throw e

theorem frames_forEach {xs : List α} {body : α → Co σ ε Unit}
    (hbody : ∀ x ∈ xs, (body x).Frames view) : (Co.forEach xs body).Frames view := by
  induction xs with
  | nil => trivial
  | cons x xs ih =>
    rw [forEach_cons]
    apply frames_bind (hbody x List.mem_cons_self)
    exact fun _ => ih fun y hy => hbody y (List.mem_cons_of_mem x hy)

/-- What a part does is not seen by a view of the rest. -/
theorem frames_lift {S : Type} [Part S σ] (p : Co S ε α)
    (hput : ∀ (v : S) s, view (Part.put v s) = view s) :
    (p.lift : Co σ ε α).Frames view := by
  induction p with
  | pure a => trivial
  | throw e => trivial
  | act f k ih => exact fun s => ⟨hput _ s, ih _⟩
  | suspend k ih => exact ih

theorem Frames.prod {μ : Type} {view' : σ → μ} {p : Co σ ε α} (h : p.Frames view)
    (h' : p.Frames view') : p.Frames fun s => (view s, view' s) := by
  induction p with
  | pure a => trivial
  | throw e => trivial
  | act f k ih => exact fun s => ⟨Prod.ext (h s).1 (h' s).1, ih s (h s).2 (h' s).2⟩
  | suspend k ih => exact ih h h'

/-- A view of a part is framed by what frames it within the part. -/
theorem Frames.lift {S : Type} [Part S σ] {view : S → ν} {p : Co S ε α} (hp : p.Frames view) :
    (p.lift : Co σ ε α).Frames fun s => view (Part.view s) := by
  induction p with
  | pure a => trivial
  | throw e => trivial
  | act f k ih =>
    intro s
    have hshown : view (Part.view (Part.put (f (Part.view s)) s)) = view (Part.view s) := by
      rw [Part.view_put]
      exact (hp _).1
    exact ⟨hshown, ih _ (hp _).2⟩
  | suspend k ih => exact ih hp

theorem Frames.block {p : Co σ ε α} (hp : p.Frames view) (s : σ) :
    view (p.block s).1 = view s := by
  induction p generalizing s with
  | pure a => rfl
  | throw e => rfl
  | act f k ih => exact (ih s (hp s).2 (f s)).trans (hp s).1
  | suspend k ih => rfl

theorem Frames.waiting {p k : Co σ ε α} {s s' : σ} (hp : p.Frames view)
    (h : p.block s = (s', .waiting k)) : k.Frames view := by
  induction p generalizing s with
  | pure a => cases h
  | throw e => cases h
  | act f k' ih => exact ih s (hp s).2 h
  | suspend k' ih =>
    cases h
    exact hp

/-- The first block acts on the view as `act` says, and nothing after it does. -/
structure ActsFirst (view : σ → ν) (act : ν → ν) (p : Co σ ε α) : Prop where
  first : ∀ s, view (p.block s).1 = act (view s)
  rest : ∀ {s s' k}, p.block s = (s', .waiting k) → k.Frames view

theorem Frames.actsFirst {p : Co σ ε α} (hp : p.Frames view) : p.ActsFirst view id :=
  ⟨fun s => hp.block s, fun h => hp.waiting h⟩

/-- Whatever it finds, a result of the coroutine satisfies `R`. -/
def Returns (R : α → Prop) : Co σ ε α → Prop
  | .pure a => R a
  | .throw _ => True
  | .act _ k => ∀ s, (k s).Returns R
  | .suspend k => k.Returns R

theorem returns_bind {R : β → Prop} {p : Co σ ε α} {f : α → Co σ ε β}
    (hf : ∀ a, (f a).Returns R) : (p.bind f).Returns R := by
  induction p with
  | pure a => exact hf a
  | throw e => trivial
  | act g k ih => exact fun s => ih s
  | suspend k ih => exact ih

theorem Returns.bind {R : α → Prop} {R' : β → Prop} {p : Co σ ε α} {f : α → Co σ ε β}
    (hp : p.Returns R) (hf : ∀ a, R a → (f a).Returns R') : (p.bind f).Returns R' := by
  induction p with
  | pure a => exact hf a hp
  | throw e => trivial
  | act g k ih => exact fun s => ih s (hp s)
  | suspend k ih => exact ih hp

theorem Returns.block {R : α → Prop} {p : Co σ ε α} {s s' : σ} {a : α} (hp : p.Returns R)
    (h : p.block s = (s', .done a)) : R a := by
  induction p generalizing s with
  | pure b =>
    cases h
    exact hp
  | throw e => cases h
  | act g k ih => exact ih s (hp s) h
  | suspend k ih => cases h

theorem Returns.exec {R : α → Prop} {p : Co σ ε α} {s s' : σ} {a : α} (hp : p.Returns R)
    (h : p.exec s = (s', .ok a)) : R a := by
  induction p generalizing s with
  | pure b =>
    cases h
    exact hp
  | throw e => cases h
  | act g k ih => exact ih s (hp s) h
  | suspend k ih => exact ih hp h

end Co

namespace Contract

variable {σ ℓ ε α ν : Type} {C : Contract σ ℓ} {I : ℓ → σ → σ → Prop}

/-- A coroutine that frames a view keeps the assertions about it that survive waiting. -/
theorem keeps_of_frames {view : σ → ν} {p : Co σ ε α} (hp : p.Frames view)
    (hview : ∀ l s₀ s s', view s' = view s → I l s₀ s → I l s₀ s')
    (hwait : ∀ l s₀ s, I l s₀ s → ∃ l', C.guar l s₀ l' s ∧ ∀ t, C.rely s t → I l' t t) :
    C.Keeps I p := by
  intro l s₀ s h
  induction p generalizing l s₀ s with
  | pure a => exact h
  | throw e => exact h
  | act f k ih => exact ih s (hp s).2 l s₀ (f s) (hview l s₀ s (f s) (hp s).1 h)
  | suspend k ih =>
    obtain ⟨l', hg, ht⟩ := hwait l s₀ s h
    exact ⟨l', hg, fun t hst => ih hp l' t t (ht t hst)⟩

/-- The continuation only has to answer for what may be returned. -/
theorem keeps_bind_returns {β : Type} {R : α → Prop} {p : Co σ ε α} {f : α → Co σ ε β}
    (hp : C.Keeps I p) (hR : p.Returns R) (hf : ∀ a, R a → C.Keeps I (f a)) :
    C.Keeps I (p.bind f) := by
  intro l s₀ s h
  have hfollows := hp l s₀ s h
  clear h hp
  induction p generalizing l s₀ s with
  | pure a => exact hf a hR l s₀ s hfollows
  | throw e => exact hfollows
  | act g k ih => exact ih s (hR s) l s₀ (g s) hfollows
  | suspend k ih =>
    obtain ⟨l', hg, hk⟩ := hfollows
    exact ⟨l', hg, fun t ht => ih hR l' t t (hk t ht)⟩

/-- Every block preserves `J`, and may rely on the others to do so. -/
def invariance (J : σ → Prop) : Contract σ Unit where
  rely s t := J s → J t
  guar _ s _ s' := J s → J s'
  idle _ := True
  rely_refl _ h := h
  rely_trans h h' hs := h' (h hs)

/-- Two invariants at once. -/
theorem keeps_and {J J' : σ → Prop} {p : Co σ ε α}
    (hp : (invariance J).Keeps (fun _ _ => J) p) (hp' : (invariance J').Keeps (fun _ _ => J') p) :
    (invariance fun s => J s ∧ J' s).Keeps (fun _ _ s => J s ∧ J' s) p := by
  have hboth : ∀ l x₀ s₀ s, J x₀ → J' x₀ →
      (invariance J).Follows (fun _ _ _ => J) (fun _ _ _ => J) p l x₀ s →
      (invariance J').Follows (fun _ _ _ => J') (fun _ _ _ => J') p l x₀ s →
      (invariance fun s => J s ∧ J' s).Follows (fun _ _ _ s => J s ∧ J' s)
        (fun _ _ _ s => J s ∧ J' s) p l s₀ s := by
    clear hp hp'
    induction p with
    | pure a => exact fun _ _ _ _ _ _ h h' => ⟨h, h'⟩
    | throw e => exact fun _ _ _ _ _ _ h h' => ⟨h, h'⟩
    | act f k ih => exact fun l x₀ s₀ s hJ hJ' h h' => ih s l x₀ s₀ (f s) hJ hJ' h h'
    | suspend k ih =>
      intro l x₀ s₀ s hJ hJ' h h'
      obtain ⟨l₁, hg, hk⟩ := h
      obtain ⟨l₂, hg', hk'⟩ := h'
      refine ⟨l₁, fun _ => ⟨hg hJ, hg' hJ'⟩, fun t ht => ?_⟩
      obtain ⟨hJt, hJt'⟩ := ht ⟨hg hJ, hg' hJ'⟩
      exact ih l₁ t t t hJt hJt' (hk t fun _ => hJt) (hk' t fun _ => hJt')
  exact fun l s₀ s h => hboth l s s₀ s h.1 h.2 (hp l s s h.1) (hp' l s s h.2)

/-- An invariant of a part, kept within the part, next to what the part does not touch. -/
theorem keeps_lift_invariance {S : Type} [Part S σ] {J : S → Prop} {F : σ → Prop}
    (hput : ∀ (x : S) s, F s → F (Part.put x s)) {p : Co S ε α}
    (hp : (invariance J).Keeps (fun _ _ => J) p) :
    (invariance fun s : σ => J (Part.view s) ∧ F s).Keeps (fun _ _ s => J (Part.view s) ∧ F s)
      (p.lift : Co σ ε α) := by
  have hlift : ∀ l x₀ s₀ s, J x₀ → F s →
      (invariance J).Follows (fun _ _ _ => J) (fun _ _ _ => J) p l x₀ (Part.view s) →
      (invariance fun s : σ => J (Part.view s) ∧ F s).Follows
        (fun _ _ _ s => J (Part.view s) ∧ F s) (fun _ _ _ s => J (Part.view s) ∧ F s)
        p.lift l s₀ s := by
    clear hp
    induction p with
    | pure a => exact fun _ _ _ _ _ hF h => ⟨h, hF⟩
    | throw e => exact fun _ _ _ _ _ hF h => ⟨h, hF⟩
    | act f k ih =>
      intro l x₀ s₀ s hJ hF h
      apply ih (Part.view s) l x₀ s₀ _ hJ (hput _ s hF)
      rw [Part.view_put]
      exact h
    | suspend k ih =>
      intro l x₀ s₀ s hJ hF h
      obtain ⟨l', hg, hk⟩ := h
      refine ⟨l', fun _ => ⟨hg hJ, hF⟩, fun t ht => ?_⟩
      obtain ⟨hJt, hFt⟩ := ht ⟨hg hJ, hF⟩
      exact ih l' (Part.view t) t t hJt hFt (hk (Part.view t) fun _ => hJt)
  exact fun l s₀ s h => hlift l (Part.view s) s₀ s h.1 h.2 (hp l _ _ h.1)

theorem invariance_wait {J : σ → Prop} (l : Unit) (s₀ s : σ) (h : J s) :
    ∃ l', (invariance J).guar l s₀ l' s ∧ ∀ t, (invariance J).rely s t → J t :=
  ⟨l, fun _ => h, fun _ ht => ht h⟩

end Contract

/-- What holds at first and is kept by every operation holds whatever the interleaving. -/
theorem Reaches.invariant {σ ε Op : Type} {J : σ → Prop} {prog : Op → Co σ ε Unit}
    {pre : Op → σ → Prop} {s : σ} {c : Config σ ε}
    (hops : ∀ op, (Contract.invariance J).Keeps (fun _ _ => J) (prog op)) (hs : J s)
    (h : Reaches prog pre ⟨s, []⟩ c) : J c.state := by
  have hinit : (Contract.invariance J).Holds (fun t _ => J t) (⟨s, []⟩ : Config σ ε) :=
    ⟨[], .nil, hs⟩
  have hall : (Contract.invariance J).Holds (fun t _ => J t) c := by
    apply Contract.reaches_holds _ _ _ hinit h
    · exact fun t _ _ _ _ t' ht hg => ⟨hg, hg ht⟩
    · exact fun _ _ _ _ ht _ => ht
    · intro t _ op ht _
      have hop := hops op () t t ht
      exact ⟨(), ht, hop.mono (fun _ _ _ _ h => ⟨(), fun _ => h, trivial⟩)
        fun _ _ _ _ h => ⟨(), fun _ => h, trivial⟩⟩
  obtain ⟨_, _, hc⟩ := hall
  exact hc

/-- The same of operations that only keep it when they are called as allowed. -/
theorem Reaches.invariant_of {σ ε Op : Type} {J : σ → Prop} {prog : Op → Co σ ε Unit}
    {pre : Op → σ → Prop} {s : σ} {c : Config σ ε}
    (hops : ∀ op t, J t → pre op t → (Contract.invariance J).Follows (fun _ _ _ => J)
      (fun _ _ _ => J) (prog op) () t t)
    (hs : J s) (h : Reaches prog pre ⟨s, []⟩ c) : J c.state := by
  let R : σ → σ → Prop := fun s t => J s → J t
  have hrefl : ∀ s, R s s := fun _ h => h
  have htrans : ∀ {s t u}, R s t → R t u → R s u := fun h h' hs => h' (h hs)
  have htask : ∀ op t, R s t → pre op t →
      (Contract.ofPreorder R hrefl @htrans).Task (prog op) () t :=
    fun op t ht hpre => (hops op t (ht hs) hpre).mono
      (fun _ _ _ _ h => ⟨(), fun _ => h, trivial⟩) fun _ _ _ _ h => ⟨(), fun _ => h, trivial⟩
  exact (Reaches.preorder htask h .refl).1 hs

section Acts

variable {σ ε Op ν : Type} {view : σ → ν} {act : Op → ν → ν} {prog : Op → Co σ ε Unit}

@[simp] theorem Config.state_settle (before after : List (Co σ ε Unit))
    (r : σ × Co.Outcome σ ε Unit) : (settle before after r).state = r.1 := by
  rcases r with ⟨s, a | e | k⟩ <;> rfl

theorem Config.frames_settle {before after : List (Co σ ε Unit)}
    (hbefore : ∀ p ∈ before, p.Frames view) (hafter : ∀ p ∈ after, p.Frames view)
    {r : σ × Co.Outcome σ ε Unit} (hwait : ∀ k, r.2 = .waiting k → k.Frames view) :
    ∀ p ∈ (settle before after r).tasks, p.Frames view := by
  have hothers : ∀ p ∈ before ++ after, p.Frames view := fun p hp =>
    (List.mem_append.mp hp).elim (hbefore p) (hafter p)
  rcases r with ⟨s, a | e | k⟩
  · exact hothers
  · exact hothers
  · intro p hp
    rcases List.mem_append.mp hp with hp | hp
    · exact hbefore p hp
    · rcases List.mem_cons.mp hp with rfl | hp
      · exact hwait p rfl
      · exact hafter p hp

/-- What a step does to the view if only calls do anything. -/
def Label.acting (act : Op → ν → ν) (v : ν) : Label Op → ν
  | .call op => act op v
  | .resume _ => v

/-- Where operations only act on a view when they are called, the view of a run comes from
the calls in their order. -/
theorem Config.view_run (hact : ∀ op, (prog op).ActsFirst view (act op)) {c : Config σ ε}
    (hc : ∀ p ∈ c.tasks, p.Frames view) (labels : List (Label Op)) :
    view (c.run prog labels).state = labels.foldl (Label.acting act) (view c.state) := by
  induction labels generalizing c with
  | nil => rfl
  | cons label labels ih =>
    cases label with
    | call op =>
      have hview : view (c.call (prog op)).state = act op (view c.state) := by
        rw [call, state_settle]
        exact (hact op).first c.state
      rw [List.foldl_cons, Label.acting, ← hview]
      apply ih
      exact frames_settle hc (fun p hp => absurd hp List.not_mem_nil) fun k hk =>
        (hact op).rest (Prod.ext rfl hk)
    | resume i =>
      rcases c.resume_cases i with hnone | ⟨before, p, after, hsplit, hstep⟩
      · have hrun : c.run prog (.resume i :: labels) = c.run prog labels :=
          congrArg (fun d : Config σ ε => d.run prog labels) hnone
        rw [hrun]
        exact ih hc
      · rw [hsplit] at hc
        have hp : p.Frames view := hc p (by simp)
        have hview : view (c.resume i).state = view c.state := by
          rw [hstep, state_settle]
          exact hp.block c.state
        rw [List.foldl_cons, Label.acting, ← hview]
        apply ih
        rw [step, hstep]
        exact frames_settle (fun q hq => hc q (List.mem_append_left _ hq))
          (fun q hq => hc q (List.mem_append_right _ (List.mem_cons_of_mem _ hq)))
          fun k hk => hp.waiting (Prod.ext rfl hk)

end Acts

end Async
