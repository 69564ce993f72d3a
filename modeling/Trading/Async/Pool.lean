import Trading.Async.Coroutine

/-!
# Pools of interleaved coroutines

A call runs the first block of a coroutine at once; afterwards any suspended
task may be resumed at any time, for one block. A callback that re-enters the
system while its caller waits is a call made between two of the caller's blocks,
so re-entrancy needs no rule of its own.
-/
namespace Async

structure Config (σ ε : Type) where
  state : σ
  tasks : List (Co σ ε Unit)

inductive Label (Op : Type) where
  | call (op : Op)
  | resume (i : Nat)

namespace Config

variable {σ ε Op : Type}

/-- Put a task that has just run back between the others, or drop it if it ended. -/
def settle (before after : List (Co σ ε Unit)) : σ × Co.Outcome σ ε Unit → Config σ ε
  | (s, .waiting k) => ⟨s, before ++ k :: after⟩
  | (s, .done _) => ⟨s, before ++ after⟩
  | (s, .failed _) => ⟨s, before ++ after⟩

def call (p : Co σ ε Unit) (c : Config σ ε) : Config σ ε := settle c.tasks [] (p.block c.state)

def resume (i : Nat) (c : Config σ ε) : Config σ ε :=
  match c.tasks[i]? with
  | none => c
  | some p => settle (c.tasks.take i) (c.tasks.drop (i + 1)) (p.block c.state)

def step (prog : Op → Co σ ε Unit) (c : Config σ ε) : Label Op → Config σ ε
  | .call op => c.call (prog op)
  | .resume i => c.resume i

def run (prog : Op → Co σ ε Unit) (c : Config σ ε) (labels : List (Label Op)) : Config σ ε :=
  labels.foldl (step prog) c

/-- Every call of the schedule meets `pre` when it is made. -/
def Allowed (prog : Op → Co σ ε Unit) (pre : Op → σ → Prop) :
    Config σ ε → List (Label Op) → Prop
  | _, [] => True
  | c, .call op :: labels => pre op c.state ∧ Allowed prog pre (c.call (prog op)) labels
  | c, .resume i :: labels => Allowed prog pre (c.resume i) labels

instance decidableAllowed (prog : Op → Co σ ε Unit) (pre : Op → σ → Prop)
    [∀ op s, Decidable (pre op s)] :
    (c : Config σ ε) → (labels : List (Label Op)) → Decidable (Allowed prog pre c labels)
  | _, [] => inferInstanceAs (Decidable True)
  | c, .call op :: labels =>
    have := decidableAllowed prog pre (c.call (prog op)) labels
    inferInstanceAs (Decidable (pre op c.state ∧ Allowed prog pre (c.call (prog op)) labels))
  | c, .resume i :: labels => decidableAllowed prog pre (c.resume i) labels

/-- A resumption either finds no task or splits the pool around the one it runs. -/
theorem resume_cases (i : Nat) (c : Config σ ε) :
    c.resume i = c ∨ ∃ before p after, c.tasks = before ++ p :: after ∧
      c.resume i = settle before after (p.block c.state) := by
  unfold resume
  cases h : c.tasks[i]? with
  | none => exact .inl rfl
  | some p =>
    obtain ⟨hi, hp⟩ := List.getElem?_eq_some_iff.mp h
    refine .inr ⟨_, p, _, ?_, rfl⟩
    rw [← hp, ← List.drop_eq_getElem_cons hi, List.take_append_drop]

end Config

/-- The configurations that calls meeting `pre` and resumptions can lead to. -/
inductive Reaches {σ ε Op : Type} (prog : Op → Co σ ε Unit) (pre : Op → σ → Prop)
    (c : Config σ ε) : Config σ ε → Prop where
  | refl : Reaches prog pre c c
  | call {d : Config σ ε} (op : Op) : Reaches prog pre c d → pre op d.state →
      Reaches prog pre c (d.call (prog op))
  | resume {d : Config σ ε} (i : Nat) : Reaches prog pre c d → Reaches prog pre c (d.resume i)

namespace Reaches

variable {σ ε Op : Type} {prog : Op → Co σ ε Unit} {pre : Op → σ → Prop}

theorem mono {pre' : Op → σ → Prop} {c d : Config σ ε} (h : Reaches prog pre c d)
    (hpre : ∀ op s, pre op s → pre' op s) : Reaches prog pre' c d := by
  induction h with
  | refl => exact .refl
  | call op _ hp ih => exact .call op ih (hpre op _ hp)
  | resume i _ ih => exact .resume i ih

/-- An executed schedule whose calls are allowed is a run. -/
theorem of_allowed {c d : Config σ ε} (h : Reaches prog pre c d) (labels : List (Label Op))
    (hallowed : Config.Allowed prog pre d labels) : Reaches prog pre c (d.run prog labels) := by
  induction labels generalizing d with
  | nil => exact h
  | cons l ls ih =>
    cases l with
    | call op => exact ih (.call op h hallowed.1) hallowed.2
    | resume i => exact ih (.resume i h) hallowed

/-- An executed schedule of calls that are always allowed is a run. -/
theorem of_run (c : Config σ ε) (labels : List (Label Op))
    (hpre : ∀ op, .call op ∈ labels → ∀ s, pre op s) :
    Reaches prog pre c (c.run prog labels) := by
  have hallowed : ∀ d, Config.Allowed prog pre d labels := by
    induction labels with
    | nil => exact fun _ => trivial
    | cons l ls ih =>
      intro d
      have hrest := ih fun op hop => hpre op (List.mem_cons_of_mem l hop)
      cases l with
      | call op => exact ⟨hpre op List.mem_cons_self _, hrest _⟩
      | resume i => exact hrest _
  exact of_allowed .refl labels (hallowed c)

end Reaches

end Async
