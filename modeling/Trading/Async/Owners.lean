import Mathlib.Data.List.Induction
import Trading.Async.Contract

/-!
# Whose block it is

A pool whose tasks remember the operation that started them and the state in which it was
called. What each block of an operation does, from whatever state the others leave, is
then known of every step of every run.
-/
namespace Async

/-- An operation and the state in which it was called. -/
abbrev Owner (Op σ : Type) := Op × σ

structure Owned (σ ε Op : Type) where
  state : σ
  tasks : List (Owner Op σ × Co σ ε Unit)

def Label.isCall {Op : Type} : Label Op → Bool
  | .call _ => true
  | .resume _ => false

namespace Owned

variable {σ ε Op : Type} (prog : Op → Co σ ε Unit)

def settle (owner : Owner Op σ) (before after : List (Owner Op σ × Co σ ε Unit)) :
    σ × Co.Outcome σ ε Unit → Owned σ ε Op
  | (s, .waiting k) => ⟨s, before ++ (owner, k) :: after⟩
  | (s, .done _) => ⟨s, before ++ after⟩
  | (s, .failed _) => ⟨s, before ++ after⟩

def step (o : Owned σ ε Op) : Label Op → Owned σ ε Op
  | .call op => settle (op, o.state) o.tasks [] ((prog op).block o.state)
  | .resume i =>
    match o.tasks[i]? with
    | none => o
    | some (owner, p) => settle owner (o.tasks.take i) (o.tasks.drop (i + 1)) (p.block o.state)

def run (o : Owned σ ε Op) (labels : List (Label Op)) : Owned σ ε Op :=
  labels.foldl (step prog) o

/-- The owner of the block that comes next. -/
def runs (o : Owned σ ε Op) : Label Op → Option (Owner Op σ)
  | .call op => some (op, o.state)
  | .resume i => o.tasks[i]?.map Prod.fst

/-- The pool without the owners. -/
def pool (o : Owned σ ε Op) : Config σ ε := ⟨o.state, o.tasks.map Prod.snd⟩

theorem pool_settle (owner : Owner Op σ) (before after : List (Owner Op σ × Co σ ε Unit))
    (r : σ × Co.Outcome σ ε Unit) : (settle owner before after r).pool =
      Config.settle (before.map Prod.snd) (after.map Prod.snd) r := by
  rcases r with ⟨s, a | e | k⟩ <;> simp [settle, pool, Config.settle]

theorem pool_step (o : Owned σ ε Op) (l : Label Op) :
    (o.step prog l).pool = o.pool.step prog l := by
  cases l with
  | call op => exact pool_settle ..
  | resume i =>
    rw [step, Config.step, Config.resume]
    cases h : o.tasks[i]? with
    | none => simp [pool, h]
    | some task =>
      obtain ⟨owner, p⟩ := task
      have htask : o.pool.tasks[i]? = some p := by simp [pool, h]
      have hsettle := pool_settle owner (o.tasks.take i) (o.tasks.drop (i + 1)) (p.block o.state)
      rw [List.map_take, List.map_drop] at hsettle
      rw [htask]
      exact hsettle

/-- The owners change nothing. -/
theorem pool_run (o : Owned σ ε Op) (labels : List (Label Op)) :
    (o.run prog labels).pool = o.pool.run prog labels := by
  induction labels generalizing o with
  | nil => rfl
  | cons l labels ih =>
    rw [Config.run, List.foldl_cons, ← pool_step]
    exact ih _

theorem run_concat (o : Owned σ ε Op) (labels : List (Label Op)) (l : Label Op) :
    o.run prog (labels ++ [l]) = (o.run prog labels).step prog l := by
  simp [run]

end Owned

/-- Each block meets `spec`, whatever the others do in between. The ghost value tells the
first block from the later ones. -/
def Contract.blocks {σ : Type} (spec : Bool → σ → σ → Prop) : Contract σ Bool where
  rely _ _ := True
  guar first s first' s' := spec first s s' ∧ first' = false
  idle _ := True
  rely_refl _ := trivial
  rely_trans _ _ := trivial

namespace Owned

variable {σ ε Op : Type} {prog : Op → Co σ ε Unit} {spec : Owner Op σ → Bool → σ → σ → Prop}

/-- Every suspended task goes on to meet the specification of its owner. -/
def Meets (spec : Owner Op σ → Bool → σ → σ → Prop) (o : Owned σ ε Op) : Prop :=
  ∀ task ∈ o.tasks, ∀ t, (Contract.blocks (spec task.1)).Task task.2 false t

theorem meets_settle {owner : Owner Op σ} {before after : List (Owner Op σ × Co σ ε Unit)}
    {p : Co σ ε Unit} {first : Bool} {s : σ}
    (hp : (Contract.blocks (spec owner)).Task p first s)
    (hrest : ∀ task ∈ before ++ after, ∀ t, (Contract.blocks (spec task.1)).Task task.2 false t) :
    spec owner first s (settle owner before after (p.block s)).state ∧
      (settle owner before after (p.block s)).Meets spec := by
  have hblock := hp.block
  rcases h : p.block s with ⟨s', a | e | k⟩
  · rw [h] at hblock
    obtain ⟨_, ⟨hspec, -⟩, -⟩ := hblock
    exact ⟨hspec, hrest⟩
  · rw [h] at hblock
    obtain ⟨_, ⟨hspec, -⟩, -⟩ := hblock
    exact ⟨hspec, hrest⟩
  · rw [h] at hblock
    obtain ⟨_, ⟨hspec, rfl⟩, hk⟩ := hblock
    refine ⟨hspec, fun task htask t => ?_⟩
    obtain hmem | rfl | hmem : task ∈ before ∨ task = (owner, k) ∨ task ∈ after := by
      simpa [settle] using htask
    · exact hrest task (List.mem_append_left _ hmem) t
    · exact hk t trivial
    · exact hrest task (List.mem_append_right _ hmem) t

/-- One step: its block meets the specification of its owner, and so do those to come. -/
theorem meets_step (hprog : ∀ op s, (Contract.blocks (spec (op, s))).Task (prog op) true s)
    {o : Owned σ ε Op} (ho : o.Meets spec) (l : Label Op) :
    (∀ owner, o.runs l = some owner → spec owner l.isCall o.state (o.step prog l).state) ∧
      (o.step prog l).Meets spec := by
  cases l with
  | call op =>
    have hrest : ∀ task ∈ o.tasks ++ [],
        ∀ t, (Contract.blocks (spec task.1)).Task task.2 false t := by
      rw [List.append_nil]
      exact ho
    obtain ⟨hspec, hmeets⟩ := meets_settle (hprog op o.state) hrest
    refine ⟨fun owner howner => ?_, hmeets⟩
    cases howner
    exact hspec
  | resume i =>
    rw [step, runs]
    cases h : o.tasks[i]? with
    | none => exact ⟨fun owner howner => (by cases howner), ho⟩
    | some task =>
      obtain ⟨owner, p⟩ := task
      have hmem : (owner, p) ∈ o.tasks := List.mem_of_getElem? h
      have hrest : ∀ task ∈ o.tasks.take i ++ o.tasks.drop (i + 1),
          ∀ t, (Contract.blocks (spec task.1)).Task task.2 false t := by
        intro task htask
        obtain htask | htask := List.mem_append.mp htask
        · exact ho task (List.mem_of_mem_take htask)
        · exact ho task (List.mem_of_mem_drop htask)
      obtain ⟨hspec, hmeets⟩ := meets_settle (ho _ hmem o.state) hrest
      refine ⟨fun owner' howner => ?_, hmeets⟩
      cases howner
      exact hspec

/-- What the blocks of each operation do, every step of a run does. -/
theorem run_spec (hprog : ∀ op s, (Contract.blocks (spec (op, s))).Task (prog op) true s)
    (s : σ) (labels : List (Label Op)) (l : Label Op) {owner : Owner Op σ}
    (howner : ((⟨s, []⟩ : Owned σ ε Op).run prog labels).runs l = some owner) :
    spec owner l.isCall ((⟨s, []⟩ : Owned σ ε Op).run prog labels).state
      ((⟨s, []⟩ : Owned σ ε Op).run prog (labels ++ [l])).state := by
  have hmeets : ((⟨s, []⟩ : Owned σ ε Op).run prog labels).Meets spec := by
    clear howner
    induction labels using List.reverseRecOn with
    | nil => exact fun task htask => by cases htask
    | append_singleton labels l ih =>
      rw [run_concat]
      exact (meets_step hprog ih l).2
  rw [run_concat]
  exact (meets_step hprog hmeets l).1 owner howner

end Owned

end Async
