import Trading.SupervisorRules

/-!
# The supervisor's state machine under interleaving

Every operation checks the state, waits, and moves on without looking again. What
holds in any interleaving is that the transitions form one unbroken chain and that
each of them is right for the state its operation had seen.
-/
namespace Trading

open Async RuntimeWorld

/-- The transitions that `system_state.py` lists. -/
def SystemState.next : SystemState → List SystemState
  | .booting => [.reconciling]
  | .reconciling => [.running, .quarantine]
  | .running => [.quarantine, .draining, .stopped]
  | .quarantine => [.reconciling, .draining]
  | .draining => [.stopped]
  | .stopped => []

/-- Listed from the state an operation saw; a shutdown may have seen any state in which
it does not return at once. -/
def Checked (seen newState : SystemState) : Prop :=
  newState ∈ seen.next ∨ newState = .draining ∧ seen ≠ .stopped ∧ seen ≠ .draining

namespace Transition

def Listed (t : Transition) : Prop := t.newState ∈ t.oldState.next

instance (t : Transition) : Decidable t.Listed := inferInstanceAs (Decidable (_ ∈ _))

/-- The operation found the state as it had seen it, and if it was a shutdown it was
called while the system was up. -/
def Undisturbed (t : Transition) : Prop :=
  t.oldState = t.seen ∧
    (t.newState = .draining → t.seen = .running ∨ t.seen = .quarantine)

instance (t : Transition) : Decidable t.Undisturbed := inferInstanceAs (Decidable (_ ∧ _))

theorem listed_of_undisturbed {t : Transition} (hc : Checked t.seen t.newState) (hu : t.Undisturbed) :
    t.Listed := by
  obtain ⟨hseen, hdrain⟩ := hu
  rw [Listed, hseen]
  rcases hc with hlisted | ⟨hnew, -, -⟩
  · exact hlisted
  · rcases hdrain hnew with hup | hup <;> rw [hup, hnew] <;> decide

end Transition

/-- Each transition leaves from where the one before arrived. -/
def Unbroken : SystemState → List Transition → SystemState → Prop
  | s, [], s' => s = s'
  | s, t :: ts, s' => t.oldState = s ∧ Unbroken t.newState ts s'

theorem Unbroken.append {s s' s'' : SystemState} {ts us : List Transition}
    (h : Unbroken s ts s') (h' : Unbroken s' us s'') : Unbroken s (ts ++ us) s'' := by
  induction ts generalizing s with
  | nil =>
    cases h
    exact h'
  | cons t ts ih => exact ⟨h.1, ih h.2⟩

/-- No listed transition leaves `STOPPED`. -/
theorem Unbroken.stopped {s' : SystemState} {ts : List Transition}
    (h : Unbroken .stopped ts s') (hlisted : ∀ t ∈ ts, t.Listed) : s' = .stopped := by
  cases ts with
  | nil => exact h.symm
  | cons t ts =>
    have ht := hlisted t List.mem_cons_self
    rw [Transition.Listed, h.1] at ht
    exact absurd ht List.not_mem_nil

section Runs

variable {ε : Type}

/-- From `w` to `w'` by checked transitions only. -/
def Evolves (w w' : RuntimeWorld ε) : Prop :=
  ∃ ts, w'.transitions = w.transitions ++ ts ∧ Unbroken w.state ts w'.state ∧
    ∀ t ∈ ts, Checked t.seen t.newState

theorem Evolves.refl (w : RuntimeWorld ε) : Evolves w w :=
  ⟨[], (List.append_nil _).symm, rfl, fun _ h => absurd h List.not_mem_nil⟩

theorem Evolves.trans {w w' w'' : RuntimeWorld ε} (h : Evolves w w') (h' : Evolves w' w'') :
    Evolves w w'' := by
  obtain ⟨ts, hts, hpath, hchecked⟩ := h
  obtain ⟨us, hus, hpath', hchecked'⟩ := h'
  refine ⟨ts ++ us, by rw [hus, hts, List.append_assoc], hpath.append hpath', ?_⟩
  intro t ht
  exact (List.mem_append.mp ht).elim (hchecked t) (hchecked' t)

/-- A block that neither moves the state nor the record of its moves. -/
theorem Evolves.silent {w w' w'' : RuntimeWorld ε} (h : Evolves w w')
    (hstate : w''.state = w'.state) (htrans : w''.transitions = w'.transitions) :
    Evolves w w'' := by
  rwa [Evolves, hstate, htrans]

theorem Evolves.moved {w w' : RuntimeWorld ε} (h : Evolves w w') (t : Transition)
    (hold : t.oldState = w'.state) (ht : Checked t.seen t.newState) :
    Evolves w (w'.moved t.seen t.toSystemStateChanged) := by
  have hone : Evolves w' (w'.moved t.seen t.toSystemStateChanged) := by
    refine ⟨[t], ?_, ⟨hold, rfl⟩, ?_⟩
    · exact transitionsOf_append _ _
    · intro u hu
      rwa [List.mem_singleton.mp hu]
  exact h.trans hone

def evolution : Contract (RuntimeWorld ε) Unit :=
  Contract.ofPreorder Evolves Evolves.refl Evolves.trans

theorem survives_evolution : Survives evolution (fun _ => Evolves (ε := ε)) Checked where
  wait l _ _ h := ⟨l, h, fun t _ => Evolves.refl t⟩
  env _ _ _ _ h := h
  flags _ _ _ _ _ h := h
  note _ _ _ _ he h := Evolves.silent h rfl (transitions_note he)
  moved _ _ _ seen event hmove hold h := Evolves.moved h ⟨event, seen⟩ hold hmove

section Operations

variable [Part Clock ε] (comps : Components ε)

/-- Whatever an operation finds, its transitions are right for what it saw. -/
theorem keeps_op (op : SupervisorOp) :
    evolution.Keeps (fun _ => Evolves) (op.prog comps) := by
  have hbus : SurvivesBus (fun _ : Unit => Evolves (ε := ε)) := fun _ _ _ _ h => h
  have hlisted : ∀ seen new, new ∈ SystemState.next seen → Checked seen new :=
    fun _ _ hnew => .inl hnew
  have hguards := survives_evolution.guards comps
  have hstart := hguards.start (survives_evolution.guardsOpen hbus comps)
    (hlisted _ _ (by decide)) (hlisted _ _ (by decide))
  apply hguards.op hstart (survives_evolution.guardsClose hbus comps)
  · exact hlisted _ _ (by decide)
  · exact hlisted _ _ (by decide)
  · exact hlisted _ _ (by decide)
  · exact fun _ hstopped hdraining => .inr ⟨rfl, hstopped, hdraining⟩
  · exact hlisted _ _ (by decide)

/-- If no operation was overtaken between looking at the state and moving it, and
`stop()` was called only while the system was up, every transition is a listed one and
`STOPPED` is final. -/
theorem transitions_listed_of_undisturbed (subs : List (Subscription ε)) (env : ε)
    (c d : Config (RuntimeWorld ε) PyError)
    (hc : Reaches (SupervisorOp.prog comps) (fun _ _ => True) ⟨.new subs env, []⟩ c)
    (hd : Reaches (SupervisorOp.prog comps) (fun _ _ => True) c d)
    (hundisturbed : ∀ t ∈ d.state.transitions, t.Undisturbed) :
    (∀ t ∈ d.state.transitions, t.Listed) ∧
      (c.state.state = .stopped → d.state.state = .stopped) := by
  obtain ⟨⟨ts, hts, -, hchecked⟩, us, hus, hpath, hchecked'⟩ :=
    @Reaches.preorder _ _ _ Evolves Evolves.refl Evolves.trans _ _ _ _ _
      (fun op t _ _ => (keeps_op comps op).task t) hc hd
  have hlisted : ∀ t ∈ d.state.transitions, t.Listed := by
    intro t ht
    refine Transition.listed_of_undisturbed ?_ (hundisturbed t ht)
    rw [hus, hts] at ht
    rcases List.mem_append.mp ht with ht | ht
    · exact hchecked t ht
    · exact hchecked' t ht
  refine ⟨hlisted, fun hstopped => ?_⟩
  rw [hstopped] at hpath
  exact hpath.stopped fun t ht => hlisted t (hus ▸ List.mem_append_right _ ht)

end Operations

end Runs

def runIdle (labels : List (Label SupervisorOp)) : Config (RuntimeWorld (Clock × Unit)) PyError :=
  Config.run (SupervisorOp.prog idleComponents) ⟨.new [] (⟨fun n => n, 0⟩, ()), []⟩ labels

/-- A quarantine waits for its cancellations while a shutdown runs to its end. -/
def quarantineOvertaken : List (Label SupervisorOp) :=
  [.call .start, .call (.quarantine "manual" none), .call (.stop false), .resume 0]

/-- Two breaker trips, both past the check when the first one moves the state. -/
def tripsOverlap : List (Label SupervisorOp) :=
  [.call .start, .call (.deliver ⟨"Drawdown", .quarantine, "drawdown", 0⟩),
    .call (.deliver ⟨"Heartbeat", .quarantine, "silent", 0⟩), .resume 0, .resume 0]

/-- The stopped system comes back as a quarantined one, and a quarantined one is
quarantined again. -/
theorem stopped_to_quarantine :
    ((runIdle (quarantineOvertaken.take 3)).state.state = .stopped ∧
      (runIdle quarantineOvertaken).state.state = .quarantine ∧
      (runIdle quarantineOvertaken).state.transitions.map
          (fun t => (t.oldState, t.newState)) =
        [(.booting, .reconciling), (.reconciling, .running), (.running, .draining),
          (.draining, .stopped), (.stopped, .quarantine)]) ∧
      (runIdle tripsOverlap).state.transitions.map (fun t => (t.oldState, t.newState)) =
        [(.booting, .reconciling), (.reconciling, .running), (.running, .quarantine),
          (.quarantine, .quarantine)] := by
  decide +kernel

/-- One operation after the other. -/
def quarantineThenStop : List (Label SupervisorOp) :=
  [.call .start, .call (.quarantine "manual" none), .resume 0, .call .acknowledge,
    .call (.stop true), .resume 0]

theorem transitions_listed_one_by_one :
    (runIdle quarantineThenStop).state.transitions.map (fun t => t.newState) =
        [.reconciling, .running, .quarantine, .reconciling, .running, .draining, .stopped] ∧
      ∀ t ∈ (runIdle quarantineThenStop).state.transitions, t.Listed := by
  refine ⟨by decide +kernel, ?_⟩
  exact (transitions_listed_of_undisturbed (ε := Clock × Unit) idleComponents []
    (⟨fun n => n, 0⟩, ()) _ _ .refl (.of_run _ quarantineThenStop fun _ _ _ => trivial)
    (by decide +kernel)).1

end Trading
