import Trading.Async.Frame
import Trading.RuntimeParts

/-!
# The event log as a chain of state changes

Overlapping operations move the state from wherever they find it. Reading the old
state, setting the new one and handing the event to the log is one block, so the log is
an unbroken chain that leads to the current state at every moment.
-/
namespace Trading

open Async RuntimeWorld Contract

/-- Follow the chain from `s`; there is nothing to follow at a broken link. -/
def replay (s : SystemState) : List SystemStateChanged → Option SystemState
  | [] => some s
  | event :: events => if event.oldState = s then replay event.newState events else none

theorem replay_concat {s s' : SystemState} {events : List SystemStateChanged}
    (h : replay s events = some s') (event : SystemStateChanged) (hold : event.oldState = s') :
    replay s (events ++ [event]) = some event.newState := by
  induction events generalizing s with
  | nil =>
    cases h
    simp [replay, hold]
  | cons e events ih =>
    rw [replay] at h
    split at h
    · next hlink =>
      rw [List.cons_append, replay, if_pos hlink]
      exact ih h
    · cases h

section Chain

variable {ε : Type} [Part Clock ε]

/-- An event takes its place in the log at the moment `write` is called. -/
def Components.logging (comps : Components ε) : Components (Noted (List SystemStateChanged) ε) :=
  { (comps.lift : Components (Noted (List SystemStateChanged) ε)) with
    writeEvent := fun event => do
      record event
      (comps.writeEvent event).lift }

abbrev LoggedWorld (ε : Type) := RuntimeWorld (Noted (List SystemStateChanged) ε)

structure Chained (w : LoggedWorld ε) : Prop where
  chain : replay .booting w.env.log = some w.state
  known : w.bus.Knows ε

abbrev StaysChained {α : Type} (p : Coro (LoggedWorld ε) α) : Prop :=
  (invariance Chained).Keeps (fun _ _ => Chained) p

omit [Part Clock ε] in
theorem keeps_unlogged {α : Type} (p : Coro ε α) :
    StaysChained ((p.lift : Coro (Noted (List SystemStateChanged) ε) α).lift :
      Coro (LoggedWorld ε) α) := by
  rw [Co.lift_lift]
  exact @keeps_lift _ _ _ _ _ _ _ (Part.trans _ _) p (fun _ _ _ _ h => ⟨h.chain, h.known⟩) invariance_wait

omit [Part Clock ε] in
theorem callbacks_chained :
    CallbacksKeep (invariance Chained) (fun _ _ (w : LoggedWorld ε) => Chained w) := by
  intro l s₀ s h accepts callback hmem event
  obtain ⟨p, hp⟩ := h.known accepts callback hmem event
  rw [hp]
  exact keeps_unlogged p

/-- The state moves and the event joins the log before anybody else can act. -/
theorem keeps_transition (comps : Components ε) (seen newState : SystemState) (reason : String) :
    StaysChained (Supervisor.transition comps.logging seen newState reason) := by
  intro l s₀ s h
  have hwrite : ∀ event, StaysChained (((comps.lift :
      Components (Noted (List SystemStateChanged) ε)).writeEvent event).lift :
        Coro (LoggedWorld ε) Unit) :=
    fun event => keeps_unlogged (comps.writeEvent event)
  have hlogged : ∀ now e, Chained { s.moved seen ⟨s.state, newState, reason, now⟩ with
      env := ⟨s.env.log ++ [⟨s.state, newState, reason, now⟩], e⟩ } := by
    intro now e
    constructor
    · exact replay_concat h.chain _ rfl
    · exact h.known
  exact keeps_announce callbacks_chained (hwrite _) l s₀ _ (hlogged _ _)

theorem guards_chained (comps : Components ε) :
    Guards comps.logging (invariance Chained) (fun _ _ (w : LoggedWorld ε) => Chained w)
      fun _ _ => True where
  component h := by
    obtain ⟨p, rfl⟩ := h.of_write.lifted
    exact keeps_unlogged p
  callbacks := callbacks_chained
  flags _ _ _ _ _ _ h := ⟨h.chain, h.known⟩
  note _ _ _ _ _ _ h := ⟨h.chain, h.known⟩
  transition _ reason := keeps_transition comps _ _ reason

omit [Part Clock ε] in
theorem openBus_chained : StaysChained (Supervisor.openBus : Coro (LoggedWorld ε) Unit) := by
  apply keeps_bind
  · intro l s₀ s h
    change (invariance Chained).Follows _ _ (Co.lift (if s.bus.stopped then _ else _)) l s₀ s
    split
    · exact h
    · exact ⟨h.chain, h.known⟩
  intro _
  apply keeps_bind
  · exact fun _ _ _ h => ⟨h.chain, h.known⟩
  intro _ l s₀ s h
  change (invariance Chained).Follows _ _ (Co.lift (if s.bus.stopped then _ else _)) l s₀ s
  split
  · exact h
  · exact ⟨h.chain, h.known.subscribe _ _⟩

omit [Part Clock ε] in
theorem guardsOpen_chained (comps : Components ε) : GuardsOpen comps.logging (invariance Chained)
    fun _ _ (w : LoggedWorld ε) => Chained w where
  component component hmem := by
    obtain ⟨c, -, rfl⟩ := Components.mem_lifecycles_lift hmem
    exact keeps_unlogged c.start
  bus := openBus_chained

omit [Part Clock ε] in
theorem guardsClose_chained (comps : Components ε) : GuardsClose comps.logging (invariance Chained)
    fun _ _ (w : LoggedWorld ε) => Chained w where
  component component hmem := by
    obtain ⟨c, -, rfl⟩ := Components.mem_lifecycles_lift hmem
    exact keeps_unlogged c.stop
  note _ _ _ h := ⟨h.chain, h.known⟩
  bus _ _ _ h := ⟨h.chain, h.known⟩

/-- The logged state changes lead from `BOOTING` to the current state, link by link, whatever
calls, deliveries and resumptions came in whatever order. -/
theorem event_log_replays_to_state (comps : Components ε) (subs : List (Subscription ε)) (env : ε)
    (labels : List (Label SupervisorOp)) :
    let c := Config.run (SupervisorOp.prog comps.logging)
      ⟨.new (subs.map Subscription.lift) ⟨[], env⟩, []⟩ labels
    replay .booting c.state.env.log = some c.state.state := by
  intro c
  have hrun : Reaches (SupervisorOp.prog comps.logging) (fun _ _ => True)
      ⟨.new (subs.map Subscription.lift) ⟨[], env⟩, []⟩ c := .of_run _ labels fun _ _ _ => trivial
  have hops : ∀ op, StaysChained (SupervisorOp.prog comps.logging op) := by
    have hguards := guards_chained comps
    apply hguards.op (hguards.start (guardsOpen_chained comps) trivial trivial)
      (guardsClose_chained comps)
    all_goals first | trivial | exact fun _ _ _ => trivial
  have hinit : Chained (.new (subs.map Subscription.lift) ⟨[], env⟩ : LoggedWorld ε) :=
    ⟨rfl, EventBus.knows_wired subs⟩
  exact (Reaches.invariant hops hinit hrun).chain

end Chain

end Trading
