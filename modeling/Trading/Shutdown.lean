import Mathlib.Data.List.Nodup
import Trading.AlertRouter
import Trading.RuntimeParts

/-!
# What a shutdown attempts

The components are watched: each attempt to stop one is recorded, and so are the calls of
`stop()` and what they come back with. Where the log takes the two state changes, only
the last alert channel fails to stop and nothing overtakes the shutdown, it attempts
everything exactly once.
-/
namespace Trading

open Async RuntimeWorld

inductive StopTarget where
  | marketData | venue | bus | orderManager | positionManager | alertRouter
  | channel (i : Nat)
  | alertLog | eventLog | accountJournal | orderJournal
  deriving DecidableEq, Repr

inductive StopNote where
  | called
  | attempted (target : StopTarget)
  | returned (state : SystemState)
  | raised (exc : PyError)
  deriving DecidableEq, Repr

/-- What a call of `stop()` comes back with. -/
def StopNote.comeback (state : SystemState) : Except PyError Unit → StopNote
  | .ok _ => .returned state
  | .error exc => .raised exc

def StopNote.isComeback : StopNote → Bool
  | .returned _ | .raised _ => true
  | _ => false

section Watched

variable {ε : Type}

abbrev WatchedEnv (ε : Type) := Noted (List StopNote) ε

abbrev WatchedWorld (ε : Type) := RuntimeWorld (WatchedEnv ε)

def Lifecycle.watched (target : StopTarget) (component : Lifecycle ε) :
    Lifecycle (WatchedEnv ε) where
  start := component.start.lift
  stop := do
    record (.attempted target)
    component.stop.lift

namespace InMemoryAlertRouter

/-- Each channel with its place in the registration order. -/
def watchedChannels (router : InMemoryAlertRouter ε) : InMemoryAlertRouter (WatchedEnv ε) where
  registered := router.registered.zipIdx.map fun entry =>
    ({ lifecycle := entry.1.1.lifecycle.watched (.channel entry.2)
       send := fun a => (entry.1.1.send a).lift }, entry.1.2)

def watched (router : InMemoryAlertRouter ε) : Lifecycle (WatchedEnv ε) where
  start := router.watchedChannels.start
  stop := do
    record (.attempted .alertRouter)
    router.watchedChannels.stop

end InMemoryAlertRouter

/-- The alert router of the components is `router`. -/
def Components.watched (comps : Components ε) (router : InMemoryAlertRouter ε) :
    Components (WatchedEnv ε) :=
  { (comps.lift : Components (WatchedEnv ε)) with
    orderJournal := comps.orderJournal.watched .orderJournal
    accountJournal := comps.accountJournal.watched .accountJournal
    eventLog := comps.eventLog.watched .eventLog
    alertLog := comps.alertLog.watched .alertLog
    alertRouter := router.watched
    venueLifecycle := comps.venueLifecycle.watched .venue
    marketData := comps.marketData.watched .marketData
    omsLifecycle := comps.omsLifecycle.map fun component => component.watched .orderManager
    pmsLifecycle := comps.pmsLifecycle.map fun component => component.watched .positionManager
    alert := router.watchedChannels.alert }

def channelTargets (entries : List ((AlertChannel ε × List AlertLevel) × Nat)) :
    List StopTarget :=
  entries.map fun entry => .channel entry.2

/-- What there is to stop, in the order in which it is stopped. -/
def stopTargets (comps : Components ε) (router : InMemoryAlertRouter ε) : List StopTarget :=
  .marketData :: .venue :: .bus :: ((comps.omsLifecycle.map fun _ => .orderManager).toList ++
    ((comps.pmsLifecycle.map fun _ => .positionManager).toList ++
      .alertRouter :: (channelTargets router.registered.zipIdx ++
        [.alertLog, .eventLog, .accountJournal, .orderJournal])))

/-- What is known of a shutdown. -/
structure StopBooks where
  state : SystemState
  notes : List StopNote
  busStops : Nat

def RuntimeWorld.books (w : WatchedWorld ε) : StopBooks :=
  ⟨w.state, w.env.log, w.trace.count .stopBus⟩

/-- How often a stop was attempted. -/
def StopBooks.attempts (b : StopBooks) (target : StopTarget) : Nat :=
  if target = .bus then b.busStops else b.notes.count (.attempted target)

def StopBooks.calls (b : StopBooks) : Nat := b.notes.count .called

def StopBooks.comebacks (b : StopBooks) : Nat := b.notes.countP StopNote.isComeback

def RuntimeWorld.noted (n : StopNote) (w : WatchedWorld ε) : WatchedWorld ε :=
  { w with env := { w.env with log := w.env.log ++ [n] } }

def recordStop (n : StopNote) : Coro (WatchedWorld ε) Unit := Co.modify (noted n)

/-- The calls of `stop()` are recorded when they come and when they come back. -/
def SupervisorOp.watchedProg [Part Clock ε] (comps : Components ε) (router : InMemoryAlertRouter ε) :
    SupervisorOp → Coro (WatchedWorld ε) Unit
  | .stop drain => do
    recordStop .called
    let result ← (Supervisor.stop (comps.watched router) drain).attempt
    let w ← Co.get
    recordStop (.comeback w.state result)
  | op => op.prog (comps.watched router)

/-- `stop()` is not called while another call of it is under way. -/
def StopsApart : SupervisorOp → WatchedWorld ε → Prop
  | .stop _, w => w.books.calls = w.books.comebacks
  | _, _ => True

instance (op : SupervisorOp) (w : WatchedWorld ε) : Decidable (StopsApart op w) :=
  match op with
  | .stop _ => inferInstanceAs (Decidable (w.books.calls = w.books.comebacks))
  | .start | .quarantine _ _ | .acknowledge | .deliver _ | .publish _ =>
    inferInstanceAs (Decidable True)

end Watched

/-- The sleep of the loop lets a cancellation through, its calls raise errors besides, and
nothing else has ended it. -/
def TickTask.Cancellable {ε : Type} : TickTask ε → Prop
  | .ended outcome => ∀ exc, outcome = .error exc → exc.isCancelled = true
  | .sleeping rest next => (rest.Raises fun exc => exc.isCancelled = true) ∧ next.Cancellable
  | .calling rest next =>
    (rest.Raises fun exc => exc.isException = true ∨ exc.isCancelled = true) ∧ next.Cancellable

/-- Such a loop ends, if it does, by returning or by its cancellation. -/
theorem TickTask.Cancellable.awaited {ε : Type} {task : TickTask ε} (h : task.Cancellable) :
    task.awaited.Raises fun exc => exc.isCancelled = true := by
  induction task with
  | ended outcome =>
    cases outcome with
    | ok u => trivial
    | error exc => exact h exc rfl
  | sleeping rest next ih =>
    apply Co.raises_bind
    · apply Co.raises_tryCatch (Co.raises_bind h.1 fun _ => Co.raises_pure _)
      intro exc hexc
      rw [if_pos hexc]
      trivial
    · intro cancelled
      cases cancelled with
      | false => exact ih h.2
      | true => trivial
  | calling rest next ih =>
    apply Co.raises_bind
    · apply Co.raises_tryCatch (Co.raises_bind h.1 fun _ => Co.raises_pure _)
      intro exc hexc
      by_cases hcaught : Catchable.catchable exc = true
      · rw [if_pos hcaught]
        trivial
      · rw [if_neg hcaught]
        exact hexc.resolve_left hcaught
    · exact fun _ => ih h.2

section GoesDown

variable {ε : Type}

/-- What a shutdown needs of what it calls: the log takes its two state changes, no channel
but the last fails to stop, the tick loop lets itself be cancelled, and the others raise
errors at most. -/
structure Components.GoesDown (comps : Components ε) (router : InMemoryAlertRouter ε)
    (subs : List (Subscription ε)) : Prop where
  write : ∀ event, event.newState = .draining ∨ event.newState = .stopped →
    (comps.writeEvent event).NoThrow
  channels : ∀ entry ∈ router.registered.dropLast, entry.1.lifecycle.stop.NoThrow
  lastChannel : ∀ entry ∈ router.registered, Co.RaisesErrors entry.1.lifecycle.stop
  stops : ∀ component ∈ comps.lifecycles, Co.RaisesErrors component.stop
  cancelAll : Co.RaisesErrors comps.cancelAll
  subscribers : ∀ sub ∈ subs, sub.RaisesErrors
  tick : comps.tickTask.Cancellable

end GoesDown

/-- It moves the state of a system that is shutting down, or shut down, and is not the
shutdown's own. -/
def Transition.Belated (t : Transition) : Prop :=
  (t.oldState = .draining ∨ t.oldState = .stopped) ∧ t.seen ≠ .draining

instance (t : Transition) : Decidable t.Belated := inferInstanceAs (Decidable (_ ∧ _))

/-- How far a call of `stop()` has got, and what it has yet to stop. -/
inductive StopPhase where
  | entering
  | closing (state : SystemState) (rest : List StopTarget)
  deriving DecidableEq, Repr

section Account

variable {ε : Type} (comps : Components ε) (router : InMemoryAlertRouter ε)

/-- Nothing was stopped. -/
structure StopBooks.Fresh (b : StopBooks) : Prop where
  draining : b.state ≠ .draining
  stopped : b.state ≠ .stopped
  bus : b.busStops = 0

/-- One call of `stop()` has yet to stop the `rest`. -/
structure StopBooks.Closing (rest : List StopTarget) (b : StopBooks) : Prop where
  down : b.state = .draining ∨ b.state = .stopped
  called : b.calls = 1
  away : b.comebacks = 0
  account : ∀ target,
    b.attempts target + rest.count target = (stopTargets comps router).count target

/-- Everything was stopped, and every call of `stop()` is back. -/
structure StopBooks.Over (b : StopBooks) : Prop where
  stopped : b.state = .stopped
  back : b.calls = b.comebacks
  returned : ∀ note ∈ b.notes, note.isComeback → note = .returned .stopped
  account : ∀ target, b.attempts target = (stopTargets comps router).count target

/-- What the phases of the tasks say of the books: at most one call is under way. -/
inductive StopAccount (b : StopBooks) : List StopPhase → Prop where
  | untouched (fresh : b.Fresh) (notes : b.notes = []) : StopAccount b []
  | finished (h : b.Over comps router) : StopAccount b []
  | entering (fresh : b.Fresh) (notes : b.notes = [.called]) : StopAccount b [.entering]
  | closing {state : SystemState} {rest : List StopTarget} (here : b.state = state)
      (h : b.Closing comps router rest) : StopAccount b [.closing state rest]

/-- The account, of a run in which nothing overtakes the shutdown. -/
def Accounted (w : WatchedWorld ε) (phases : List StopPhase) : Prop :=
  (∀ t ∈ w.transitions, ¬t.Belated) → StopAccount comps router w.books phases

/-- What holds at all times. -/
structure Sound (w : WatchedWorld ε) : Prop where
  known : w.bus.Knows ε
  errors : ∀ sub ∈ w.bus.subs, sub.RaisesErrors
  live : w.supervisor.busRunning = true → w.bus.started = true ∧ w.bus.stopped = false

variable {comps router} {b : StopBooks} {phases : List StopPhase}

theorem StopAccount.length_le (h : StopAccount comps router b phases) : phases.length ≤ 1 := by
  cases h <;> simp

theorem StopAccount.alone {phase : StopPhase} {before after : List StopPhase}
    (h : StopAccount comps router b (before ++ [phase] ++ after)) : before = [] ∧ after = [] := by
  have hlength := h.length_le
  simp only [List.length_append, List.length_singleton] at hlength
  constructor
  · exact List.eq_nil_of_length_eq_zero (by omega)
  · exact List.eq_nil_of_length_eq_zero (by omega)

theorem StopBooks.Fresh.attempts (h : b.Fresh) (target : StopTarget)
    (hnotes : ∀ t, .attempted t ∉ b.notes) : b.attempts target = 0 := by
  have hbus := h.bus
  by_cases htarget : target = .bus
  · rw [StopBooks.attempts, if_pos htarget, hbus]
  · rw [StopBooks.attempts, if_neg htarget]
    exact List.count_eq_zero.mpr (hnotes target)

/-- The state moves before anything is stopped. -/
theorem StopBooks.Fresh.drained (h : b.Fresh) (hnotes : b.notes = [.called]) :
    StopBooks.Closing comps router (stopTargets comps router)
      { b with state := .draining } where
  down := .inl rfl
  called := by simp [StopBooks.calls, hnotes]
  away := by simp [StopBooks.comebacks, hnotes, StopNote.isComeback]
  account target := by
    have hnone : StopBooks.attempts { b with state := .draining } target = 0 :=
      h.attempts target (by simp [hnotes])
    omega

/-- An attempt settles the first of the rest. -/
theorem StopBooks.Closing.attempted {target : StopTarget} {rest : List StopTarget}
    (h : b.Closing comps router (target :: rest)) (htarget : target ≠ .bus) :
    StopBooks.Closing comps router rest { b with notes := b.notes ++ [.attempted target] } where
  down := h.down
  called := by
    have hcalled := h.called
    simpa [StopBooks.calls, List.count_append] using hcalled
  away := by
    have haway := h.away
    rw [StopBooks.comebacks] at haway ⊢
    rw [List.countP_append, haway]
    rfl
  account other := by
    have haccount := h.account other
    rw [List.count_cons] at haccount
    rw [← haccount]
    by_cases hbus : other = .bus
    · subst hbus
      simp [StopBooks.attempts, htarget]
    · simp only [StopBooks.attempts, if_neg hbus, List.count_append]
      by_cases hsame : target = other
      · simp only [hsame, List.count_singleton_self, beq_self_eq_true, if_true]
        omega
      · simp [hsame]

theorem StopBooks.Closing.stopBus {rest : List StopTarget}
    (h : b.Closing comps router (.bus :: rest)) :
    StopBooks.Closing comps router rest { b with busStops := b.busStops + 1 } where
  down := h.down
  called := h.called
  away := h.away
  account other := by
    have haccount := h.account other
    rw [List.count_cons] at haccount
    rw [← haccount]
    by_cases hbus : other = .bus
    · simp only [hbus, StopBooks.attempts, if_true, beq_self_eq_true]
      omega
    · have hne : (StopTarget.bus == other) = false := by simpa using Ne.symm hbus
      simp [StopBooks.attempts, hbus, hne]

theorem StopBooks.Over.returned_again (h : b.Over comps router) :
    StopBooks.Over comps router
      { b with notes := b.notes ++ [.called] ++ [.returned .stopped] } where
  stopped := h.stopped
  back := by
    have hback := h.back
    simp only [StopBooks.calls, StopBooks.comebacks] at hback ⊢
    simp [List.count_append, List.countP_append, hback, StopNote.isComeback]
  returned n hn := by
    simp only [List.append_assoc, List.cons_append, List.nil_append, List.mem_append,
      List.mem_cons, List.not_mem_nil, or_false] at hn
    rcases hn with hn | rfl | rfl
    · exact h.returned n hn
    · exact fun hback => by cases hback
    · exact fun _ => rfl
  account target := by
    rw [← h.account target]
    simp [StopBooks.attempts, List.count_append]

/-- The call that stopped everything comes back. -/
theorem StopBooks.Closing.returned (h : b.Closing comps router []) (hstopped : b.state = .stopped) :
    StopBooks.Over comps router { b with notes := b.notes ++ [.returned .stopped] } where
  stopped := hstopped
  back := by
    have hcalled := h.called
    have haway := h.away
    rw [StopBooks.calls] at hcalled
    rw [StopBooks.comebacks] at haway
    simp [StopBooks.calls, StopBooks.comebacks, List.count_append, List.countP_append, hcalled,
      haway, StopNote.isComeback]
  returned n hn hback := by
    have haway := h.away
    rw [StopBooks.comebacks, List.countP_eq_zero] at haway
    cases List.mem_append.mp hn with
    | inl hn => exact absurd hback (haway n hn)
    | inr hn => exact List.mem_singleton.mp hn
  account target := by
    rw [← h.account target]
    simp [StopBooks.attempts, List.count_append]

theorem StopAccount.idle (h : StopAccount comps router b phases)
    (hapart : b.calls = b.comebacks) : phases = [] := by
  cases h with
  | untouched _ _ => rfl
  | finished _ => rfl
  | entering _ hnotes =>
    simp [StopBooks.calls, StopBooks.comebacks, hnotes, StopNote.isComeback] at hapart
  | closing _ hclosing =>
    rw [hclosing.called, hclosing.away] at hapart
    cases hapart

theorem StopAccount.attempts_le (h : StopAccount comps router b phases) (target : StopTarget) :
    b.attempts target ≤ (stopTargets comps router).count target := by
  cases h with
  | untouched hfresh hnotes =>
    have hnone := hfresh.attempts target (by simp [hnotes])
    omega
  | finished hover =>
    have haccount := hover.account target
    omega
  | entering hfresh hnotes =>
    have hnone := hfresh.attempts target (by simp [hnotes])
    omega
  | closing _ hclosing =>
    have haccount := hclosing.account target
    omega

/-- A call only comes back when all is over. -/
theorem StopAccount.over_of_comeback (h : StopAccount comps router b phases) {n : StopNote}
    (hn : n ∈ b.notes) (hback : n.isComeback = true) : b.Over comps router := by
  cases h with
  | untouched _ hnotes =>
    rw [hnotes] at hn
    cases hn
  | finished hover => exact hover
  | entering _ hnotes =>
    rw [hnotes, List.mem_singleton] at hn
    rw [hn] at hback
    cases hback
  | closing _ hclosing =>
    have haway := hclosing.away
    rw [StopBooks.comebacks, List.countP_eq_zero] at haway
    exact absurd hback (haway n hn)

theorem StopAccount.settled (h : StopAccount comps router b []) : b.calls = b.comebacks := by
  cases h with
  | untouched _ hnotes => simp [StopBooks.calls, StopBooks.comebacks, hnotes]
  | finished hover => exact hover.back

theorem nodup_stopTargets (comps : Components ε) (router : InMemoryAlertRouter ε) :
    (stopTargets comps router).Nodup := by
  have hchannels : channelTargets router.registered.zipIdx =
      (List.range router.registered.length).map .channel := by
    rw [channelTargets, List.range_eq_range', ← List.zipIdx_map_snd 0 router.registered,
      List.map_map]
    rfl
  have hnodup : ((List.range router.registered.length).map StopTarget.channel).Nodup := by
    apply List.Nodup.map
    · exact fun i j h => StopTarget.channel.inj h
    · exact List.nodup_range
  rw [stopTargets, hchannels]
  cases comps.omsLifecycle <;> cases comps.pmsLifecycle <;>
    simp [List.nodup_append, hnodup]

end Account

end Trading
