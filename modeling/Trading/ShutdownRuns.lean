import Trading.ShutdownRules

/-!
# Runs with shutdowns

Where the log takes the two state changes, only the last alert channel fails to stop and
nothing overtakes the shutdown, everything is stopped exactly once, whatever else fails.
-/
namespace Trading

open Async RuntimeWorld Contract

section Operations

variable {ε : Type} {comps : Components ε} {router : InMemoryAlertRouter ε}
  {k : Option StopPhase}

theorem noted_books (n : StopNote) (w : WatchedWorld ε) :
    (w.noted n).books = { w.books with notes := w.books.notes ++ [n] } := rfl

/-- A call that finds the system up. -/
theorem carries_called {w : WatchedWorld ε} (hapart : w.books.calls = w.books.comebacks)
    (hup : w.state ≠ .stopped) :
    Carries (Accounted comps router) w none (w.noted .called) (some .entering) := by
  intro before after haccount hbelated
  have hb := haccount hbelated
  have hidle := hb.idle hapart
  simp only [Option.toList, List.append_nil, List.append_eq_nil_iff] at hidle
  obtain ⟨rfl, rfl⟩ := hidle
  cases hb with
  | untouched hfresh hnotes =>
    apply StopAccount.entering
    · exact ⟨hfresh.draining, hfresh.stopped, hfresh.bus⟩
    · rw [noted_books, hnotes]
      rfl
  | finished hover => exact absurd hover.stopped hup

/-- A call that finds the system shut down returns at once. -/
theorem carries_again {w : WatchedWorld ε} (hapart : w.books.calls = w.books.comebacks)
    (hdown : w.state = .stopped ∨ w.state = .draining) :
    Carries (Accounted comps router) w none ((w.noted .called).noted (.returned w.state))
      none := by
  intro before after haccount hbelated
  have hb := haccount hbelated
  have hidle := hb.idle hapart
  rw [hidle] at hb ⊢
  cases hb with
  | untouched hfresh _ =>
    cases hdown with
    | inl hstopped => exact absurd hstopped hfresh.stopped
    | inr hdraining => exact absurd hdraining hfresh.draining
  | finished hover =>
    have hstate : w.state = .stopped := hover.stopped
    rw [hstate]
    exact .finished hover.returned_again

/-- The call that stopped everything comes back. -/
theorem carries_returned {w : WatchedWorld ε} :
    Carries (Accounted comps router) w (some (.closing .stopped [])) (w.noted (.returned w.state))
      none := by
  intro before after haccount hbelated
  have hb := haccount hbelated
  obtain ⟨rfl, rfl⟩ := hb.alone
  cases hb with
  | closing hstate hclosing =>
    have hstopped : w.state = .stopped := hstate
    rw [hstopped]
    exact .finished (hclosing.returned hstopped)

section Shutdown

variable [Part Clock ε] {subs : List (Subscription ε)} (h : comps.GoesDown router subs)

include h

theorem moves_drained (seen : SystemState) (reason : String) :
    StopMoves comps router (some .entering)
      (Supervisor.transition (comps.watched router) seen .draining reason)
      (some (.closing .draining (stopTargets comps router))) := by
  apply moves_transition reason fun event hnew => h.write event (.inl hnew)
  intro s event _ hnew
  apply carries_moved
  intro haccount
  cases haccount with
  | entering hfresh hnotes =>
    rw [hnew]
    exact .closing rfl (hfresh.drained hnotes)

theorem moves_stopped (rest : List StopTarget) (reason : String) :
    StopMoves comps router (some (.closing .draining rest))
      (Supervisor.transition (comps.watched router) .draining .stopped reason)
      (some (.closing .stopped rest)) := by
  apply moves_transition reason fun event hnew => h.write event (.inr hnew)
  intro s event _ hnew
  apply carries_moved
  intro haccount
  cases haccount with
  | closing _ hclosing =>
    exact .closing hnew ⟨.inr hnew, hclosing.called, hclosing.away, hclosing.account⟩

theorem moves_stopComponents :
    StopMoves comps router (some (.closing .draining (stopTargets comps router)))
      (Supervisor.stopComponents (comps.watched router)) (some (.closing .stopped [])) := by
  have hstop : ∀ {target : StopTarget} {state : SystemState} {rest : List StopTarget},
      ∀ component ∈ comps.lifecycles, target ≠ .bus →
        StopMoves comps router (some (.closing state (target :: rest)))
          (Supervisor.safeStop (component.watched target)) (some (.closing state rest)) :=
    fun component hmem htarget => moves_safeStop (h.stops component hmem) htarget
  have hstopIf : ∀ {target : StopTarget} {rest : List StopTarget}
      (component : Option (Lifecycle ε)), (∀ c ∈ component, c ∈ comps.lifecycles) → target ≠ .bus →
        StopMoves comps router
          (some (.closing .draining ((component.map fun _ => target).toList ++ rest)))
          (Supervisor.safeStopIfLifecycle (component.map fun c => c.watched target))
          (some (.closing .draining rest)) :=
    fun component hmem htarget =>
      moves_safeStopIfLifecycle (fun c hc => h.stops c (hmem c hc)) htarget
  apply moves_bind (hstop _ (by simp [Components.lifecycles]) StopTarget.noConfusion)
  intro _
  apply moves_bind (hstop _ (by simp [Components.lifecycles]) StopTarget.noConfusion)
  intro _
  apply moves_closeBus
  apply moves_bind
    (hstopIf _ (by simp +contextual [Components.lifecycles]) StopTarget.noConfusion)
  intro _
  apply moves_bind
    (hstopIf _ (by simp +contextual [Components.lifecycles]) StopTarget.noConfusion)
  intro _
  apply moves_bind (moves_stopped h _ _)
  intro _
  apply moves_bind (moves_stopRouter h.channels h.lastChannel)
  intro _
  apply moves_bind (hstop _ (by simp [Components.lifecycles]) StopTarget.noConfusion)
  intro _
  apply moves_bind (hstop _ (by simp [Components.lifecycles]) StopTarget.noConfusion)
  intro _
  apply moves_bind (hstop _ (by simp [Components.lifecycles]) StopTarget.noConfusion)
  intro _
  exact hstop _ (by simp [Components.lifecycles]) StopTarget.noConfusion

/-- A call that passes the check stops everything. -/
theorem moves_stop (seen : SystemState) (drain : Bool) :
    StopMoves comps router (some .entering) (do
      Supervisor.stopTickTask (comps.watched router)
      Supervisor.transition (comps.watched router) seen .draining
        s!"shutdown drain={Supervisor.pyBool drain}"
      if drain then Supervisor.tryCancelAll (comps.watched router)
      Supervisor.stopComponents (comps.watched router)) (some (.closing .stopped [])) := by
  apply moves_bind (moves_stopTickTask h.tick)
  intro _
  apply moves_bind (moves_drained h seen _)
  intro _
  have hcomponents : StopMoves comps router (some (.closing .draining (stopTargets comps router)))
      (Supervisor.stopComponents (comps.watched router)) (some (.closing .stopped [])) :=
    moves_stopComponents h
  dsimp only
  split
  · exact moves_bind (moves_tryCancelAll h.cancelAll) fun _ => hcomponents
  · exact hcomponents

theorem follows_stop (drain : Bool) {w : WatchedWorld ε} (hsound : Sound w)
    (hapart : w.books.calls = w.books.comebacks) :
    (phased Sound (Accounted comps router)).Follows
      (fun _ => At Sound (Accounted comps router) none)
      (fun _ => At Sound (Accounted comps router) none)
      (SupervisorOp.watchedProg comps router (.stop drain)) none w w := by
  simp only [SupervisorOp.watchedProg, recordStop, Supervisor.stop, Co.bind_eq, follows_bind,
    follows_modify, follows_attempt, follows_get]
  have hstate : (w.noted .called).state = w.state := rfl
  rw [hstate]
  by_cases hdown : w.state = .stopped ∨ w.state = .draining
  · rw [if_pos hdown]
    exact ⟨⟨hsound.known, hsound.errors, hsound.live⟩, carries_again hapart hdown⟩
  · rw [if_neg hdown]
    have hcalled : At Sound (Accounted comps router) (some .entering) none w (w.noted .called) :=
      ⟨⟨hsound.known, hsound.errors, hsound.live⟩, carries_called hapart (not_or.mp hdown).1⟩
    apply (moves_stop h w.state drain _ _ _ hcalled).mono
    · intro _ l s₀ s h
      exact h.step ⟨h.1.known, h.1.errors, h.1.live⟩ carries_returned
    · exact fun _ _ _ _ h => h.elim

end Shutdown

section Others

theorem frames_start {component : Lifecycle (WatchedEnv ε)}
    (h : component ∈ (comps.watched router).lifecycles) :
    component.start.Frames fun e => e.log := by
  have hlift : ∀ c : Lifecycle ε,
      ((c.start.lift : Coro (WatchedEnv ε) Unit)).Frames fun e => e.log :=
    fun c => Co.frames_lift c.start fun _ _ => rfl
  have hrouter : router.watched.start.Frames fun e => e.log := by
    apply Co.frames_forEach
    intro entry hentry
    obtain ⟨e, -, rfl⟩ := List.mem_map.mp hentry
    exact hlift _
  simp only [Components.lifecycles, Components.watched, List.mem_append, List.mem_cons,
    List.not_mem_nil, or_false, Option.mem_toList, Option.map_eq_some_iff] at h
  rcases h with ((rfl | rfl | rfl | rfl | rfl | rfl | rfl) | ⟨c, -, rfl⟩) | ⟨c, -, rfl⟩
  · exact hlift _
  · exact hlift _
  · exact hlift _
  · exact hlift _
  · exact hrouter
  · exact hlift _
  · exact hlift _
  · exact hlift c
  · exact hlift c

variable [Part Clock ε]

/-- Before it stops them the supervisor has the components leave the notes alone. -/
theorem frames_calls {α : Type} {p : Coro (WatchedEnv ε) α}
    (h : (comps.watched router).Calls p) : p.Frames fun e => e.log := by
  have hlift : ∀ {β : Type} (q : Coro ε β),
      (q.lift : Coro (WatchedEnv ε) β).Frames fun e => e.log :=
    fun q => Co.frames_lift q fun _ _ => rfl
  cases h with
  | now => exact Co.frames_lift _ fun _ _ => rfl
  | cancelAll => exact hlift _
  | alert a =>
    apply Co.frames_forEach
    intro entry hentry
    obtain ⟨e, -, rfl⟩ := List.mem_map.mp hentry
    split
    · exact Co.frames_suppress (hlift _)
    · trivial
  | initialReconciliation =>
    exact Co.frames_bind (hlift _) fun _ => Co.frames_bind (hlift _) fun _ =>
      Co.frames_bind (hlift _) fun _ => hlift _
  | reReconciliation =>
    exact Co.frames_bind (hlift _) fun _ => Co.frames_bind (hlift _) fun _ => hlift _
  | tickTask =>
    rw [show (comps.watched router).tickTask.awaited = comps.tickTask.awaited.lift from
      comps.tickTask.awaited_lift]
    exact hlift _

omit [Part Clock ε] in
/-- Who moves the state of a system that is down is belated. -/
theorem carries_up {s : WatchedWorld ε} {seen : SystemState} {event : SystemStateChanged}
    (hold : event.oldState = s.state) (hseen : seen ≠ .draining)
    (hdraining : event.newState ≠ .draining) (hstopped : event.newState ≠ .stopped) :
    Carries (Accounted comps router) s none (s.moved seen event) none := by
  intro before after haccount hbelated
  have happended : (s.moved seen event).transitions = s.transitions ++ [⟨event, seen⟩] :=
    transitionsOf_append _ _
  rw [happended] at hbelated
  have hup : ¬(s.state = .draining ∨ s.state = .stopped) := by
    intro hdown
    have hlast := hbelated ⟨event, seen⟩ (List.mem_append_right _ List.mem_cons_self)
    exact hlast ⟨hold ▸ hdown, hseen⟩
  have hb := haccount fun t ht => hbelated t (List.mem_append_left _ ht)
  rw [moved_books]
  generalize before ++ none.toList ++ after = phases at hb ⊢
  cases hb with
  | untouched hfresh hnotes => exact .untouched ⟨hdraining, hstopped, hfresh.bus⟩ hnotes
  | finished hover => exact absurd (.inr hover.stopped) hup
  | entering hfresh hnotes => exact .entering ⟨hdraining, hstopped, hfresh.bus⟩ hnotes
  | closing _ hclosing => exact absurd hclosing.down hup

theorem guards_at : Guards (comps.watched router) (phased Sound (Accounted comps router))
    (At Sound (Accounted comps router) none)
    fun seen new => seen ≠ .draining ∧ new ≠ .draining ∧ new ≠ .stopped where
  component h := tries_of_frames (frames_calls h)
  callbacks := callbacks_at
  flags _ _ _ _ _ hb h :=
    h.step ⟨h.1.known, h.1.errors, fun hrunning => h.1.live (hb hrunning)⟩
      (carries_books rfl rfl)
  note _ _ _ _ he hbus h := h.step ⟨h.1.known, h.1.errors, h.1.live⟩ (carries_note he hbus)
  transition hmove reason := tries_transition reason fun _ _ hold hnew =>
    carries_up hold hmove.1 (hnew ▸ hmove.2.1) (hnew ▸ hmove.2.2)

omit [Part Clock ε] in
theorem tries_openBus : StopTries comps router none
    (Supervisor.openBus : Coro (WatchedWorld ε) Unit) none := by
  intro l s₀ s h
  change (phased Sound (Accounted comps router)).Follows _ _
    (Co.bind (Co.lift (if s.bus.stopped = true then _ else _)) _) l s₀ s
  by_cases hstopped : s.bus.stopped = true
  · rw [if_pos hstopped]
    exact h
  · rw [if_neg hstopped]
    change (phased Sound (Accounted comps router)).Follows _ _
      (Co.lift (if s.bus.stopped = true then _ else _)) l s₀ _
    rw [if_neg hstopped]
    have hlive : s.bus.stopped = false := by simpa using hstopped
    have herrors : ∀ sub ∈ s.bus.subs ++ [.onBreakerTripped], sub.RaisesErrors :=
      List.forall_mem_append.mpr ⟨h.1.errors, List.forall_mem_singleton.mpr trivial⟩
    exact h.step ⟨h.1.known.subscribe _ _, herrors, fun _ => ⟨rfl, hlive⟩⟩ (carries_books rfl rfl)

omit [Part Clock ε] in
theorem opens_at : GuardsOpen (comps.watched router) (phased Sound (Accounted comps router))
    (At Sound (Accounted comps router) none) where
  component _ hmem := tries_of_frames (frames_start hmem)
  bus := tries_openBus

/-- Whatever is called keeps the account, if the calls of `stop()` do not overlap. -/
theorem follows_watchedProg {subs : List (Subscription ε)} (hdown : comps.GoesDown router subs)
    (op : SupervisorOp) (w : WatchedWorld ε) (hapart : StopsApart op w) (hsound : Sound w) :
    (phased Sound (Accounted comps router)).Follows
      (fun _ => At Sound (Accounted comps router) none)
      (fun _ => At Sound (Accounted comps router) none) (op.watchedProg comps router) none w w := by
  have h : At Sound (Accounted comps router) none none w w := .refl hsound
  have hguards := @guards_at ε comps router _
  cases op with
  | start =>
    exact hguards.start opens_at (by decide) (by decide) none w w h
  | stop drain => exact follows_stop hdown drain hsound hapart
  | quarantine reason breakerName =>
    exact hguards.quarantine (by decide) reason breakerName none w w h
  | acknowledge => exact hguards.acknowledge (by decide) (by decide) none w w h
  | deliver event => exact hguards.onBreakerTripped (by decide) event none w w h
  | publish event => exact hguards.publishEvent (by decide) event none w w h

end Others

end Operations

section Runs

variable {ε : Type}

variable [Part Clock ε]

end Runs

abbrev IdleEnv := Clock × Unit

/-- Nobody but the supervisor follows the bus. -/
def booting : Config (WatchedWorld IdleEnv) PyError :=
  ⟨.new (([] : List (Subscription IdleEnv)).map Subscription.lift) ⟨[], (⟨fun n => n, 0⟩, ())⟩, []⟩

def runShutdown (comps : Components IdleEnv) (router : InMemoryAlertRouter IdleEnv)
    (labels : List (Label SupervisorOp)) : Config (WatchedWorld IdleEnv) PyError :=
  Config.run (SupervisorOp.watchedProg comps router) booting labels

/-- A loop that a cancellation finds asleep. -/
def sleepingLoop : TickTask IdleEnv :=
  .sleeping (Co.yield.bind fun _ => .throw ⟨"CancelledError", ""⟩) (.ended (.ok ()))

/-- What does not stop. -/
def stuck : Lifecycle IdleEnv := ⟨.pure (), .throw ⟨"RuntimeError", "stuck"⟩⟩

def stuckComponents : Components IdleEnv :=
  { idleComponents with
    orderJournal := stuck, accountJournal := stuck, eventLog := stuck, alertLog := stuck
    venueLifecycle := stuck, marketData := stuck, omsLifecycle := some stuck
    pmsLifecycle := some stuck
    cancelAll := Co.yield.bind fun _ => .throw ⟨"VenueError", "unavailable"⟩
    tickTask := sleepingLoop }

def quietChannel : AlertChannel IdleEnv := ⟨noLifecycle, fun _ => .pure ()⟩

def stuckChannel : AlertChannel IdleEnv := ⟨stuck, fun _ => .pure ()⟩

/-- A log that refuses the first state change of a shutdown. -/
def refusingLog : Components IdleEnv :=
  { idleComponents with
    writeEvent := fun event => if event.newState = .draining then
      .throw ⟨"OperationalError", "database is locked"⟩ else .pure () }

def sleepingComponents : Components IdleEnv := { idleComponents with tickTask := sleepingLoop }

/-- A clock whose sleep has failed, and a venue whose `stop()` is cancelled. -/
def deadLoop : Components IdleEnv :=
  { idleComponents with tickTask := .ended (.error ⟨"OSError", "no clock"⟩) }

def cancelledVenue : Components IdleEnv :=
  { idleComponents with venueLifecycle := ⟨.pure (), .throw ⟨"CancelledError", ""⟩⟩ }

end Trading
