import Trading.Async.Frame
import Trading.Async.Phases
import Trading.Shutdown

/-!
# Rules for shutdowns

What the operations do to the account of a shutdown: most leave it alone, an attempt to
stop a component takes the call that is under way one step further.
-/
namespace Trading

open Async RuntimeWorld Contract

section Rules

variable {ε : Type} {comps : Components ε} {router : InMemoryAlertRouter ε}
  {k : Option StopPhase}

abbrev StopMoves (comps : Components ε) (router : InMemoryAlertRouter ε) {α : Type} :=
  @Moves (WatchedWorld ε) StopPhase PyError α Sound (Accounted comps router)

abbrev StopTries (comps : Components ε) (router : InMemoryAlertRouter ε) {α : Type} :=
  @Tries (WatchedWorld ε) StopPhase PyError α Sound (Accounted comps router)

/-- What only knows the components' environment. -/
theorem tries_unwatched {α : Type} (p : Coro ε α) : StopTries comps router k
    ((p.lift : Coro (WatchedEnv ε) α).lift : Coro (WatchedWorld ε) α) k := by
  rw [Co.lift_lift]
  exact @tries_lift _ _ _ _ _ _ _ _ (Part.trans _ _) p (fun _ _ h => ⟨h.known, h.errors, h.live⟩)
    fun _ _ _ h => h

theorem moves_unwatched {α : Type} {p : Coro ε α} (hp : p.NoThrow) : StopMoves comps router k
    ((p.lift : Coro (WatchedEnv ε) α).lift : Coro (WatchedWorld ε) α) k := by
  rw [Co.lift_lift]
  exact @moves_lift _ _ _ _ _ _ _ _ (Part.trans _ _) p hp (fun _ _ h => ⟨h.known, h.errors, h.live⟩)
    fun _ _ _ h => h

/-- What does not touch the notes. -/
theorem tries_of_frames {α : Type} {p : Coro (WatchedEnv ε) α}
    (hp : p.Frames fun e => e.log) :
    StopTries comps router k (p.lift : Coro (WatchedWorld ε) α) k := by
  have hrest : (p.lift : Coro (WatchedWorld ε) α).Frames fun w => (w.supervisor, w.bus, w.trace) :=
    Co.frames_lift p fun _ _ => rfl
  apply keeps_of_frames (hp.lift.prod hrest)
  · intro l s₀ s s' hview h
    simp only [Prod.mk.injEq] at hview
    obtain ⟨hlog, hsupervisor, hbus, htrace⟩ := hview
    apply h.step
    · exact ⟨hbus ▸ h.1.known, hbus ▸ h.1.errors, by rw [hsupervisor, hbus]; exact h.1.live⟩
    · apply carries_same
      have hbooks : s'.books = s.books := by
        rw [books, state, hsupervisor, htrace]
        exact congrArg (fun notes => (⟨s.state, notes, s.trace.count .stopBus⟩ : StopBooks)) hlog
      intro ks hks
      rw [Accounted, transitions, htrace, hbooks]
      exact hks
  · exact fun _ _ _ => At.wait

/-- A step of the call that is under way. -/
theorem carries_phase {s s' : WatchedWorld ε} {phase phase' : StopPhase}
    (hkept : ∀ t ∈ s.transitions, t ∈ s'.transitions)
    (h : (∀ t ∈ s'.transitions, ¬t.Belated) → StopAccount comps router s.books [phase] →
      StopAccount comps router s'.books [phase']) :
    Carries (Accounted comps router) s (some phase) s' (some phase') := by
  intro before after haccount hbelated
  have hb := haccount fun t ht => hbelated t (hkept t ht)
  obtain ⟨rfl, rfl⟩ := hb.alone
  exact h hbelated hb

theorem moves_attempted {state : SystemState} {target : StopTarget} {rest : List StopTarget}
    (htarget : target ≠ .bus) :
    StopMoves comps router (some (.closing state (target :: rest)))
      (recordStop (.attempted target)) (some (.closing state rest)) := by
  apply moves_modify
  intro s hs
  constructor
  · exact ⟨hs.known, hs.errors, hs.live⟩
  · apply carries_phase
    · exact fun _ ht => ht
    · intro _ h
      cases h with
      | closing hstate hclosing => exact .closing hstate (hclosing.attempted htarget)

section Stops

variable {st : SystemState} {target : StopTarget} {rest : List StopTarget}

theorem tries_watchedStop (component : Lifecycle ε) (htarget : target ≠ .bus) :
    StopTries comps router (some (.closing st (target :: rest)))
      ((component.watched target).stop.lift : Coro (WatchedWorld ε) Unit)
      (some (.closing st rest)) := by
  rw [Lifecycle.watched, Co.bind_eq, Co.lift_bind]
  exact tries_bind (moves_attempted htarget) fun _ => tries_unwatched component.stop

theorem raises_watchedStop {component : Lifecycle ε} (h : Co.RaisesErrors component.stop) :
    Co.RaisesErrors ((component.watched target).stop.lift : Coro (WatchedWorld ε) Unit) :=
  (Co.raises_bind (Co.raises_modify _) fun _ => h.lift).lift

theorem moves_safeStop {component : Lifecycle ε} (hstop : Co.RaisesErrors component.stop)
    (htarget : target ≠ .bus) :
    StopMoves comps router (some (.closing st (target :: rest)))
      (Supervisor.safeStop (component.watched target)) (some (.closing st rest)) :=
  moves_suppress (raises_watchedStop hstop) (tries_watchedStop component htarget)

theorem moves_safeStopIfLifecycle {component : Option (Lifecycle ε)}
    (hstop : ∀ c ∈ component, Co.RaisesErrors c.stop) (htarget : target ≠ .bus) :
    StopMoves comps router (some (.closing st ((component.map fun _ => target).toList ++ rest)))
      (Supervisor.safeStopIfLifecycle (component.map fun c => c.watched target))
      (some (.closing st rest)) := by
  cases component with
  | none => exact moves_pure ()
  | some component => exact moves_safeStop (hstop component rfl) htarget

/-- A channel that raises on the way leaves the next ones running. -/
theorem tries_stopChannels (entries : List ((AlertChannel ε × List AlertLevel) × Nat))
    (hquiet : ∀ entry ∈ entries.dropLast, entry.1.1.lifecycle.stop.NoThrow) :
    StopTries comps router (some (.closing st (channelTargets entries ++ rest)))
      (Co.forEach entries fun entry =>
        ((entry.1.1.lifecycle.watched (.channel entry.2)).stop.lift :
          Coro (WatchedWorld ε) Unit))
      (some (.closing st rest)) := by
  induction entries with
  | nil => exact (moves_pure ()).tries
  | cons entry entries ih =>
    rw [Co.forEach_cons]
    cases entries with
    | nil =>
      apply tries_bind_stay
      · exact tries_watchedStop entry.1.1.lifecycle StopTarget.noConfusion
      · exact fun _ => (moves_pure ()).tries
    | cons next entries =>
      have hthis : StopMoves comps router
          (some (.closing st (channelTargets (entry :: next :: entries) ++ rest)))
          ((entry.1.1.lifecycle.watched (.channel entry.2)).stop.lift :
            Coro (WatchedWorld ε) Unit)
          (some (.closing st (channelTargets (next :: entries) ++ rest))) := by
        rw [Lifecycle.watched, Co.bind_eq, Co.lift_bind]
        apply moves_bind (moves_attempted StopTarget.noConfusion)
        exact fun _ => moves_unwatched (hquiet entry List.mem_cons_self)
      apply tries_bind hthis
      exact fun _ => ih fun other hother => hquiet other (List.mem_cons_of_mem _ hother)

theorem moves_stopRouter
    (hquiet : ∀ entry ∈ router.registered.dropLast, entry.1.lifecycle.stop.NoThrow)
    (hlast : ∀ entry ∈ router.registered, Co.RaisesErrors entry.1.lifecycle.stop) :
    StopMoves comps router
      (some (.closing st (.alertRouter :: (channelTargets router.registered.zipIdx ++ rest))))
      (Supervisor.safeStop (comps.watched router).alertRouter) (some (.closing st rest)) := by
  have hchannels : ∀ entry ∈ router.registered.zipIdx.dropLast,
      entry.1.1.lifecycle.stop.NoThrow := by
    intro entry hentry
    apply hquiet entry.1
    have hfst : router.registered = router.registered.zipIdx.map Prod.fst := by simp
    rw [hfst, ← List.map_dropLast]
    exact List.mem_map_of_mem hentry
  have hstop : (router.watchedChannels.stop.lift : Coro (WatchedWorld ε) Unit) =
      Co.forEach router.registered.zipIdx fun entry =>
        ((entry.1.1.lifecycle.watched (.channel entry.2)).stop.lift) := by
    rw [InMemoryAlertRouter.stop, Co.lift_forEach,
      InMemoryAlertRouter.watchedChannels]
    generalize router.registered.zipIdx = entries
    induction entries with
    | nil => rfl
    | cons entry entries ih => rw [List.map_cons, Co.forEach_cons, Co.forEach_cons, ih]
  have hraises : Co.RaisesErrors router.watchedChannels.stop := by
    apply Co.raises_forEach
    intro entry hentry
    obtain ⟨e, he, rfl⟩ := List.mem_map.mp hentry
    exact Co.raises_bind (Co.raises_modify _) fun _ =>
      (hlast e.1 (List.fst_mem_of_mem_zipIdx he)).lift
  apply moves_suppress (Co.raises_bind (Co.raises_modify _) fun _ => hraises).lift
  change StopTries comps router _ (Co.lift (Co.bind (record _) fun _ => router.watchedChannels.stop)) _
  rw [Co.lift_bind]
  apply tries_bind (moves_attempted StopTarget.noConfusion)
  intro _
  rw [hstop]
  exact tries_stopChannels _ hchannels

end Stops

theorem callbacks_at : CallbacksKeep (phased Sound (Accounted comps router))
    (At Sound (Accounted comps router) k) := by
  intro l s₀ s h accepts callback hmem event
  obtain ⟨p, hp⟩ := h.1.known accepts callback hmem event
  rw [hp]
  exact tries_unwatched p

/-- A bus that is up takes the event. -/
theorem follows_announced {event : SystemStateChanged} {l : Option StopPhase}
    {s₀ s : WatchedWorld ε} (h : At Sound (Accounted comps router) k l s₀ s)
    (hrunning : s.supervisor.busRunning = true) :
    (phased Sound (Accounted comps router)).Follows
      (fun _ => At Sound (Accounted comps router) k) (fun _ _ _ _ => False)
      (EventBus.publish (ε := WatchedEnv ε) (fun _ => pure ()) (.systemStateChanged event) :
        Coro (WatchedWorld ε) Unit) l s₀ s := by
  obtain ⟨hstarted, hstopped⟩ := h.1.live hrunning
  change (phased Sound (Accounted comps router)).Follows _ _
    (if s.bus.stopped then .throw (⟨"RuntimeError", "EventBus stopped; cannot publish"⟩ : PyError)
      else if !s.bus.started then .throw ⟨"RuntimeError", "EventBus not started; cannot publish"⟩
      else Co.forEach s.bus.subs _) l s₀ s
  rw [if_neg (by simp [hstopped]), if_neg (by simp [hstarted])]
  apply follows_forEach _ _ _ h
  intro sub hsub l' s₀' s' h'
  cases sub with
  | external accepts callback =>
    rw [EventBus.dispatch]
    split
    · have hraises := h.1.errors _ hsub (.systemStateChanged event)
      exact moves_suppress hraises.lift (callbacks_at l s₀ s h accepts callback hsub _) l' s₀' s' h'
    · exact h'
  | onBreakerTripped => exact h'

theorem moves_announce {event : SystemStateChanged} (hwrite : (comps.writeEvent event).NoThrow) :
    StopMoves comps router k (Supervisor.announce (comps.watched router) event) k := by
  apply moves_bind (moves_unwatched hwrite)
  intro _ l s₀ s h
  change (phased Sound (Accounted comps router)).Follows _ _
    (if s.supervisor.busRunning then EventBus.publish (ε := WatchedEnv ε) _ _ else .pure ()) l s₀ s
  split
  · next hrunning => exact follows_announced h hrunning
  · exact h

/-- The clock is read and the state moved in one block. -/
theorem at_moved {k' l : Option StopPhase} {s₀ s : WatchedWorld ε} {seen newState : SystemState}
    (reason : String) (h : At Sound (Accounted comps router) k l s₀ s)
    (hmoved : ∀ s event, event.oldState = s.state → event.newState = newState →
      Carries (Accounted comps router) s k (s.moved seen event) k') (now : Time) (e : ε) :
    At Sound (Accounted comps router) k' l s₀
      (({ s with env := ⟨s.env.log, e⟩ } : WatchedWorld ε).moved seen
        ⟨s.state, newState, reason, now⟩) := by
  apply h.step
  · exact ⟨h.1.known, h.1.errors, h.1.live⟩
  · intro before after hks
    exact hmoved { s with env := ⟨s.env.log, e⟩ } ⟨s.state, newState, reason, now⟩ rfl rfl
      before after hks

theorem moves_transition [Part Clock ε] {k' : Option StopPhase} {seen newState : SystemState}
    (reason : String)
    (hwrite : ∀ event, event.newState = newState → (comps.writeEvent event).NoThrow)
    (hmoved : ∀ s event, event.oldState = s.state → event.newState = newState →
      Carries (Accounted comps router) s k (s.moved seen event) k') :
    StopMoves comps router k (Supervisor.transition (comps.watched router) seen newState reason)
      k' :=
  fun l s₀ _ h => moves_announce (hwrite _ rfl) l s₀ _ (at_moved reason h hmoved _ _)

theorem tries_transition [Part Clock ε] {k' : Option StopPhase} {seen newState : SystemState}
    (reason : String)
    (hmoved : ∀ s event, event.oldState = s.state → event.newState = newState →
      Carries (Accounted comps router) s k (s.moved seen event) k') :
    StopTries comps router k (Supervisor.transition (comps.watched router) seen newState reason)
      k' := by
  have hannounce : ∀ event,
      StopTries comps router k' (Supervisor.announce (comps.watched router) event) k' :=
    fun event => keeps_announce callbacks_at (tries_unwatched (comps.writeEvent event))
  exact fun l s₀ _ h => hannounce _ l s₀ _ (at_moved reason h hmoved _ _)

theorem carries_books {s s' : WatchedWorld ε} (htransitions : s'.transitions = s.transitions)
    (hbooks : s'.books = s.books) : Carries (Accounted comps router) s k s' k := by
  apply carries_same
  intro ks hks
  rw [Accounted, htransitions, hbooks]
  exact hks

theorem carries_note {s : WatchedWorld ε} {e : Effect} (he : e.isRemark = true)
    (hbus : e ≠ .stopBus) : Carries (Accounted comps router) s k (s.note e) k := by
  apply carries_books
  · exact transitions_note he
  · simp [books, note, state, List.count_append, hbus]

theorem moves_tryCancelAll (hcancel : Co.RaisesErrors comps.cancelAll) :
    StopMoves comps router k (Supervisor.tryCancelAll (comps.watched router)) k :=
  moves_suppress hcancel.lift.lift (tries_unwatched comps.cancelAll)

/-- A loop that lets itself be cancelled does not raise where its cancellation is expected. -/
theorem moves_stopTickTask (htick : comps.tickTask.Cancellable) :
    StopMoves comps router k (Supervisor.stopTickTask (comps.watched router)) k := by
  have hquiet : (comps.tickTask.awaited.suppressOnly PyError.isCancelled).NoThrow :=
    Co.raises_suppressOnly htick.awaited
  have htask : (comps.watched router).tickTask.awaited = comps.tickTask.awaited.lift :=
    comps.tickTask.awaited_lift
  intro l s₀ s h
  change (phased Sound (Accounted comps router)).Follows _ _
    (if s.supervisor.tickTask then Co.bind _ _ else .pure ()) l s₀ s
  split
  · have hloop : StopMoves comps router k (((comps.watched router).tickTask.awaited.lift :
        Coro (WatchedWorld ε) Unit).suppressOnly PyError.isCancelled) k := by
      rw [htask, ← Co.lift_suppressOnly, ← Co.lift_suppressOnly]
      exact moves_unwatched hquiet
    have hflag : StopMoves comps router k (Co.modify fun w : WatchedWorld ε =>
        { w with supervisor := { w.supervisor with tickTask := false } }) k :=
      moves_modify fun s hs => ⟨⟨hs.known, hs.errors, hs.live⟩, carries_books rfl rfl⟩
    exact moves_bind hloop (fun _ => hflag) l s₀ s h
  · exact h

/-- The bus goes down with the flag that says it runs. -/
theorem moves_closeBus {α : Type} {st : SystemState} {rest : List StopTarget}
    {k' : Option StopPhase} {p : Coro (WatchedWorld ε) α}
    (hp : StopMoves comps router (some (.closing st rest)) p k') :
    StopMoves comps router (some (.closing st (.bus :: rest)))
      ((Co.modify fun w : WatchedWorld ε =>
        { w with supervisor := { w.supervisor with busRunning := false } }).bind fun _ =>
      (Co.modify (note .stopBus)).bind fun _ =>
      (Co.suppress ((EventBus.stop : Coro (EventBus (WatchedEnv ε)) Unit).lift)).bind fun _ => p)
      k' := by
  intro l s₀ s h
  have hdown : ∀ bus, Carries (Accounted comps router) s (some (.closing st (.bus :: rest)))
      { s.note .stopBus with supervisor := { s.supervisor with busRunning := false }, bus := bus }
      (some (.closing st rest)) := by
    intro bus
    have htransitions : (s.note .stopBus).transitions = s.transitions := transitions_note rfl
    have hbooks : RuntimeWorld.books { s.note .stopBus with
        supervisor := { s.supervisor with busRunning := false }, bus := bus } =
        { s.books with busStops := s.books.busStops + 1 } := by
      simp [books, note, state, List.count_append]
    apply carries_phase
    · exact fun t ht => htransitions.symm ▸ ht
    · intro _ haccount
      cases haccount with
      | closing hstate hclosing =>
        rw [hbooks]
        exact .closing hstate hclosing.stopBus
  exact hp l s₀ _ (h.step ⟨h.1.known, h.1.errors, Bool.noConfusion⟩ (hdown _))

theorem moved_books (s : WatchedWorld ε) (seen : SystemState) (event : SystemStateChanged) :
    (s.moved seen event).books = { s.books with state := event.newState } := by
  simp [books, moved, state, List.count_append]

theorem carries_moved {s : WatchedWorld ε} {seen : SystemState} {event : SystemStateChanged}
    {phase phase' : StopPhase} (h : StopAccount comps router s.books [phase] →
      StopAccount comps router { s.books with state := event.newState } [phase']) :
    Carries (Accounted comps router) s (some phase) (s.moved seen event) (some phase') := by
  apply carries_phase
  · intro t ht
    have happended : (s.moved seen event).transitions = s.transitions ++ [⟨event, seen⟩] :=
      transitionsOf_append _ _
    rw [happended]
    exact List.mem_append_left _ ht
  · intro _ haccount
    rw [moved_books]
    exact h haccount

end Rules

end Trading
