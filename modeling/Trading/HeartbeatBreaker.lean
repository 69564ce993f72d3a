import Mathlib.Data.List.Induction
import Trading.Data.Dict
import Trading.StatefulBreaker

/-!
# The heartbeat breaker

It remembers when each watched component was last heard of. One that has never been heard
of is not missed.
-/
namespace Trading

open Data

/-- The heartbeats of a component among some events, by their times. -/
def beatTimes (component : String) (events : List Event) : List Time :=
  events.filterMap fun
    | .heartbeat beat => if beat.component = component then some beat.timestamp else none
    | _ => none

/-- When the component was last heard of. -/
def lastBeat (component : String) (events : List Event) : Option Time :=
  (beatTimes component events).getLast?

theorem lastBeat_append (component : String) (events more : List Event) :
    lastBeat component (events ++ more) =
      (lastBeat component more).or (lastBeat component events) := by
  rw [lastBeat, beatTimes, List.filterMap_append, List.getLast?_append]
  rfl

/-- `components` is the set of the watched ones, as Python iterates over it. -/
structure HeartbeatBreaker where
  components : List String
  threshold : Time
  action : TriggerAction := .quarantine
  breakerName : String := "HeartbeatBreaker"

/-- `_last_seen`. -/
abbrev HeartbeatState := Dict String Time

namespace HeartbeatBreaker

variable (b : HeartbeatBreaker)

/-- `_on_heartbeat`. -/
def onHeartbeat (event : Event) (s : HeartbeatState) : HeartbeatState :=
  match event with
  | .heartbeat beat =>
    if beat.component ∈ b.components then s.set beat.component beat.timestamp else s
  | _ => s

/-- A component's turn. `seconds n d` is how Python prints the seconds of a duration with
`n` decimals, `total d` how it prints them as they are. -/
def examine (seconds : Nat → Time → String) (total : Time → String) (now : Time)
    (s : HeartbeatState) (component : String) : Option Trigger :=
  match s.get component with
  | none => none
  | some last =>
    let elapsed := now - last
    if b.threshold < elapsed then some
      { breakerName := b.breakerName, action := b.action
        reason := s!"{component} silent for {seconds 1 elapsed}s " ++
          s!"(threshold {total b.threshold}s)" }
    else none

def evaluate (seconds : Nat → Time → String) (total : Time → String) (context : RiskContext)
    (s : HeartbeatState) : Option Trigger :=
  b.components.findSome? (b.examine seconds total context.now s)

def stateful (seconds : Nat → Time → String) (total : Time → String) :
    StatefulBreaker HeartbeatState where
  initial := .empty
  onEvent := b.onHeartbeat
  evaluate context s := (s, .ok (b.evaluate seconds total context s))

/-- The component has been heard of, but too long ago. -/
def Silent (component : String) (last : Option Time) (now : Time) : Prop :=
  component ∈ b.components ∧ ∃ t, last = some t ∧ b.threshold < now - t

variable {b} {seconds : Nat → Time → String} {total : Time → String}

theorem examine_eq_some {now : Time} {s : HeartbeatState} {component : String}
    {trigger : Trigger} (h : b.examine seconds total now s component = some trigger) :
    ∃ t, s.get component = some t ∧ b.threshold < now - t ∧ trigger.breakerName = b.breakerName ∧
      trigger.action = b.action := by
  rw [examine] at h
  split at h
  · cases h
  · next last hlast =>
    rw [Option.ite_none_right_eq_some] at h
    obtain ⟨hlong, htrigger⟩ := h
    cases htrigger
    exact ⟨last, hlast, hlong, rfl, rfl⟩

theorem examine_isSome {now : Time} {s : HeartbeatState} {component : String} :
    (b.examine seconds total now s component).isSome ↔
      ∃ t, s.get component = some t ∧ b.threshold < now - t := by
  rw [examine]
  cases s.get component with
  | none => simp
  | some last => simp

/-- What is remembered is the last heartbeat, of the watched components. -/
theorem get_after (ops : List BreakerOp) {component : String} (hwatched : component ∈ b.components) :
    ((b.stateful seconds total).after ops).get component =
      lastBeat component (publishedOf ops) := by
  induction ops using List.reverseRecOn with
  | nil => rfl
  | append_singleton ops op ih =>
    rw [StatefulBreaker.after_concat]
    cases op with
    | evaluate context =>
      rw [publishedOf_evaluate]
      exact ih
    | publish event =>
      rw [publishedOf_publish, lastBeat_append, ← ih]
      cases event with
      | heartbeat beat =>
        have hstep : (b.stateful seconds total).step ((b.stateful seconds total).after ops)
            (.publish (.heartbeat beat)) =
          if beat.component ∈ b.components then
            ((b.stateful seconds total).after ops).set beat.component beat.timestamp
          else (b.stateful seconds total).after ops := rfl
        rw [hstep]
        by_cases hsame : beat.component = component
        · rw [if_pos (hsame ▸ hwatched), Dict.get_set, if_pos hsame.symm]
          simp [lastBeat, beatTimes, hsame]
        · have hother : lastBeat component [.heartbeat beat] = none := by
            simp [lastBeat, beatTimes, hsame]
          rw [hother, Option.none_or]
          split
          · rw [Dict.get_set, if_neg fun h => hsame h.symm]
          · rfl
      | _ => rfl

/-- In any order of events and questions, it trips exactly when some watched component was
last heard of longer ago than the threshold, with the action it was given. -/
theorem trips_iff_silent (ops : List BreakerOp) (context : RiskContext) :
    ((b.stateful seconds total).Trips ops context ↔
        ∃ component, b.Silent component (lastBeat component (publishedOf ops)) context.now) ∧
      ∀ trigger, (b.stateful seconds total).answer ops context = .ok (some trigger) →
        trigger.breakerName = b.breakerName ∧ trigger.action = b.action := by
  have hanswer : (b.stateful seconds total).answer ops context = .ok (b.components.findSome?
      (b.examine seconds total context.now ((b.stateful seconds total).after ops))) := rfl
  constructor
  · constructor
    · rintro ⟨trigger, htrigger⟩
      rw [hanswer] at htrigger
      obtain ⟨component, hmem, hexamine⟩ := List.exists_of_findSome?_eq_some (Except.ok.inj htrigger)
      obtain ⟨t, ht, hlong, -⟩ := examine_eq_some hexamine
      exact ⟨component, hmem, t, (get_after ops hmem) ▸ ht, hlong⟩
    · rintro ⟨component, hmem, t, ht, hlong⟩
      have hsome : (b.examine seconds total context.now
          ((b.stateful seconds total).after ops) component).isSome :=
        examine_isSome.mpr ⟨t, (get_after ops hmem).trans ht, hlong⟩
      have hfound : (b.components.findSome? (b.examine seconds total context.now
          ((b.stateful seconds total).after ops))).isSome :=
        List.findSome?_isSome_iff.mpr ⟨component, hmem, hsome⟩
      obtain ⟨trigger, htrigger⟩ := Option.isSome_iff_exists.mp hfound
      exact ⟨trigger, hanswer.trans (congrArg _ htrigger)⟩
  · intro trigger htrigger
    rw [hanswer] at htrigger
    obtain ⟨component, -, hexamine⟩ := List.exists_of_findSome?_eq_some (Except.ok.inj htrigger)
    obtain ⟨t, -, -, hnamed⟩ := examine_eq_some hexamine
    exact hnamed

end HeartbeatBreaker

end Trading
