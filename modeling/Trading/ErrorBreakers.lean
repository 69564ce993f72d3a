import Mathlib.Data.List.Infix
import Trading.Data.Windows
import Trading.StatefulBreaker

/-!
# Breakers that count errors

Both keep the times of the errors that they have seen and drop, when asked, those that
fell out of the window.
-/
namespace Trading

open Data

/-- The errors among some events that `counts` picks, by their times. -/
def errorTimes (counts : ErrorOccurred → Bool) (events : List Event) : List Time :=
  events.filterMap fun
    | .errorOccurred error => if counts error then some error.timestamp else none
    | _ => none

/-- `_on_error`. -/
def countError (counts : ErrorOccurred → Bool) (event : Event) (times : List Time) : List Time :=
  match event with
  | .errorOccurred error => if counts error then times ++ [error.timestamp] else times
  | _ => times

theorem countError_eq (counts : ErrorOccurred → Bool) (event : Event) (times : List Time) :
    countError counts event times = times ++ errorTimes counts [event] := by
  cases event with
  | errorOccurred error => cases h : counts error <;> simp [countError, errorTimes, h]
  | _ => simp [countError, errorTimes]

theorem errorTimes_append (counts : ErrorOccurred → Bool) (events more : List Event) :
    errorTimes counts (events ++ more) = errorTimes counts events ++ errorTimes counts more := by
  simp [errorTimes]

/-- `threshold` errors within `window` trip it. -/
structure ConsecutiveErrorBreaker where
  threshold : Int
  window : Time
  components : Option (List String)
  action : TriggerAction := .quarantine
  breakerName : String := "ConsecutiveErrorBreaker"
  valid : 1 ≤ threshold

namespace ConsecutiveErrorBreaker

def init (threshold : Int) (window : Time) (components : Option (List String))
    (action : TriggerAction) (breakerName : String) : Except PyError ConsecutiveErrorBreaker :=
  if h : 1 ≤ threshold then .ok ⟨threshold, window, components, action, breakerName, h⟩
  else .error ⟨"ValueError", s!"threshold must be >= 1, got {threshold}"⟩

variable (b : ConsecutiveErrorBreaker)

def counts (error : ErrorOccurred) : Bool :=
  b.components.all fun names => names.contains error.component

/-- `seconds n d` is how Python prints the seconds of a duration with `n` decimals. -/
def evaluate (seconds : Nat → Time → String) (context : RiskContext) (times : List Time) :
    List Time × Except PyError (Option Trigger) :=
  match Time.checked (context.now - b.window) with
  | .error e => (times, .error e)
  | .ok cutoff =>
    let times := times.filter fun t => cutoff ≤ t
    if b.threshold ≤ times.length then
      (times, .ok (some
        { breakerName := b.breakerName, action := b.action
          reason := s!"{times.length} errors in last {seconds 1 b.window}s " ++
            s!"(threshold {b.threshold})" }))
    else (times, .ok none)

def stateful (seconds : Nat → Time → String) : StatefulBreaker (List Time) where
  initial := []
  onEvent := countError b.counts
  evaluate := b.evaluate seconds

/-- The errors counted so far, none of them dropped. -/
def seen (ops : List BreakerOp) : List Time := errorTimes b.counts (publishedOf ops)

variable (seconds : Nat → Time → String) {ops : List BreakerOp} {context : RiskContext}

/-- A question can only drop what fell out of the window by then. -/
theorem recent_evaluate {now : Time} (hlater : context.now ≤ now) (times : List Time) :
    recent id (now - b.window) (b.evaluate seconds context times).1 =
      recent id (now - b.window) times := by
  by_cases hrange : Time.InRange (context.now - b.window)
  · simp only [evaluate, Time.checked, if_pos hrange]
    split
    · exact recent_recent (Int.sub_le_sub_right hlater _) times
    · exact recent_recent (Int.sub_le_sub_right hlater _) times
  · rw [evaluate, Time.checked, if_neg hrange]

/-- Whoever asks no earlier than all before sees the errors of the window as if none had
been dropped. -/
theorem recent_after (ops : List BreakerOp) {now : Time} (hnow : ∀ t ∈ askedAt ops, t ≤ now) :
    recent id (now - b.window) ((b.stateful seconds).after ops) =
      recent id (now - b.window) (b.seen ops) := by
  induction ops using List.reverseRecOn with
  | nil => rfl
  | append_singleton ops op ih =>
    rw [StatefulBreaker.after_concat]
    cases op with
    | publish event =>
      rw [askedAt_publish] at hnow
      have honEvent : ∀ times, (b.stateful seconds).onEvent event times =
          times ++ errorTimes b.counts [event] := countError_eq b.counts event
      rw [StatefulBreaker.step, honEvent, seen, publishedOf_publish, errorTimes_append,
        recent_append, recent_append, ih hnow]
      rfl
    | evaluate context =>
      simp only [askedAt_evaluate, List.mem_append, List.mem_singleton] at hnow
      rw [seen, publishedOf_evaluate]
      exact (b.recent_evaluate seconds (hnow _ (.inr rfl)) _).trans
        (ih fun t ht => hnow t (.inl ht))

/-- What it answers only depends on the errors of the window. -/
theorem answer_eq (hops : Chronological (ops ++ [.evaluate context])) :
    (b.stateful seconds).answer ops context =
      (b.evaluate seconds context (recent id (context.now - b.window) (b.seen ops))).2 := by
  have hrecent := b.recent_after seconds ops (chronological_evaluate.mp hops).2
  have hsame : ∀ times, (b.evaluate seconds context times).2 =
      (b.evaluate seconds context (recent id (context.now - b.window) times)).2 := by
    intro times
    by_cases hrange : Time.InRange (context.now - b.window)
    · simp only [evaluate, Time.checked, if_pos hrange, recent, List.filter_filter, id_eq,
        Bool.and_self]
    · simp only [evaluate, Time.checked, if_neg hrange]
  rw [StatefulBreaker.answer, ← hrecent, ← hsame]
  rfl

/-- Where the window reaches back to a date, it trips if and only if enough errors lie in the
window, and elsewhere it raises. No other question before changes its answer. -/
theorem trips_iff_enough_errors (hops : Chronological (ops ++ [.evaluate context])) :
    (Time.InRange (context.now - b.window) →
      (∃ answer, (b.stateful seconds).answer ops context = .ok answer) ∧
      ((b.stateful seconds).Trips ops context ↔
        b.threshold ≤ ((b.seen ops).filter fun t => context.now - b.window ≤ t).length)) ∧
    (¬ Time.InRange (context.now - b.window) →
      (b.stateful seconds).answer ops context =
        .error ⟨"OverflowError", "date value out of range"⟩) ∧
    ∀ ops', publishedOf ops' = publishedOf ops → Chronological (ops' ++ [.evaluate context]) →
      (b.stateful seconds).answer ops' context = (b.stateful seconds).answer ops context := by
  refine ⟨fun hrange => ?_, fun hrange => ?_, fun ops' hsame hops' => ?_⟩
  · rw [StatefulBreaker.Trips, b.answer_eq seconds hops]
    simp only [evaluate, Time.checked, if_pos hrange, recent, List.filter_filter, id_eq,
      Bool.and_self]
    split
    · next h => exact ⟨⟨_, rfl⟩, iff_of_true ⟨_, rfl⟩ h⟩
    · next h => exact ⟨⟨_, rfl⟩, iff_of_false (by rintro ⟨_, ht⟩; cases ht) h⟩
  · rw [b.answer_eq seconds hops, evaluate, Time.checked, if_neg hrange]
  · rw [b.answer_eq seconds hops', b.answer_eq seconds hops, seen, hsame, seen]

def twice : ConsecutiveErrorBreaker where
  threshold := 2
  window := 10
  components := none
  valid := by decide

def errorAt (t : Time) : BreakerOp := .publish (.errorOccurred ⟨"oms", "", "KeyError", t⟩)

/-- A question in between drops an error for good, and the one after it does not miss it. -/
theorem trips_iff_enough_errors_twice :
    (twice.stateful fun _ _ => "").Trips [errorAt 7, errorAt 0, errorAt 5] (contextAt 15) ∧
      (twice.stateful fun _ _ => "").answer
          [errorAt 7, errorAt 0, .evaluate (contextAt 12), errorAt 5] (contextAt 15) =
        (twice.stateful fun _ _ => "").answer
          [errorAt 7, errorAt 0, errorAt 5] (contextAt 15) := by
  obtain ⟨htrips, -, hsame⟩ := twice.trips_iff_enough_errors (fun _ _ => "")
    (show Chronological ([errorAt 7, errorAt 0, errorAt 5] ++ [.evaluate (contextAt 15)]) by
      unfold Chronological
      decide)
  refine ⟨(htrips (by decide)).2.mpr (by decide), hsame _ rfl ?_⟩
  unfold Chronological
  decide

/-- The longest window that there is. -/
def everError : ConsecutiveErrorBreaker where
  threshold := 1
  window := (999999999 * 86400 + 86399) * 1000000 + 999999
  components := none
  valid := by decide

/-- The window reaches back to before all dates, so that not even a counted error trips it. -/
theorem enough_errors_raise :
    everError.threshold ≤
        ((everError.seen [errorAt 7]).filter fun t => 15 - everError.window ≤ t).length ∧
      (everError.stateful fun _ _ => "").answer [errorAt 7] (contextAt 15) =
        .error ⟨"OverflowError", "date value out of range"⟩ ∧
      ¬ (everError.stateful fun _ _ => "").Trips [errorAt 7] (contextAt 15) := by
  refine ⟨by decide, rfl, ?_⟩
  rintro ⟨trigger, htrigger⟩
  cases htrigger

end ConsecutiveErrorBreaker

/-- `threshold` errors within `window` trip it for `cooldown`. -/
structure RateLimitBreaker where
  threshold : Int := 3
  window : Time := 10000000
  cooldown : Time := 300000000
  exceptionTypeMatch : String := "RateLimit"
  action : TriggerAction := .rejectNew
  breakerName : String := "RateLimitBreaker"
  valid : 1 ≤ threshold

structure RateLimitState where
  errorTimes : List Time
  trippedUntil : Option Time

namespace RateLimitBreaker

def init (threshold : Int) (window cooldown : Time) (exceptionTypeMatch : String)
    (action : TriggerAction) (breakerName : String) : Except PyError RateLimitBreaker :=
  if h : 1 ≤ threshold then
    .ok ⟨threshold, window, cooldown, exceptionTypeMatch, action, breakerName, h⟩
  else .error ⟨"ValueError", s!"threshold must be >= 1, got {threshold}"⟩

variable (b : RateLimitBreaker)

/-- The class name contains the text. -/
def counts (error : ErrorOccurred) : Bool :=
  decide (b.exceptionTypeMatch.toList <:+: error.exceptionType.toList)

variable (seconds : Nat → Time → String)

/-- Count the errors of the window; a trip starts a cooldown. -/
def evaluateFresh (context : RiskContext) (times : List Time) :
    RateLimitState × Except PyError (Option Trigger) :=
  match Time.checked (context.now - b.window) with
  | .error e => (⟨times, none⟩, .error e)
  | .ok cutoff =>
    let times := times.filter fun t => cutoff ≤ t
    if b.threshold ≤ times.length then
      match Time.checked (context.now + b.cooldown) with
      | .error e => (⟨times, none⟩, .error e)
      | .ok trippedUntil =>
        (⟨times, some trippedUntil⟩, .ok (some
          { breakerName := b.breakerName, action := b.action
            reason := s!"{times.length} rate-limit errors in {seconds 0 b.window}s — " ++
              s!"cooldown for {seconds 0 b.cooldown}s" }))
    else (⟨times, none⟩, .ok none)

/-- The end of a cooldown is only noticed here, and all errors up to now are dropped. -/
def evaluate (context : RiskContext) (s : RateLimitState) :
    RateLimitState × Except PyError (Option Trigger) :=
  match s.trippedUntil with
  | none => b.evaluateFresh seconds context s.errorTimes
  | some trippedUntil =>
    if context.now < trippedUntil then
      (s, .ok (some
        { breakerName := b.breakerName, action := b.action
          reason := s!"rate-limit cooldown active " ++
            s!"({seconds 0 (trippedUntil - context.now)}s remaining)" }))
    else b.evaluateFresh seconds context []

def stateful : StatefulBreaker RateLimitState where
  initial := ⟨[], none⟩
  onEvent event s := { s with errorTimes := countError b.counts event s.errorTimes }
  evaluate := b.evaluate seconds

/-- What has happened so far: when it tripped afresh, and the errors published since it was
last asked for the first time after a cooldown, or none while it has not been asked yet. -/
structure History where
  trips : List Time
  counted : Option (List Time)

/-- A trip keeps it tripped for the length of the cooldown. -/
def InCooldown (trips : List Time) (now : Time) : Prop := ∃ t ∈ trips, now < t + b.cooldown

instance (trips : List Time) (now : Time) : Decidable (b.InCooldown trips now) :=
  inferInstanceAs (Decidable (∃ t ∈ trips, now < t + b.cooldown))

def note (s : RateLimitState) (h : History) : BreakerOp → History
  | .publish event =>
    { h with counted := h.counted.map fun times => times ++ errorTimes b.counts [event] }
  | .evaluate context =>
    if isTrigger (b.evaluate seconds context s).2 then
      ⟨if b.InCooldown h.trips context.now then h.trips else h.trips ++ [context.now], none⟩
    else ⟨h.trips, some (h.counted.getD [])⟩

def history (ops : List BreakerOp) : History :=
  (ops.foldl
    (fun p op => ((b.stateful seconds).step p.1 op, b.note seconds p.1 p.2 op))
    ((b.stateful seconds).initial, ⟨[], some []⟩)).2

/-- All matching errors published so far, by their times. -/
def published (ops : List BreakerOp) : List Time := errorTimes b.counts (publishedOf ops)

/-- The matching errors in the window that came when no cooldown was running. -/
def due (ops : List BreakerOp) (now : Time) : List Time :=
  (b.published ops).filter fun t =>
    now - b.window ≤ t ∧ ∀ trip ∈ (b.history seconds ops).trips, trip + b.cooldown ≤ t

/-- Those of the window that came after the end of the last cooldown was noticed. -/
def noticed (ops : List BreakerOp) (now : Time) : List Time :=
  recent id (now - b.window) ((b.history seconds ops).counted.getD [])

/-- It trips while a cooldown runs and on enough errors outside of one. -/
def Meets (ops : List BreakerOp) (context : RiskContext) : Prop :=
  (b.stateful seconds).Trips ops context ↔
    b.InCooldown (b.history seconds ops).trips context.now ∨
      b.threshold ≤ (b.due seconds ops context.now).length

theorem history_concat (ops : List BreakerOp) (op : BreakerOp) :
    b.history seconds (ops ++ [op]) =
      b.note seconds ((b.stateful seconds).after ops) (b.history seconds ops) op := by
  have hafter : ∀ s h, (ops.foldl
      (fun p op => ((b.stateful seconds).step p.1 op, b.note seconds p.1 p.2 op)) (s, h)).1 =
        ops.foldl (b.stateful seconds).step s := by
    induction ops with
    | nil => exact fun _ _ => rfl
    | cons op ops ih => exact fun _ _ => ih _ _
  rw [history, List.foldl_append, List.foldl_cons, List.foldl_nil, hafter]
  rfl

/-- A fresh trip needs a window that reaches back to a date, enough errors in it, and a date
at which the cooldown ends. -/
def TripsAfresh (context : RiskContext) (times : List Time) : Prop :=
  b.threshold ≤ (recent id (context.now - b.window) times).length ∧
    Time.InRange (context.now - b.window) ∧ Time.InRange (context.now + b.cooldown)

/-- The errors are counted, or it raises and counts none, or too late. -/
theorem evaluateFresh_cases (context : RiskContext) (times : List Time) :
    (b.TripsAfresh context times ∧
      (b.evaluateFresh seconds context times).1 =
        ⟨recent id (context.now - b.window) times, some (context.now + b.cooldown)⟩ ∧
      isTrigger (b.evaluateFresh seconds context times).2) ∨
    (¬ b.TripsAfresh context times ∧
      (∃ left, left.Sublist times ∧ (b.evaluateFresh seconds context times).1 = ⟨left, none⟩ ∧
        ∀ now, context.now ≤ now →
          recent id (now - b.window) left = recent id (now - b.window) times) ∧
      ¬ isTrigger (b.evaluateFresh seconds context times).2) := by
  by_cases hcutoff : Time.InRange (context.now - b.window)
  · have hsame : ∀ now, context.now ≤ now →
        recent id (now - b.window) (recent id (context.now - b.window) times) =
          recent id (now - b.window) times :=
      fun now hlater => recent_recent (Int.sub_le_sub_right hlater _) _
    have hsub : (recent id (context.now - b.window) times).Sublist times := List.filter_sublist
    simp only [evaluateFresh, Time.checked, if_pos hcutoff]
    split
    · next hmany =>
      by_cases hend : Time.InRange (context.now + b.cooldown)
      · rw [if_pos hend]
        exact .inl ⟨⟨hmany, hcutoff, hend⟩, rfl, rfl⟩
      · rw [if_neg hend]
        exact .inr ⟨fun h => hend h.2.2, ⟨_, hsub, rfl, hsame⟩, Bool.false_ne_true⟩
    · next hfew =>
      exact .inr ⟨fun h => hfew h.1, ⟨_, hsub, rfl, hsame⟩, Bool.false_ne_true⟩
  · rw [evaluateFresh, Time.checked, if_neg hcutoff]
    exact .inr ⟨fun h => hcutoff h.2.1, ⟨times, List.Sublist.refl _, rfl, fun _ _ => rfl⟩,
      Bool.false_ne_true⟩

/-- What a question finds: a running cooldown, one that is over, a fresh trip, or none. -/
theorem evaluate_cases (context : RiskContext) (s : RateLimitState) :
    (∃ trippedUntil, s.trippedUntil = some trippedUntil ∧ context.now < trippedUntil ∧
      (b.evaluate seconds context s).1 = s ∧ isTrigger (b.evaluate seconds context s).2) ∨
    (∃ trippedUntil, s.trippedUntil = some trippedUntil ∧ trippedUntil ≤ context.now ∧
      (b.evaluate seconds context s).1 = ⟨[], none⟩ ∧
      ¬ isTrigger (b.evaluate seconds context s).2) ∨
    (s.trippedUntil = none ∧ b.TripsAfresh context s.errorTimes ∧
      (b.evaluate seconds context s).1 =
        ⟨recent id (context.now - b.window) s.errorTimes, some (context.now + b.cooldown)⟩ ∧
      isTrigger (b.evaluate seconds context s).2) ∨
    (s.trippedUntil = none ∧ ¬ b.TripsAfresh context s.errorTimes ∧
      (∃ left, (b.evaluate seconds context s).1 = ⟨left, none⟩ ∧ ∀ now, context.now ≤ now →
        recent id (now - b.window) left = recent id (now - b.window) s.errorTimes) ∧
      ¬ isTrigger (b.evaluate seconds context s).2) := by
  cases huntil : s.trippedUntil with
  | some trippedUntil =>
    by_cases hnow : context.now < trippedUntil
    · refine .inl ⟨trippedUntil, rfl, hnow, ?_⟩
      simp [evaluate, huntil, hnow, isTrigger]
    -- with no error left it cannot trip afresh
    · have hfew : ¬ b.TripsAfresh context [] := fun h => by
        have hvalid := b.valid
        have hmany : b.threshold ≤ 0 := h.1
        omega
      have hover : b.evaluate seconds context s = b.evaluateFresh seconds context [] := by
        rw [evaluate, huntil]
        exact if_neg hnow
      obtain ⟨htrips, -⟩ | ⟨-, ⟨left, hleft, hstate, -⟩, hanswer⟩ :=
        b.evaluateFresh_cases seconds context []
      · exact absurd htrips hfew
      · rw [List.sublist_nil.mp hleft] at hstate
        rw [hover]
        exact .inr (.inl ⟨trippedUntil, rfl, Int.not_lt.mp hnow, hstate, hanswer⟩)
  | none =>
    have hfresh : b.evaluate seconds context s = b.evaluateFresh seconds context s.errorTimes := by
      rw [evaluate, huntil]
    rw [hfresh]
    obtain ⟨htrips, hstate, hanswer⟩ | ⟨hfails, ⟨left, -, hstate, hsame⟩, hanswer⟩ :=
      b.evaluateFresh_cases seconds context s.errorTimes
    · exact .inr (.inr (.inl ⟨rfl, htrips, hstate, hanswer⟩))
    · exact .inr (.inr (.inr ⟨rfl, hfails, ⟨left, hstate, hsame⟩, hanswer⟩))

/-- The state against what has happened. Later moments are those no earlier than any so far. -/
structure Follows (ops : List BreakerOp) (s : RateLimitState) (h : History) : Prop where
  past : ∀ t ∈ h.trips, t ∈ ops.filterMap BreakerOp.moment?
  running : ∀ trippedUntil, s.trippedUntil = some trippedUntil → h.counted = none ∧
    ∀ now, b.InCooldown h.trips now ↔ now < trippedUntil
  ended : s.trippedUntil = none → ∀ now, (∀ m ∈ ops.filterMap BreakerOp.moment?, m ≤ now) →
    ¬ b.InCooldown h.trips now
  counted : s.trippedUntil = none → ∃ times, h.counted = some times ∧
    times.Sublist (b.published ops) ∧ (∀ t ∈ times, ¬ b.InCooldown h.trips t) ∧
    ∀ now, (∀ m ∈ ops.filterMap BreakerOp.moment?, m ≤ now) →
      recent id (now - b.window) s.errorTimes = recent id (now - b.window) times

variable {b} {ops : List BreakerOp} {s : RateLimitState} {h : History}

theorem Follows.publish {event : Event} (hs : b.Follows ops s h)
    (htimely : Timely (ops ++ [.publish event])) :
    b.Follows (ops ++ [.publish event])
      { s with errorTimes := countError b.counts event s.errorTimes }
      (b.note seconds s h (.publish event)) where
  past t ht := by
    rw [List.filterMap_append]
    exact List.mem_append_left _ (hs.past t ht)
  running trippedUntil huntil := by
    obtain ⟨hcounted, hnow⟩ := hs.running trippedUntil huntil
    exact ⟨by simp [note, hcounted], hnow⟩
  ended huntil now hnow := by
    rw [List.filterMap_append] at hnow
    exact hs.ended huntil now fun m hm => hnow m (List.mem_append_left _ hm)
  counted huntil := by
    obtain ⟨times, hcounted, hsub, houtside, hsame⟩ := hs.counted huntil
    refine ⟨times ++ errorTimes b.counts [event], by simp [note, hcounted], ?_, ?_, ?_⟩
    · rw [published, publishedOf_publish, errorTimes_append]
      exact hsub.append_right _
    · intro t ht
      obtain ht | ht := List.mem_append.mp ht
      · exact houtside t ht
      -- an error comes after all moments so far
      · have hmoment : (BreakerOp.publish event).moment? = some t := by
          cases event with
          | errorOccurred error =>
            cases hc : b.counts error <;> simp [errorTimes, hc] at ht
            rw [BreakerOp.moment?, ht]
          | _ => cases ht
        exact hs.ended huntil t fun m hm => (timely_concat.mp htimely).2 m hm t hmoment
    · intro now hnow
      rw [List.filterMap_append] at hnow
      rw [countError_eq, recent_append, recent_append,
        hsame now fun m hm => hnow m (List.mem_append_left _ hm)]

section Question

variable {context : RiskContext}

theorem Follows.past_evaluate (hs : b.Follows ops s h) {t : Time} (ht : t ∈ h.trips) :
    t ∈ (ops ++ [BreakerOp.evaluate context]).filterMap BreakerOp.moment? := by
  rw [List.filterMap_append]
  exact List.mem_append_left _ (hs.past t ht)

/-- A question during a cooldown. -/
theorem Follows.wait (hs : b.Follows ops s h) {trippedUntil : Time}
    (huntil : s.trippedUntil = some trippedUntil) :
    b.Follows (ops ++ [.evaluate context]) s ⟨h.trips, none⟩ where
  past _ ht := hs.past_evaluate ht
  running E hE := ⟨rfl, (hs.running E hE).2⟩
  ended hnone := by
    rw [huntil] at hnone
    cases hnone
  counted hnone := by
    rw [huntil] at hnone
    cases hnone

/-- The question that finds a cooldown over. -/
theorem Follows.expire (hs : b.Follows ops s h) {trippedUntil : Time}
    (huntil : s.trippedUntil = some trippedUntil) (hnow : trippedUntil ≤ context.now) :
    b.Follows (ops ++ [.evaluate context]) ⟨[], none⟩ ⟨h.trips, some []⟩ where
  past _ ht := hs.past_evaluate ht
  running _ hE := by cases hE
  ended _ now hafter := by
    have hlater : context.now ≤ now := (moments_evaluate_le.mp hafter).2
    rw [(hs.running _ huntil).2]
    exact Int.not_lt.mpr (le_trans hnow hlater)
  counted _ := ⟨[], rfl, List.nil_sublist _, fun _ ht => absurd ht List.not_mem_nil, fun _ _ => rfl⟩

/-- A fresh trip is the last one, so its end is the last end. -/
theorem Follows.trip (hs : b.Follows ops s h) (times : List Time)
    (hlater : ∀ m ∈ ops.filterMap BreakerOp.moment?, m ≤ context.now) :
    b.Follows (ops ++ [.evaluate context]) ⟨times, some (context.now + b.cooldown)⟩
      ⟨h.trips ++ [context.now], none⟩ where
  past t ht := by
    obtain ht | ht := List.mem_append.mp ht
    · exact hs.past_evaluate ht
    · rw [List.filterMap_append, List.mem_singleton.mp ht]
      exact List.mem_append_right _ (List.mem_singleton.mpr rfl)
  running E hE := by
    cases hE
    refine ⟨rfl, fun now => ⟨?_, ?_⟩⟩
    · rintro ⟨t, ht, hnow⟩
      obtain ht | ht := List.mem_append.mp ht
      · have hbefore : t ≤ context.now := hlater t (hs.past t ht)
        exact lt_of_lt_of_le hnow (Int.add_le_add_right hbefore _)
      · rw [List.mem_singleton.mp ht] at hnow
        exact hnow
    · intro hnow
      exact ⟨context.now, List.mem_append_right _ (List.mem_singleton.mpr rfl), hnow⟩
  ended hnone := by cases hnone
  counted hnone := by cases hnone

/-- A question outside of a cooldown that does not trip. -/
theorem Follows.prune (hs : b.Follows ops s h) (huntil : s.trippedUntil = none)
    {left : List Time} (hleft : ∀ now, context.now ≤ now →
      recent id (now - b.window) left = recent id (now - b.window) s.errorTimes) :
    b.Follows (ops ++ [.evaluate context]) ⟨left, none⟩ ⟨h.trips, some (h.counted.getD [])⟩ where
  past _ ht := hs.past_evaluate ht
  running _ hE := by cases hE
  ended _ now hafter := hs.ended huntil now (moments_evaluate_le.mp hafter).1
  counted _ := by
    obtain ⟨times, hcounted, hsub, houtside, hsame⟩ := hs.counted huntil
    have hpublished : b.published (ops ++ [.evaluate context]) = b.published ops := by
      rw [published, publishedOf_evaluate, published]
    rw [hcounted]
    refine ⟨times, rfl, hpublished ▸ hsub, houtside, fun now hafter => ?_⟩
    obtain ⟨hbefore, hlater⟩ := moments_evaluate_le.mp hafter
    rw [hleft now hlater]
    exact hsame now hbefore

theorem Follows.evaluate (hs : b.Follows ops s h)
    (htimely : Timely (ops ++ [.evaluate context])) :
    b.Follows (ops ++ [.evaluate context]) (b.evaluate seconds context s).1
      (b.note seconds s h (.evaluate context)) := by
  have hlater : ∀ m ∈ ops.filterMap BreakerOp.moment?, m ≤ context.now :=
    fun m hm => (timely_concat.mp htimely).2 m hm _ rfl
  obtain ⟨trippedUntil, huntil, hnow, hstate, htrigger⟩ |
      ⟨trippedUntil, huntil, hnow, hstate, hanswer⟩ | ⟨huntil, -, hstate, htrigger⟩ |
      ⟨huntil, -, ⟨left, hstate, hsame⟩, hanswer⟩ := b.evaluate_cases seconds context s
  · have hcooldown := ((hs.running _ huntil).2 context.now).mpr hnow
    rw [hstate, note, if_pos htrigger, if_pos hcooldown]
    exact hs.wait huntil
  · rw [hstate, note, if_neg hanswer, (hs.running _ huntil).1]
    exact hs.expire huntil hnow
  · have hcooldown := hs.ended huntil context.now hlater
    rw [hstate, note, if_pos htrigger, if_neg hcooldown]
    exact hs.trip _ hlater
  · rw [hstate, note, if_neg hanswer]
    exact hs.prune huntil hsame

end Question

variable (b)

theorem follows_after (htimely : Timely ops) :
    b.Follows ops ((b.stateful seconds).after ops) (b.history seconds ops) := by
  induction ops using List.reverseRecOn with
  | nil =>
    refine ⟨by simp [history], by simp [stateful], ?_, ?_⟩
    · rintro - now - ⟨t, ht, -⟩
      cases ht
    · intro _
      exact ⟨[], rfl, List.nil_sublist _, by simp, fun _ _ => rfl⟩
  | append_singleton ops op ih =>
    rw [history_concat, StatefulBreaker.after_concat]
    have hs := ih (timely_concat.mp htimely).1
    cases op with
    | publish event => exact hs.publish seconds htimely
    | evaluate context => exact hs.evaluate seconds htimely

variable {context : RiskContext}

/-- It trips during a cooldown, and otherwise on enough errors published since the end of
the last one was noticed, with dates to look back to and to wait for. -/
theorem trips_iff_noticed (htimely : Timely (ops ++ [.evaluate context])) :
    (b.stateful seconds).Trips ops context ↔
      b.InCooldown (b.history seconds ops).trips context.now ∨
        (b.threshold ≤ (b.noticed seconds ops context.now).length ∧
          Time.InRange (context.now - b.window) ∧ Time.InRange (context.now + b.cooldown)) := by
  have hs := b.follows_after seconds (timely_concat.mp htimely).1
  have hvalid := b.valid
  have hlater : ∀ m ∈ ops.filterMap BreakerOp.moment?, m ≤ context.now :=
    fun m hm => (timely_concat.mp htimely).2 m hm _ rfl
  have htrips : (b.stateful seconds).Trips ops context ↔
      isTrigger (b.evaluate seconds context ((b.stateful seconds).after ops)).2 :=
    isTrigger_iff.symm
  rw [htrips, noticed]
  generalize (b.stateful seconds).after ops = s at hs ⊢
  obtain ⟨trippedUntil, huntil, hnow, -, htrigger⟩ | ⟨trippedUntil, huntil, hnow, -, hanswer⟩ |
      ⟨huntil, hfresh, -, htrigger⟩ | ⟨huntil, hfresh, -, hanswer⟩ :=
    b.evaluate_cases seconds context s
  · exact iff_of_true htrigger (.inl (((hs.running _ huntil).2 _).mpr hnow))
  · refine iff_of_false hanswer ?_
    rw [(hs.running _ huntil).1, (hs.running _ huntil).2]
    rintro (hrunning | ⟨hmany, -⟩)
    · exact Int.not_lt.mpr hnow hrunning
    · simp only [Option.getD_none, recent_nil, List.length_nil, Nat.cast_zero] at hmany
      omega
  · obtain ⟨times, hcounted, -, -, hsame⟩ := hs.counted huntil
    rw [TripsAfresh, hsame _ hlater] at hfresh
    exact iff_of_true htrigger (.inr (by rw [hcounted]; exact hfresh))
  · obtain ⟨times, hcounted, -, -, hsame⟩ := hs.counted huntil
    rw [TripsAfresh, hsame _ hlater] at hfresh
    rw [hcounted]
    exact iff_of_false hanswer (not_or.mpr ⟨hs.ended huntil _ hlater, hfresh⟩)

/-- All that it counts outside of a cooldown is due. -/
theorem noticed_le_due (htimely : Timely (ops ++ [.evaluate context])) :
    (b.noticed seconds ops context.now).length ≤ (b.due seconds ops context.now).length := by
  have hs := b.follows_after seconds (timely_concat.mp htimely).1
  rw [noticed]
  cases huntil : ((b.stateful seconds).after ops).trippedUntil with
  | some trippedUntil =>
    rw [(hs.running _ huntil).1]
    exact Nat.zero_le _
  | none =>
    obtain ⟨times, hcounted, hsub, houtside, -⟩ := hs.counted huntil
    have hall : recent id (context.now - b.window) times = times.filter fun t =>
        context.now - b.window ≤ t ∧
          ∀ trip ∈ (b.history seconds ops).trips, trip + b.cooldown ≤ t := by
      apply List.filter_congr
      intro t ht
      have hends : ∀ trip ∈ (b.history seconds ops).trips, trip + b.cooldown ≤ t :=
        fun trip htrip => Int.not_lt.mp fun hlt => houtside t ht ⟨trip, htrip, hlt⟩
      exact decide_eq_decide.mpr ⟨fun h => ⟨h, hends⟩, And.left⟩
    rw [hcounted, Option.getD_some, hall, due]
    exact (hsub.filter _).length_le

/-- It does what it should at a question outside of a cooldown, unless enough errors are due
but too few of them came after the end of the last cooldown was noticed, or the window or the
cooldown reaches beyond all dates. -/
theorem meets_iff_noticed (htimely : Timely (ops ++ [.evaluate context])) :
    b.Meets seconds ops context ↔
      (¬ b.InCooldown (b.history seconds ops).trips context.now →
        b.threshold ≤ (b.due seconds ops context.now).length →
        b.threshold ≤ (b.noticed seconds ops context.now).length ∧
          Time.InRange (context.now - b.window) ∧ Time.InRange (context.now + b.cooldown)) := by
  have hle := b.noticed_le_due seconds htimely
  rw [Meets, b.trips_iff_noticed seconds htimely]
  constructor
  · intro hmeets hcooldown hdue
    exact (hmeets.mpr (.inr hdue)).resolve_left hcooldown
  · intro hwhen
    constructor
    · rintro (hcooldown | hmany)
      · exact .inl hcooldown
      · exact .inr (le_trans hmany.1 (Int.ofNat_le.mpr hle))
    · rintro (hcooldown | hdue)
      · exact .inl hcooldown
      · by_cases hcooldown : b.InCooldown (b.history seconds ops).trips context.now
        · exact .inl hcooldown
        · exact .inr (hwhen hcooldown hdue)

def brief : RateLimitBreaker where
  window := 10000000
  cooldown := 5000000
  valid := by decide

def rateLimitErrorAt (t : Time) : BreakerOp :=
  .publish (.errorOccurred ⟨"venue", "too many requests", "RateLimitError", t⟩)

/-- It trips on three errors at once. The next three come after the cooldown and before
anyone asks. -/
def burstAfterCooldown : List BreakerOp :=
  .replicate 3 (rateLimitErrorAt 0) ++ [.evaluate (contextAt 0)] ++
    .replicate 3 (rateLimitErrorAt 6000000)

theorem meets_iff_noticed_burst :
    ¬ brief.InCooldown (brief.history (fun _ _ => "") burstAfterCooldown).trips 7000000 ∧
      ¬ brief.Meets (fun _ _ => "") burstAfterCooldown (contextAt 7000000) := by
  refine ⟨by decide, fun hmeets => ?_⟩
  have htimely : Timely (burstAfterCooldown ++ [.evaluate (contextAt 7000000)]) := by
    unfold Timely
    decide
  have hwhen := (brief.meets_iff_noticed (fun _ _ => "") htimely).mp hmeets
  exact absurd (hwhen (by decide) (by decide)).1 (by decide)

/-- The question that finds the cooldown over drops the new errors with the old. -/
theorem burst_after_cooldown_missed :
    Timely (burstAfterCooldown ++ [.evaluate (contextAt 7000000)]) ∧
      brief.due (fun _ _ => "") burstAfterCooldown 7000000 = .replicate 3 6000000 ∧
      ¬ brief.Meets (fun _ _ => "") burstAfterCooldown (contextAt 7000000) := by
  refine ⟨by unfold Timely; decide, by decide, fun hmeets => ?_⟩
  have hanswer : (brief.stateful fun _ _ => "").answer burstAfterCooldown (contextAt 7000000) =
      .ok none := by rfl
  obtain ⟨trigger, htrigger⟩ := hmeets.mpr (.inr (by decide))
  rw [hanswer] at htrigger
  cases htrigger

end RateLimitBreaker

end Trading
