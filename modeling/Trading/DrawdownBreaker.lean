import Mathlib.Algebra.Order.Field.Rat
import Mathlib.Algebra.Order.Field.Basic
import Mathlib.Data.List.Induction
import Mathlib.Order.Bounds.Basic
import Mathlib.Tactic.NormNum
import Trading.Data.Windows
import Trading.DecimalContext
import Trading.StatefulBreaker

/-!
# The drawdown breaker

It keeps the equities of a window and compares the last one with their peak. A breach
latches it until a human acknowledges the quarantine.
-/
namespace Trading

open Data

/-- A loss of more than `threshold` of the peak trips it. -/
structure DrawdownBreaker where
  threshold : Decimal
  window : Time
  action : TriggerAction := .flatten
  breakerName : String := "DrawdownBreaker"
  valid : 0 < threshold

structure DrawdownState where
  equityHistory : List (Time × Decimal)
  latched : Bool
  latchedReason : String

/-- `max` of a list. -/
def pyMax (xs : List Decimal) : Except PyError Decimal :=
  match xs.max? with
  | some x => .ok x
  | none => .error ⟨"ValueError", "max() arg is an empty sequence"⟩

namespace DrawdownBreaker

/-- `str` is how Python prints a decimal, `percent` how it prints one with `:.2%`. -/
def init (str : Decimal → String) (threshold : Decimal) (window : Time) (action : TriggerAction)
    (breakerName : String) : Except PyError DrawdownBreaker :=
  if h : 0 < threshold then .ok ⟨threshold, window, action, breakerName, h⟩
  else .error ⟨"ValueError", s!"threshold must be > 0, got {str threshold}"⟩

/-- `_on_state_change`. Acknowledging clears the latch and the history. -/
def onStateChange (event : Event) (s : DrawdownState) : DrawdownState :=
  match event with
  | .systemStateChanged change =>
    if change.oldState = .quarantine ∧ change.newState = .reconciling then ⟨[], false, ""⟩ else s
  | _ => s

variable (b : DrawdownBreaker) (str percent : Decimal → String)

/-- The part of the peak that is lost. -/
def drawdown (peak equity : Decimal) : Except PyError Decimal := do
  let loss ← Decimal.context (peak - equity)
  Decimal.context (loss / peak)

/-- Judge the equity against the peak of the window. -/
def judge (equity : Decimal) (history : List (Time × Decimal)) (s : DrawdownState) :
    DrawdownState × Except PyError (Option Trigger) :=
  match pyMax (history.map Prod.snd) with
  | .error e => ({ s with equityHistory := history }, .error e)
  | .ok peak =>
    if peak ≤ 0 then ({ s with equityHistory := history }, .ok none)
    else
      match drawdown peak equity with
      | .error e => ({ s with equityHistory := history }, .error e)
      | .ok lost =>
        if b.threshold < lost then
          let reason := s!"drawdown {percent lost} (peak {str peak}, current {str equity}, " ++
            s!"threshold {percent b.threshold})"
          (⟨history, true, reason⟩,
            .ok (some { breakerName := b.breakerName, action := b.action, reason := reason }))
        else ({ s with equityHistory := history }, .ok none)

def evaluate (context : RiskContext) (s : DrawdownState) :
    DrawdownState × Except PyError (Option Trigger) :=
  if s.latched then
    (s, .ok (some
      { breakerName := b.breakerName, action := b.action
        reason := s!"latched: {s.latchedReason}" }))
  else
    let equity := context.balance.total
    let history := s.equityHistory ++ [(context.now, equity)]
    match Time.checked (context.now - b.window) with
    | .error e => ({ s with equityHistory := history }, .error e)
    | .ok cutoff =>
      let history := history.filter fun sample => cutoff ≤ sample.1
      b.judge str percent equity history s

def stateful : StatefulBreaker DrawdownState where
  initial := ⟨[], false, ""⟩
  onEvent := onStateChange
  evaluate := b.evaluate str percent

/-- A human acknowledged the quarantine. -/
def IsAck : BreakerOp → Prop
  | .publish (.systemStateChanged change) =>
    change.oldState = .quarantine ∧ change.newState = .reconciling
  | _ => False

instance : DecidablePred IsAck
  | .publish (.systemStateChanged _) => inferInstanceAs (Decidable (_ ∧ _))
  | .publish (.breakerTripped _) => inferInstanceAs (Decidable False)
  | .publish (.heartbeat _) => inferInstanceAs (Decidable False)
  | .publish (.errorOccurred _) => inferInstanceAs (Decidable False)
  | .evaluate _ => inferInstanceAs (Decidable False)

def sample (context : RiskContext) : Time × Decimal := (context.now, context.balance.total)

/-- The equities at the questions since the last acknowledgement, each with its time. -/
def sinceAck (ops : List BreakerOp) : List (Time × Decimal) :=
  ops.foldl
    (fun samples op => match op with
      | .evaluate context => samples ++ [sample context]
      | .publish _ => if IsAck op then [] else samples)
    []

/-- `peak` is the greatest equity in the window of the sample `j`. `before` came before it. -/
def IsPeak (before : List (Time × Decimal)) (j : Time × Decimal) (peak : Decimal) : Prop :=
  IsGreatest {e | ∃ i ∈ before ++ [j], j.1 - b.window ≤ i.1 ∧ i.2 = e} peak

/-- Too much of the peak is lost. -/
def Exceeded (peak equity : Decimal) : Prop :=
  0 < peak ∧ ∃ lost, drawdown peak equity = .ok lost ∧ b.threshold < lost

/-- At the sample `j`, whose window reaches back to a date, too much of its peak is lost. -/
def BreachedAt (before : List (Time × Decimal)) (j : Time × Decimal) : Prop :=
  Time.InRange (j.1 - b.window) ∧ ∃ peak, b.IsPeak before j peak ∧ b.Exceeded peak j.2

/-- What goes wrong at the sample `j`: there is no date to look back to, or a loss is too large
for a decimal. -/
def FailsAt (before : List (Time × Decimal)) (j : Time × Decimal) (exc : PyError) : Prop :=
  Time.checked (j.1 - b.window) = .error exc ∨
    Time.InRange (j.1 - b.window) ∧ ∃ peak, b.IsPeak before j peak ∧ 0 < peak ∧
      drawdown peak j.2 = .error exc

def Breached (samples : List (Time × Decimal)) : Prop :=
  ∃ before j after, samples = before ++ j :: after ∧ b.BreachedAt before j

theorem sinceAck_evaluate (ops : List BreakerOp) (context : RiskContext) :
    sinceAck (ops ++ [.evaluate context]) = sinceAck ops ++ [sample context] := by
  simp [sinceAck]

theorem sinceAck_publish (ops : List BreakerOp) (event : Event) :
    sinceAck (ops ++ [.publish event]) =
      if IsAck (.publish event) then [] else sinceAck ops := by
  simp [sinceAck]

theorem onStateChange_eq (event : Event) (s : DrawdownState) :
    onStateChange event s = if IsAck (.publish event) then ⟨[], false, ""⟩ else s := by
  cases event with
  | systemStateChanged change => rfl
  | _ => simp [onStateChange, IsAck]

variable {b}

theorem not_breached_nil : ¬ b.Breached [] := by
  rintro ⟨before, j, after, h, -⟩
  simp at h

theorem breached_concat {samples : List (Time × Decimal)} {j : Time × Decimal} :
    b.Breached (samples ++ [j]) ↔ b.Breached samples ∨ b.BreachedAt samples j := by
  constructor
  · rintro ⟨before, k, after, h, hbreached⟩
    cases after using List.reverseRecOn with
    | nil =>
      obtain ⟨rfl, hk⟩ := List.append_inj' h rfl
      cases hk
      exact .inr hbreached
    | append_singleton after last _ =>
      rw [← List.cons_append, ← List.append_assoc] at h
      exact .inl ⟨before, k, after, (List.append_inj' h rfl).1, hbreached⟩
  · rintro (⟨before, k, after, rfl, hbreached⟩ | hbreached)
    · exact ⟨before, k, after ++ [j], by simp, hbreached⟩
    · exact ⟨samples, j, [], rfl, hbreached⟩

/-- The peak of the window exists, as the window holds the last sample. -/
theorem exists_peak (hwindow : 0 ≤ b.window) (samples : List (Time × Decimal))
    (j : Time × Decimal) :
    ∃ peak, pyMax ((recent Prod.fst (j.1 - b.window) (samples ++ [j])).map Prod.snd) = .ok peak ∧
      b.IsPeak samples j peak := by
  have hset : ∀ e, e ∈ (recent Prod.fst (j.1 - b.window) (samples ++ [j])).map Prod.snd ↔
      ∃ i ∈ samples ++ [j], j.1 - b.window ≤ i.1 ∧ i.2 = e := by
    intro e
    simp only [List.mem_map, mem_recent, and_assoc]
  have hlast : j.2 ∈ (recent Prod.fst (j.1 - b.window) (samples ++ [j])).map Prod.snd :=
    (hset _).mpr ⟨j, by simp, Int.sub_le_self _ hwindow, rfl⟩
  rw [pyMax]
  cases hmax : ((recent Prod.fst (j.1 - b.window) (samples ++ [j])).map Prod.snd).max? with
  | none =>
    rw [List.max?_eq_none_iff.mp hmax] at hlast
    cases hlast
  | some peak =>
    obtain ⟨hmem, hle⟩ := List.max?_eq_some_iff.mp hmax
    exact ⟨peak, rfl, (hset peak).mp hmem, fun e he => hle e ((hset e).mpr he)⟩

theorem breachedAt_iff {before : List (Time × Decimal)} {j : Time × Decimal} {peak : Decimal}
    (hrange : Time.InRange (j.1 - b.window)) (hpeak : b.IsPeak before j peak) :
    b.BreachedAt before j ↔ b.Exceeded peak j.2 := by
  constructor
  · rintro ⟨-, peak', hpeak', hloss⟩
    rw [hpeak.unique hpeak']
    exact hloss
  · exact fun hloss => ⟨hrange, peak, hpeak, hloss⟩

theorem failsAt_iff {before : List (Time × Decimal)} {j : Time × Decimal} {peak : Decimal}
    {exc : PyError} (hrange : Time.InRange (j.1 - b.window)) (hpeak : b.IsPeak before j peak) :
    b.FailsAt before j exc ↔ 0 < peak ∧ drawdown peak j.2 = .error exc := by
  constructor
  · rintro (hdate | ⟨-, peak', hpeak', hloss⟩)
    · rw [Time.checked, if_pos hrange] at hdate
      cases hdate
    · rw [hpeak.unique hpeak']
      exact hloss
  · exact fun hloss => .inr ⟨hrange, peak, hpeak, hloss⟩

theorem FailsAt.not_breachedAt {before : List (Time × Decimal)} {j : Time × Decimal}
    {exc : PyError} (h : b.FailsAt before j exc) : ¬ b.BreachedAt before j := by
  rintro ⟨hrange, peak, hpeak, -, lost, hlost, -⟩
  have hfails := ((failsAt_iff hrange hpeak).mp h).2
  rw [hlost] at hfails
  cases hfails

/-- Where nothing has to be rounded, the loss is measured as it is. -/
theorem exceeded_iff_of_exact {peak equity : Decimal} (hpos : 0 < peak)
    (hloss : Decimal.context (peak - equity) = .ok (peak - equity))
    (hlost : Decimal.context ((peak - equity) / peak) = .ok ((peak - equity) / peak)) :
    b.Exceeded peak equity ↔ b.threshold * peak < peak - equity := by
  have hdrawdown : drawdown peak equity = .ok ((peak - equity) / peak) := by
    rw [drawdown, hloss]
    exact hlost
  rw [Exceeded, hdrawdown]
  constructor
  · rintro ⟨-, lost, hlost, hexceeds⟩
    cases hlost
    exact (lt_div_iff₀ hpos).mp hexceeds
  · exact fun h => ⟨hpos, _, rfl, (lt_div_iff₀ hpos).mpr h⟩

theorem evaluate_of_latched {s : DrawdownState} (hs : s.latched = true) (context : RiskContext) :
    (b.evaluate str percent context s).1 = s ∧
      ∃ trigger, (b.evaluate str percent context s).2 = .ok (some trigger) := by
  rw [evaluate, if_pos hs]
  exact ⟨rfl, _, rfl⟩

section Judge

variable {peak equity : Decimal} {history : List (Time × Decimal)} {s : DrawdownState}
  (hpeak : pyMax (history.map Prod.snd) = .ok peak)

include hpeak

theorem judge_of_loss (hloss : b.Exceeded peak equity) :
    (b.judge str percent equity history s).1.latched = true ∧
      ∃ trigger, (b.judge str percent equity history s).2 = .ok (some trigger) := by
  obtain ⟨hpos, lost, hlost, hexceeds⟩ := hloss
  simp [judge, hpeak, not_le.mpr hpos, hlost, hexceeds]

theorem judge_of_failure {exc : PyError} (hpos : 0 < peak)
    (hloss : drawdown peak equity = .error exc) :
    b.judge str percent equity history s =
      ({ s with equityHistory := history }, .error exc) := by
  simp [judge, hpeak, not_le.mpr hpos, hloss]

theorem judge_of_no_loss (hloss : ¬ b.Exceeded peak equity)
    (hfine : ∀ exc, ¬ (0 < peak ∧ drawdown peak equity = .error exc)) :
    b.judge str percent equity history s = ({ s with equityHistory := history }, .ok none) := by
  by_cases hpos : 0 < peak
  · cases hlost : drawdown peak equity with
    | error exc => exact absurd ⟨hpos, hlost⟩ (hfine exc)
    | ok lost =>
      have hlow : ¬ b.threshold < lost := fun h => hloss ⟨hpos, lost, hlost, h⟩
      simp [judge, hpeak, not_le.mpr hpos, hlost, hlow]
  · simp [judge, hpeak, not_lt.mp hpos]

theorem judge_error {exc : PyError}
    (h : (b.judge str percent equity history s).2 = .error exc) :
    0 < peak ∧ drawdown peak equity = .error exc := by
  by_cases hloss : b.Exceeded peak equity
  · obtain ⟨-, trigger, htrigger⟩ := judge_of_loss str percent (s := s) hpeak hloss
    rw [htrigger] at h
    cases h
  · by_contra hother
    have hfine : ∀ exc', ¬ (0 < peak ∧ drawdown peak equity = .error exc') := by
      intro exc' hexc'
      rw [judge_of_failure str percent hpeak hexc'.1 hexc'.2] at h
      cases h
      exact hother hexc'
    rw [judge_of_no_loss str percent hpeak hloss hfine] at h
    cases h

end Judge

/-- It raises only where there is no date to look back to, or a loss is too large. -/
theorem evaluate_error (hwindow : 0 ≤ b.window) {context : RiskContext} {s : DrawdownState}
    {exc : PyError} (h : (b.evaluate str percent context s).2 = .error exc) :
    Time.checked (context.now - b.window) = .error exc ∨
      ∃ peak, 0 < peak ∧ drawdown peak context.balance.total = .error exc := by
  rw [evaluate] at h
  split at h
  · cases h
  · by_cases hrange : Time.InRange (context.now - b.window)
    · obtain ⟨peak, hpeak, -⟩ := exists_peak hwindow s.equityHistory (sample context)
      simp only [Time.checked, if_pos hrange] at h
      exact .inr ⟨peak, judge_error str percent hpeak h⟩
    · simp only [Time.checked, if_neg hrange] at h
      cases h
      rw [Time.checked, if_neg hrange]
      exact .inl rfl

/-- The state after what has happened: latched after a breach, and otherwise with all the
equities that later windows can hold. -/
structure Follows (b : DrawdownBreaker) (ops : List BreakerOp) (s : DrawdownState) : Prop where
  latched : s.latched = true ↔ b.Breached (sinceAck ops)
  history : s.latched = false → ∀ now, (∀ t ∈ askedAt ops, t ≤ now) →
    recent Prod.fst (now - b.window) s.equityHistory =
      recent Prod.fst (now - b.window) (sinceAck ops)

variable {ops : List BreakerOp} {s : DrawdownState}

/-- A latched breaker only has to have been right to latch. -/
theorem Follows.of_latched (hset : s.latched = true) (h : b.Breached (sinceAck ops)) :
    b.Follows ops s where
  latched := iff_of_true hset h
  history hopen := by
    rw [hset] at hopen
    cases hopen

theorem Follows.publish (hs : b.Follows ops s) (event : Event) :
    b.Follows (ops ++ [.publish event]) (onStateChange event s) := by
  rw [onStateChange_eq]
  by_cases hack : IsAck (.publish event)
  · rw [if_pos hack]
    constructor
    · rw [sinceAck_publish, if_pos hack]
      exact iff_of_false Bool.false_ne_true not_breached_nil
    · intro _ now _
      rw [sinceAck_publish, if_pos hack]
  · rw [if_neg hack]
    constructor
    · rw [sinceAck_publish, if_neg hack]
      exact hs.latched
    · intro hopen now hnow
      rw [askedAt_publish] at hnow
      rw [sinceAck_publish, if_neg hack]
      exact hs.history hopen now hnow

/-- Unless latched it judges as if it had kept all equities. -/
theorem Follows.evaluate_open {context : RiskContext} (hs : b.Follows ops s)
    (hopen : s.latched = false) (hnow : ∀ t ∈ askedAt ops, t ≤ context.now)
    (hrange : Time.InRange (context.now - b.window)) :
    b.evaluate str percent context s = b.judge str percent context.balance.total
      (recent Prod.fst ((sample context).1 - b.window) (sinceAck ops ++ [sample context])) s := by
  have hsame : recent Prod.fst ((sample context).1 - b.window)
      (s.equityHistory ++ [sample context]) =
        recent Prod.fst ((sample context).1 - b.window) (sinceAck ops ++ [sample context]) := by
    rw [recent_append, recent_append]
    exact congrArg (· ++ _) (hs.history hopen context.now hnow)
  rw [← hsame, DrawdownBreaker.evaluate, hopen, if_neg Bool.false_ne_true, Time.checked,
    if_pos hrange]
  rfl

/-- Without a date to look back to, it raises, and has kept the equity. -/
theorem evaluate_of_no_date {context : RiskContext} (hopen : s.latched = false)
    (hrange : ¬ Time.InRange (context.now - b.window)) :
    b.evaluate str percent context s =
      ({ s with equityHistory := s.equityHistory ++ [sample context] },
        .error ⟨"OverflowError", "date value out of range"⟩) := by
  rw [DrawdownBreaker.evaluate, hopen, if_neg Bool.false_ne_true, Time.checked, if_neg hrange]
  rfl

/-- A question that is no breach leaves the breaker open, with an equity more to show. -/
theorem Follows.open {context : RiskContext} {history : List (Time × Decimal)}
    (hs : b.Follows ops s) (hopen : s.latched = false)
    (hhistory : ∀ now, context.now ≤ now → (∀ t ∈ askedAt ops, t ≤ now) →
      recent Prod.fst (now - b.window) history =
        recent Prod.fst (now - b.window) (sinceAck ops ++ [sample context]))
    (hbreached : ¬ b.BreachedAt (sinceAck ops) (sample context)) :
    b.Follows (ops ++ [.evaluate context]) { s with equityHistory := history } where
  latched := by
    have hclean : ¬ b.Breached (sinceAck ops) := by
      rw [← hs.latched, hopen]
      exact Bool.false_ne_true
    rw [sinceAck_evaluate, breached_concat, hopen]
    exact iff_of_false Bool.false_ne_true (not_or.mpr ⟨hclean, hbreached⟩)
  history _ now hlater := by
    rw [askedAt_evaluate] at hlater
    rw [sinceAck_evaluate]
    exact hhistory now (hlater _ (List.mem_append_right _ (List.mem_singleton.mpr rfl)))
      fun t ht => hlater t (List.mem_append_left _ ht)

/-- What a question gets as its answer: a trigger if the breaker is latched afterwards, and
otherwise nothing or what goes wrong. -/
inductive Answers (b : DrawdownBreaker) (before : List (Time × Decimal)) (j : Time × Decimal)
    (latched : Bool) : Except PyError (Option Trigger) → Prop where
  | trigger (trigger : Trigger) (h : latched = true) : Answers b before j latched (.ok (some trigger))
  | none (h : latched = false) (hfine : ∀ exc, ¬ b.FailsAt before j exc) :
      Answers b before j latched (.ok none)
  | error (exc : PyError) (h : latched = false) (hfails : ∀ exc', b.FailsAt before j exc' ↔ exc' = exc) :
      Answers b before j latched (.error exc)

namespace Answers

variable {before : List (Time × Decimal)} {j : Time × Decimal} {latched : Bool}
  {answer : Except PyError (Option Trigger)} (h : b.Answers before j latched answer)

include h

theorem trips_iff : (∃ trigger, answer = .ok (some trigger)) ↔ latched = true := by
  cases h with
  | trigger trigger h => exact iff_of_true ⟨trigger, rfl⟩ h
  | none h hfine =>
    refine iff_of_false ?_ (by simp [h])
    rintro ⟨trigger, htrigger⟩
    cases htrigger
  | error exc h hfails =>
    refine iff_of_false ?_ (by simp [h])
    rintro ⟨trigger, htrigger⟩
    cases htrigger

theorem raises_iff (exc : PyError) :
    answer = .error exc ↔ latched = false ∧ b.FailsAt before j exc := by
  cases h with
  | trigger trigger h => exact iff_of_false (by simp) (by simp [h])
  | none h hfine => exact iff_of_false (by simp) fun hfails => hfine exc hfails.2
  | error exc' h hfails =>
    rw [hfails, Except.error.injEq]
    exact ⟨fun heq => ⟨h, heq.symm⟩, fun heq => heq.2.symm⟩

end Answers

/-- A question keeps the state in step. -/
theorem Follows.evaluate {context : RiskContext} (hs : b.Follows ops s) (hwindow : 0 ≤ b.window)
    (hnow : ∀ t ∈ askedAt ops, t ≤ context.now) :
    b.Follows (ops ++ [.evaluate context]) (b.evaluate str percent context s).1 ∧
      b.Answers (sinceAck ops) (sample context) (b.evaluate str percent context s).1.latched
        (b.evaluate str percent context s).2 := by
  cases hlatched : s.latched with
  | true =>
    obtain ⟨hstate, trigger, htrigger⟩ := evaluate_of_latched (b := b) str percent hlatched context
    rw [hstate, htrigger]
    refine ⟨.of_latched hlatched ?_, .trigger trigger hlatched⟩
    rw [sinceAck_evaluate, breached_concat]
    exact .inl (hs.latched.mp hlatched)
  | false =>
    by_cases hrange : Time.InRange (context.now - b.window)
    · obtain ⟨peak, hpeak, hgreatest⟩ := exists_peak hwindow (sinceAck ops) (sample context)
      have hbreached := breachedAt_iff (j := sample context) hrange hgreatest
      have hfails : ∀ exc, b.FailsAt (sinceAck ops) (sample context) exc ↔ 0 < peak ∧
          drawdown peak context.balance.total = .error exc := fun exc => failsAt_iff hrange hgreatest
      have hpruned : ∀ now, context.now ≤ now → (∀ t ∈ askedAt ops, t ≤ now) →
          recent Prod.fst (now - b.window) (recent Prod.fst ((sample context).1 - b.window)
            (sinceAck ops ++ [sample context])) =
              recent Prod.fst (now - b.window) (sinceAck ops ++ [sample context]) :=
        fun now hlater _ => recent_recent (Int.sub_le_sub_right hlater _) _
      rw [hs.evaluate_open str percent hlatched hnow hrange]
      by_cases hloss : b.Exceeded peak context.balance.total
      · obtain ⟨hset, trigger, htrigger⟩ := judge_of_loss str percent (s := s) hpeak hloss
        rw [htrigger]
        refine ⟨.of_latched hset ?_, .trigger trigger hset⟩
        rw [sinceAck_evaluate, breached_concat]
        exact .inr (hbreached.mpr hloss)
      · have hfollows := hs.open hlatched hpruned (mt hbreached.mp hloss)
        by_cases hfine : ∀ exc, ¬ (0 < peak ∧ drawdown peak context.balance.total = .error exc)
        · rw [judge_of_no_loss str percent hpeak hloss hfine]
          exact ⟨hfollows, .none hlatched fun exc => mt (hfails exc).mp (hfine exc)⟩
        · push Not at hfine
          obtain ⟨exc, hpos, hexc⟩ := hfine
          rw [judge_of_failure str percent hpeak hpos hexc]
          refine ⟨hfollows, .error exc hlatched fun exc' => ?_⟩
          rw [hfails, hexc, Except.error.injEq]
          exact ⟨fun h => h.2.symm, fun h => ⟨hpos, h.symm⟩⟩
    · have hdate : ∀ exc, b.FailsAt (sinceAck ops) (sample context) exc ↔
          exc = ⟨"OverflowError", "date value out of range"⟩ := by
        intro exc
        rw [FailsAt, sample, Time.checked, if_neg hrange, Except.error.injEq]
        simp only [hrange, false_and, or_false]
        exact eq_comm
      rw [evaluate_of_no_date str percent hlatched hrange]
      refine ⟨hs.open hlatched (fun now hlater hafter => ?_) fun h => hrange h.1,
        .error _ hlatched hdate⟩
      rw [recent_append, recent_append, hs.history hlatched now hafter]

theorem follows_after (hwindow : 0 ≤ b.window) (hops : Chronological ops) :
    b.Follows ops ((b.stateful str percent).after ops) := by
  induction ops using List.reverseRecOn with
  | nil =>
    constructor
    · exact iff_of_false Bool.false_ne_true not_breached_nil
    · intro _ _ _
      rfl
  | append_singleton ops op ih =>
    rw [StatefulBreaker.after_concat]
    cases op with
    | publish event => exact (ih (chronological_publish.mp hops)).publish event
    | evaluate context =>
      obtain ⟨hops, hnow⟩ := chronological_evaluate.mp hops
      exact ((ih hops).evaluate str percent hwindow hnow).1

/-- Only an acknowledgement clears the latch. -/
theorem latched_of_no_ack (hs : s.latched = true) (more : List BreakerOp)
    (hmore : ∀ op ∈ more, ¬ IsAck op) :
    (more.foldl (b.stateful str percent).step s).latched = true := by
  induction more generalizing s with
  | nil => exact hs
  | cons op more ih =>
    refine ih ?_ fun op hop => hmore op (List.mem_cons_of_mem _ hop)
    cases op with
    | publish event =>
      have hack := hmore _ List.mem_cons_self
      change (onStateChange event s).latched = true
      rw [onStateChange_eq, if_neg hack]
      exact hs
    | evaluate context =>
      change (b.evaluate str percent context s).1.latched = true
      rw [(evaluate_of_latched str percent hs context).1]
      exact hs

variable (b)

/-- It trips exactly after a breach since the last acknowledgement, and nothing but an
acknowledgement ends that. Until then it raises exactly where something goes wrong. -/
theorem trips_iff_breached (hwindow : 0 ≤ b.window) {context : RiskContext}
    (hops : Chronological (ops ++ [.evaluate context])) :
    ((b.stateful str percent).Trips ops context ↔
        b.Breached (sinceAck (ops ++ [.evaluate context]))) ∧
      (∀ exc, (b.stateful str percent).answer ops context = .error exc ↔
        ¬ b.Breached (sinceAck ops) ∧ b.FailsAt (sinceAck ops) (sample context) exc) ∧
      ((b.stateful str percent).Trips ops context →
        ∀ more, (∀ op ∈ more, ¬ IsAck op) → ∀ later,
          (b.stateful str percent).Trips (ops ++ .evaluate context :: more) later) := by
  obtain ⟨hbefore, hnow⟩ := chronological_evaluate.mp hops
  obtain ⟨hafter, hanswer⟩ :=
    (follows_after str percent hwindow hbefore).evaluate str percent hwindow hnow
  have hlatched : (b.stateful str percent).Trips ops context ↔
      (b.evaluate str percent context ((b.stateful str percent).after ops)).1.latched = true :=
    hanswer.trips_iff
  refine ⟨hlatched.trans hafter.latched, fun exc => (hanswer.raises_iff exc).trans ?_, ?_⟩
  · rw [← Bool.not_eq_true, hafter.latched, sinceAck_evaluate, breached_concat, not_or, and_assoc]
    exact and_congr_right fun _ => and_iff_right_of_imp FailsAt.not_breachedAt
  · intro htrips more hmore later
    have hstill : ((b.stateful str percent).after (ops ++ .evaluate context :: more)).latched =
        true := by
      rw [StatefulBreaker.after, List.foldl_append]
      exact latched_of_no_ack str percent (hlatched.mp htrips) more hmore
    exact (evaluate_of_latched str percent hstill later).2

def fivePercent : DrawdownBreaker where
  threshold := 1 / 20
  window := 10
  valid := by norm_num

/-- A tenth of the peak is lost, and the recovery does not help. -/
theorem trips_iff_breached_recovered :
    (fivePercent.stateful (fun _ => "") (fun _ => "")).Trips
      [.evaluate (contextAt 0 1000), .evaluate (contextAt 1 900)] (contextAt 2 1200) := by
  have hops : Chronological
      ([.evaluate (contextAt 0 1000), .evaluate (contextAt 1 900)] ++
        [.evaluate (contextAt 2 1200)]) := by
    unfold Chronological
    decide
  refine (fivePercent.trips_iff_breached _ _ (by decide) hops).1.mpr ?_
  refine ⟨[(0, 1000)], (1, 900), [(2, 1200)], rfl, by decide, 1000, ⟨⟨(0, 1000), ?_, ?_, rfl⟩, ?_⟩,
    (exceeded_iff_of_exact (by norm_num) (by decide +kernel) (by decide +kernel)).mpr ?_⟩
  · simp
  · decide
  · rintro e ⟨i, hi, -, rfl⟩
    obtain rfl | rfl : i = (0, 1000) ∨ i = (1, 900) := by simpa using hi
    · exact le_refl _
    · norm_num
  · change (1 / 20 : Decimal) * 1000 < 1000 - 900
    norm_num

/-- The longest window that there is. -/
def everyday : DrawdownBreaker where
  threshold := 1 / 20
  window := (999999999 * 86400 + 86399) * 1000000 + 999999
  valid := by norm_num

def tenPercent : DrawdownBreaker where
  threshold := 1 / 10
  window := 10
  valid := by norm_num

/-- A window can reach back to before all dates. And a loss of a little more than a tenth of the
peak is rounded to a tenth. -/
theorem raises_and_misses :
    (everyday.stateful (fun _ => "") (fun _ => "")).answer [] (contextAt 0 1000) =
        .error ⟨"OverflowError", "date value out of range"⟩ ∧
      let equity : Decimal := 26999999999999999999999999999 / 10 ^ 27
      tenPercent.threshold * 30 < 30 - equity ∧
        (tenPercent.stateful (fun _ => "") (fun _ => "")).answer [.evaluate (contextAt 0 30)]
          (contextAt 1 equity) = .ok none := by
  refine ⟨by decide +kernel, by decide +kernel, by decide +kernel⟩

end DrawdownBreaker

end Trading
