import Trading.RiskManager

/-!
# Breakers that remember

A stateful breaker follows events on the bus and is asked, again and again, by the checks
before a trade and by the ticks. It sees the published events and the questions in one order.
-/
namespace Trading

open Async

/-- What reaches a breaker. -/
inductive BreakerOp where
  | publish (event : Event)
  | evaluate (context : RiskContext)

/-- Its state at first, after an event, and with the answer to a question. -/
structure StatefulBreaker (S : Type) where
  initial : S
  onEvent : Event → S → S
  evaluate : RiskContext → S → S × Except PyError (Option Trigger)

def BreakerOp.event? : BreakerOp → Option Event
  | .publish event => some event
  | .evaluate _ => none

def BreakerOp.context? : BreakerOp → Option RiskContext
  | .publish _ => none
  | .evaluate context => some context

/-- The answer to a question is a trigger. -/
def isTrigger : Except PyError (Option Trigger) → Bool
  | .ok (some _) => true
  | _ => false

theorem isTrigger_iff {answer : Except PyError (Option Trigger)} :
    isTrigger answer ↔ ∃ trigger, answer = .ok (some trigger) := by
  rcases answer with e | _ | trigger
  all_goals simp [isTrigger]

/-- A context in which only the time and the equity matter. -/
def contextAt (now : Time) (equity : Decimal := 0) : RiskContext :=
  ⟨now, [], ⟨"USDT", equity, equity, 0, now⟩, [], .empty⟩

/-- The events published, and the times at which the breaker was asked. -/
def publishedOf (ops : List BreakerOp) : List Event := ops.filterMap BreakerOp.event?

def askedAt (ops : List BreakerOp) : List Time :=
  (ops.filterMap BreakerOp.context?).map RiskContext.now

/-- Later questions do not have earlier times. -/
def Chronological (ops : List BreakerOp) : Prop := (askedAt ops).Pairwise (· ≤ ·)

section Ops

variable {ops : List BreakerOp} {event : Event} {context : RiskContext}

@[simp] theorem publishedOf_publish :
    publishedOf (ops ++ [.publish event]) = publishedOf ops ++ [event] := by
  simp [publishedOf, BreakerOp.event?]

@[simp] theorem publishedOf_evaluate :
    publishedOf (ops ++ [.evaluate context]) = publishedOf ops := by
  simp [publishedOf, BreakerOp.event?]

@[simp] theorem askedAt_publish : askedAt (ops ++ [.publish event]) = askedAt ops := by
  simp [askedAt, BreakerOp.context?]

@[simp] theorem askedAt_evaluate :
    askedAt (ops ++ [.evaluate context]) = askedAt ops ++ [context.now] := by
  simp [askedAt, BreakerOp.context?]

@[simp] theorem chronological_publish :
    Chronological (ops ++ [.publish event]) ↔ Chronological ops := by
  rw [Chronological, askedAt_publish, Chronological]

@[simp] theorem chronological_evaluate :
    Chronological (ops ++ [.evaluate context]) ↔
      Chronological ops ∧ ∀ t ∈ askedAt ops, t ≤ context.now := by
  simp [Chronological, List.pairwise_append]

/-- The times that go with what reaches the breaker: of errors and of questions. -/
def BreakerOp.moment? : BreakerOp → Option Time
  | .publish (.errorOccurred error) => some error.timestamp
  | .publish _ => none
  | .evaluate context => some context.now

/-- Errors carry the time at which they are published, and time does not run backwards. -/
def Timely (ops : List BreakerOp) : Prop :=
  (ops.filterMap BreakerOp.moment?).Pairwise (· ≤ ·)

theorem timely_concat {op : BreakerOp} :
    Timely (ops ++ [op]) ↔ Timely ops ∧
      ∀ m ∈ ops.filterMap BreakerOp.moment?, ∀ now, op.moment? = some now → m ≤ now := by
  cases h : op.moment? with
  | none => simp [Timely, h]
  | some now => simp [Timely, h, List.pairwise_append]

theorem moments_evaluate_le {now : Time} :
    (∀ m ∈ (ops ++ [BreakerOp.evaluate context]).filterMap BreakerOp.moment?, m ≤ now) ↔
      (∀ m ∈ ops.filterMap BreakerOp.moment?, m ≤ now) ∧ context.now ≤ now := by
  rw [List.filterMap_append, List.forall_mem_append]
  exact and_congr_right' List.forall_mem_singleton

end Ops

namespace StatefulBreaker

variable {S : Type} (breaker : StatefulBreaker S)

def step (s : S) : BreakerOp → S
  | .publish event => breaker.onEvent event s
  | .evaluate context => (breaker.evaluate context s).1

def after (ops : List BreakerOp) : S := ops.foldl breaker.step breaker.initial

/-- What a question gets as its answer after `ops`. -/
def answer (ops : List BreakerOp) (context : RiskContext) : Except PyError (Option Trigger) :=
  (breaker.evaluate context (breaker.after ops)).2

/-- The answer is a trigger. -/
def Trips (ops : List BreakerOp) (context : RiskContext) : Prop :=
  ∃ trigger, breaker.answer ops context = .ok (some trigger)

@[simp] theorem after_nil : breaker.after [] = breaker.initial := rfl

@[simp] theorem after_concat (ops : List BreakerOp) (op : BreakerOp) :
    breaker.after (ops ++ [op]) = breaker.step (breaker.after ops) op := by
  simp [after]

section Wired

variable {ε : Type} [Part S ε]

/-- As the risk manager asks it. -/
def circuitBreaker : CircuitBreaker ε where
  evaluate context e :=
    let answer := breaker.evaluate context (Part.view e)
    (Part.put answer.1 e, answer.2)

/-- As the bus calls it, with the events that `accepts` lets through. -/
def subscription (accepts : Event → Bool) : Subscription ε :=
  .external accepts fun event => (Co.modify (breaker.onEvent event) : Coro S Unit).lift

end Wired

end StatefulBreaker

end Trading
