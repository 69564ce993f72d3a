import Trading.Supervisor

/-!
# The in-memory alert router

Alerts go to the registered channels one after the other. A channel that fails to send
does not keep an alert from the next one; one that fails to start or to stop does.
-/
namespace Trading

open Async

/-- What is registered: where alerts of some levels are sent. -/
structure AlertChannel (ε : Type) where
  lifecycle : Lifecycle ε
  send : Alert → Coro ε Unit

structure InMemoryAlertRouter (ε : Type) where
  registered : List (AlertChannel ε × List AlertLevel)

namespace InMemoryAlertRouter

variable {ε : Type}

def register (router : InMemoryAlertRouter ε) (channel : AlertChannel ε)
    (levels : List AlertLevel) : InMemoryAlertRouter ε :=
  ⟨router.registered ++ [(channel, levels)]⟩

variable (router : InMemoryAlertRouter ε)

def alert (a : Alert) : Coro ε Unit :=
  Co.forEach router.registered fun entry =>
    if a.level ∈ entry.2 then (entry.1.send a).suppress else pure ()

def start : Coro ε Unit := Co.forEach router.registered fun entry => entry.1.lifecycle.start

def stop : Coro ε Unit := Co.forEach router.registered fun entry => entry.1.lifecycle.stop

def lifecycle : Lifecycle ε := ⟨router.start, router.stop⟩

end InMemoryAlertRouter

end Trading
