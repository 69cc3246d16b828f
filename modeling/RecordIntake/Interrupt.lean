/-!
An interrupt signal and those who wait for it, step by step.  A request is sticky: it stays until it
is taken, and whoever waits finds it either when it looks or because it is notified.  A notification
reaches everyone who had begun to listen before it, and nobody else; so a waiter listens first and
looks afterwards.

A call consists of steps, and the steps of different calls may come in any order.
-/
namespace RecordIntake

structure InterruptSignal where
  requested : Bool
  /-- How many times those who listened were notified. -/
  notifications : Nat
  deriving DecidableEq, Repr

namespace InterruptSignal

def quiet : InterruptSignal := ⟨false, 0⟩

/-- The first step of a request. -/
def store (s : InterruptSignal) : InterruptSignal := { s with requested := true }

/-- The second step of a request. -/
def notify (s : InterruptSignal) : InterruptSignal :=
  { s with notifications := s.notifications + 1 }

def trigger (s : InterruptSignal) : InterruptSignal := s.store.notify

/-- Consumes a pending request, and tells whether there was one. -/
def take (s : InterruptSignal) : InterruptSignal × Bool :=
  ({ s with requested := false }, s.requested)

end InterruptSignal

/-- How far a waiter has come.  From when it listens it keeps the number of notifications that it
knows of. -/
inductive Waiter where
  | begun
  | listening (known : Nat)
  /-- It looked, and there was no request. -/
  | parking (known : Nat)
  | parked (known : Nat)
  | returned
  deriving DecidableEq, Repr

namespace Waiter

/-- Whether a waiter that is parked has been notified. -/
def isNotified (known : Nat) (s : InterruptSignal) : Bool := known < s.notifications

/-- The next step of a waiter.  One that is parked stays so until it is notified, and then it starts
over. -/
def step (s : InterruptSignal) : Waiter → Waiter
  | begun => .listening s.notifications
  | listening known => if s.requested then .returned else .parking known
  | parking known => if isNotified known s then .begun else .parked known
  | parked known => if isNotified known s then .begun else .parked known
  | returned => .returned

/-- All steps of a waiter until it has returned or is parked, when nothing else happens between
them. -/
def run (s : InterruptSignal) (w : Waiter) : Waiter :=
  step s (step s (step s (step s w)))

end Waiter
end RecordIntake
