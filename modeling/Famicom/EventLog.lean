/-!
The machine's diary: a bounded list of messages, newest first, of which the oldest give way.
-/

namespace Famicom

/-- The remembered messages, newest first. -/
structure EventLog where
  newest : List String := []
  deriving DecidableEq, Inhabited

namespace EventLog

/-- How many messages the log remembers. -/
def capacity : Nat := 512

/-- Appends a message. -/
def push (log : EventLog) (message : String) : EventLog :=
  ⟨(message :: log.newest).take capacity⟩

/-- Appends messages in order. -/
def pushAll (log : EventLog) (messages : List String) : EventLog := messages.foldl push log

/-- The newest messages, newest first. -/
def recent (log : EventLog) (limit : Nat) : List String := log.newest.take limit

theorem length_push_le (log : EventLog) (message : String) :
    (log.push message).newest.length ≤ capacity := by
  simp only [push, List.length_take]
  omega

end EventLog

end Famicom
