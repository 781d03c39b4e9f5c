import Saga.Termination

/-!
# What a participant callback hands back

A callback answers at once (`unit`, `status`, `response`), with an error of its own (`failed`,
`protocol`), or with a `Deferred` whose answer comes later. A deferred answer is a value:
`awaiting` a completion handle, known by its ticket; `ready` with the answer that arrived; or
`lost`, when what was to produce it died. Using a handle puts the answer in the place of its
ticket (`fulfil`).
-/

set_option autoImplicit false

namespace Saga

/-- The number of a completion handle. -/
abbrev Ticket := Nat

mutual
/-- What a callback hands back. -/
inductive Answer where
  /-- Finished without a value. -/
  | unit
  /-- An explicit status. -/
  | status (status : ParticipantStatus)
  /-- A raw response, passed on as it is. -/
  | response (response : Response)
  /-- The answer comes later. -/
  | deferred (deferred : Deferred)
  /-- An unexpected failure inside the participant. -/
  | failed (reason : String)
  /-- An error for which the participant chose the response itself. -/
  | protocol (response : Response)
/-- An answer that becomes known later. -/
inductive Deferred where
  | awaiting (ticket : Ticket)
  | ready (answer : Answer)
  | lost
end

deriving instance DecidableEq for Answer, Deferred
deriving instance Repr for Answer, Deferred

mutual
/-- The answer after the handle `t` was used to hand in `a`. -/
def Answer.fulfil (t : Ticket) (a : Answer) : Answer → Answer
  | .unit => .unit
  | .status s => .status s
  | .response r => .response r
  | .deferred d => .deferred (Deferred.fulfil t a d)
  | .failed reason => .failed reason
  | .protocol r => .protocol r
/-- The deferred answer after the handle `t` was used to hand in `a`. -/
def Deferred.fulfil (t : Ticket) (a : Answer) : Deferred → Deferred
  | .awaiting u => if u = t then .ready a else .awaiting u
  | .ready b => .ready (Answer.fulfil t a b)
  | .lost => .lost
end

mutual
/-- Would the handle `t` reach this answer? -/
def Answer.awaits (t : Ticket) : Answer → Bool
  | .unit => false
  | .status _ => false
  | .response _ => false
  | .deferred d => d.awaits t
  | .failed _ => false
  | .protocol _ => false
/-- Would the handle `t` reach this deferred answer? -/
def Deferred.awaits (t : Ticket) : Deferred → Bool
  | .awaiting u => u == t
  | .ready b => b.awaits t
  | .lost => false
end

namespace Answer

/-- What a handle that is dropped unused leaves behind. -/
def abandoned : Answer := failed "deferred result abandoned"

/-- The name of the kind of answer, as it stands in complaints about declared types. -/
def kind : Answer → String
  | unit => "unit"
  | status _ => "status"
  | response _ => "response"
  | deferred _ => "deferred"
  | failed _ => "failed"
  | protocol _ => "protocol"

/-- A value, given without an error, that says that work goes on. -/
def inProgress : Answer → Bool
  | status s => s.inProgress
  | response r => r.isAccepted
  | _ => false

/-- The text of an error among the answers. -/
def errorText? : Answer → Option String
  | failed reason => some s!"participant failed: {reason}"
  | protocol r => some s!"participant responded with status {r.status}"
  | _ => none

end Answer

/-- How a callback ends: it answers, or it breaks down with a text. -/
inductive Outcome where
  | answered (answer : Answer)
  | brokeDown (text : String)
  deriving DecidableEq, Repr

end Saga
