/-!
# Where a participant, or a whole action, stands

Both kinds of status have a name each, and `ofName?` reads it back:
`ParticipantStatus.ofName?_name`, `ActionStatus.ofName?_name`.
-/

set_option autoImplicit false

namespace Saga

/-- Where a participant stands in its part of an action. -/
inductive ParticipantStatus where
  | active
  | completing
  | compensating
  | completed
  | compensated
  | failedToComplete
  | failedToCancel
  deriving DecidableEq, Repr

namespace ParticipantStatus

def all : List ParticipantStatus :=
  [active, completing, compensating, completed, compensated, failedToComplete, failedToCancel]

/-- Still working on an earlier request. -/
def inProgress : ParticipantStatus → Bool
  | completing | compensating => true
  | _ => false

def name : ParticipantStatus → String
  | active => "Active"
  | completing => "Completing"
  | compensating => "Compensating"
  | completed => "Completed"
  | compensated => "Compensated"
  | failedToComplete => "FailedToComplete"
  | failedToCancel => "FailedToCancel"

def ofName? (s : String) : Option ParticipantStatus := all.find? fun status => status.name = s

theorem ofName?_name (status : ParticipantStatus) : ofName? status.name = some status := by
  cases status <;> decide

end ParticipantStatus

/-- Where a whole action stands. -/
inductive ActionStatus where
  | active
  | closing
  | closed
  | cancelling
  | cancelled
  | failedToClose
  | failedToCancel
  deriving DecidableEq, Repr

namespace ActionStatus

def all : List ActionStatus :=
  [active, closing, closed, cancelling, cancelled, failedToClose, failedToCancel]

/-- Nothing more happens to the action. -/
def terminal : ActionStatus → Bool
  | closed | cancelled | failedToClose | failedToCancel => true
  | _ => false

def name : ActionStatus → String
  | active => "Active"
  | closing => "Closing"
  | closed => "Closed"
  | cancelling => "Cancelling"
  | cancelled => "Cancelled"
  | failedToClose => "FailedToClose"
  | failedToCancel => "FailedToCancel"

def ofName? (s : String) : Option ActionStatus := all.find? fun status => status.name = s

theorem ofName?_name (status : ActionStatus) : ofName? status.name = some status := by
  cases status <;> decide

end ActionStatus

end Saga
