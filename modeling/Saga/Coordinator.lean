import Saga.Links
import Saga.Table

/-!
# The coordinator's records

Every action the coordinator knows, with the participants that enlisted. Ending an action is two
steps: `beginEnding` takes it out of `active` and hands out what ending it needs, and `record`
notes how it ended. Other requests may come between the two.
-/

set_option autoImplicit false

namespace Saga

/-- What is recorded of one action. -/
structure ActionRecord where
  id : ActionId
  clientId : String
  status : ActionStatus
  parent : Option ActionId
  isTopLevel : Bool
  startedAt : Nat
  finishedAt : Option Nat
  deriving DecidableEq, Repr

/-- The record of an action whose ending came to `status`, at the time `now`. -/
def ActionRecord.settle (r : ActionRecord) (now : Nat) (status : ActionStatus) : ActionRecord :=
  { r with
    status := status
    finishedAt := if status.terminal then some now else r.finishedAt }

/-- A participant's part in an action. -/
structure Enlistment where
  links : Links
  recoveryUrl : String
  data : Option String
  deriving DecidableEq, Repr

/-- An action with those who enlisted in it, in the order in which they came. -/
structure ActionEntry where
  record : ActionRecord
  enlisted : List Enlistment
  deriving DecidableEq, Repr

/-- The two ways to end an action. -/
inductive Ending where
  | close
  | cancel
  deriving DecidableEq, Repr

namespace Ending

/-- The operation that the participants are asked for. -/
def operation : Ending → Operation
  | close => .complete
  | cancel => .compensate

/-- The status while participants are still working. -/
def transient : Ending → ActionStatus
  | close => .closing
  | cancel => .cancelling

/-- The status when all went well. -/
def done : Ending → ActionStatus
  | close => .closed
  | cancel => .cancelled

/-- The status when some participant failed. -/
def failed : Ending → ActionStatus
  | close => .failedToClose
  | cancel => .failedToCancel

end Ending

/-- The records of a coordinator, and how often it was asked for what. -/
structure Coordinator where
  baseUrl : String
  actions : Table ActionId ActionEntry
  /-- The number of the next action. -/
  nextNumber : Nat
  /-- Starts are refused. -/
  failStart : Bool
  /-- Joins are refused. -/
  failJoin : Bool
  starts : Nat
  joins : Nat
  closes : Nat
  cancels : Nat

namespace Coordinator

/-- A coordinator that knows no action. -/
def ofBaseUrl (baseUrl : String) : Coordinator := ⟨baseUrl, ∅, 1, false, false, 0, 0, 0, 0⟩

instance : Inhabited Coordinator := ⟨ofBaseUrl ""⟩

def get? (c : Coordinator) (id : ActionId) : Option ActionRecord :=
  (c.actions.get? id).map ActionEntry.record

/-- Those who enlisted in an action. -/
def enlisted (c : Coordinator) (id : ActionId) : List Enlistment :=
  match c.actions.get? id with
  | some entry => entry.enlisted
  | none => []

/-- The id of the action with a number. -/
def idOf (c : Coordinator) (number : Nat) : ActionId :=
  ⟨s!"{c.baseUrl}/lra-coordinator/{number}"⟩

def start (c : Coordinator) (now : Nat) (clientId : String) (parent : Option ActionId) :
    Except RequestError ActionId × Coordinator :=
  let c := { c with starts := c.starts + 1 }
  if c.failStart then (.error (.unavailable "start disabled"), c)
  else
    match parent.filter fun p => !c.actions.contains p with
    | some p => (.error (.notFound p), c)
    | none =>
      let id := c.idOf c.nextNumber
      let record : ActionRecord := ⟨id, clientId, .active, parent, parent.isNone, now, none⟩
      (.ok id, { c with
        actions := c.actions.insert id ⟨record, []⟩
        nextNumber := c.nextNumber + 1 })

/-- The recovery URL of the join with a number. -/
def recoveryUrl (stem : String) (number : Nat) : String :=
  String.ofList (Text.dropEndWhile (· == '/') stem.toList) ++ s!"/recovery/{number}"

/-- Enlists a participant by the links in a header value; gives its recovery URL. -/
def join (c : Coordinator) (id : ActionId) (header : String) (recovery data : Option String) :
    Except RequestError String × Coordinator :=
  let c := { c with joins := c.joins + 1 }
  if c.failJoin then (.error (.unavailable "join disabled"), c)
  else
    match c.actions.get? id with
    | none => (.error (.notFound id), c)
    | some entry =>
      if entry.record.status ≠ .active then (.error (.rejected id .tooLate), c)
      else
        let links := Links.ofHeader header
        if links.bound.isEmpty then (.error (.rejected id .noLinks), c)
        else
          let url := recoveryUrl (recovery.getD c.baseUrl) c.joins
          (.ok url, { c with
            actions := c.actions.insert id
              { entry with enlisted := entry.enlisted ++ [⟨links, url, data⟩] } })

/-- What ending an action needs. -/
structure EndingPlan where
  parent : Option ActionId
  enlisted : List Enlistment
  deriving DecidableEq, Repr

/-- Takes an active action into the transient status of an ending. -/
def beginEnding (c : Coordinator) (ending : Ending) (id : ActionId) :
    Except RequestError EndingPlan × Coordinator :=
  match c.actions.get? id with
  | none => (.error (.notFound id), c)
  | some entry =>
    if entry.record.status ≠ .active then
      (.error (.rejected id (.notActive entry.record.status)), c)
    else
      (.ok ⟨entry.record.parent, entry.enlisted⟩, { c with
        actions := c.actions.insert id
          { entry with record := { entry.record with status := ending.transient } } })

/-- Records how an ending went, at the time `now`. -/
def record (c : Coordinator) (now : Nat) (id : ActionId) (status : ActionStatus) : Coordinator :=
  match c.actions.get? id with
  | none => c
  | some entry =>
    { c with
      actions := c.actions.insert id { entry with record := entry.record.settle now status } }

def count (c : Coordinator) : Ending → Coordinator
  | .close => { c with closes := c.closes + 1 }
  | .cancel => { c with cancels := c.cancels + 1 }

end Coordinator

end Saga
