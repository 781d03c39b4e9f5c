import Saga.Signature

/-!
# Errors

Each kind of error is the cause; its wording is in one function (`message`), and the name of its
kind, where answers show one, in another (`kind`).
-/

set_option autoImplicit false

namespace Saga

/-- A participant breaks the contract on its callbacks. -/
inductive ContractError where
  | arity (owner : String) (operation : Operation) (count : Nat)
  | parameterType (owner : String) (operation : Operation) (index : Nat) (found : String)
  | returnType (owner : String) (operation : Operation) (found : String)
  | duplicateBinding (owner : String) (operation : Operation)
  | unexpectedReturn (owner : String) (operation : Operation) (expected found : String)
  deriving DecidableEq, Repr

namespace ContractError

/-- The error for a breach in the declared shape. -/
def ofBreach (owner : String) (operation : Operation) : Signature.Breach → ContractError
  | .arity count => arity owner operation count
  | .parameter index found => parameterType owner operation index found
  | .returns found => returnType owner operation found

def kind : ContractError → String
  | arity .. => "Definition.Arity"
  | parameterType .. => "Definition.ParameterType"
  | returnType .. => "Definition.ReturnType"
  | duplicateBinding .. => "Definition.DuplicateBinding"
  | unexpectedReturn .. => "Definition.UnexpectedReturn"

def message : ContractError → String
  | arity owner op count => s!"{owner}::{op.name}: invalid number of arguments: {count}"
  | parameterType owner op index found =>
    s!"{owner}::{op.name}: argument {index} has unsupported type {found}"
  | returnType owner op found => s!"{owner}::{op.name}: unsupported return type {found}"
  | duplicateBinding owner op => s!"{owner}::{op.name}: bound more than once"
  | unexpectedReturn owner op expected found =>
    s!"{owner}::{op.name}: invalid type of returned object: expected {expected}, got {found}"

end ContractError

/-- An ending call fails without an answer of the participant. -/
inductive CallError where
  /-- Nobody is registered under the name. -/
  | notFound (owner : String)
  | contract (error : ContractError)
  deriving DecidableEq, Repr

namespace CallError

def kind : CallError → String
  | notFound _ => "NotFound"
  | contract e => e.kind

def message : CallError → String
  | notFound owner => s!"Participant not found: {owner}"
  | contract e => e.message

end CallError

/-- A header value that cannot be used. -/
inductive HeaderFault where
  /-- The text has a byte that a header value must not have. -/
  | unstorable
  /-- The value has a byte that is not visible ASCII, a space or a tab. -/
  | unreadable
  deriving DecidableEq, Repr

/-- The context of a call chain cannot be used as asked. -/
inductive ScopeError where
  /-- The caller runs in no call chain. -/
  | noActiveChain
  /-- No action is active in the chain. -/
  | emptyFrame
  | invalidHeader (fault : HeaderFault)
  deriving DecidableEq, Repr

namespace ScopeError

def kind : ScopeError → String
  | noActiveChain => "NoActiveChain"
  | emptyFrame => "EmptyFrame"
  | invalidHeader _ => "InvalidHeader"

def message : ScopeError → String
  | noActiveChain => "no call chain is active on this task"
  | emptyFrame => "context stack is empty"
  | invalidHeader .unstorable => "invalid context header: failed to parse header value"
  | invalidHeader .unreadable => "invalid context header: failed to convert header to a str"

end ScopeError

/-- Why a coordinator refuses a request on an action it knows. -/
inductive Refusal where
  /-- Only an active action can be ended. -/
  | notActive (status : ActionStatus)
  /-- Only an active action can be joined. -/
  | tooLate
  /-- A participant has to offer at least one link. -/
  | noLinks
  /-- A reason given by a coordinator elsewhere. -/
  | other (reason : String)
  deriving DecidableEq, Repr

def Refusal.reason : Refusal → String
  | notActive status => s!"action is {status.name}"
  | tooLate => "too late to join"
  | noLinks => "no termination links"
  | other reason => reason

/-- A request to the coordinator fails. -/
inductive RequestError where
  | unavailable (reason : String)
  | notFound (id : ActionId)
  | rejected (id : ActionId) (refusal : Refusal)
  deriving DecidableEq, Repr

namespace RequestError

def kind : RequestError → String
  | unavailable _ => "Unavailable"
  | notFound _ => "NotFound"
  | rejected _ _ => "Rejected"

def message : RequestError → String
  | unavailable reason => s!"Coordinator unavailable: {reason}"
  | notFound id => s!"Action not found: {id.text}"
  | rejected id refusal => s!"Coordinator rejected {id.text}: {refusal.reason}"

end RequestError

/-- Why a participant could not be enlisted. -/
inductive EnlistFailure where
  | unknownOwner (error : CallError)
  | refused (error : RequestError)
  deriving DecidableEq, Repr

def EnlistFailure.reason : EnlistFailure → String
  | unknownOwner e => e.message
  | refused e => e.message

/-- A unit of work does not get through its action; `ε` is the error of the work itself. -/
inductive RunError (ε : Type) where
  | start (error : RequestError)
  | enlist (owner : String) (failure : EnlistFailure)
  | close (id : ActionId) (error : RequestError)
  | work (error : ε)
  /-- The orchestrator has driven its action already. -/
  | ended
  deriving DecidableEq, Repr

namespace RunError

variable {ε : Type}

def kind : RunError ε → String
  | start _ => "Start"
  | enlist .. => "Enlist"
  | close .. => "Close"
  | work _ => "Work"
  | ended => "Ended"

/-- The wording of the error, given that of the work's error. -/
def message (text : ε → String) : RunError ε → String
  | start e => s!"failed to start action: {e.message}"
  | enlist owner failure => s!"failed to enlist {owner}: {failure.reason}"
  | close id e => s!"failed to close {id.text}: {e.message}"
  | work e => s!"work failed: {text e}"
  | ended => "orchestrator has already ended"

/-- Did the work itself raise the error? -/
def raisedByWork : RunError ε → Bool
  | work _ => true
  | _ => false

end RunError

end Saga
