import Saga.Error

/-!
# Events

What the library tells about its doings. An event is a value; its level, message and fields are
read off it. State that keeps such a record has an instance of `Journal`.
-/

set_option autoImplicit false

namespace Saga

/-- How loud an event is. -/
inductive Level where
  | trace
  | debug
  | info
  | warn
  | error
  deriving DecidableEq, Repr

def Level.name : Level → String
  | trace => "TRACE"
  | debug => "DEBUG"
  | info => "INFO"
  | warn => "WARN"
  | error => "ERROR"

/-- A station in the life of an orchestrated action. -/
inductive Lifecycle where
  | started (id : ActionId) (parent : Option ActionId)
  | enlisted (id : ActionId) (owner recoveryUrl : String)
  | workFailed (id : ActionId) (error : String)
  | closed (id : ActionId) (status : ActionStatus)
  | cancelled (id : ActionId) (status : ActionStatus)
  | endFailed (id : ActionId) (error : RequestError)
  deriving DecidableEq, Repr

/-- Something worth recording. -/
inductive Event where
  | candidateSkipped (owner : String)
  | contractBroken (owner : String) (error : ContractError)
  | participantRegistered (owner : String)
  | participantReplaced (owner : String)
  | nothingBound (owner : String) (operation : Operation) (id : ActionId)
  | resultOutstanding (key : CallKey) (operation : Operation)
  | resultInProgress (owner : String) (id : ActionId)
  | callbackInvoked (owner : String) (operation : Operation) (id : ActionId) (arity : Nat)
  | undeclaredType (owner : String) (operation : Operation) (declared : ReturnType)
      (returned : String)
  | resultArrived (key : CallKey)
  | resultArrivedTwice (key : CallKey)
  | callbackFailed (owner : String) (operation : Operation) (id : ActionId) (reason : String)
  | contextSeeded (count : Nat) (innermost : ActionId)
  | linkUnresolved (id : ActionId) (url : String) (operation : Operation)
  | participantAnswered (id : ActionId) (owner : String) (operation : Operation)
  | participantNotEnded (id : ActionId) (owner : String) (error : CallError)
  | endingBrokeDown (id : ActionId)
  | startRefused (clientId : String) (error : RequestError)
  | lifecycle (station : Lifecycle)
  deriving DecidableEq, Repr

namespace Event

def level : Event → Level
  | candidateSkipped _ => .trace
  | contractBroken .. | undeclaredType .. | endingBrokeDown _ => .error
  | participantRegistered _ | participantReplaced _ | nothingBound .. => .debug
  | resultOutstanding .. | callbackInvoked .. | resultArrived _ => .debug
  | callbackFailed .. | contextSeeded .. | participantAnswered .. => .debug
  | resultInProgress .. | resultArrivedTwice _ | linkUnresolved .. | participantNotEnded .. => .warn
  | startRefused .. => .warn
  | lifecycle (.started ..) | lifecycle (.closed ..) | lifecycle (.cancelled ..) => .info
  | lifecycle (.enlisted ..) => .debug
  | lifecycle (.workFailed ..) => .warn
  | lifecycle (.endFailed ..) => .error

def message : Event → String
  | candidateSkipped _ => "Skipping candidate without callbacks"
  | contractBroken .. => "Invalid participant definition"
  | participantRegistered _ => "Registered participant"
  | participantReplaced _ => "Replaced participant registration"
  | nothingBound .. => "No callback bound, nothing to do"
  | resultOutstanding .. => "Deferred result still outstanding"
  | resultInProgress .. =>
    "Participant resolved its deferred result to an in-progress value; invoking it again"
  | callbackInvoked .. => "Invoking participant callback"
  | undeclaredType .. => "Participant returned an undeclared type"
  | resultArrived _ => "Deferred participant result resolved"
  | resultArrivedTwice _ => "Deferred participant result resolved twice; keeping the first"
  | callbackFailed .. => "Participant callback failed"
  | contextSeeded .. => "Seeded context from inbound header"
  | linkUnresolved .. => "Termination link does not resolve to a participant"
  | participantAnswered .. => "Participant answered"
  | participantNotEnded .. => "Participant could not be terminated"
  | endingBrokeDown _ => "Participant termination task failed"
  | startRefused .. => "Coordinator refused to start action"
  | lifecycle (.started _ none) => "Action started"
  | lifecycle (.started _ (some _)) => "Nested action started"
  | lifecycle (.enlisted ..) => "Participant enlisted"
  | lifecycle (.workFailed ..) => "Work failed, cancelling action"
  | lifecycle (.closed ..) => "Action closed"
  | lifecycle (.cancelled ..) => "Action cancelled"
  | lifecycle (.endFailed ..) => "Coordinator failed to end action"

def fields : Event → List (String × String)
  | candidateSkipped owner => [("owner", owner)]
  | contractBroken owner e => [("owner", owner), ("error", e.message)]
  | participantRegistered owner => [("owner", owner)]
  | participantReplaced owner => [("owner", owner)]
  | nothingBound owner op id => [("owner", owner), ("operation", op.name), ("lra_id", id.text)]
  | resultOutstanding key op => [("key", key.text), ("operation", op.name)]
  | resultInProgress owner id => [("owner", owner), ("lra_id", id.text)]
  | callbackInvoked owner op id arity =>
    [("owner", owner), ("operation", op.name), ("lra_id", id.text), ("arity", toString arity)]
  | undeclaredType owner op declared returned =>
    [("owner", owner), ("operation", op.name), ("declared", declared.name), ("returned", returned)]
  | resultArrived key => [("key", key.text)]
  | resultArrivedTwice key => [("key", key.text)]
  | callbackFailed owner op id reason =>
    [("owner", owner), ("operation", op.name), ("lra_id", id.text), ("reason", reason)]
  | contextSeeded count innermost =>
    [("count", toString count), ("innermost", s!"Some({innermost.inspect})")]
  | linkUnresolved id url op => [("lra_id", id.text), ("url", url), ("operation", op.name)]
  | participantAnswered id owner op =>
    [("lra_id", id.text), ("owner", owner), ("operation", op.name)]
  | participantNotEnded id owner e =>
    [("lra_id", id.text), ("owner", owner), ("error", e.message)]
  | endingBrokeDown id => [("lra_id", id.text)]
  | startRefused clientId e => [("client_id", clientId), ("error", e.message)]
  | lifecycle (.started id none) => [("lra_id", id.text)]
  | lifecycle (.started id (some parent)) => [("lra_id", id.text), ("parent_id", parent.text)]
  | lifecycle (.enlisted id owner url) =>
    [("lra_id", id.text), ("owner", owner), ("recovery_url", url)]
  | lifecycle (.workFailed id error) => [("lra_id", id.text), ("error", error)]
  | lifecycle (.closed id status) => [("lra_id", id.text), ("status", status.name)]
  | lifecycle (.cancelled id status) => [("lra_id", id.text), ("status", status.name)]
  | lifecycle (.endFailed id e) => [("lra_id", id.text), ("error", e.message)]

end Event

/-- State in which events are recorded. -/
class Journal (σ : Type) where
  note : Event → σ → σ

/-- A list of events, the latest last. -/
instance : Journal (List Event) := ⟨fun event events => events ++ [event]⟩

end Saga
