import Saga.Context.Headers
import Saga.Engine
import Saga.Orchestrator
import Saga.Rehearsal.Script

/-!
# Steps of a rehearsal

What may happen in a rehearsal of the whole library, and what each step results in. `V` is the
type of the values that works yield.
-/

set_option autoImplicit false

namespace Saga.Rehearsal

/-- The requests that an orchestrator's client makes. -/
inductive Method where
  | start
  | join
  | close
  | cancel
  deriving DecidableEq, Repr

/-- What an orchestrator's client does with a request. -/
inductive Routing where
  /-- It goes to the coordinator. -/
  | forward
  /-- It fails. -/
  | fail (error : RequestError)
  /-- A start is answered with an id that no coordinator gave. -/
  | startAs (id : ActionId)
  deriving Repr

/-- Who watches an orchestrator. -/
inductive Watch where
  | recording
  | journal
  | silent
  deriving DecidableEq, Repr

/-- The ways to open a scope. -/
inductive ScopeKind where
  /-- A chain of its own. -/
  | fresh
  /-- The chain there is, or else one of its own. -/
  | ensured
  /-- A chain of its own, without suspensions. -/
  | blocking
  deriving DecidableEq, Repr

/-- A run of an orchestrator, without the steps of its work. -/
structure RunSpec (V : Type) where
  orchestrator : String
  owners : List String
  parent : Option ActionId
  /-- The text with which the work fails; if there is none, it yields `value`. -/
  fail : Option String
  value : V
  config : Config
  watch : Watch

/-- One step of a rehearsal. -/
inductive Step (V : Type) where
  | discover (roles : List Role)
  | register (roles : List Role)
  | lookup (owner : String)
  | owners
  | call (call : Call)
  | parallel (threads : Nat) (call : Call)
  | resolve (ticket : Option Ticket) (value : Cue)
  | abandon (ticket : Option Ticket)
  | pending (key : CallKey)
  | stats
  | start (clientId : String) (parent : Option ActionId)
  | join (id : ActionId) (header : String) (recovery data : Option String)
  | finish (ending : Ending) (id : ActionId)
  | get (id : ActionId)
  | enlisted (id : ActionId)
  | counts
  | failStart (on : Bool)
  | failJoin (on : Bool)
  | run (spec : RunSpec V) (work : List (Step V))
  | orchestrator (name : String)
  | inject (method : Method) (routing : Routing)
  | scope (kind : ScopeKind) (steps : List (Step V))
  | chains (chains : List (List (Step V))) (schedule : List Nat)
  | suspend
  | inChain
  | push (id : ActionId)
  | pop
  | remove (id : ActionId)
  | reset
  | peek
  | active
  | store (key : String) (value : Scratch)
  | load (key : String) (kind : ScratchKind)
  | exchange (key : String) (value : Scratch)
  | headers (headers : Headers)
  | receive
  | stamp
  | clear
  /-- A step that is not known. -/
  | unknown

/-- What a step results in. -/
inductive Result (V : Type) where
  | nothing
  | flag (value : Bool)
  | number (value : Nat)
  | word (value : String)
  | id (id : Option ActionId)
  | ids (ids : List ActionId)
  | popped (id : ActionId)
  | contractError (error : ContractError)
  | callError (error : CallError)
  | scopeError (error : ScopeError)
  | requestError (error : RequestError)
  | replaced (descriptors : List (Option Summary))
  | descriptor (descriptor : Summary)
  | owners (owners : List String)
  | reply (reply : Reply)
  /-- Replies to the same call, each in one word, sorted. -/
  | replies (replies : List String)
  | brokeDown (text : String)
  | pending (state : Option CellState) (count : Nat)
  | counters (counters : Counters)
  | status (status : ActionStatus)
  | action (record : Option ActionRecord)
  | enlisted (enlisted : List Enlistment)
  | counts (starts joins closes cancels : Nat)
  | run (orchestrator : Orchestrator) (result : Except (RunError String) V)
  | orchestrator (orchestrator : Option Orchestrator)
  | scratch (value : Option Scratch)
  | swapped (old : Scratch) (stored : Bool) (peek : Option ActionId)
  | headers (headers : Headers)
  | inbound (result : Except ScopeError (List ActionId)) (active : List ActionId)
  | outbound (result : Except ScopeError Unit) (headers : Headers)

end Saga.Rehearsal
