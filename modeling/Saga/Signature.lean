import Saga.ActionId
import Saga.Answer

/-!
# Declared shapes of callbacks

A callback declares its parameters and what it returns. The contract allows the parameters
`(action id, parent id)` or a shorter start of that list, and an immediate kind of return or a
deferred one of an immediate kind. `Signature.breach?` names the first breach: the number of
parameters, then the parameters by position, then the return kind.
-/

set_option autoImplicit false

namespace Saga

/-- The declared type of a parameter. -/
inductive ParamType where
  | actionId
  | parentId
  /-- A type that the contract does not know. -/
  | other (name : String)
  deriving DecidableEq, Repr

def ParamType.name : ParamType → String
  | actionId => "ActionId"
  | parentId => "ParentActionId"
  | other name => name

/-- The declared type of what a callback returns. -/
inductive ReturnType where
  | unit
  | status
  | response
  | deferred (inner : ReturnType)
  /-- A type that the contract does not know. -/
  | other (name : String)
  deriving DecidableEq, Repr

namespace ReturnType

def name : ReturnType → String
  | unit => "unit"
  | status => "status"
  | response => "response"
  | deferred inner => s!"deferred<{inner.name}>"
  | other name => name

/-- A value that is there when the callback returns. -/
def isImmediate : ReturnType → Bool
  | unit | status | response => true
  | deferred _ | other _ => false

/-- Allowed by the contract: immediate, or deferred and then immediate. -/
def isValid : ReturnType → Bool
  | deferred inner => inner.isImmediate
  | kind => kind.isImmediate

/-- Does a value given without an error conform to the declaration? -/
def accepts : ReturnType → Answer → Bool
  | unit, .unit => true
  | status, .status _ => true
  | response, .response _ => true
  | deferred _, .deferred _ => true
  | _, _ => false

/-- What a deferred value has to conform to once it is known. -/
def resolved : ReturnType → ReturnType
  | deferred inner => inner
  | kind => kind

end ReturnType

/-- The declared shape of a callback. -/
structure Signature where
  params : List ParamType
  returns : ReturnType
  deriving DecidableEq, Repr

namespace Signature

/-- The parameters that the contract allows, in their positions. -/
def positions : List ParamType := [.actionId, .parentId]

/-- The signature `(action id)`. -/
def ofAction (returns : ReturnType) : Signature := ⟨[.actionId], returns⟩

/-- The signature `(action id, parent id)`. -/
def ofActionAndParent (returns : ReturnType) : Signature := ⟨[.actionId, .parentId], returns⟩

def arity (sig : Signature) : Nat := sig.params.length

/-- A breach of the contract by a declared shape. -/
inductive Breach where
  | arity (count : Nat)
  | parameter (index : Nat) (found : String)
  | returns (found : String)
  deriving DecidableEq, Repr

/-- The first parameter that is not the one its position asks for; positions count from `index`. -/
def firstMisplaced? (index : Nat) : List ParamType → List ParamType → Option (Nat × ParamType)
  | p :: ps, q :: qs => if p = q then firstMisplaced? (index + 1) ps qs else some (index, p)
  | _, _ => none

/-- The first breach, if any. -/
def breach? (sig : Signature) : Option Breach :=
  if positions.length < sig.arity then some (.arity sig.arity)
  else match firstMisplaced? 0 sig.params positions with
    | some (index, found) => some (.parameter index found.name)
    | none => if sig.returns.isValid then none else some (.returns sig.returns.name)

end Signature

/-! ## Arguments -/

/-- What a callback is handed, by the number of parameters it declared. -/
inductive Arguments where
  | none
  | action (id : ActionId)
  | actionAndParent (id : ActionId) (parent : Option ActionId)
  deriving DecidableEq, Repr

namespace Arguments

/-- The arguments for a number of parameters. -/
def ofArity (arity : Nat) (id : ActionId) (parent : Option ActionId) : Arguments :=
  match arity with
  | 0 => .none
  | 1 => .action id
  | _ => .actionAndParent id parent

def action? : Arguments → Option ActionId
  | none => .none
  | action id => some id
  | actionAndParent id _ => some id

/-- The parent, if the callback asked for it and there is one. -/
def parent? : Arguments → Option ActionId
  | none => .none
  | action _ => .none
  | actionAndParent _ parent => parent

end Arguments

end Saga
