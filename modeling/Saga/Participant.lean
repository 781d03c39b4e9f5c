import Saga.Error
import Saga.Text.Quoted

/-!
# Participants

A candidate says whose it is, how an instance is had, and which callbacks are bound to which
operations. `Descriptor.ofDeclaration` checks the declarations and gives the descriptor that is
kept. Callbacks act on a state `σ` of which this library knows nothing.
-/

set_option autoImplicit false

namespace Saga

/-- What a callback does: from its arguments and the state to its outcome and the new state. -/
abbrev Handler (σ : Type) := Arguments → σ → Outcome × σ

/-- How callbacks get hold of their instance. -/
inductive Supply (σ P : Type) where
  /-- One instance for every call. -/
  | shared (participant : P)
  /-- A new instance for each call. -/
  | factory (make : σ → P × σ)

/-- The kinds of supply. -/
inductive SupplyKind where
  | shared
  | factory
  deriving DecidableEq, Repr

def SupplyKind.name : SupplyKind → String
  | shared => "Shared"
  | factory => "Factory"

namespace Supply

variable {σ P : Type}

def get (supply : Supply σ P) (s : σ) : P × σ :=
  match supply with
  | shared p => (p, s)
  | factory make => make s

def mode : Supply σ P → SupplyKind
  | shared _ => .shared
  | factory _ => .factory

end Supply

/-- A callback with its declared shape. -/
structure Callback (σ : Type) where
  signature : Signature
  handler : Handler σ

/-- Calls with as many arguments as the shape declares. -/
def Callback.invoke {σ : Type} (c : Callback σ) (id : ActionId) (parent : Option ActionId) (s : σ) :
    Outcome × σ :=
  c.handler (.ofArity c.signature.arity id parent) s

/-- A callback of instances of `P`, bound to an operation. -/
structure Binding (σ P : Type) where
  operation : Operation
  signature : Signature
  call : P → Handler σ

/-- A participant type before its declarations are checked. -/
structure Candidate (σ P : Type) where
  owner : String
  supply : Supply σ P
  bindings : List (Binding σ P)

/-- A candidate whose instance type no longer shows. -/
structure Declaration (σ : Type) where
  owner : String
  mode : SupplyKind
  bindings : List (Operation × Callback σ)

/-- Hides the instance type: each callback gets its own instance when it is called. -/
def Candidate.declaration {σ P : Type} (c : Candidate σ P) : Declaration σ where
  owner := c.owner
  mode := c.supply.mode
  bindings := c.bindings.map fun b =>
    (b.operation, ⟨b.signature, fun args s =>
      let (p, s) := c.supply.get s
      b.call p args s⟩)

/-- A participant type whose declarations keep the contract. -/
structure Descriptor (σ : Type) where
  owner : String
  mode : SupplyKind
  callbacks : Slots (Callback σ)

namespace Descriptor

variable {σ : Type}

def callback? (d : Descriptor σ) (op : Operation) : Option (Callback σ) := d.callbacks.get? op

/-- The operations with a callback, in the order in which they are advertised. -/
def operations (d : Descriptor σ) : List Operation := d.callbacks.bound

/-- Binds the callbacks one after the other; the first that breaks the contract is the error. -/
def bindAll (owner : String) :
    Slots (Callback σ) → List (Operation × Callback σ) → Except ContractError (Slots (Callback σ))
  | slots, [] => .ok slots
  | slots, (op, c) :: bindings =>
    match c.signature.breach? with
    | some breach => .error (.ofBreach owner op breach)
    | none =>
      if (slots.get? op).isSome then .error (.duplicateBinding owner op)
      else bindAll owner (slots.insert op c) bindings

/-- Checks a candidate; one without callbacks is no participant. -/
def ofDeclaration (c : Declaration σ) : Except ContractError (Option (Descriptor σ)) :=
  match c.bindings with
  | [] => .ok none
  | bindings =>
    match bindAll c.owner .empty bindings with
    | .ok slots => .ok (some ⟨c.owner, c.mode, slots⟩)
    | .error e => .error e

/-- The descriptor as shown when a value is inspected. -/
def inspect (d : Descriptor σ) : String :=
  let operations := ", ".intercalate (d.operations.map Operation.title)
  s!"ParticipantDescriptor \x7b owner: {Text.Quoted.quote d.owner}, mode: {d.mode.name}, " ++
    s!"operations: [{operations}] \x7d"

end Descriptor

end Saga
