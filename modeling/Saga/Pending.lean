import Saga.Answer

/-!
# Pending cells

The cell that takes a deferred answer over from whoever produces it to the call that asks for it.
It only moves forward: unresolved, resolving, resolved, consumed. `resolve` and `take` are each
made of the atomic steps that other callers may come between: `claim?`, `store`, `publish` and
`handOver?`, `collect`.
-/

set_option autoImplicit false

namespace Saga

/-- What can be seen of a cell. -/
inductive CellState where
  | unresolved
  | resolved
  | consumed
  deriving DecidableEq, Repr

def CellState.name : CellState → String
  | unresolved => "Unresolved"
  | resolved => "Resolved"
  | consumed => "Consumed"

/-- How far a cell has come. -/
inductive CellPhase where
  | unresolved
  /-- A resolver has won, and its answer is not stored yet. -/
  | resolving
  | resolved
  | consumed
  deriving DecidableEq, Repr

/-- The cell for the deferred answer of one call. -/
structure PendingCell where
  /-- The operation whose callback deferred its answer. -/
  operation : Operation
  phase : CellPhase
  value : Option Answer
  deriving DecidableEq, Repr

namespace PendingCell

/-- A cell that waits for its answer. -/
def ofOperation (operation : Operation) : PendingCell := ⟨operation, .unresolved, none⟩

/-! ## Atomic steps -/

/-- The first resolver claims the cell. -/
def claim? (p : PendingCell) : Option PendingCell :=
  if p.phase = .unresolved then some { p with phase := .resolving } else none

def store (p : PendingCell) (a : Answer) : PendingCell := { p with value := some a }

def publish (p : PendingCell) : PendingCell := { p with phase := .resolved }

/-- The first taker gets the right to the answer. -/
def handOver? (p : PendingCell) : Option PendingCell :=
  if p.phase = .resolved then some { p with phase := .consumed } else none

/-- Takes the stored answer out. -/
def collect (p : PendingCell) : Option Answer × PendingCell :=
  (p.value, { p with value := none })

/-! ## Whole calls -/

/-- Hands the answer in; tells whether it was the first. -/
def resolve (p : PendingCell) (a : Answer) : Bool × PendingCell :=
  match p.claim? with
  | some p => (true, (p.store a).publish)
  | none => (false, p)

/-- Takes the answer; there is one only for the first call after it was handed in. -/
def take (p : PendingCell) : Option Answer × PendingCell :=
  match p.handOver? with
  | some p => p.collect
  | none => (none, p)

/-- What can be seen of the cell; a resolver in the middle of its work still counts as none. -/
def state (p : PendingCell) : CellState :=
  match p.phase with
  | .unresolved | .resolving => .unresolved
  | .resolved => .resolved
  | .consumed => .consumed

def isResolved (p : PendingCell) : Bool := p.state == .resolved

/-- The cell after the handle `t` was used to hand in `a`: the handle may reach into the value. -/
def fulfil (p : PendingCell) (t : Ticket) (a : Answer) : PendingCell :=
  { p with value := p.value.map (Answer.fulfil t a) }

def inspect (p : PendingCell) : String :=
  s!"PendingOutcome \x7b operation: {p.operation.title}, state: {p.state.name} \x7d"

end PendingCell

end Saga
