import Saga.Context.Frame
import Saga.Event

/-!
# Call chains

A chain has a frame while some action is active on it: the frame comes with the first push and
goes, with its scratch values, when the last action ends. Scopes nest: each opens a chain of its
own, and what is asked of the context concerns the innermost. Without a scope there is no chain.
-/

set_option autoImplicit false

namespace Saga

/-- A chain: its frame, while there is one. -/
abbrev Chain (α : Type := Scratch) := Option (Frame α)

namespace Chain

variable {α : Type}

/-- Makes `id` the innermost action; a frame is made if there is none. -/
def push (c : Chain α) (id : ActionId) : Chain α := some ((c.getD .empty).push id).2

def pop (c : Chain α) : Except ScopeError ActionId × Chain α :=
  match c with
  | none => (.error .emptyFrame, none)
  | some f =>
    match f.pop with
    | (none, f) => (.error .emptyFrame, some f)
    | (some id, f) => (.ok id, if f.ids.isEmpty then none else some f)

/-- Ends `id` wherever it stands; tells whether it was active. -/
def remove (c : Chain α) (id : ActionId) : Bool × Chain α :=
  match c with
  | none => (false, none)
  | some f =>
    let (removed, f) := f.remove id
    (removed, if f.ids.isEmpty then none else some f)

def peek (c : Chain α) : Option ActionId := c.bind Frame.peek

def active (c : Chain α) : List ActionId :=
  match c with
  | none => []
  | some f => f.ids

/-- Stores a scratch value, if there is a frame; tells whether there is. -/
def store (c : Chain α) (key : String) (value : α) : Bool × Chain α :=
  match c with
  | none => (false, none)
  | some f => (true, some (f.store key value).2)

/-- The scratch value under a key, if it is of the kind asked for. -/
def load {κ : Type} [DecidableEq κ] [HasKind α κ] (c : Chain α) (kind : κ) (key : String) :
    Option α :=
  c.bind fun f => f.load kind key

end Chain

/-- The chains of the scopes that are open, innermost first. -/
abbrev Scopes (α : Type := Scratch) := List (Chain α)

namespace Scopes

variable {α : Type}

/-- Does the caller run in a chain? -/
def inChain (s : Scopes α) : Bool := !s.isEmpty

/-- Applies `f` to the innermost chain. -/
def onChain {β : Type} (f : Chain α → β × Chain α) : Scopes α → Except ScopeError β × Scopes α
  | [] => (.error .noActiveChain, [])
  | c :: cs =>
    let (b, c) := f c
    (.ok b, c :: cs)

/-- Opens a scope with a chain of its own. -/
def enter (s : Scopes α) : Scopes α := none :: s

/-- Closes the innermost scope; the one around it is as it was. -/
def leave (s : Scopes α) : Scopes α := s.tail

def push (id : ActionId) (s : Scopes α) : Except ScopeError Unit × Scopes α :=
  s.onChain fun c => ((), c.push id)

def pop (s : Scopes α) : Except ScopeError ActionId × Scopes α :=
  match s.onChain Chain.pop with
  | (.ok r, s) => (r, s)
  | (.error e, s) => (.error e, s)

/-- Ends `id` wherever it stands; tells whether it was active. -/
def remove (id : ActionId) (s : Scopes α) : Bool × Scopes α :=
  match s.onChain fun c => c.remove id with
  | (.ok removed, s) => (removed, s)
  | (.error _, s) => (false, s)

/-- Drops the frame of the innermost chain with its scratch values. -/
def reset (s : Scopes α) : Scopes α := (s.onChain fun _ => ((), none)).2

/-- The innermost chain; outside every chain, one without a frame. -/
def chain (s : Scopes α) : Chain α := s.headD none

def peek (s : Scopes α) : Option ActionId := s.chain.peek

/-- The active actions, outermost first; none outside every chain. -/
def active (s : Scopes α) : List ActionId := s.chain.active

/-- Stores a scratch value; tells whether there is a frame to store it in. -/
def store (key : String) (value : α) (s : Scopes α) : Bool × Scopes α :=
  match s.onChain fun c => c.store key value with
  | (.ok stored, s) => (stored, s)
  | (.error _, s) => (false, s)

/-- The scratch value under a key, if it is of the kind asked for. -/
def load {κ : Type} [DecidableEq κ] [HasKind α κ] (kind : κ) (key : String) (s : Scopes α) :
    Option α :=
  s.chain.load kind key

end Scopes

/-- State that knows in which scopes its caller runs. -/
class Located (σ : Type) where
  scopes : σ → Scopes
  withScopes : Scopes → σ → σ

end Saga
