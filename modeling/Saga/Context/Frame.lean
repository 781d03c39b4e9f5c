import Saga.ActionId
import Saga.Table
import Saga.Text.Quoted

/-!
# Context frames

The actions active on a call chain, innermost last, and scratch values that last as long as some
action is active. A frame takes values of any type that tells their kinds (`HasKind`); one stored as
one kind is not read as another.
-/

set_option autoImplicit false

namespace Saga

/-- Values that tell of what kind they are. -/
class HasKind (α : Type) (κ : outParam Type) where
  kind : α → κ

/-- The kinds of scratch values. -/
inductive ScratchKind where
  | byte
  | integer
  | flag
  | text
  deriving DecidableEq, Repr

/-- A scratch value. -/
inductive Scratch where
  | byte (value : UInt8)
  | integer (value : Int)
  | flag (value : Bool)
  | text (value : String)
  deriving DecidableEq, Repr

def Scratch.kind : Scratch → ScratchKind
  | byte _ => .byte
  | integer _ => .integer
  | flag _ => .flag
  | text _ => .text

instance : HasKind Scratch ScratchKind := ⟨Scratch.kind⟩

/-- The active actions, outermost first, with their scratch values. -/
structure Frame (α : Type := Scratch) where
  ids : List ActionId
  scratch : Table String α

namespace Frame

variable {α : Type}

def empty : Frame α := ⟨[], ∅⟩

instance : Inhabited (Frame α) := ⟨empty⟩

/-- Forgets the scratch values if no action is active. -/
def retire (f : Frame α) : Frame α := if f.ids.isEmpty then { f with scratch := ∅ } else f

/-- Makes `id` the innermost action, unless it is active already; tells whether it was not. -/
def push (f : Frame α) (id : ActionId) : Bool × Frame α :=
  if id ∈ f.ids then (false, f) else (true, { f with ids := f.ids ++ [id] })

def pop (f : Frame α) : Option ActionId × Frame α :=
  (f.ids.getLast?, retire { f with ids := f.ids.dropLast })

/-- Ends `id` wherever it stands; tells whether it was active. -/
def remove (f : Frame α) (id : ActionId) : Bool × Frame α :=
  if id ∈ f.ids then (true, retire { f with ids := f.ids.erase id }) else (false, f)

def peek (f : Frame α) : Option ActionId := f.ids.getLast?

/-- Stores a scratch value; gives the one it replaces. -/
def store (f : Frame α) (key : String) (value : α) : Option α × Frame α :=
  (f.scratch.get? key, { f with scratch := f.scratch.insert key value })

/-- The scratch value under a key, if it is of the kind asked for. -/
def load {κ : Type} [DecidableEq κ] [HasKind α κ] (f : Frame α) (kind : κ) (key : String) :
    Option α :=
  (f.scratch.get? key).filter fun value => HasKind.kind value == kind

def inspect (f : Frame α) : String :=
  let ids := ", ".intercalate (f.ids.map ActionId.inspect)
  let keys := ", ".intercalate (f.scratch.keys.map Text.Quoted.quote)
  s!"ContextFrame \x7b ids: [{ids}], state_keys: [{keys}] \x7d"

end Frame

end Saga
