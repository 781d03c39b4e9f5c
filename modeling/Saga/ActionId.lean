import Saga.Text.Blank

/-!
# Action ids

The name a coordinator gives a long-running action. Any text is an id; a text that comes over the
wire loses the white space around it first, and a blank one names no action (`parse?`).
-/

set_option autoImplicit false

namespace Saga

/-- The name of a long-running action. -/
structure ActionId where
  text : String
  deriving DecidableEq, Repr, Inhabited

namespace ActionId

/-- The id in a text received on the wire, as characters. -/
def ofChars? (raw : List Char) : Option ActionId :=
  match Text.trim raw with
  | [] => none
  | l => some ⟨String.ofList l⟩

/-- The id in a text received on the wire; a blank text holds none. -/
def parse? (raw : String) : Option ActionId := ofChars? raw.toList

def inspect (id : ActionId) : String := s!"ActionId({id.text})"

/-- Ids in order of their text, each once. -/
def sortUnique (ids : List ActionId) : List ActionId :=
  (ids.mergeSort fun a b => decide (a.text ≤ b.text)).eraseDups

end ActionId

/-- What makes an ending call repeatable: one participant and one action. -/
structure CallKey where
  owner : String
  action : ActionId
  deriving DecidableEq, Repr

def CallKey.text (key : CallKey) : String :=
  s!"participant:{key.owner}:lra:{key.action.text}"

end Saga
