import Saga.Context.Chain

/-!
# The context in headers

Headers are names with values, in which a name may occur several times; a name is taken in lower
case. A value is a list of bytes. The context header carries the active actions, outermost first,
and is read from repeated values as well as from lists with commas.
-/

set_option autoImplicit false

namespace Saga

/-- Header fields in the order in which they were added. -/
structure Headers where
  fields : List (String × List UInt8)
  deriving DecidableEq, Repr

namespace Headers

/-- The header that carries the active actions. -/
def contextName : String := "long-running-action"

/-- The header that names the parent of a nested action. -/
def parentName : String := "long-running-action-parent"

/-! ## Fields -/

def empty : Headers := ⟨[]⟩

instance : Inhabited Headers := ⟨empty⟩

def getAll (h : Headers) (name : String) : List (List UInt8) :=
  h.fields.filterMap fun e => if e.1 = name then some e.2 else none

/-- Takes every value of a name out. -/
def remove (h : Headers) (name : String) : Headers := ⟨h.fields.filter fun e => e.1 ≠ name⟩

/-- Adds a value for a name that is in lower case already. -/
def append (h : Headers) (name : String) (value : List UInt8) : Headers :=
  ⟨h.fields ++ [(name, value)]⟩

/-- The fields of a list, with their names in lower case. -/
def ofList (fields : List (String × List UInt8)) : Headers :=
  ⟨fields.map fun e => (e.1.map Char.toLower, e.2)⟩

/-- The fields sorted by name; the values of one name keep their order. -/
def sorted (h : Headers) : List (String × List UInt8) :=
  h.fields.mergeSort fun a b => decide (a.1 ≤ b.1)

/-! ## Values -/

/-- A byte that a value may have: a tab, or none of the controls. -/
def isStorable (b : UInt8) : Bool := b == 9 || (32 ≤ b && b != 127)

/-- A byte of a value that can be read as text: visible ASCII, a space or a tab. -/
def isReadable (b : UInt8) : Bool := b == 9 || (32 ≤ b && b < 127)

/-- The value for a text. -/
def ofText (s : String) : Except HeaderFault (List UInt8) :=
  let bytes := s.toUTF8.data.toList
  if bytes.all isStorable then .ok bytes else .error .unstorable

/-- The characters of a value. -/
def toChars (value : List UInt8) : Except HeaderFault (List Char) :=
  if value.all isReadable then .ok (value.map fun b => Char.ofNat b.toNat)
  else .error .unreadable

/-! ## Reading and writing the context -/

/-- The actions that a list of values carries. -/
def readValues : List (List UInt8) → Except HeaderFault (List ActionId)
  | [] => .ok []
  | value :: values =>
    match toChars value with
    | .error fault => .error fault
    | .ok text =>
      match readValues values with
      | .error fault => .error fault
      | .ok ids => .ok ((text.splitOn ',').filterMap ActionId.ofChars? ++ ids)

/-- The actions that the headers carry, in their order. -/
def readContext (h : Headers) : Except ScopeError (List ActionId) :=
  match readValues (h.getAll contextName) with
  | .ok ids => .ok ids
  | .error fault => .error (.invalidHeader fault)

/-- The parent that the headers name; of several values the first counts. -/
def readParent (h : Headers) : Except ScopeError (Option ActionId) :=
  match h.getAll parentName with
  | [] => .ok none
  | value :: _ =>
    match toChars value with
    | .ok text => .ok (ActionId.ofChars? text)
    | .error fault => .error (.invalidHeader fault)

/-- Adds a value for each action, up to the first that no value can hold. -/
def appendContext : List ActionId → Headers → Except ScopeError Unit × Headers
  | [], h => (.ok (), h)
  | id :: ids, h =>
    match ofText id.text with
    | .ok value => appendContext ids (h.append contextName value)
    | .error fault => (.error (.invalidHeader fault), h)

/-- Puts the actions in the place of what the headers carry. -/
def writeContext (h : Headers) (ids : List ActionId) : Except ScopeError Unit × Headers :=
  appendContext ids (h.remove contextName)

end Headers

/-! ## Messages in and out -/

namespace Scopes

variable {α : Type}

/-- Makes the actions of a list active, one inside the other. -/
def pushAll : List ActionId → Scopes α → Except ScopeError Unit × Scopes α
  | [], s => (.ok (), s)
  | id :: ids, s =>
    match s.push id with
    | (.ok (), s) => pushAll ids s
    | (.error e, s) => (.error e, s)

/-- Takes over the actions that an incoming message carries; gives them in its order. -/
def receive {τ : Type} [Journal τ] (h : Headers) (s : Scopes α) (j : τ) :
    Except ScopeError (List ActionId) × Scopes α × τ :=
  match h.readContext with
  | .error e => (.error e, s, j)
  | .ok ids =>
    match s.pushAll ids with
    | (.error e, s) => (.error e, s, j)
    | (.ok (), s) =>
      match ids.getLast? with
      | none => (.ok ids, s, j)
      | some id => (.ok ids, s, Journal.note (.contextSeeded ids.length id) j)

/-- Puts the active actions on an outgoing message. -/
def stamp (s : Scopes α) (h : Headers) : Except ScopeError Unit × Headers :=
  h.writeContext s.active

/-- Takes the context off a message and ends every action of the chain. -/
def clear (s : Scopes α) (h : Headers) : Headers × Scopes α :=
  (h.remove Headers.contextName, s.reset)

end Scopes

end Saga
