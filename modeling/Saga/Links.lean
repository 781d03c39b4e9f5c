import Saga.Participant
import Saga.Text.Blank
import Saga.Text.Percent

/-!
# Ending links

For each operation a participant may offer a URL. The URL of a registered participant names its
owner and the operation in its last segments (`urlOf`, `ofUrl?`). The links of one participant
travel in one header value (`toHeader`, `ofHeader`), whose entries are read one by one: malformed
ones and unknown relations are passed over, and of several for one operation the last counts.
-/

set_option autoImplicit false

namespace Saga

/-- The URLs that a participant offers. -/
abbrev Links := Slots String

namespace Links

/-! ## Callback URLs -/

/-- The segment under which callbacks are served. -/
def resourcePath : String := "lra-participant"

def urlChars (base owner : String) (op : Operation) : List Char :=
  Text.dropEndWhile (· == '/') base.toList ++ '/' :: resourcePath.toList ++
    '/' :: Text.Percent.encode owner ++ '/' :: op.name.toList

def urlOf (base owner : String) (op : Operation) : String :=
  String.ofList (urlChars base owner op)

/-- The owner and the operation that a callback URL names. -/
def ofUrl? (url : String) : Option (String × Operation) :=
  match ((Text.dropEndWhile (· == '/') url.toList).splitOn '/').reverse with
  | last :: owner :: resource :: _ =>
    match Operation.ofName? (String.ofList last) with
    | none => none
    | some op =>
      if resource = resourcePath.toList then
        match Text.Percent.decode? owner with
        | some owner => if owner.isEmpty then none else some (owner, op)
        | none => none
      else none
  | _ => none

/-! ## The links of a descriptor -/

/-- Adds the links of a descriptor's callbacks; links that are there stay. -/
def extend {σ : Type} (links : Links) (d : Descriptor σ) (base : String) : Links :=
  d.operations.foldl (fun links op =>
    if (links.get? op).isSome then links else links.insert op (urlOf base d.owner op)) links

def ofDescriptor {σ : Type} (d : Descriptor σ) (base : String) : Links :=
  extend .empty d base

/-! ## The header -/

def entry (op : Operation) (url : String) : String :=
  s!"<{url}>; rel=\"{op.name}\"; type=\"text/plain\""

def toHeader (links : Links) : String :=
  ",".intercalate (links.toList.map fun e => entry e.1 e.2)

/-- The relation that the parameters of an entry name; the first that names one counts. -/
def relation? : List (List Char) → Option (List Char)
  | [] => none
  | param :: params =>
    match "rel=".toList.isPrefixOf? param with
    | some value => some (Text.dropAround (· == '"') value)
    | none => relation? params

/-- What one entry of a header value says, if it is well formed and its relation is known. -/
def ofEntry? (text : List Char) : Option (Operation × String) :=
  match (text.splitOn ';').map Text.trim with
  | [] => none
  | target :: params =>
    match (['<'].isPrefixOf? target).bind ['>'].isSuffixOf? with
    | none => none
    | some url =>
      match (relation? params).bind fun rel => Operation.ofName? (String.ofList rel) with
      | none => none
      | some op => some (op, String.ofList url)

/-- Adds what a list of entries says. -/
def insertEntries (links : Links) (entries : List (List Char)) : Links :=
  entries.foldl (fun links text =>
    match ofEntry? text with
    | some (op, url) => links.insert op url
    | none => links) links

/-- The links that a header value holds. -/
def ofHeader (header : String) : Links :=
  insertEntries .empty (header.toList.splitOn ',')

end Links

end Saga
