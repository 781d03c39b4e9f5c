import Saga.Config
import Saga.Coordinator
import Saga.Json.Value

/-!
# Decoding records

A record is written as an object, in which unknown fields are passed over and no known field may
come twice, or as an array of its fields in order. A field that may be absent can be left out of
an object but not of an array. A name is written as a text, or as an object with that one field
and nothing in it.
-/

set_option autoImplicit false

namespace Saga.Json

/-! ## Plain values -/

def text? : Json → Option String
  | text s => s
  | _ => none

def bool? : Json → Option Bool
  | bool b => some b
  | _ => none

/-- A natural number below a bound. -/
def natural? (bound : Nat) : Json → Option Nat
  | number (some n) => if n < bound then some n else none
  | _ => none

/-- A value that may be absent. -/
def optional? {α : Type} (decode : Json → Option α) : Json → Option (Option α)
  | null => some none
  | v => (decode v).map some

/-- The name of a case without contents. -/
def name? : Json → Option String
  | text s => s
  | object [(key, null)] => key
  | _ => none

/-! ## Records -/

/-- The fields of a record as written; what is missing has no value. -/
structure Fields where
  /-- Written as an array. -/
  positional : Bool
  values : List (Option Json)

/-- The values of a field in an object; none if it comes more than once. -/
def field? (fields : List (String × Json)) (name : String) : Option (Option Json) :=
  match fields.filter fun e => e.1 = name with
  | [] => some none
  | [e] => some (some e.2)
  | _ => none

/-- The fields of an object, if every name can be read. -/
def readable? : List (Option String × Json) → Option (List (String × Json))
  | [] => some []
  | (none, _) :: _ => none
  | (some key, v) :: fields => (readable? fields).map ((key, v) :: ·)

/-- Sorts what is written by the names of the fields. -/
def fields? (names : List String) : Json → Option Fields
  | object fields =>
    match readable? fields with
    | none => none
    | some fields => (names.mapM (field? fields)).map (⟨false, ·⟩)
  | array items =>
    if items.length ≤ names.length then
      some ⟨true, items.map some ++ List.replicate (names.length - items.length) none⟩
    else none
  | _ => none

/-- A field that has to be there. -/
def Fields.required? {α : Type} (fs : Fields) (i : Nat) (decode : Json → Option α) : Option α :=
  match fs.values[i]? with
  | some (some v) => decode v
  | _ => none

/-- A field that may be left out of an object, or be there without a value. -/
def Fields.absent? {α : Type} (fs : Fields) (i : Nat) (decode : Json → Option α) :
    Option (Option α) :=
  match fs.values[i]? with
  | some (some v) => optional? decode v
  | _ => if fs.positional then none else some none

/-- A field that may be missing, with the value that then holds. -/
def Fields.default? {α : Type} (fs : Fields) (i : Nat) (standard : α) (decode : Json → Option α) :
    Option α :=
  match fs.values[i]? with
  | some (some v) => decode v
  | _ => some standard

/-! ## The records of this library -/

def bound16 : Nat := 65536

def bound32 : Nat := 4294967296

def bound64 : Nat := 18446744073709551616

def actionId? (v : Json) : Option ActionId := (text? v).map ActionId.mk

def actionStatus? (v : Json) : Option ActionStatus := (name? v).bind ActionStatus.ofName?

def participantStatus? (v : Json) : Option ParticipantStatus :=
  (name? v).bind ParticipantStatus.ofName?

def operation? (v : Json) : Option Operation := (name? v).bind Operation.ofTitle?

def response? (v : Json) : Option Response := do
  let fs ← fields? ["status", "body"] v
  let status ← fs.required? 0 (natural? bound16)
  let body ← fs.absent? 1 text?
  return ⟨status, body⟩

def actionRecord? (v : Json) : Option ActionRecord := do
  let fs ← fields? ["id", "client_id", "status", "parent", "is_top_level", "started_at_millis",
    "finished_at_millis"] v
  let id ← fs.required? 0 actionId?
  let clientId ← fs.required? 1 text?
  let status ← fs.required? 2 actionStatus?
  let parent ← fs.absent? 3 actionId?
  let isTopLevel ← fs.required? 4 bool?
  let startedAt ← fs.required? 5 (natural? bound64)
  let finishedAt ← fs.absent? 6 (natural? bound64)
  return ⟨id, clientId, status, parent, isTopLevel, startedAt, finishedAt⟩

/-- A span of time. It has no other fields, and nanoseconds that make up whole seconds are carried
over, as long as the seconds keep their width. -/
def duration? (v : Json) : Option Duration := do
  let known := match v with
    | object fields => fields.all fun e => e.1 = some "secs" || e.1 = some "nanos"
    | _ => true
  if !known then none
  let fs ← fields? ["secs", "nanos"] v
  let secs ← fs.required? 0 (natural? bound64)
  let nanos ← fs.required? 1 (natural? bound32)
  let secs := secs + nanos / 1000000000
  if secs < bound64 then return ⟨secs, nanos % 1000000000⟩ else none

/-- The settings of an orchestrator; what is missing is as in the standard ones. -/
def config? (v : Json) : Option Config := do
  let fs ← fields? ["client_id", "timeout", "base_url", "recovery_url"] v
  let clientId ← fs.default? 0 Config.standard.clientId text?
  let timeout ← fs.default? 1 Config.standard.timeout duration?
  let baseUrl ← fs.default? 2 Config.standard.baseUrl text?
  let recoveryUrl ← fs.default? 3 Config.standard.recoveryUrl (optional? text?)
  return ⟨clientId, timeout, baseUrl, recoveryUrl⟩

end Saga.Json
