import Saga.Context.Chain
import Saga.Participant

/-!
# Scripted participants

A rehearsal runs the library against participants that follow a script: for each operation a list
of cues, of which the n-th call plays the n-th, and the last one from then on. All that happens is
written to the trace of the stage, the latest entry first.
-/

set_option autoImplicit false

namespace Saga.Rehearsal

/-! ## Tickets -/

/-- The completion handles that nobody has used yet. -/
structure Tickets where
  unused : List Ticket
  next : Ticket
  deriving Repr

namespace Tickets

/-- None was handed out. -/
def none : Tickets := ⟨[], 0⟩

/-- Hands a new one out. -/
def issue (t : Tickets) : Ticket × Tickets := (t.next, ⟨t.unused ++ [t.next], t.next + 1⟩)

/-- The ticket that is meant: the one given, or the lowest unused one. -/
def find? (t : Tickets) : Option Ticket → Option Ticket
  | some n => if n ∈ t.unused then some n else .none
  | .none => t.unused.head?

def use (t : Tickets) (n : Ticket) : Tickets := { t with unused := t.unused.erase n }

end Tickets

/-! ## Cues -/

/-- What a script says about one call. -/
inductive Cue where
  | unit
  | status (status : ParticipantStatus)
  | response (response : Response)
  /-- A deferred answer that waits for a new completion handle. -/
  | deferred
  /-- A deferred answer that is there already. -/
  | ready (value : Cue)
  /-- A deferred answer whose producer dies. -/
  | dying
  | failed (reason : String)
  | protocol (response : Response)
  | breakdown (text : String)
  deriving Repr

/-- Plays a cue. -/
def Cue.play : Cue → Tickets → Outcome × Tickets
  | unit, t => (.answered .unit, t)
  | status s, t => (.answered (.status s), t)
  | response r, t => (.answered (.response r), t)
  | deferred, t =>
    let (n, t) := t.issue
    (.answered (.deferred (.awaiting n)), t)
  | ready value, t =>
    match value.play t with
    | (.answered a, t) => (.answered (.deferred (.ready a)), t)
    | (.brokeDown text, t) => (.brokeDown text, t)
  | dying, t => (.answered (.deferred .lost), t)
  | failed reason, t => (.answered (.failed reason), t)
  | protocol r, t => (.answered (.protocol r), t)
  | breakdown text, t => (.brokeDown text, t)

/-- The cue for a call after `n` earlier ones. -/
def cueAt (script : List Cue) (n : Nat) : Cue :=
  (script[n]?).getD (script.getLast?.getD .unit)

/-! ## The trace -/

/-- Where a step stands: its number, before it that of the step around it, and so on. -/
abbrev Path := List Nat

def Path.text (path : Path) : String := ".".intercalate (path.reverse.map toString)

/-- A request as it reaches an orchestrator's client. -/
inductive Request where
  | start (clientId : String) (timeout : Nat) (parent : Option ActionId)
  | join (id : ActionId) (timeout : Nat) (header : String) (recovery data : Option String)
  | close (id : ActionId)
  | cancel (id : ActionId)
  deriving Repr

/-- An entry of the trace; `ρ` is what steps result in. -/
inductive Entry (ρ : Type) where
  | called (owner : String) (operation : Operation) (instanceNumber : Nat) (args : Arguments)
      (scopes : Scopes)
  | event (event : Event)
  | discovered (result : Except ContractError Nat)
  | result (path : Path) (result : ρ)
  | working (path : Path) (id : ActionId) (context : List ActionId)
  | asked (request : Request)
  | told (station : Lifecycle)

/-! ## The stage -/

/-- The state that scripted callbacks act on. -/
structure Stage (ρ : Type) where
  trace : List (Entry ρ)
  /-- Are events written to the trace? -/
  logging : Bool
  scopes : Scopes
  tickets : Tickets
  /-- The calls so far, by candidate and operation. -/
  calls : Table (Nat × Operation) Nat
  /-- The instances made so far, by candidate. -/
  instances : Table Nat Nat
  /-- The candidates so far. -/
  candidates : Nat

namespace Stage

variable {ρ : Type}

def empty (logging : Bool) : Stage ρ := ⟨[], logging, [], .none, ∅, ∅, 0⟩

def write (s : Stage ρ) (entry : Entry ρ) : Stage ρ := { s with trace := entry :: s.trace }

instance : Journal (Stage ρ) :=
  ⟨fun event s => if s.logging then s.write (.event event) else s⟩

instance : Located (Stage ρ) := ⟨Stage.scopes, fun scopes s => { s with scopes := scopes }⟩

end Stage

/-! ## Scripted candidates -/

/-- The part of a candidate for one operation. -/
structure Part where
  operation : Operation
  signature : Signature
  script : List Cue

/-- A candidate that follows a script. -/
structure Role where
  owner : String
  factory : Bool
  parts : List Part

namespace Role

variable {ρ : Type}

/-- The instance of a factory, numbered from 1. -/
def newInstance (number : Nat) (s : Stage ρ) : Nat × Stage ρ :=
  let k := (s.instances.get? number).getD 0 + 1
  (k, { s with instances := s.instances.insert number k })

/-- One call: written to the trace, then answered by the script. -/
def play (owner : String) (number : Nat) (part : Part) (k : Nat) : Handler (Stage ρ) :=
  fun args s =>
    let n := (s.calls.get? (number, part.operation)).getD 0
    let s := s.write (.called owner part.operation k args s.scopes)
    let (outcome, tickets) := (cueAt part.script n).play s.tickets
    (outcome, { s with
      calls := s.calls.insert (number, part.operation) (n + 1)
      tickets := tickets })

/-- The candidate of a role, with its number among all. -/
def candidate (role : Role) (number : Nat) : Candidate (Stage ρ) Nat where
  owner := role.owner
  supply := if role.factory then .factory (newInstance number) else .shared 0
  bindings := role.parts.map fun part =>
    ⟨part.operation, part.signature, play role.owner number part⟩

/-- The candidates of a list of roles. -/
def declareAll (roles : List Role) (s : Stage ρ) : List (Declaration (Stage ρ)) × Stage ρ :=
  (roles.zipIdx.map fun e => (e.1.candidate (s.candidates + e.2)).declaration,
    { s with candidates := s.candidates + roles.length })

end Role

/-- What is shown of a descriptor. -/
structure Summary where
  owner : String
  mode : SupplyKind
  /-- The bound operations with the number of parameters and the return type. -/
  operations : List (Operation × Nat × String)
  deriving Repr

def Summary.ofDescriptor {σ : Type} (d : Descriptor σ) : Summary :=
  ⟨d.owner, d.mode, d.callbacks.toList.map fun e =>
    (e.1, e.2.signature.arity, e.2.signature.returns.name)⟩

end Saga.Rehearsal
