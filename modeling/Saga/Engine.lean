import Saga.Locks
import Saga.Pending
import Saga.Registry

/-!
# The ending engine

One contract over every style of participant. A call for an operation without a callback succeeds
at once. A deferred answer still outstanding for the same participant and action is answered with
`accepted`; once it has arrived, the next call consumes it. Otherwise the callback is called and
its answer normalized. A deferred answer is normalized for the operation whose callback deferred
it, not for the one that asks.
-/

set_option autoImplicit false

namespace Saga

/-! ## Counters -/

/-- What the engine has done so far. -/
structure Counters where
  invocations : Nat
  noopCalls : Nat
  accepted : Nat
  pendingCreated : Nat
  pendingConsumed : Nat
  contractInconsistencies : Nat
  participantFailures : Nat
  protocolOverrides : Nat
  deriving DecidableEq, Repr

namespace Counters

def zero : Counters := ⟨0, 0, 0, 0, 0, 0, 0, 0⟩

instance : Inhabited Counters := ⟨zero⟩

def invoked (c : Counters) : Counters := { c with invocations := c.invocations + 1 }
def noop (c : Counters) : Counters := { c with noopCalls := c.noopCalls + 1 }
def outstanding (c : Counters) : Counters := { c with accepted := c.accepted + 1 }
def consumed (c : Counters) : Counters := { c with pendingConsumed := c.pendingConsumed + 1 }
def failed (c : Counters) : Counters := { c with participantFailures := c.participantFailures + 1 }
def overridden (c : Counters) : Counters := { c with protocolOverrides := c.protocolOverrides + 1 }
def inconsistent (c : Counters) : Counters :=
  { c with contractInconsistencies := c.contractInconsistencies + 1 }
def deferred (c : Counters) : Counters :=
  { c with pendingCreated := c.pendingCreated + 1, accepted := c.accepted + 1 }

end Counters

/-! ## The desk -/

/-- A deferred answer that the engine waits for or holds. -/
structure Pending where
  /-- How many deferred answers were filed before it; no two entries ever have one number. -/
  number : Nat
  cell : PendingCell
  /-- What will produce the answer, while that is still at work. -/
  producer : Option Deferred
  deriving DecidableEq, Repr

/-- The state that ending calls change. -/
structure Desk where
  pending : Table CallKey Pending
  counters : Counters

namespace Desk

def empty : Desk := ⟨∅, .zero⟩

instance : Inhabited Desk := ⟨empty⟩

def count (k : Desk) (f : Counters → Counters) : Desk := { k with counters := f k.counters }

/-- Files a deferred answer under its key. -/
def file (k : Desk) (key : CallKey) (op : Operation) (d : Deferred) : Desk :=
  { k with pending :=
      k.pending.insert key ⟨k.counters.pendingCreated, .ofOperation op, some d⟩ }

/-- Takes the entry of the key off the desk. -/
def remove (k : Desk) (key : CallKey) : Desk := { k with pending := k.pending.erase key }

end Desk

/-! ## Calls -/

/-- A request to end a participant's part of an action. -/
structure Call where
  owner : String
  operation : Operation
  id : ActionId
  parent : Option ActionId
  deriving DecidableEq, Repr

/-- The key of a call. -/
def Call.key (call : Call) : CallKey := ⟨call.owner, call.id⟩

/-- What comes back from a call. -/
inductive Reply where
  | answered (termination : Termination)
  | refused (error : CallError)
  /-- The callback broke down. -/
  | brokeDown (text : String)
  deriving DecidableEq, Repr

namespace Desk

variable {σ : Type} [Journal σ]

/-- Complains about a value of a type that was not declared. -/
def mismatch (owner : String) (op : Operation) (declared : ReturnType) (a : Answer) (s : σ) :
    Reply × σ :=
  (.refused (.contract (.unexpectedReturn owner op declared.name a.kind)),
    Journal.note (.undeclaredType owner op declared a.kind) s)

/-- The answer for a failure inside the participant. -/
def failureAnswer : Operation → Termination
  | .complete => .status .failedToComplete
  | .compensate => .status .failedToCancel
  | .status | .forget => .response .serverError

/-- The reply to an answer that is no deferred one, for the operation `op`. -/
def normalize (k : Desk) (owner : String) (op : Operation) (id : ActionId) (a : Answer) (s : σ) :
    Reply × Desk × σ :=
  match a with
  | .unit => (.answered op.success, k, s)
  | .status status => (.answered (.status status), k, s)
  | .response r => (.answered (.response r), k.count .overridden, s)
  | .deferred _ => (.answered .accepted, k, s)
  | .protocol r => (.answered (.response r), k.count .overridden, s)
  | .failed reason =>
    (.answered (failureAnswer op), k.count .failed,
      Journal.note (.callbackFailed owner op id reason) s)

/-- Calls the callback and normalizes its answer; a deferred one is filed. -/
def invoke (k : Desk) (d : Descriptor σ) (c : Callback σ) (call : Call) (s : σ) :
    Reply × Desk × σ :=
  let k := k.count .invoked
  let s := Journal.note
    (.callbackInvoked d.owner call.operation call.id c.signature.arity) s
  match c.invoke call.id call.parent s with
  | (.brokeDown text, s) => (.brokeDown text, k, s)
  | (.answered a, s) =>
    match a with
    | .failed _ | .protocol _ => k.normalize d.owner call.operation call.id a s
    | .unit | .status _ | .response _ =>
      if c.signature.returns.accepts a then k.normalize d.owner call.operation call.id a s
      else
        let (reply, s) := mismatch d.owner call.operation c.signature.returns a s
        (reply, k, s)
    | .deferred later =>
      if c.signature.returns.accepts a then
        (.answered .accepted, (k.file call.key call.operation later).count .deferred, s)
      else
        let (reply, s) := mismatch d.owner call.operation c.signature.returns a s
        (reply, k, s)

/-- The reply to a deferred answer that has arrived, created by a call for `origin`. -/
def normalizeArrived (k : Desk) (d : Descriptor σ) (origin : Operation) (call : Call) (a : Answer)
    (s : σ) : Reply × Desk × σ :=
  match a with
  | .failed _ | .protocol _ => k.normalize d.owner origin call.id a s
  | .deferred _ =>
    (.refused (.contract (.unexpectedReturn d.owner origin "a resolved value" a.kind)), k, s)
  | .unit | .status _ | .response _ =>
    match d.callback? origin with
    | none => k.normalize d.owner origin call.id a s
    | some c =>
      if c.signature.returns.resolved.accepts a then k.normalize d.owner origin call.id a s
      else
        let (reply, s) := mismatch d.owner origin c.signature.returns.resolved a s
        (reply, k, s)

/-- Serves a call for which a callback is bound. -/
def serve (k : Desk) (d : Descriptor σ) (c : Callback σ) (call : Call) (s : σ) :
    Reply × Desk × σ :=
  match k.pending.get? call.key with
  | none => k.invoke d c call s
  | some p =>
    match p.cell.take with
    | (none, _) =>
      (.answered .accepted, k.count .outstanding,
        Journal.note (.resultOutstanding call.key call.operation) s)
    | (some a, _) =>
      let k := (k.remove call.key).count .consumed
      if a.inProgress then
        (k.count .inconsistent).invoke d c call
          (Journal.note (.resultInProgress d.owner call.id) s)
      else k.normalizeArrived d p.cell.operation call a s

end Desk

/-! ## The engine -/

/-- The engine between two calls. -/
structure Engine (σ : Type) where
  registry : Registry σ
  desk : Desk
  locks : Locks

namespace Engine

variable {σ : Type}

/-- An engine that nobody has called yet. -/
def ofRegistry (registry : Registry σ) : Engine σ := ⟨registry, .empty, .empty⟩

instance : Inhabited (Engine σ) := ⟨ofRegistry .empty⟩

/-- Serves one call. -/
def serve [Journal σ] (e : Engine σ) (call : Call) (s : σ) : Reply × Engine σ × σ :=
  match e.registry.lookup call.owner with
  | .error error => (.refused error, e, s)
  | .ok d =>
    match d.callback? call.operation with
    | none =>
      (.answered call.operation.success, { e with desk := e.desk.count .noop },
        Journal.note (.nothingBound call.owner call.operation call.id) s)
    | some c =>
      let ((reply, desk, s), locks) :=
        e.locks.holding call.key fun locks => (e.desk.serve d c call s, locks)
      (reply, { e with desk := desk, locks := locks }, s)

/-- Registers a descriptor; gives the one it replaces. -/
def register [Journal σ] (e : Engine σ) (d : Descriptor σ) (s : σ) :
    Option (Descriptor σ) × Engine σ × σ :=
  let (old, registry, s) := e.registry.register d s
  (old, { e with registry := registry }, s)

/-- What can be seen of the deferred answer under a key. -/
def stateOf? (e : Engine σ) (key : CallKey) : Option CellState :=
  (e.desk.pending.get? key).map fun p => p.cell.state

/-- The number of deferred answers that are outstanding or not consumed yet. -/
def pendingSize (e : Engine σ) : Nat := e.desk.pending.size

/-! ## Deferred answers arrive -/

/-- Would the handle `t` reach anything that the engine waits for or holds? -/
def awaits (e : Engine σ) (t : Ticket) : Bool :=
  e.desk.pending.values.any fun p =>
    (match p.producer with
      | some d => d.awaits t
      | none => false) ||
    match p.cell.value with
    | some a => a.awaits t
    | none => false

/-- The handle `t` is used to hand in `a`. -/
def fulfil (e : Engine σ) (t : Ticket) (a : Answer) : Engine σ :=
  { e with desk.pending := e.desk.pending.mapValues fun p =>
      { p with cell := p.cell.fulfil t a, producer := p.producer.map (Deferred.fulfil t a) } }

end Engine

/-- One entry when its producer gets its turn: an answer that is there goes into the cell. -/
def Pending.advance {σ : Type} [Journal σ] (key : CallKey) (p : Pending) (s : σ) :
    Pending × σ :=
  match p.producer with
  | some (.ready a) =>
    match p.cell.resolve a with
    | (true, cell) =>
      ({ p with cell := cell, producer := none }, Journal.note (.resultArrived key) s)
    | (false, cell) =>
      ({ p with cell := cell, producer := none }, Journal.note (.resultArrivedTwice key) s)
  | some .lost => ({ p with producer := none }, s)
  | some (.awaiting _) | none => (p, s)

/-- The producers of all keys in `keys` get their turn. -/
def Desk.advance {σ : Type} [Journal σ] : List CallKey → Desk → σ → Desk × σ
  | [], k, s => (k, s)
  | key :: keys, k, s =>
    match k.pending.get? key with
    | none => advance keys k s
    | some p =>
      let (p, s) := p.advance key s
      advance keys { k with pending := k.pending.insert key p } s

/-- Every producer gets its turn, the oldest first. -/
def Engine.settle {σ : Type} [Journal σ] (e : Engine σ) (s : σ) : Engine σ × σ :=
  let (desk, s) := e.desk.advance e.desk.pending.keys s
  ({ e with desk := desk }, s)

end Saga
