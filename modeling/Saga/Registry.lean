import Saga.Event
import Saga.Participant
import Saga.Table

/-!
# The catalogue of participants

Descriptors by the name of their owner. Discovery checks a whole batch before it registers any of
it, so one bad candidate leaves the catalogue as it was; of several registrations for one owner
the last counts.
-/

set_option autoImplicit false

namespace Saga

/-- Checks a batch: the descriptors of its participants, or the first breach of the contract. -/
def discover {σ τ : Type} [Journal τ] :
    List (Declaration σ) → τ → Except ContractError (List (Descriptor σ)) × τ
  | [], s => (.ok [], s)
  | c :: batch, s =>
    match Descriptor.ofDeclaration c with
    | .error e => (.error e, Journal.note (.contractBroken c.owner e) s)
    | .ok none => discover batch (Journal.note (.candidateSkipped c.owner) s)
    | .ok (some d) =>
      match discover batch s with
      | (.ok ds, s) => (.ok (d :: ds), s)
      | (.error e, s) => (.error e, s)

/-- The participants that are known. -/
structure Registry (σ : Type) where
  participants : Table String (Descriptor σ)

namespace Registry

variable {σ τ : Type}

def empty : Registry σ := ⟨∅⟩

instance : Inhabited (Registry σ) := ⟨empty⟩

def lookup (r : Registry σ) (owner : String) : Except CallError (Descriptor σ) :=
  match r.participants.get? owner with
  | some d => .ok d
  | none => .error (.notFound owner)

/-- The registry with the descriptor under its owner's name. -/
def put (r : Registry σ) (d : Descriptor σ) : Registry σ := ⟨r.participants.insert d.owner d⟩

/-- Registers a descriptor; gives the one it replaces. -/
def register [Journal τ] (r : Registry σ) (d : Descriptor σ) (s : τ) :
    Option (Descriptor σ) × Registry σ × τ :=
  match r.participants.get? d.owner with
  | some old => (some old, r.put d, Journal.note (.participantReplaced d.owner) s)
  | none => (none, r.put d, Journal.note (.participantRegistered d.owner) s)

/-- Registers one descriptor after the other; gives what each replaced. -/
def registerAll [Journal τ] (r : Registry σ) :
    List (Descriptor σ) → τ → List (Option (Descriptor σ)) × Registry σ × τ
  | [], s => ([], r, s)
  | d :: ds, s =>
    let (old, r, s) := r.register d s
    let (olds, r, s) := registerAll r ds s
    (old :: olds, r, s)

/-- Checks a batch and registers all of it; gives how many were registered. -/
def discover [Journal τ] (r : Registry σ) (batch : List (Declaration σ)) (s : τ) :
    Except ContractError Nat × Registry σ × τ :=
  match Saga.discover batch s with
  | (.error e, s) => (.error e, r, s)
  | (.ok ds, s) =>
    let (_, r, s) := r.registerAll ds s
    (.ok ds.length, r, s)

def owners (r : Registry σ) : List String := r.participants.keys.mergeSort fun a b => decide (a ≤ b)

def size (r : Registry σ) : Nat := r.participants.size

end Registry

end Saga
