import Saga.Status

/-!
# Ending operations and the answers to them

A participant may expose four operations. Whatever style its callback has, the coordinator gets
one `Termination`, which also has a form as a raw response (`Termination.toResponse`).
-/

set_option autoImplicit false

namespace Saga

/-! ## Raw responses -/

/-- A status code with an optional text body. -/
structure Response where
  status : Nat
  body : Option String
  deriving DecidableEq, Repr

namespace Response

def ofStatus (status : Nat) : Response := ⟨status, none⟩

def ok : Response := ofStatus 200
def accepted : Response := ofStatus 202
def notFound : Response := ofStatus 404
def gone : Response := ofStatus 410
def serverError : Response := ofStatus 500

/-- The code 202 says that work goes on. -/
def isAccepted (r : Response) : Bool := r.status == 202

def isSuccess (r : Response) : Bool := decide (200 ≤ r.status) && decide (r.status < 300)

end Response

/-! ## Operations -/

/-- The ending operations that a participant may expose. -/
inductive Operation where
  /-- Finalize the participant's effect. -/
  | complete
  /-- Undo the participant's effect. -/
  | compensate
  /-- Report how an earlier request is going. -/
  | status
  /-- Release what is left after the action ended. -/
  | forget
  deriving DecidableEq, Repr

namespace Operation

/-- Every operation, in the order in which they are advertised. -/
def all : List Operation := [complete, compensate, status, forget]

/-- The path segment and link relation of an operation. -/
def name : Operation → String
  | complete => "complete"
  | compensate => "compensate"
  | status => "status"
  | forget => "forget"

/-- The operation as shown when a value is inspected, and in encoded data. -/
def title : Operation → String
  | complete => "Complete"
  | compensate => "Compensate"
  | status => "Status"
  | forget => "Forget"

def ofName? (s : String) : Option Operation := all.find? fun op => op.name = s

def ofTitle? (s : String) : Option Operation := all.find? fun op => op.title = s

theorem ofName?_name (op : Operation) : ofName? op.name = some op := by cases op <;> decide

theorem ofName?_eq_some_iff {s : String} {op : Operation} : ofName? s = some op ↔ s = op.name := by
  constructor
  · intro h
    have hn := List.find?_some (p := fun o : Operation => decide (o.name = s)) h
    exact (of_decide_eq_true hn).symm
  · rintro rfl
    exact ofName?_name op

theorem mem_all (op : Operation) : op ∈ all := by cases op <;> decide

end Operation

/-- The normalized answer to an ending call. -/
inductive Termination where
  /-- The participant reported, or was mapped to, a status. -/
  | status (status : ParticipantStatus)
  /-- Work goes on; ask again later. -/
  | accepted
  /-- Succeeded with nothing to report. -/
  | done
  /-- The participant supplied a response of its own. -/
  | response (response : Response)
  deriving DecidableEq, Repr

namespace Termination

/-- Is the participant still working, as the coordinator sees it? -/
def inProgress : Termination → Bool
  | accepted => true
  | status s => s.inProgress
  | response r => r.isAccepted
  | done => false

/-- Did the participant fail to end its part? -/
def isFailure : Termination → Bool
  | status s => s == .failedToComplete || s == .failedToCancel
  | response r => !r.isSuccess
  | accepted | done => false

/-- The raw response that goes back to the coordinator. -/
def toResponse : Termination → Response
  | status s => ⟨200, some s.name⟩
  | accepted => .accepted
  | done => .ok
  | response r => r

end Termination

/-- The answer for an operation that finished without a value. -/
def Operation.success : Operation → Termination
  | complete => .status .completed
  | compensate => .status .compensated
  | status | forget => .done

/-! ## One value per operation -/

/-- At most one value for each operation. -/
structure Slots (α : Type) where
  complete : Option α
  compensate : Option α
  status : Option α
  forget : Option α
  deriving DecidableEq, Repr

namespace Slots

variable {α : Type}

def empty : Slots α := ⟨none, none, none, none⟩

def get? (t : Slots α) : Operation → Option α
  | .complete => t.complete
  | .compensate => t.compensate
  | .status => t.status
  | .forget => t.forget

def insert (t : Slots α) (op : Operation) (a : α) : Slots α :=
  match op with
  | .complete => { t with complete := some a }
  | .compensate => { t with compensate := some a }
  | .status => { t with status := some a }
  | .forget => { t with forget := some a }

/-- The operations that have a value, in the order in which they are advertised. -/
def bound (t : Slots α) : List Operation := Operation.all.filter fun op => (t.get? op).isSome

/-- The values with their operations, in the order in which they are advertised. -/
def toList (t : Slots α) : List (Operation × α) :=
  Operation.all.filterMap fun op => (t.get? op).map (op, ·)

@[simp] theorem get?_empty (op : Operation) : (empty : Slots α).get? op = none := by
  cases op <;> rfl

theorem get?_insert (t : Slots α) (op op' : Operation) (a : α) :
    (t.insert op a).get? op' = if op = op' then some a else t.get? op' := by
  cases op <;> cases op' <;> rfl

theorem ext_get? {t u : Slots α} (h : ∀ op, t.get? op = u.get? op) : t = u := by
  obtain ⟨a, b, c, d⟩ := t
  obtain ⟨a', b', c', d'⟩ := u
  have h1 := h .complete
  have h2 := h .compensate
  have h3 := h .status
  have h4 := h .forget
  simp only [get?] at h1 h2 h3 h4
  rw [h1, h2, h3, h4]

end Slots

end Saga
