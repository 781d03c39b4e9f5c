import Saga.Context.Headers

/-!
# Requests to the context

What a computation may ask of the context of its chain, and what it is answered (`Scopes.perform`).
A request looks at the innermost chain and changes no other (`perform_cons`): `Request.reply` is the
answer from a chain and `Request.turn` what becomes of it. Outside every chain a request is answered
and changes nothing (`perform_nil`).
-/

set_option autoImplicit false

namespace Saga.Scopes

/-- What may be asked of the context, with scratch values of type `α` whose kinds are `κ`. -/
inductive Request (α κ : Type) where
  | push (id : ActionId)
  | pop
  | remove (id : ActionId)
  | reset
  | clear (headers : Headers)
  | receive (headers : Headers)
  | store (key : String) (value : α)
  | load (kind : κ) (key : String)
  | peek
  | active

/-- What comes of a request. -/
inductive Reply (α : Type) where
  | pushed (result : Except ScopeError Unit)
  | popped (result : Except ScopeError ActionId)
  | removed (wasActive : Bool)
  | done
  | cleared (headers : Headers)
  | received (result : Except ScopeError (List ActionId))
  | stored (there : Bool)
  | loaded (value : Option α)
  | innermost (id : Option ActionId)
  | ids (ids : List ActionId)

variable {α κ τ : Type} [DecidableEq κ] [HasKind α κ] [Journal τ]

/-- One request of a caller in some scopes. -/
def perform (q : Request α κ) (s : Scopes α) (j : τ) : Reply α × Scopes α × τ :=
  match q with
  | .push id =>
    let (result, s) := s.push id
    (.pushed result, s, j)
  | .pop =>
    let (result, s) := s.pop
    (.popped result, s, j)
  | .remove id =>
    let (wasActive, s) := s.remove id
    (.removed wasActive, s, j)
  | .reset => (.done, s.reset, j)
  | .clear headers =>
    let (headers, s) := s.clear headers
    (.cleared headers, s, j)
  | .receive headers =>
    let (result, s, j) := s.receive headers j
    (.received result, s, j)
  | .store key value =>
    let (there, s) := s.store key value
    (.stored there, s, j)
  | .load kind key => (.loaded (s.load kind key), s, j)
  | .peek => (.innermost s.peek, s, j)
  | .active => (.ids s.active, s, j)

namespace Request

/-- What becomes of the chain that a request is made in. -/
def turn (q : Request α κ) (c : Chain α) : Chain α :=
  match q with
  | .push id => c.push id
  | .pop => c.pop.2
  | .remove id => (c.remove id).2
  | .reset | .clear _ => none
  | .receive headers =>
    match headers.readContext with
    | .ok ids => ids.foldl Chain.push c
    | .error _ => c
  | .store key value => (c.store key value).2
  | .load .. | .peek | .active => c

/-- What a request made in a chain is answered. -/
def reply (q : Request α κ) (c : Chain α) : Reply α :=
  match q with
  | .push _ => .pushed (.ok ())
  | .pop => .popped c.pop.1
  | .remove id => .removed (c.remove id).1
  | .reset => .done
  | .clear headers => .cleared (headers.remove Headers.contextName)
  | .receive headers => .received headers.readContext
  | .store key value => .stored (c.store key value).1
  | .load kind key => .loaded (c.load kind key)
  | .peek => .innermost c.peek
  | .active => .ids c.active

end Request

theorem pushAll_cons (ids : List ActionId) (c : Chain α) (cs : Scopes α) :
    pushAll ids (c :: cs) = (.ok (), ids.foldl Chain.push c :: cs) := by
  induction ids generalizing c with
  | nil => rfl
  | cons id ids ih => exact ih (c.push id)

omit [DecidableEq κ] [HasKind α κ] in
theorem receive_cons (h : Headers) (c : Chain α) (cs : Scopes α) (j : τ) :
    ∃ j', receive h (c :: cs) j =
      (h.readContext, (Request.receive h : Request α κ).turn c :: cs, j') := by
  cases hr : h.readContext with
  | error e => exact ⟨j, by simp [receive, hr, Request.turn]⟩
  | ok ids =>
    simp only [receive, hr, pushAll_cons, Request.turn]
    cases ids.getLast? with
    | none => exact ⟨_, rfl⟩
    | some id => exact ⟨_, rfl⟩

/-- A request is answered from the innermost chain, and no other changes. -/
theorem perform_cons (q : Request α κ) (c : Chain α) (cs : Scopes α) (j : τ) :
    ∃ j', perform q (c :: cs) j = (q.reply c, q.turn c :: cs, j') := by
  cases q with
  | receive h =>
    obtain ⟨j', hj⟩ := receive_cons (κ := κ) h c cs j
    exact ⟨j', by rw [perform, hj]; rfl⟩
  | _ => exact ⟨j, rfl⟩

/-- Outside every chain there is nothing to change. -/
theorem perform_nil (q : Request α κ) :
    ∃ r, ∀ j : τ, ∃ j', perform q ([] : Scopes α) j = (r, [], j') := by
  cases q with
  | receive h =>
    cases hr : h.readContext with
    | error e => exact ⟨_, fun j => ⟨_, by rw [perform, receive, hr]⟩⟩
    | ok ids =>
      cases ids with
      | nil => exact ⟨_, fun j => ⟨_, by rw [perform, receive, hr]; rfl⟩⟩
      | cons id ids => exact ⟨_, fun j => ⟨_, by rw [perform, receive, hr]; rfl⟩⟩
  | _ => exact ⟨_, fun j => ⟨j, rfl⟩⟩

end Saga.Scopes
