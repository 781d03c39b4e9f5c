import Saga.Proofs.Engine.Serving
import Saga.Proofs.Record

/-!
# Which callbacks are called

`Engine.invocations e call s` are the callbacks that serving a call calls, in order, each with its
arguments and its outcome. They are read off the record that the callbacks themselves keep when
every one of them is made to write its calls down (`Callback.watched`). Watching changes nothing
else: `serve_watched`.
-/

set_option autoImplicit false

namespace Saga

/-- One call of a callback. -/
structure Invocation (σ : Type) where
  owner : String
  operation : Operation
  callback : Callback σ
  args : Arguments
  outcome : Outcome

/-- A state with a record of the callbacks called. -/
abbrev Watched (σ : Type) := Recorded (Invocation σ) σ

variable {σ : Type}

/-- The callback, made to write its calls down. -/
def Callback.watched (owner : String) (op : Operation) (c : Callback σ) : Callback (Watched σ) where
  signature := c.signature
  handler := fun args => Recorded.act (c.handler args) fun o => [⟨owner, op, c, args, o⟩]

/-- The descriptor with all its callbacks watched. -/
def Descriptor.watched (d : Descriptor σ) : Descriptor (Watched σ) where
  owner := d.owner
  mode := d.mode
  callbacks :=
    { complete := d.callbacks.complete.map (Callback.watched d.owner .complete)
      compensate := d.callbacks.compensate.map (Callback.watched d.owner .compensate)
      status := d.callbacks.status.map (Callback.watched d.owner .status)
      forget := d.callbacks.forget.map (Callback.watched d.owner .forget) }

/-- The registry with all its callbacks watched. -/
def Registry.watched (r : Registry σ) : Registry (Watched σ) :=
  ⟨r.participants.mapValues Descriptor.watched⟩

/-- The engine with all callbacks of its participants watched. -/
def Engine.watched (e : Engine σ) : Engine (Watched σ) := ⟨e.registry.watched, e.desk, e.locks⟩

theorem Descriptor.callback?_watched (d : Descriptor σ) (op : Operation) :
    d.watched.callback? op = (d.callback? op).map (Callback.watched d.owner op) := by
  cases op <;> rfl

theorem Engine.lookup_watched (e : Engine σ) (owner : String) :
    e.watched.registry.lookup owner = (e.registry.lookup owner).map Descriptor.watched := by
  simp only [watched, Registry.watched, Registry.lookup, Table.get?_mapValues]
  cases e.registry.participants.get? owner <;> rfl

/-- The callbacks called while a call is served. -/
def Engine.invocations [Journal σ] (e : Engine σ) (call : Call) (s : σ) : List (Invocation σ) :=
  (e.watched.serve call ⟨[], s⟩).2.2.log

/-! ## The desk, watched -/

namespace Desk

variable [Journal σ] (k : Desk) (d : Descriptor σ) (c : Callback σ) (call : Call) (w : Watched σ)

/-- The record of the one call of a callback made for `call`. -/
def invocation (s : σ) : Invocation σ :=
  ⟨d.owner, call.operation, c, .ofArity c.signature.arity call.id call.parent, outcome d c call s⟩

@[simp] theorem invocation_outcome (s : σ) :
    (invocation d c call s).outcome = outcome d c call s := rfl

/-- The callbacks called while a call for a bound callback is served. -/
def called (s : σ) : List (Invocation σ) :=
  match k.pending.get? call.key with
  | none => [invocation d c call s]
  | some p =>
    match p.cell.take.1 with
    | none => []
    | some a =>
      if a.inProgress then
        [invocation d c call (Journal.note (.resultInProgress d.owner call.id) s)]
      else []

theorem invoke_watched :
    k.invoke d.watched (c.watched d.owner call.operation) call w =
      ((k.invoke d c call w.state).1, (k.invoke d c call w.state).2.1,
        ⟨w.log ++ [invocation d c call w.state], (k.invoke d c call w.state).2.2⟩) := by
  have hw : (c.watched d.owner call.operation).invoke call.id call.parent
      (announce d.watched (c.watched d.owner call.operation) call w) =
        (outcome d c call w.state, ⟨w.log ++ [invocation d c call w.state],
          (c.invoke call.id call.parent (announce d c call w.state)).2⟩) := rfl
  unfold invocation outcome at *
  rcases h : c.invoke call.id call.parent (announce d c call w.state) with ⟨o, s'⟩
  simp only [h] at hw
  simp only [invoke, h, hw]
  cases o with
  | brokeDown text => rfl
  | answered a =>
    by_cases ha : c.signature.returns.accepts a = true <;>
      cases a <;> simp only [Callback.watched, ha, if_true] <;> rfl

theorem normalizeArrived_watched (origin : Operation) (a : Answer) :
    k.normalizeArrived d.watched origin call a w =
      ((k.normalizeArrived d origin call a w.state).1,
        (k.normalizeArrived d origin call a w.state).2.1,
        ⟨w.log, (k.normalizeArrived d origin call a w.state).2.2⟩) := by
  cases h : d.callback? origin with
  | none => cases a <;> simp only [normalizeArrived, Descriptor.callback?_watched, h] <;> rfl
  | some c =>
    by_cases ha : c.signature.returns.resolved.accepts a = true <;>
      cases a <;> simp only [normalizeArrived, Descriptor.callback?_watched, h, Option.map_some,
        Callback.watched, ha, if_true] <;> rfl

theorem serve_watched :
    k.serve d.watched (c.watched d.owner call.operation) call w =
      ((k.serve d c call w.state).1, (k.serve d c call w.state).2.1,
        ⟨w.log ++ k.called d c call w.state, (k.serve d c call w.state).2.2⟩) := by
  cases hk : k.pending.get? call.key with
  | none => simp only [serve, called, hk, invoke_watched]
  | some p =>
    rcases ht : p.cell.take with ⟨_ | a, cell⟩
    · simp only [serve, called, hk, ht, List.append_nil]
      rfl
    · by_cases ha : a.inProgress = true
      · simp only [serve, called, hk, ht, ha, if_true]
        exact invoke_watched ..
      · simp only [serve, called, hk, ht, ha]
        simp [normalizeArrived_watched]

end Desk

/-! ## The engine, watched -/

namespace Engine

variable [Journal σ] {e : Engine σ} {call : Call} {d : Descriptor σ} {c : Callback σ}

theorem serve_watched_bound (h : e.registry.lookup call.owner = .ok d)
    (hc : d.callback? call.operation = some c) (w : Watched σ) :
    e.watched.serve call w =
      ((e.serve call w.state).1, (e.serve call w.state).2.1.watched,
        ⟨w.log ++ e.desk.called d c call w.state, (e.serve call w.state).2.2⟩) := by
  have hw : e.watched.registry.lookup call.owner = .ok d.watched := by rw [lookup_watched, h]; rfl
  have hcw : d.watched.callback? call.operation = some (c.watched d.owner call.operation) := by
    rw [Descriptor.callback?_watched, hc]; rfl
  rw [serve_bound hw hcw, serve_bound h hc, watched, Desk.serve_watched]
  rfl

/-- The callbacks that a call for a bound callback calls. -/
theorem invocations_bound (h : e.registry.lookup call.owner = .ok d)
    (hc : d.callback? call.operation = some c) (s : σ) :
    e.invocations call s = e.desk.called d c call s := by
  rw [invocations, serve_watched_bound h hc]
  rfl

/-- Watching changes nothing but the record. -/
theorem serve_watched (e : Engine σ) (call : Call) (w : Watched σ) :
    e.watched.serve call w =
      ((e.serve call w.state).1, (e.serve call w.state).2.1.watched,
        ⟨w.log ++ e.invocations call w.state, (e.serve call w.state).2.2⟩) := by
  cases h : e.registry.lookup call.owner with
  | error error =>
    have hw : e.watched.registry.lookup call.owner = .error error := by rw [lookup_watched, h]; rfl
    simp [invocations, serve_unknown hw, serve_unknown h]
  | ok d =>
    cases hc : d.callback? call.operation with
    | none =>
      have hw : e.watched.registry.lookup call.owner = .ok d.watched := by
        rw [lookup_watched, h]; rfl
      have hcw : d.watched.callback? call.operation = none := by
        rw [Descriptor.callback?_watched, hc]; rfl
      simp only [invocations, serve_unbound hw hcw, serve_unbound h hc, Recorded.note_eq,
        List.append_nil]
      rfl
    | some c => rw [serve_watched_bound h hc, invocations_bound h hc]

end Engine

end Saga
