import Saga.Engine

/-!
# What serving a call does

The reply to a call depends on its state only through the answer it is made from:
`Operation.replyTo` for an answer that is none of a deferred one, `Callback.outcomeReply` for the
outcome of a callback just called (`invoke_reply`), `Descriptor.arrivedReply` for a deferred answer
that has arrived (`normalizeArrived_reply`). Only calling a callback files anything on the desk
(`invoke_filed`, `invoke_alike`, `normalizeArrived_alike`). `serve_none`, `serve_outstanding` and
`serve_arrived` tell the three ways a call for a bound callback can go by the entry of its key.
-/

set_option autoImplicit false

namespace Saga

/-! ## Replies -/

/-- The reply to an answer, given for `op`. -/
def Operation.replyTo (op : Operation) : Answer → Reply
  | .unit => .answered op.success
  | .status st => .answered (.status st)
  | .response r | .protocol r => .answered (.response r)
  | .deferred _ => .answered .accepted
  | .failed _ => .answered (Desk.failureAnswer op)

/-- The complaint about an answer of a type that was not declared. -/
def Reply.undeclared (owner : String) (op : Operation) (declared : String) (a : Answer) : Reply :=
  .refused (.contract (.unexpectedReturn owner op declared a.kind))

/-- The reply to the outcome of a callback called for `op`. -/
def Callback.outcomeReply {σ : Type} (c : Callback σ) (owner : String) (op : Operation) :
    Outcome → Reply
  | .brokeDown text => .brokeDown text
  | .answered (.failed reason) => op.replyTo (.failed reason)
  | .answered (.protocol r) => op.replyTo (.protocol r)
  | .answered a =>
    if c.signature.returns.accepts a then op.replyTo a
    else .undeclared owner op c.signature.returns.name a

/-- The deferred answer that an outcome leaves to wait for, if its type was declared. -/
def Callback.deferral? {σ : Type} (c : Callback σ) : Outcome → Option Deferred
  | .answered (.deferred later) =>
    if c.signature.returns.accepts (.deferred later) then some later else none
  | _ => none

/-- The reply to a deferred answer that has arrived, created by a call for `origin`. -/
def Descriptor.arrivedReply {σ : Type} (d : Descriptor σ) (origin : Operation) : Answer → Reply
  | .failed reason => origin.replyTo (.failed reason)
  | .protocol r => origin.replyTo (.protocol r)
  | .deferred later => .undeclared d.owner origin "a resolved value" (.deferred later)
  | a =>
    match d.callback? origin with
    | none => origin.replyTo a
    | some c =>
      if c.signature.returns.resolved.accepts a then origin.replyTo a
      else .undeclared d.owner origin c.signature.returns.resolved.name a

/-! ## The desk -/

namespace Desk

@[simp] theorem count_pending (k : Desk) (f : Counters → Counters) :
    (k.count f).pending = k.pending := rfl

@[simp] theorem count_counters (k : Desk) (f : Counters → Counters) :
    (k.count f).counters = f k.counters := rfl

@[simp] theorem file_pending (k : Desk) (key : CallKey) (op : Operation) (later : Deferred) :
    (k.file key op later).pending =
      k.pending.insert key ⟨k.counters.pendingCreated, .ofOperation op, some later⟩ := rfl

@[simp] theorem file_counters (k : Desk) (key : CallKey) (op : Operation) (later : Deferred) :
    (k.file key op later).counters = k.counters := rfl

@[simp] theorem remove_pending (k : Desk) (key : CallKey) :
    (k.remove key).pending = k.pending.erase key := rfl

@[simp] theorem remove_counters (k : Desk) (key : CallKey) :
    (k.remove key).counters = k.counters := rfl

/-- `k'` is `k` but for counts that do not concern deferred answers. -/
structure Alike (k k' : Desk) : Prop where
  pending : k'.pending = k.pending
  created : k'.counters.pendingCreated = k.counters.pendingCreated
  consumed : k'.counters.pendingConsumed = k.counters.pendingConsumed

theorem Alike.trans {k k' k'' : Desk} (h : k.Alike k') (h' : k'.Alike k'') : k.Alike k'' :=
  ⟨h'.pending.trans h.pending, h'.created.trans h.created, h'.consumed.trans h.consumed⟩

variable {σ : Type} [Journal σ] (k : Desk) (d : Descriptor σ) (c : Callback σ) (call : Call) (s : σ)

theorem normalize_reply (owner : String) (op : Operation) (id : ActionId) (a : Answer) :
    (k.normalize owner op id a s).1 = op.replyTo a := by
  cases a <;> rfl

theorem normalize_alike (owner : String) (op : Operation) (id : ActionId) (a : Answer) :
    k.Alike (k.normalize owner op id a s).2.1 := by
  cases a <;> exact ⟨rfl, rfl, rfl⟩

/-- The state in which a callback is called. -/
abbrev announce : σ :=
  Journal.note (.callbackInvoked d.owner call.operation call.id c.signature.arity) s

/-- What the callback says when it is called. -/
abbrev outcome : Outcome := (c.invoke call.id call.parent (announce d c call s)).1

theorem invoke_reply :
    (k.invoke d c call s).1 = c.outcomeReply d.owner call.operation (outcome d c call s) := by
  unfold outcome
  rcases h : c.invoke call.id call.parent (announce d c call s) with ⟨o, s'⟩
  simp only [invoke, h]
  cases o with
  | brokeDown text => rfl
  | answered a =>
    cases a <;> simp only [Callback.outcomeReply, normalize_reply] <;> split <;>
      simp [normalize_reply, mismatch, Reply.undeclared, Operation.replyTo]

/-- A callback that answers with a deferred answer of its declared type has it filed. -/
theorem invoke_filed {later : Deferred} (h : c.deferral? (outcome d c call s) = some later) :
    (k.invoke d c call s).2.1 =
      ((k.count .invoked).file call.key call.operation later).count .deferred := by
  unfold outcome at h
  rcases hi : c.invoke call.id call.parent (announce d c call s) with ⟨o, s'⟩
  rw [hi] at h
  unfold Callback.deferral? at h
  split at h
  · split at h
    · rename_i later' ho ha
      cases h
      simp only at ho
      subst ho
      simp only [invoke, hi, ha, if_true]
    · cases h
  · cases h

theorem invoke_alike (h : c.deferral? (outcome d c call s) = none) :
    k.Alike (k.invoke d c call s).2.1 := by
  unfold outcome at h
  rcases hi : c.invoke call.id call.parent (announce d c call s) with ⟨o, s'⟩
  rw [hi] at h
  have hc : k.Alike (k.count .invoked) := ⟨rfl, rfl, rfl⟩
  simp only [invoke, hi]
  cases o with
  | brokeDown text => exact hc
  | answered a =>
    cases a with
    | failed _ | protocol _ =>
      dsimp only
      exact hc.trans (normalize_alike ..)
    | unit | status _ | response _ =>
      dsimp only
      split
      · exact hc.trans (normalize_alike ..)
      · exact hc
    | deferred later =>
      have ha : ¬ c.signature.returns.accepts (.deferred later) = true := fun ha => by
        simp [Callback.deferral?, ha] at h
      dsimp only
      rw [if_neg ha]
      exact hc

theorem invoke_pending :
    (k.invoke d c call s).2.1.pending =
      match c.deferral? (outcome d c call s) with
      | some later => k.pending.insert call.key
          ⟨k.counters.pendingCreated, .ofOperation call.operation, some later⟩
      | none => k.pending := by
  cases h : c.deferral? (outcome d c call s) with
  | none => exact (invoke_alike k d c call s h).pending
  | some later =>
    rw [invoke_filed k d c call s h]
    rfl

theorem invoke_pendingCreated :
    (k.invoke d c call s).2.1.counters.pendingCreated =
      k.counters.pendingCreated + (c.deferral? (outcome d c call s)).toList.length := by
  cases h : c.deferral? (outcome d c call s) with
  | none => exact (invoke_alike k d c call s h).created
  | some later =>
    rw [invoke_filed k d c call s h]
    rfl

variable (origin : Operation) (a : Answer)

theorem normalizeArrived_reply :
    (k.normalizeArrived d origin call a s).1 = d.arrivedReply origin a := by
  cases a <;> simp only [normalizeArrived, Descriptor.arrivedReply, normalize_reply] <;>
    first
    | rfl
    | cases d.callback? origin with
      | none => exact normalize_reply ..
      | some c => simp only; split <;> simp_all [normalize_reply, mismatch, Reply.undeclared]

theorem normalizeArrived_alike : k.Alike (k.normalizeArrived d origin call a s).2.1 := by
  cases a with
  | failed _ | protocol _ => exact normalize_alike ..
  | deferred _ => exact ⟨rfl, rfl, rfl⟩
  | unit | status _ | response _ =>
    simp only [normalizeArrived]
    cases d.callback? origin with
    | none => exact normalize_alike ..
    | some c =>
      dsimp only
      split
      · exact normalize_alike ..
      · exact ⟨rfl, rfl, rfl⟩

theorem normalizeArrived_pending :
    (k.normalizeArrived d origin call a s).2.1.pending = k.pending :=
  (normalizeArrived_alike ..).pending

theorem normalizeArrived_pendingCreated :
    (k.normalizeArrived d origin call a s).2.1.counters.pendingCreated =
      k.counters.pendingCreated :=
  (normalizeArrived_alike ..).created

/-! ## A call for a bound callback -/

theorem serve_none (h : k.pending.get? call.key = none) :
    k.serve d c call s = k.invoke d c call s := by
  simp [serve, h]

theorem serve_outstanding {p : Pending} (h : k.pending.get? call.key = some p)
    (hp : p.cell.take.1 = none) :
    k.serve d c call s =
      (.answered .accepted, k.count .outstanding,
        Journal.note (.resultOutstanding call.key call.operation) s) := by
  rcases ht : p.cell.take with ⟨_ | _, cell⟩ <;> simp_all [serve]

theorem serve_arrived {p : Pending} {a : Answer} (h : k.pending.get? call.key = some p)
    (hp : p.cell.take.1 = some a) (ha : a.inProgress = false) :
    k.serve d c call s =
      ((k.remove call.key).count .consumed).normalizeArrived d p.cell.operation call a s := by
  rcases ht : p.cell.take with ⟨_ | _, cell⟩ <;> simp_all [serve]

theorem serve_inProgress {p : Pending} {a : Answer} (h : k.pending.get? call.key = some p)
    (hp : p.cell.take.1 = some a) (ha : a.inProgress = true) :
    k.serve d c call s =
      (((k.remove call.key).count .consumed).count .inconsistent).invoke d c call
        (Journal.note (.resultInProgress d.owner call.id) s) := by
  rcases ht : p.cell.take with ⟨_ | _, cell⟩ <;> simp_all [serve]

end Desk

/-! ## The engine -/

/-- The locks after a caller has held the lock of `key` and let it go. -/
def Locks.visited (l : Locks) (key : CallKey) : Locks := (l.holding key fun l => ((), l)).2

theorem Locks.holding_pure {α : Type} (l : Locks) (key : CallKey) (a : α) :
    l.holding key (fun l => (a, l)) = (a, l.visited key) := rfl

namespace Engine

variable {σ : Type} [Journal σ] {e : Engine σ} {call : Call} {s : σ} {d : Descriptor σ}
  {c : Callback σ}

theorem serve_unknown {error : CallError} (h : e.registry.lookup call.owner = .error error) :
    e.serve call s = (.refused error, e, s) := by
  simp [serve, h]

theorem serve_unbound (h : e.registry.lookup call.owner = .ok d)
    (hc : d.callback? call.operation = none) :
    e.serve call s = (.answered call.operation.success, { e with desk := e.desk.count .noop },
      Journal.note (.nothingBound call.owner call.operation call.id) s) := by
  simp [serve, h, hc]

theorem serve_bound (h : e.registry.lookup call.owner = .ok d)
    (hc : d.callback? call.operation = some c) :
    e.serve call s =
      ((e.desk.serve d c call s).1,
        { e with desk := (e.desk.serve d c call s).2.1, locks := e.locks.visited call.key },
        (e.desk.serve d c call s).2.2) := by
  simp [serve, h, hc, Locks.holding_pure]

theorem serve_registry (e : Engine σ) (call : Call) (s : σ) :
    (e.serve call s).2.1.registry = e.registry := by
  cases h : e.registry.lookup call.owner with
  | error error => rw [serve_unknown h]
  | ok d =>
    cases hc : d.callback? call.operation with
    | none => rw [serve_unbound h hc]
    | some c => rw [serve_bound h hc]

end Engine

end Saga
