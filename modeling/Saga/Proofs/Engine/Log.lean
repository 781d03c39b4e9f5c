import Saga.Proofs.Engine.Filing

/-!
# The calls of a run

A call goes one of five ways (`Engine.Way`, `Engine.way`): nobody is registered under the name;
nothing is bound to the operation; a deferred answer is outstanding; one has arrived and is handed
back; or the callback is called, on a key that is free or was just freed (`Desk.Freed`).
`Run.log r n` lists the calls before deed `n`, each with its reply and the callbacks it called.
-/

set_option autoImplicit false

namespace Saga

variable {σ : Type} [Journal σ]

/-! ## The ways a call can go -/

/-- Nothing is filed under the key of the call, or an arrived answer that says that work goes on has
just been taken off. The callback is about to be called with the desk `k'` and the state `s'`. -/
inductive Desk.Freed (k : Desk) (d : Descriptor σ) (call : Call) (s : σ) : Desk → σ → Prop
  | free : k.pending.get? call.key = none → Freed k d call s k s
  | taken (p : Pending) (a : Answer) : k.pending.get? call.key = some p →
    p.cell.take.1 = some a → a.inProgress = true →
    Freed k d call s (((k.remove call.key).count .consumed).count .inconsistent)
      (Journal.note (.resultInProgress d.owner call.id) s)

namespace Engine

/-- What the engine leaves when the desk has served a call. -/
def closing (e : Engine σ) (call : Call) (out : Reply × Desk × σ) : Reply × Engine σ × σ :=
  (out.1, { e with desk := out.2.1, locks := e.locks.visited call.key }, out.2.2)

/-- The ways in which the engine can serve a call. -/
inductive Way (e : Engine σ) (call : Call) (s : σ) : Prop
  | unknown (error : CallError) (look : e.registry.lookup call.owner = .error error)
    (serve : e.serve call s = (.refused error, e, s)) (none : e.invocations call s = [])
  | unbound (d : Descriptor σ) (look : e.registry.lookup call.owner = .ok d)
    (serve : e.serve call s = (.answered call.operation.success,
      { e with desk := e.desk.count .noop },
      Journal.note (.nothingBound call.owner call.operation call.id) s))
    (none : e.invocations call s = [])
  | outstanding (d : Descriptor σ) (c : Callback σ) (p : Pending) (asks : e.Asks call d c)
    (filed : e.desk.pending.get? call.key = some p) (waits : p.cell.take.1 = .none)
    (serve : e.serve call s = e.closing call (.answered .accepted, e.desk.count .outstanding,
      Journal.note (.resultOutstanding call.key call.operation) s))
    (none : e.invocations call s = [])
  | arrived (d : Descriptor σ) (c : Callback σ) (p : Pending) (a : Answer) (asks : e.Asks call d c)
    (filed : e.desk.pending.get? call.key = some p) (takes : p.cell.take.1 = some a)
    (final : a.inProgress = false)
    (serve : e.serve call s = e.closing call
      (((e.desk.remove call.key).count .consumed).normalizeArrived d p.cell.operation call a s))
    (none : e.invocations call s = [])
  | called (d : Descriptor σ) (c : Callback σ) (k : Desk) (s' : σ) (asks : e.Asks call d c)
    (freed : e.desk.Freed d call s k s')
    (serve : e.serve call s = e.closing call (k.invoke d c call s'))
    (one : e.invocations call s = [Desk.invocation d c call s'])

theorem invocations_unknown {e : Engine σ} {call : Call} {error : CallError}
    (h : e.registry.lookup call.owner = .error error) (s : σ) : e.invocations call s = [] := by
  have hw : e.watched.registry.lookup call.owner = .error error := by rw [lookup_watched, h]; rfl
  rw [invocations, serve_unknown hw]

theorem invocations_unbound {e : Engine σ} {call : Call} {d : Descriptor σ}
    (h : e.registry.lookup call.owner = .ok d) (hc : d.callback? call.operation = none) (s : σ) :
    e.invocations call s = [] := by
  have hw : e.watched.registry.lookup call.owner = .ok d.watched := by rw [lookup_watched, h]; rfl
  have hcw : d.watched.callback? call.operation = none := by
    rw [Descriptor.callback?_watched, hc]
    rfl
  rw [invocations, serve_unbound hw hcw]
  rfl

theorem way (e : Engine σ) (call : Call) (s : σ) : e.Way call s := by
  cases h : e.registry.lookup call.owner with
  | error error => exact .unknown error h (serve_unknown h) (invocations_unknown h s)
  | ok d =>
    cases hc : d.callback? call.operation with
    | none => exact .unbound d h (serve_unbound h hc) (invocations_unbound h hc s)
    | some c =>
      have ha : e.Asks call d c := ⟨h, hc⟩
      have hs := serve_bound h hc (s := s)
      have hi := invocations_bound h hc s
      cases hp : e.desk.pending.get? call.key with
      | none =>
        rw [Desk.serve_none _ _ _ _ _ hp] at hs
        exact .called d c e.desk s ha (.free hp) hs (by rw [hi, Desk.called, hp])
      | some p =>
        cases ht : p.cell.take.1 with
        | none =>
          rw [Desk.serve_outstanding _ _ _ _ _ hp ht] at hs
          exact .outstanding d c p ha hp ht hs (by simp only [hi, Desk.called, hp, ht])
        | some a =>
          cases hf : a.inProgress with
          | false =>
            rw [Desk.serve_arrived _ _ _ _ _ hp ht hf] at hs
            exact .arrived d c p a ha hp ht hf hs (by simp [hi, Desk.called, hp, ht, hf])
          | true =>
            rw [Desk.serve_inProgress _ _ _ _ _ hp ht hf] at hs
            exact .called d c _ _ ha (.taken p a hp ht hf) hs
              (by simp only [hi, Desk.called, hp, ht, hf, if_true])

end Engine

/-! ## The log -/

/-- One call, as it was served. -/
structure Serving (σ : Type) where
  call : Call
  /-- Is somebody registered under the name? -/
  known : Bool
  reply : Reply
  invocations : List (Invocation σ)

namespace Engine

/-- What there is to see of a call. -/
def serving (e : Engine σ) (call : Call) (s : σ) : Serving σ :=
  ⟨call, (e.registry.participants.get? call.owner).isSome, (e.serve call s).1,
    e.invocations call s⟩

theorem serving_known {e : Engine σ} {call : Call} {s : σ} {d : Descriptor σ}
    (h : e.registry.lookup call.owner = .ok d) : (e.serving call s).known = true := by
  unfold Registry.lookup at h
  unfold serving
  split at h
  · rename_i hp
    simp [hp]
  · cases h

theorem serving_unknown {e : Engine σ} {call : Call} {s : σ} {error : CallError}
    (h : e.registry.lookup call.owner = .error error) : (e.serving call s).known = false := by
  unfold Registry.lookup at h
  unfold serving
  split at h
  · cases h
  · rename_i hp
    simp [hp]

/-- What there is to see of a deed, if it is a call. -/
def Deed.serving? (deed : Deed σ) (x : Engine σ × σ) : Option (Serving σ) :=
  match deed with
  | .call c => some (x.1.serving c x.2)
  | _ => none

namespace Run

/-- The calls before deed `n`, in order. -/
def log (r : Run σ) : Nat → List (Serving σ)
  | 0 => []
  | n + 1 => r.log n ++ ((r.deeds[n]?).bind fun deed => deed.serving? (r.before n)).toList

theorem log_succ {r : Run σ} {n : Nat} {deed : Deed σ} (h : r.deeds[n]? = some deed) :
    r.log (n + 1) = r.log n ++ (deed.serving? (r.before n)).toList := by
  rw [log, h]
  rfl

theorem log_of_none {r : Run σ} {n : Nat} (h : r.deeds[n]? = none) : r.log (n + 1) = r.log n := by
  rw [log, h]
  exact List.append_nil _

end Run

end Engine

end Saga
