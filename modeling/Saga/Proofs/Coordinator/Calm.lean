import Saga.Proofs.Coordinator.Asking
import Saga.Proofs.Engine.Serving
import Saga.Proofs.Participants

/-!
# Asking participants that do not break down

When no callback of the registry breaks down, the engine does not either (`Engine.serve_calm`), and a
pass gets to the end: it asks everybody whom it is there to ask (`Pass.run_calm`).
-/

set_option autoImplicit false

namespace Saga

/-! ## Replies -/

theorem Operation.replyTo_broke (op : Operation) (a : Answer) : (op.replyTo a).broke = false := by
  cases a <;> rfl

theorem Callback.outcomeReply_broke {σ : Type} (c : Callback σ) (owner : String) (op : Operation)
    {o : Outcome} (h : ∀ text, o ≠ .brokeDown text) : (c.outcomeReply owner op o).broke = false := by
  cases o with
  | brokeDown text => exact absurd rfl (h text)
  | answered a =>
    cases a <;> simp only [outcomeReply] <;> first
      | exact Operation.replyTo_broke ..
      | (split <;> first | exact Operation.replyTo_broke .. | rfl)

theorem Descriptor.arrivedReply_broke {σ : Type} (d : Descriptor σ) (op : Operation) (a : Answer) :
    (d.arrivedReply op a).broke = false := by
  cases a <;> simp only [arrivedReply] <;> first
    | exact Operation.replyTo_broke ..
    | rfl
    | (split
       · exact Operation.replyTo_broke ..
       · split
         · exact Operation.replyTo_broke ..
         · rfl)

/-! ## Calls -/

namespace Engine

variable {σ : Type} [Journal σ] {e : Engine σ}

theorem serve_calm (h : e.registry.Calm) (call : Call) (s : σ) :
    (e.serve call s).1.broke = false := by
  cases hl : e.registry.lookup call.owner with
  | error error =>
    rw [serve_unknown hl]
    rfl
  | ok d =>
    cases hc : d.callback? call.operation with
    | none =>
      rw [serve_unbound hl hc]
      rfl
    | some c =>
      have ho : ∀ s text, Desk.outcome d c call s ≠ .brokeDown text := fun s text =>
        h call.owner d call.operation c hl hc _ _ text
      rw [serve_bound hl hc]
      cases hp : e.desk.pending.get? call.key with
      | none =>
        rw [Desk.serve_none _ _ _ _ _ hp, Desk.invoke_reply]
        exact c.outcomeReply_broke _ _ (ho _)
      | some p =>
        cases ht : p.cell.take.1 with
        | none =>
          rw [Desk.serve_outstanding _ _ _ _ _ hp ht]
          rfl
        | some a =>
          cases ha : a.inProgress with
          | true =>
            rw [Desk.serve_inProgress _ _ _ _ _ hp ht ha, Desk.invoke_reply]
            exact c.outcomeReply_broke _ _ (ho _)
          | false =>
            rw [Desk.serve_arrived _ _ _ _ _ hp ht ha, Desk.normalizeArrived_reply]
            exact d.arrivedReply_broke _ _

end Engine

/-! ## Passes -/

namespace Pass

variable {σ : Type} [Journal σ] (p : Pass)

/-- One participant after another keeps the registry as it is. -/
theorem ask_registry (x : Enlistment) (st : ActionStatus) (w : Engine σ × σ) :
    (p.ask Engine.server x st w).2.1.registry = w.1.registry := by
  unfold ask
  split
  · rfl
  · split
    · rfl
    · rename_i owner op _
      have hr := Engine.serve_registry w.1 ⟨owner, p.ending.operation, p.id, p.parent⟩ w.2
      split <;> rename_i hs <;> rw [show w.1.serve _ w.2 = _ from hs] at hr <;> exact hr

/-- A pass over calm participants asks all of them. -/
theorem askAll_calm (enlisted : List Enlistment) (st : ActionStatus) {w : Engine σ × σ}
    (h : w.1.registry.Calm) (before : List (Call × Reply)) :
    (p.askAll Engine.server.noted enlisted st ⟨before, w⟩).2.log.map Prod.fst =
      before.map Prod.fst ++ p.calls enlisted := by
  induction enlisted generalizing st w before with
  | nil => simp [askAll, calls]
  | cons x enlisted ih =>
    have hr : (p.ask Engine.server x st w).2.1.registry.Calm := p.ask_registry x st w ▸ h
    cases hc : p.call? x with
    | none =>
      obtain ⟨st', hst, hn⟩ := p.ask_unresolved Engine.server x st w hc
      rw [calls, List.filterMap_cons_none hc]
      simp only [askAll, hn, hst]
      exact ih st' hr before
    | some call =>
      obtain ⟨hb, hn⟩ := p.ask_resolved Engine.server x st w hc
      rw [show (Engine.server call w).1.broke = false from Engine.serve_calm h call w.2] at hb
      obtain ⟨st', hst⟩ : ∃ st', (p.ask Engine.server x st w).1 = some st' := by
        cases hx : (p.ask Engine.server x st w).1 with
        | none => rw [hx] at hb; cases hb
        | some st' => exact ⟨st', rfl⟩
      rw [calls, List.filterMap_cons_some hc]
      simp only [askAll, hn, hst]
      rw [ih st' hr, List.map_append, List.append_assoc]
      rfl

theorem run_calm (enlisted : List Enlistment) {w : Engine σ × σ} (h : w.1.registry.Calm) :
    (p.run Engine.server.noted enlisted ⟨[], w⟩).2.log.map Prod.fst = p.calls enlisted := by
  have hall := p.askAll_calm enlisted p.ending.done h []
  unfold run
  split <;> rename_i ha <;> rw [ha] at hall <;> exact hall

end Pass

end Saga
