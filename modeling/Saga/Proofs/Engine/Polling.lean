import Saga.Proofs.Engine.Filing

/-!
# Whoever asks for a deferred answer

A deferred answer that has arrived is made into a reply by the operation whose callback deferred it.
What takes it off the desk looks at the asking call for its action only
(`Desk.normalizeArrived_congr`), so the calls that may ask for it do not differ in anything
(`Engine.serve_congr`). The operation of an entry is that of the call that filed it
(`Run.exists_files`). `Engine.reply_whoever_asks` puts these together.
-/

set_option autoImplicit false

namespace Saga

variable {σ : Type} [Journal σ]

/-! ## The desk -/

namespace Desk

variable {k : Desk} {d : Descriptor σ} {c : Callback σ} {call call' : Call} {s : σ} {p : Pending}
  {a : Answer}

/-- Of the call that asks, only the action matters. -/
theorem normalizeArrived_congr (h : call.id = call'.id) (origin : Operation) :
    k.normalizeArrived d origin call a s = k.normalizeArrived d origin call' a s := by
  unfold normalizeArrived
  rw [h]

theorem serve_congr (c' : Callback σ) (hk : call.key = call'.key)
    (hp : k.pending.get? call.key = some p) (ht : p.cell.take.1 = some a)
    (ha : a.inProgress = false) : k.serve d c call s = k.serve d c' call' s := by
  have hp' : k.pending.get? call'.key = some p := hk ▸ hp
  rw [serve_arrived k d c call s hp ht ha, serve_arrived k d c' call' s hp' ht ha, hk]
  exact normalizeArrived_congr (congrArg CallKey.action hk) p.cell.operation

theorem get?_serve_arrived (hp : k.pending.get? call.key = some p) (ht : p.cell.take.1 = some a)
    (ha : a.inProgress = false) (key : CallKey) :
    (k.serve d c call s).2.1.pending.get? key =
      if call.key = key then none else k.pending.get? key := by
  rw [serve_arrived k d c call s hp ht ha, normalizeArrived_pending, count_pending, remove_pending,
    Table.get?_erase]

end Desk

/-! ## The engine -/

namespace Engine

variable {e : Engine σ} {s : σ} {call call' : Call} {d : Descriptor σ} {c c' : Callback σ}
  {p : Pending} {a : Answer}

/-- Two calls on one key that may take the answer that is there do the same. -/
theorem serve_congr (h : e.Asks call d c) (h' : e.Asks call' d c') (hk : call.key = call'.key)
    (hp : e.desk.pending.get? call.key = some p) (ht : p.cell.take.1 = some a)
    (ha : a.inProgress = false) : e.serve call s = e.serve call' s := by
  rw [serve_bound h.known h.bound, serve_bound h'.known h'.bound,
    Desk.serve_congr c' hk hp ht ha, hk]

/-- **Whoever asks for a deferred answer.** Once a participant's deferred answer for an action has
arrived, and unless it is a value that says that work goes on, calls for any two operations that
the participant has a callback for, from whatever parents, get the same reply and leave the same
engine behind. No callback is called, the answer is off the desk with all others still there, and
the reply is the one for the operation whose callback deferred the answer: the operation of the
entry is that of the call that filed it. -/
theorem reply_whoever_asks (e : Engine σ) (s : σ) {owner : String} {id : ActionId}
    {d : Descriptor σ} {p : Pending} {a : Answer} (hd : e.registry.lookup owner = .ok d)
    (hp : e.desk.pending.get? ⟨owner, id⟩ = some p) (hr : p.cell.phase = .resolved)
    (hv : p.cell.value = some a) (ha : a.inProgress = false) :
    (∀ op op' parent parent', (d.callback? op).isSome → (d.callback? op').isSome →
      e.serve ⟨owner, op, id, parent⟩ s = e.serve ⟨owner, op', id, parent'⟩ s) ∧
    (∀ op parent, (d.callback? op).isSome →
      (e.serve ⟨owner, op, id, parent⟩ s).1 = d.arrivedReply p.cell.operation a ∧
      e.invocations ⟨owner, op, id, parent⟩ s = [] ∧
      (e.serve ⟨owner, op, id, parent⟩ s).2.1.registry = e.registry ∧
      ∀ key, (e.serve ⟨owner, op, id, parent⟩ s).2.1.desk.pending.get? key =
        if ⟨owner, id⟩ = key then none else e.desk.pending.get? key) ∧
    ∀ (r : Run σ) (n : Nat), r.engine n = e →
      ∃ i call, i < n ∧ r.Files i call p.number ∧ call.key = ⟨owner, id⟩ ∧
        p.cell.operation = call.operation := by
  have ht : p.cell.take.1 = some a := PendingCell.take_resolved hr hv
  have asks (op : Operation) (parent : Option ActionId) (hop : (d.callback? op).isSome) :
      ∃ c, e.Asks ⟨owner, op, id, parent⟩ d c := by
    obtain ⟨c, hc⟩ := Option.isSome_iff_exists.1 hop
    exact ⟨c, hd, hc⟩
  refine ⟨?_, ?_, ?_⟩
  · intro op op' parent parent' hop hop'
    obtain ⟨c, h⟩ := asks op parent hop
    obtain ⟨c', h'⟩ := asks op' parent' hop'
    exact serve_congr h h' rfl hp ht ha
  · intro op parent hop
    obtain ⟨c, h⟩ := asks op parent hop
    obtain ⟨hreply, hcalls⟩ := serve_arrived (s := s) h hp ht ha
    refine ⟨hreply, hcalls, serve_registry e _ s, ?_⟩
    intro key
    rw [serve_bound h.known h.bound]
    exact Desk.get?_serve_arrived hp ht ha key
  · rintro r n rfl
    obtain ⟨i, call, _, _, hi, -, hf, hkey, hop⟩ := Run.exists_files hp
    exact ⟨i, call, hi, hf, hkey, hop⟩

/-! ## A failure that another operation asks for -/

/-- A participant is asked to complete, and its failure arrives. -/
def lateFailure : Run (List Event) :=
  ⟨Registry.empty.put (Run.payments .unit (.awaiting 0)), [], [.call Run.paymentsCall,
    .fulfil 0 (.failed "no funds"), .arrive [Run.paymentsCall.key]]⟩

/-- A nested request for the status is told, like any other, that it failed to complete. -/
theorem lateFailure_whoever_asks :
    (lateFailure.engine 3).registry.lookup "Payments" = .ok (Run.payments .unit (.awaiting 0)) ∧
    (lateFailure.engine 3).desk.pending.get? Run.paymentsCall.key =
      some ⟨0, ⟨.complete, .resolved, some (.failed "no funds")⟩, none⟩ ∧
    (Answer.failed "no funds").inProgress = false ∧
    ((Run.payments .unit (.awaiting 0)).callback? .complete).isSome ∧
    ((Run.payments .unit (.awaiting 0)).callback? .status).isSome ∧
    let nested := { Run.paymentsCall with operation := .status, parent := some ⟨"http://c/lra/0"⟩ }
    (lateFailure.engine 3).serve nested [] =
      (lateFailure.engine 3).serve Run.paymentsCall [] ∧
    ((lateFailure.engine 3).serve nested []).1 = .answered (.status .failedToComplete) ∧
    (lateFailure.engine 3).invocations nested [] = [] ∧
    ((lateFailure.engine 3).serve nested []).2.1.desk.pending.get? nested.key = none := by
  have hp : (lateFailure.engine 3).desk.pending.get? Run.paymentsCall.key =
      some ⟨0, ⟨.complete, .resolved, some (.failed "no funds")⟩, none⟩ := by decide +kernel
  obtain ⟨hsame, htaken, -⟩ := reply_whoever_asks (lateFailure.engine 3) []
    (d := Run.payments .unit (.awaiting 0)) rfl hp rfl rfl rfl
  obtain ⟨hreply, hcalls, -, hget⟩ := htaken .status (some ⟨"http://c/lra/0"⟩) rfl
  exact ⟨rfl, hp, rfl, rfl, rfl, hsame .status .complete _ none rfl rfl, hreply, hcalls,
    (hget _).trans (if_pos rfl)⟩

end Engine

end Saga
