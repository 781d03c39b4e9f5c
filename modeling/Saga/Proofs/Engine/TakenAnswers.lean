import Saga.Proofs.Engine.Filing

/-!
# What is handed back from the desk

A call that takes a deferred answer which says that work goes on calls the callback again. The test
for this (`Answer.inProgress`) looks at values only, while the reply that is made from an answer may
say so for an error as well: one for which the participant chose the response 202
(`Answer.isAcceptedError`). So what is handed back without a callback being called is final exactly
when it is no such error (`Run.taken_answer_final`).
-/

set_option autoImplicit false

namespace Saga

/-- An error whose response says that work goes on. -/
def Answer.isAcceptedError : Answer → Bool
  | .protocol r => r.isAccepted
  | _ => false

/-! ## Replies -/

theorem Operation.success_inProgress (op : Operation) : op.success.inProgress = false := by
  cases op <;> rfl

theorem Desk.failureAnswer_inProgress (op : Operation) :
    (Desk.failureAnswer op).inProgress = false := by
  cases op <;> rfl

/-- The reply to an answer that is there says that work goes on just if the answer does, as a value
or as an error. -/
theorem Operation.replyTo_inProgress {op : Operation} {a : Answer} {t : Termination}
    (hd : ∀ later, a ≠ .deferred later) (h : op.replyTo a = .answered t) :
    t.inProgress = (a.inProgress || a.isAcceptedError) := by
  cases a with
  | deferred later => exact absurd rfl (hd later)
  | unit =>
    cases h
    exact op.success_inProgress
  | failed reason =>
    cases h
    exact Desk.failureAnswer_inProgress op
  | status st | response r =>
    cases h
    exact (Bool.or_false _).symm
  | protocol r =>
    cases h
    rfl

theorem Descriptor.arrivedReply_inProgress {σ : Type} {d : Descriptor σ} {origin : Operation}
    {a : Answer} {t : Termination} (h : d.arrivedReply origin a = .answered t) :
    t.inProgress = (a.inProgress || a.isAcceptedError) := by
  cases a with
  | deferred later => cases h
  | failed reason | protocol r =>
    exact @Operation.replyTo_inProgress origin _ t (by simp) h
  | unit | status st | response r =>
    simp only [arrivedReply] at h
    split at h
    · exact Operation.replyTo_inProgress (by simp) h
    · split at h
      · exact Operation.replyTo_inProgress (by simp) h
      · cases h

/-! ## Calls that take an answer -/

namespace Engine.Run

variable {σ : Type} [Journal σ]

/-- **What is handed back is final, but for an error that says otherwise.** A call that takes a
deferred answer off the desk calls a callback exactly when the answer is a value that says that work
goes on. If it calls none and is answered, it is answered that work goes on exactly when the answer
is an error for which the participant chose the response 202. -/
theorem taken_answer_final (r : Run σ) {n k : Nat} {a : Answer} {call : Call}
    (hcall : r.deeds[n]? = some (.call call)) (hu : r.Uses n k a) :
    (r.invocations n call ≠ [] ↔ a.inProgress = true) ∧
    ∀ t, r.invocations n call = [] → r.reply n call = .answered t →
      (t.inProgress = true ↔ a.isAcceptedError = true) := by
  obtain ⟨call', d, c, p, h, hp, -, ht⟩ := hu
  obtain rfl : call' = call := by simpa [hcall] using h.deed.symm
  cases ha : a.inProgress with
  | true =>
    obtain ⟨o, hi, -⟩ := callsOnce_of_inProgress h.asks hp ht ha (s := (r.before n).2)
    rw [show r.invocations n call' = _ from hi]
    simp
  | false =>
    have hs := serve_arrived h.asks hp ht ha (s := (r.before n).2)
    refine ⟨by simpa using show r.invocations n call' = [] from hs.2, fun t _ hr => ?_⟩
    rw [Descriptor.arrivedReply_inProgress (hs.1.symm.trans hr), ha, Bool.false_or]

/-! ## An answer that is handed back though work goes on -/

/-- A participant is asked to complete, says with an error that it is still at work, and is asked
again. -/
def stillAtWork : Run (List Event) :=
  ⟨Registry.empty.put (payments .unit (.awaiting 0)), [], [.call paymentsCall,
    .fulfil 0 (.protocol .accepted), .arrive [paymentsCall.key],
    .call paymentsCall]⟩

theorem stillAtWork_uses : stillAtWork.Uses 3 0 (.protocol .accepted) :=
  ⟨paymentsCall, _, _, ⟨0, ⟨.complete, .resolved, some (.protocol .accepted)⟩, none⟩,
    ⟨rfl, rfl, rfl⟩, by decide +kernel, rfl, rfl⟩

/-- The second call calls nothing and is answered that work goes on, with nothing left to wait
for. -/
theorem stillAtWork_handed_back :
    stillAtWork.Uses 3 0 (.protocol .accepted) ∧ stillAtWork.invocations 3 paymentsCall = [] ∧
      stillAtWork.reply 3 paymentsCall = .answered (.response .accepted) ∧
      (Termination.response .accepted).inProgress = true ∧
      stillAtWork.filed? 4 paymentsCall.key = none := by
  have hcall : stillAtWork.deeds[3]? = some (.call paymentsCall) := rfl
  obtain ⟨hi, hp⟩ := taken_answer_final stillAtWork hcall stillAtWork_uses
  have hn : stillAtWork.invocations 3 paymentsCall = [] :=
    Decidable.not_not.1 fun h => absurd (hi.1 h) (by decide)
  have hr : stillAtWork.reply 3 paymentsCall = .answered (.response .accepted) := by decide +kernel
  exact ⟨stillAtWork_uses, hn, hr, (hp _ hn hr).2 rfl, by decide +kernel⟩

end Engine.Run

end Saga
