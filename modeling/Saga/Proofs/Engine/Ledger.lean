import Saga.Proofs.Engine.Log

/-!
# The counters as a ledger

`Counters.Agrees` says what the counters have to do with a log of calls. It is additive
(`Agrees.append`), so it is enough that what one call adds agrees with that call alone
(`Engine.serve_books`), whatever way the call goes, and that no other deed counts anything
(`Deed.play_counters`). `Run.ledger` says it of all runs.
-/

set_option autoImplicit false

namespace Saga

/-! ## Which replies say that work goes on -/

theorem Operation.success_ne_accepted (op : Operation) :
    Reply.answered op.success ≠ .answered .accepted := by
  cases op <;> simp [Operation.success]

theorem Operation.replyTo_eq_accepted_iff {op : Operation} {a : Answer} :
    op.replyTo a = .answered .accepted ↔ ∃ later, a = .deferred later := by
  cases a with
  | unit => simpa [replyTo] using op.success_ne_accepted
  | deferred later => simp [replyTo]
  | failed reason => cases op <;> simp [replyTo, Desk.failureAnswer]
  | status _ | response _ | protocol _ => simp [replyTo]

/-- A callback just called is answered for with `accepted` exactly when its deferred answer is
filed. -/
theorem Callback.outcomeReply_eq_accepted_iff {σ : Type} {c : Callback σ} {owner : String}
    {op : Operation} {o : Outcome} :
    c.outcomeReply owner op o = .answered .accepted ↔ (c.deferral? o).isSome := by
  cases o with
  | brokeDown text => simp [outcomeReply, deferral?]
  | answered a =>
    cases a with
    | failed _ | protocol _ => simp [outcomeReply, deferral?, Operation.replyTo_eq_accepted_iff]
    | unit | status _ | response _ =>
      simp only [outcomeReply, deferral?]
      split <;> simp [Operation.replyTo_eq_accepted_iff, Reply.undeclared]
    | deferred later =>
      simp only [outcomeReply, deferral?]
      split <;> simp [Operation.replyTo_eq_accepted_iff, Reply.undeclared]

/-- An answer that has arrived is never handed back as `accepted`. -/
theorem Descriptor.arrivedReply_ne_accepted {σ : Type} (d : Descriptor σ) (origin : Operation)
    (a : Answer) : d.arrivedReply origin a ≠ .answered .accepted := by
  cases a with
  | failed _ | protocol _ => simp [arrivedReply, Operation.replyTo_eq_accepted_iff]
  | deferred later => simp [arrivedReply, Reply.undeclared]
  | unit | status _ | response _ =>
    simp only [arrivedReply]
    split
    · simp [Operation.replyTo_eq_accepted_iff]
    · split <;> simp [Operation.replyTo_eq_accepted_iff, Reply.undeclared]

/-! ## The ledger -/

namespace Counters

/-- The eight counts. -/
def values (c : Counters) : List Nat :=
  [c.invocations, c.noopCalls, c.accepted, c.pendingCreated, c.pendingConsumed,
    c.contractInconsistencies, c.participantFailures, c.protocolOverrides]

/-- Count by count. -/
instance : Add Counters where
  add c d := ⟨c.invocations + d.invocations, c.noopCalls + d.noopCalls, c.accepted + d.accepted,
    c.pendingCreated + d.pendingCreated, c.pendingConsumed + d.pendingConsumed,
    c.contractInconsistencies + d.contractInconsistencies,
    c.participantFailures + d.participantFailures, c.protocolOverrides + d.protocolOverrides⟩

theorem add_assoc (c d e : Counters) : c + d + e = c + (d + e) := by
  change Counters.mk _ _ _ _ _ _ _ _ = Counters.mk _ _ _ _ _ _ _ _
  congr 1 <;> exact Nat.add_assoc ..

variable {σ : Type}

/-- The counters tell what the log of the calls shows. -/
structure Agrees (c : Counters) (log : List (Serving σ)) : Prop where
  created : c.pendingCreated ≤ c.accepted
  inconsistent : c.contractInconsistencies ≤ c.pendingConsumed
  /-- A call of somebody registered has nothing to do, calls a callback, finds its answer
  outstanding, or is answered from one that has arrived. -/
  known : log.countP (fun s => s.known) =
    c.noopCalls + c.invocations + (c.accepted - c.pendingCreated) +
      (c.pendingConsumed - c.contractInconsistencies)
  invocations : c.invocations = (log.flatMap fun s => s.invocations).length
  accepted : c.accepted = log.countP fun s => s.reply = .answered .accepted
  recalled : c.contractInconsistencies ≤ c.invocations
  bounded : ∀ v ∈ c.values, v ≤ log.length

theorem Agrees.nil : zero.Agrees ([] : List (Serving σ)) := by
  constructor <;> simp [zero, values]

theorem Agrees.append {c d : Counters} {log log' : List (Serving σ)} (h : c.Agrees log)
    (h' : d.Agrees log') : (c + d).Agrees (log ++ log') where
  created := Nat.add_le_add h.created h'.created
  inconsistent := Nat.add_le_add h.inconsistent h'.inconsistent
  known := by
    have h₁ := h.created
    have h₂ := h.inconsistent
    have h₁' := h'.created
    have h₂' := h'.inconsistent
    rw [List.countP_append, h.known, h'.known]
    change _ = (c.noopCalls + d.noopCalls) + (c.invocations + d.invocations) +
      ((c.accepted + d.accepted) - (c.pendingCreated + d.pendingCreated)) +
      ((c.pendingConsumed + d.pendingConsumed) -
        (c.contractInconsistencies + d.contractInconsistencies))
    omega
  invocations := by
    rw [List.flatMap_append, List.length_append, ← h.invocations, ← h'.invocations]
    rfl
  accepted := by
    rw [List.countP_append, ← h.accepted, ← h'.accepted]
    rfl
  recalled := Nat.add_le_add h.recalled h'.recalled
  bounded := by
    have hb := h.bounded
    have hb' := h'.bounded
    simp only [values, List.forall_mem_cons, List.length_append] at hb hb' ⊢
    refine ⟨?_, ?_, ?_, ?_, ?_, ?_, ?_, ?_, nofun⟩ <;> apply Nat.add_le_add <;> omega

/-- What the kind of an answer adds. -/
inductive Wording : Counters → Prop
  | plain : Wording zero
  | failed : Wording zero.failed
  | overridden : Wording zero.overridden

theorem Wording.le_one {w : Counters} (h : w.Wording) :
    w.participantFailures ≤ 1 ∧ w.protocolOverrides ≤ 1 := by
  cases h <;> decide

/-- The kind of the one answer matters for two counts only. -/
theorem Agrees.worded {b w : Counters} {s : Serving σ} (h : b.Agrees [s]) (hw : w.Wording)
    (hf : b.participantFailures = 0) (ho : b.protocolOverrides = 0) : (b + w).Agrees [s] := by
  have hb := h.bounded
  have hv : ∀ v ∈ (b + w).values, v ≤ [s].length := by
    simp only [values, List.forall_mem_cons, List.length_singleton] at hb ⊢
    obtain ⟨h₁, h₂, h₃, h₄, h₅, h₆, -, -, -⟩ := hb
    obtain ⟨hw₁, hw₂⟩ := hw.le_one
    have hf' : b.participantFailures + w.participantFailures ≤ 1 := by omega
    have ho' : b.protocolOverrides + w.protocolOverrides ≤ 1 := by omega
    cases hw with
    | plain | failed | overridden => exact ⟨h₁, h₂, h₃, h₄, h₅, h₆, hf', ho', nofun⟩
  cases hw with
  | plain | failed | overridden =>
    exact ⟨h.created, h.inconsistent, h.known, h.invocations, h.accepted, h.recalled, hv⟩

end Counters

/-! ## What a call adds -/

namespace Desk

variable {σ : Type} [Journal σ] (k : Desk) (d : Descriptor σ) (c : Callback σ) (call : Call) (s : σ)

theorem normalize_adds (owner : String) (op : Operation) (id : ActionId) (a : Answer) :
    ∃ w : Counters, w.Wording ∧ (k.normalize owner op id a s).2.1.counters = k.counters + w := by
  cases a with
  | unit | status _ | deferred _ => exact ⟨_, .plain, rfl⟩
  | response _ | protocol _ => exact ⟨_, .overridden, rfl⟩
  | failed _ => exact ⟨_, .failed, rfl⟩

theorem normalizeArrived_adds (origin : Operation) (a : Answer) :
    ∃ w : Counters, w.Wording ∧
      (k.normalizeArrived d origin call a s).2.1.counters = k.counters + w := by
  cases a with
  | failed _ | protocol _ => exact k.normalize_adds ..
  | deferred _ => exact ⟨_, .plain, rfl⟩
  | unit | status _ | response _ =>
    simp only [normalizeArrived]
    cases d.callback? origin with
    | none => exact k.normalize_adds ..
    | some c =>
      dsimp only
      split
      · exact k.normalize_adds ..
      · exact ⟨_, .plain, rfl⟩

theorem invoke_adds (h : c.deferral? (outcome d c call s) = none) :
    ∃ w : Counters, w.Wording ∧
      (k.invoke d c call s).2.1.counters = k.counters.invoked + w := by
  unfold outcome at h
  rcases hi : c.invoke call.id call.parent (announce d c call s) with ⟨o, s'⟩
  rw [hi] at h
  simp only [invoke, hi]
  cases o with
  | brokeDown text => exact ⟨_, .plain, rfl⟩
  | answered a =>
    cases a with
    | failed _ | protocol _ => exact (k.count .invoked).normalize_adds ..
    | unit | status _ | response _ =>
      dsimp only
      split
      · exact (k.count .invoked).normalize_adds ..
      · exact ⟨_, .plain, rfl⟩
    | deferred later =>
      have ha : ¬ c.signature.returns.accepts (.deferred later) = true := fun ha => by
        simp [Callback.deferral?, ha] at h
      dsimp only
      rw [if_neg ha]
      exact ⟨_, .plain, rfl⟩

theorem advance_counters (keys : List CallKey) (k : Desk) (s : σ) :
    (k.advance keys s).1.counters = k.counters := by
  induction keys generalizing k s with
  | nil => rfl
  | cons key keys ih =>
    cases hp : k.pending.get? key with
    | none =>
      simp only [advance, hp]
      exact ih k s
    | some p =>
      simp only [advance, hp]
      exact ih _ _

end Desk

namespace Engine

variable {σ : Type} [Journal σ]

/-- What a call adds to the counters agrees with that call. -/
theorem serve_books (e : Engine σ) (call : Call) (s : σ) :
    ∃ b : Counters, b.Agrees [e.serving call s] ∧
      (e.serve call s).2.1.desk.counters = e.desk.counters + b := by
  cases e.way call s with
  | unknown error look serve none =>
    have hr : (e.serving call s).reply ≠ .answered .accepted := by simp [serving, serve]
    have hi : (e.serving call s).invocations = [] := none
    refine ⟨.zero, ?_, by rw [serve]; rfl⟩
    constructor <;> simp [Counters.zero, Counters.values, serving_unknown look, hr, hi]
  | unbound d look serve none =>
    have hr : (e.serving call s).reply ≠ .answered .accepted := by
      simpa only [serving, serve] using call.operation.success_ne_accepted
    have hi : (e.serving call s).invocations = [] := none
    refine ⟨Counters.zero.noop, ?_, by rw [serve]; rfl⟩
    constructor <;>
      simp [Counters.zero, Counters.noop, Counters.values, serving_known look, hr, hi]
  | outstanding d c p asks filed waits serve none =>
    have hr : (e.serving call s).reply = .answered .accepted := by rw [serving, serve]; rfl
    have hi : (e.serving call s).invocations = [] := none
    refine ⟨Counters.zero.outstanding, ?_, by rw [serve]; rfl⟩
    constructor <;>
      simp [Counters.zero, Counters.outstanding, Counters.values, serving_known asks.known, hr, hi]
  | arrived d c p a asks filed takes final serve none =>
    have hr : (e.serving call s).reply ≠ .answered .accepted := by
      rw [serving, serve, closing, Desk.normalizeArrived_reply]
      exact d.arrivedReply_ne_accepted p.cell.operation a
    have hi : (e.serving call s).invocations = [] := none
    obtain ⟨w, hw, hc⟩ := ((e.desk.remove call.key).count .consumed).normalizeArrived_adds d call s
      p.cell.operation a
    have hb : Counters.zero.consumed.Agrees [e.serving call s] := by
      constructor <;>
        simp [Counters.zero, Counters.consumed, Counters.values, serving_known asks.known, hr, hi]
    refine ⟨Counters.zero.consumed + w, hb.worded hw rfl rfl, ?_⟩
    rw [serve, closing, hc]
    exact Counters.add_assoc e.desk.counters Counters.zero.consumed w
  | called d c k s' asks freed serve one =>
    have hr : (e.serving call s).reply =
        c.outcomeReply d.owner call.operation (Desk.outcome d c call s') := by
      rw [serving, serve, closing, Desk.invoke_reply]
    have hi : (e.serving call s).invocations = [Desk.invocation d c call s'] := one
    -- an answer may have been taken first
    obtain ⟨b, hk, hb⟩ : ∃ b : Counters, k.counters = e.desk.counters + b ∧
        (b = .zero ∨ b = Counters.zero.consumed.inconsistent) := by
      cases freed with
      | free _ => exact ⟨_, rfl, .inl rfl⟩
      | taken _ _ _ _ _ => exact ⟨_, rfl, .inr rfl⟩
    cases hl : c.deferral? (Desk.outcome d c call s') with
    | none =>
      have hne : (e.serving call s).reply ≠ .answered .accepted := fun ha => by
        rw [hr, Callback.outcomeReply_eq_accepted_iff, hl] at ha
        cases ha
      obtain ⟨w, hw, hc⟩ := k.invoke_adds d c call s' hl
      refine ⟨b.invoked + w, Counters.Agrees.worded ?_ hw ?_ ?_, ?_⟩
      · rcases hb with rfl | rfl <;> constructor <;>
          simp [Counters.zero, Counters.consumed, Counters.inconsistent, Counters.invoked,
            Counters.values, serving_known asks.known, hne, hi]
      · rcases hb with rfl | rfl <;> rfl
      · rcases hb with rfl | rfl <;> rfl
      · rw [serve, closing, hc, hk]
        exact Counters.add_assoc e.desk.counters b.invoked w
    | some later =>
      have ha : (e.serving call s).reply = .answered .accepted := by
        rw [hr, Callback.outcomeReply_eq_accepted_iff, hl]
        rfl
      refine ⟨b.invoked.deferred, ?_, ?_⟩
      · rcases hb with rfl | rfl <;> constructor <;>
          simp [Counters.zero, Counters.consumed, Counters.inconsistent, Counters.invoked,
            Counters.deferred, Counters.values, serving_known asks.known, ha, hi]
      · rw [serve, closing, Desk.invoke_filed k d c call s' hl, Desk.count_counters,
          Desk.file_counters, Desk.count_counters, hk]
        rfl

/-- Only a call counts anything. -/
theorem Deed.play_counters {deed : Deed σ} {x : Engine σ × σ} (h : deed.serving? x = none) :
    (deed.play x).1.desk.counters = x.1.desk.counters := by
  cases deed with
  | call c => cases h
  | register d => rfl
  | fulfil t a => rfl
  | arrive keys => exact x.1.desk.advance_counters keys x.2
  | elsewhere f => rfl

namespace Run

/-- The counters before deed `n`. -/
def counters (r : Run σ) (n : Nat) : Counters := (r.engine n).desk.counters

/-- **The counters are a ledger.** Of the calls of those registered, each had nothing to do, called
a callback, found its answer outstanding, or was answered from a deferred answer that had arrived,
and the counters tell how many of each there were. As many callbacks were called and as many calls
were answered with `accepted` as they say, and no count is beyond the number of calls, so that
counters of 64 bits hold them as long as there are fewer than `2 ^ 64` calls. -/
theorem ledger (r : Run σ) (n : Nat) : (r.counters n).Agrees (r.log n) := by
  induction n with
  | zero => exact .nil
  | succ n ih =>
    unfold counters engine at ih ⊢
    cases hd : r.deeds[n]? with
    | none =>
      rw [r.follows.of_none hd, log_of_none hd]
      exact ih
    | some deed =>
      rw [r.follows.succ hd, log_succ hd]
      cases hs : deed.serving? (r.before n) with
      | none =>
        rw [deed.play_counters hs, Option.toList_none, List.append_nil]
        exact ih
      | some s =>
        cases deed with
        | call call =>
          cases hs
          obtain ⟨b, hb, hc⟩ := (r.before n).1.serve_books call (r.before n).2
          rw [Deed.play, hc]
          exact ih.append hb
        | register _ | fulfil _ _ | arrive _ | elsewhere _ => cases hs

end Run

end Engine

end Saga
