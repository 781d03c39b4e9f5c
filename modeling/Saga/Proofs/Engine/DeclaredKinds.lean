import Saga.Proofs.Engine.Log
import Saga.Proofs.Participants

/-!
# Declared kinds of return

What a callback answers is checked against its own declaration. What one of its deferred answers
came to is checked against the declaration that the participant has when the answer is taken, and
that may be another one, if the participant was registered again in the meantime. So a participant
that keeps its contract (`Run.KeepsContract`) is told that it breaks it exactly when it declares
another kind of value for the operation by then (`Run.Redeclared`): `Run.contract_error_iff`.
-/

set_option autoImplicit false

namespace Saga

/-! ## Kinds -/

/-- An error of the participant's own. -/
def Answer.isError : Answer → Bool
  | .failed _ | .protocol _ => true
  | _ => false

namespace ReturnType

variable {kind kind' : ReturnType} {a : Answer}

/-- An error, or a value that conforms to the declaration. -/
def allows (kind : ReturnType) (a : Answer) : Bool := a.isError || kind.accepts a

theorem isImmediate_resolved (h : kind.isValid = true) : kind.resolved.isImmediate = true := by
  cases kind with
  | deferred inner => exact h
  | unit | status | response => rfl
  | other name => cases h

theorem not_allows_deferred (h : kind.isImmediate = true) (later : Deferred) :
    kind.allows (.deferred later) = false := by
  cases kind with
  | unit | status | response => rfl
  | deferred _ | other _ => cases h

/-- A value conforms to one immediate kind only. -/
theorem eq_of_accepts (h : kind.isImmediate = true) (h' : kind'.isImmediate = true)
    (ha : kind.accepts a = true) (ha' : kind'.accepts a = true) : kind = kind' := by
  cases kind <;> cases h <;> cases kind' <;> cases h' <;> first
    | rfl
    | (cases a <;> simp [accepts] at ha ha')

end ReturnType

theorem Signature.isValid_of_breach? {sig : Signature} (h : sig.breach? = none) :
    sig.returns.isValid = true := by
  rcases sig.lawful_or_fault with hl | ⟨b, hf⟩
  · exact ReturnType.isValid_iff.2 hl.returns
  · rw [hf.breach?] at h
    cases h

/-! ## Replies -/

/-- The outcome is no breach of the callback's contract. -/
def Callback.Honours {σ : Type} (c : Callback σ) (o : Outcome) : Prop :=
  ∀ a, o = .answered a → c.signature.returns.allows a = true

theorem Operation.replyTo_ne_refused (op : Operation) (a : Answer) (error : CallError) :
    op.replyTo a ≠ .refused error := by
  cases a <;> simp [replyTo]

theorem Callback.Honours.outcomeReply {σ : Type} {c : Callback σ} {o : Outcome} (h : c.Honours o)
    (owner : String) (op : Operation) (error : CallError) :
    c.outcomeReply owner op o ≠ .refused error := by
  cases o with
  | brokeDown text => simp [Callback.outcomeReply]
  | answered a =>
    have ha := h a rfl
    cases a with
    | failed reason => exact op.replyTo_ne_refused (.failed reason) error
    | protocol r => exact op.replyTo_ne_refused (.protocol r) error
    | unit | status _ | response _ | deferred _ =>
      have hacc : c.signature.returns.accepts _ = true := ha
      simp only [Callback.outcomeReply, hacc, if_true]
      exact op.replyTo_ne_refused _ error

/-- An answer that has arrived is refused if it is a value and the callback bound now for the
operation it is for declares another kind. -/
theorem Descriptor.arrivedReply_refused_iff {σ : Type} {d : Descriptor σ} {origin : Operation}
    {a : Answer} (hd : ∀ later, a ≠ .deferred later) :
    (∃ error, d.arrivedReply origin a = .refused (.contract error)) ↔
      a.isError = false ∧ ∃ c, d.callback? origin = some c ∧
        c.signature.returns.resolved.accepts a = false := by
  cases a with
  | deferred later => exact absurd rfl (hd later)
  | failed _ | protocol _ => simp [arrivedReply, Operation.replyTo_ne_refused, Answer.isError]
  | unit | status _ | response _ =>
    simp only [arrivedReply, Answer.isError, true_and]
    cases d.callback? origin with
    | none => simp [Operation.replyTo_ne_refused]
    | some c =>
      dsimp only
      split
      · simp_all [Operation.replyTo_ne_refused]
      · simp_all [Reply.undeclared]

/-! ## Runs -/

namespace Engine.Run

variable {σ : Type} [Journal σ] {r : Run σ} {n : Nat} {key : CallKey}

/-- Only participants whose declarations were checked are ever registered. -/
structure Checked (r : Run σ) : Prop where
  first : r.registry.Built
  later : ∀ d, .register d ∈ r.deeds → ∃ c, Descriptor.ofDeclaration c = .ok (some d)

theorem Checked.built (h : r.Checked) (n : Nat) : (r.engine n).registry.Built := by
  refine replay_induction_mem (P := fun x : Engine σ × σ => x.1.registry.Built) h.first
    (fun x deed hd hx => ?_) n
  cases deed with
  | call call =>
    rw [Deed.play, serve_registry]
    exact hx
  | register d =>
    obtain ⟨c, hc⟩ := h.later d hd
    exact hx.register hc x.2
  | fulfil _ _ | arrive _ | elsewhere _ => exact hx

theorem Checked.isImmediate (h : r.Checked) {call : Call} {d : Descriptor σ} {c : Callback σ}
    (ha : r.Asks n call d c) {op : Operation} {c' : Callback σ} (hc : d.callback? op = some c') :
    c'.signature.returns.resolved.isImmediate = true :=
  ReturnType.isImmediate_resolved
    (Signature.isValid_of_breach? ((h.built n).breach?_of_lookup ha.asks.known hc))

/-- Every callback that is called breaks down, or answers with an error or a value of the kind that
it declares; and every deferred answer comes to nothing, to an error or to a value of the kind that
the callback which gave it declares for that. -/
structure KeepsContract (r : Run σ) : Prop where
  answers : ∀ n call, r.deeds[n]? = some (.call call) → ∀ i ∈ r.invocations n call,
    i.callback.Honours i.outcome
  arrivals : ∀ i call d c k, r.Asks i call d c → r.Files i call k →
    ∀ n key p a, r.filed? n key = some p → p.number = k → p.cell.take.1 = some a →
      c.signature.returns.resolved.allows a = true

/-- Call `n` takes a value that has arrived and is final. The callback that deferred it declared
another kind of value for it than the one that the participant binds now to the same operation. -/
def Redeclared (r : Run σ) (n : Nat) (call : Call) : Prop :=
  ∃ d c k a, r.Asks n call d c ∧ r.Uses n k a ∧ a.isError = false ∧ a.inProgress = false ∧
    ∃ i call₀ d₀ c₀ c', r.Asks i call₀ d₀ c₀ ∧ r.Files i call₀ k ∧
      d.callback? call₀.operation = some c' ∧
      c'.signature.returns.resolved ≠ c₀.signature.returns.resolved

/-- What is used is for the operation of the call that filed it. -/
theorem Files.operation_of_uses {i k : Nat} {call₀ call : Call} {a : Answer} {p : Pending}
    (h : r.Files i call₀ k) (hu : r.Uses n k a) (hp : r.filed? n call.key = some p)
    (hk : p.number = k) : p.cell.operation = call₀.operation := by
  obtain ⟨hin, hkey⟩ := h.arrived_holds hp hk
  have hun : ∀ j b, j < n → ¬ r.Uses j k b := fun j b hj hj' =>
    absurd (hu.unique hj') (Nat.ne_of_lt hj)
  obtain ⟨q, hq, -, hop⟩ := h.unused hin hun
  rw [← hkey, hp, Option.some.injEq] at hq
  rw [hq, hop]

/-- An answer that can be taken is an error, or a value that conforms to what was declared when it
was deferred. -/
theorem KeepsContract.taken (hk : r.KeepsContract) (hc : r.Checked) {i : Nat} {call₀ : Call}
    {d₀ : Descriptor σ} {c₀ : Callback σ} {p : Pending} {a : Answer}
    (ha : r.Asks i call₀ d₀ c₀) (hf : r.Files i call₀ p.number) (hp : r.filed? n key = some p)
    (ht : p.cell.take.1 = some a) :
    (∀ later, a ≠ .deferred later) ∧
      (a.isError = false → c₀.signature.returns.resolved.accepts a = true) := by
  have hallow : c₀.signature.returns.resolved.allows a = true :=
    hk.arrivals i call₀ d₀ c₀ p.number ha hf n key p a hp rfl ht
  refine ⟨?_, fun herr => ?_⟩
  · rintro later rfl
    rw [ReturnType.not_allows_deferred (hc.isImmediate ha ha.asks.bound)] at hallow
    cases hallow
  · rwa [ReturnType.allows, herr, Bool.false_or] at hallow

/-- **A participant that keeps its contract is told that it breaks it exactly when it declares
another kind by now.** No answer of a callback is ever refused then, and an answer that has arrived
is refused just if it is a value, is final, and the callback bound now to its operation declares
another kind for what it defers than the callback that gave it. -/
theorem contract_error_iff (r : Run σ) (hc : r.Checked) (hk : r.KeepsContract) {call : Call}
    (hcall : r.deeds[n]? = some (.call call)) :
    (∃ error, r.reply n call = .refused (.contract error)) ↔ r.Redeclared n call := by
  constructor
  · rintro ⟨error, he⟩
    unfold reply at he
    cases (r.before n).1.way call (r.before n).2 with
    | unknown error' look serve =>
      rw [serve] at he
      cases he
      simp only [Registry.lookup] at look
      split at look <;> cases look
    | unbound d look serve =>
      rw [serve] at he
      cases he
    | outstanding d c p asks filed waits serve =>
      rw [serve] at he
      cases he
    | called d c k s' asks freed serve one =>
      have hh : c.Honours (Desk.outcome d c call s') :=
        hk.answers n call hcall (Desk.invocation d c call s') (by rw [invocations, one]; simp)
      rw [serve, closing, Desk.invoke_reply] at he
      exact absurd he (hh.outcomeReply d.owner call.operation _)
    | arrived d c p a asks filed takes final serve =>
      rw [serve, closing, Desk.normalizeArrived_reply] at he
      have ha : r.Asks n call d c := ⟨hcall, asks⟩
      have hu : r.Uses n p.number a := ⟨call, d, c, p, ha, filed, rfl, takes⟩
      obtain ⟨i, call₀, d₀, c₀, -, ha₀, hf, -, hop⟩ := exists_files filed
      obtain ⟨hd, hacc₀⟩ := hk.taken hc ha₀ hf filed takes
      obtain ⟨herr, c', hc', hacc⟩ := (Descriptor.arrivedReply_refused_iff hd).1 ⟨error, he⟩
      refine ⟨d, c, p.number, a, ha, hu, herr, final, i, call₀, d₀, c₀, c', ha₀, hf,
        by rw [← hop]; exact hc', fun heq => ?_⟩
      rw [heq, hacc₀ herr] at hacc
      cases hacc
  · rintro ⟨d, c, k, a, ha, hu, herr, hprog, i, call₀, d₀, c₀, c', ha₀, hf, hc', hne⟩
    obtain ⟨call', d', c'', p, ha', hp, rfl, ht⟩ := id hu
    obtain rfl : call' = call := by simpa [hcall] using ha'.deed.symm
    have hop := hf.operation_of_uses hu hp rfl
    obtain ⟨hd, hacc₀⟩ := hk.taken hc ha₀ hf hp ht
    have hacc : c'.signature.returns.resolved.accepts a = false := by
      refine Bool.eq_false_iff.2 fun hacc => hne ?_
      exact ReturnType.eq_of_accepts (hc.isImmediate ha hc') (hc.isImmediate ha₀ ha₀.asks.bound)
        hacc (hacc₀ herr)
    have hr : r.reply n call' = d.arrivedReply p.cell.operation a :=
      (serve_arrived ha.asks hp ht hprog).1
    rw [hr, hop]
    exact (Descriptor.arrivedReply_refused_iff hd).2 ⟨herr, c', hc', hacc⟩

/-! ## A participant that is registered again meanwhile -/

/-- A participant is asked to complete and promises to be done later, is registered again with
callbacks that promise a status, is done, and is asked again. -/
def redeclared : Run (List Event) :=
  ⟨Registry.empty.put (payments .unit (.awaiting 0)), [], [.call paymentsCall,
    .register (payments .status (.awaiting 0)), .fulfil 0 .unit,
    .arrive [paymentsCall.key], .call paymentsCall]⟩

/-- What the participant declares. -/
def promises (kind : ReturnType) : Declaration (List Event) :=
  ⟨"Payments", .shared, [Operation.complete, .compensate, .status, .forget].map
    fun op => (op, .steady (.deferred kind) (.deferred (.awaiting 0)))⟩

theorem redeclared_checked : redeclared.Checked where
  first := .put (promises .unit) .empty rfl
  later d hd := by
    have hd : d = payments .status (.awaiting 0) := by simpa [redeclared] using hd
    exact ⟨promises .status, by rw [hd]; rfl⟩

/-- The only answer that ever waits to be taken is that the participant is done. -/
theorem redeclared_takes {n : Nat} {p : Pending} {a : Answer}
    (hp : redeclared.filed? n paymentsCall.key = some p) (ht : p.cell.take.1 = some a) :
    a = .unit := by
  have hsmall : ∀ m ≤ 5, ∀ a ∈ (redeclared.filed? m paymentsCall.key).bind (·.cell.take.1),
      a = .unit := by decide +kernel
  have hn : redeclared.filed? n paymentsCall.key =
      redeclared.filed? (min n 5) paymentsCall.key := by
    rcases Nat.le_total n 5 with h | h
    · rw [Nat.min_eq_left h]
    · rw [Nat.min_eq_right h]
      unfold filed? engine before
      rw [replay_of_length_le h]
      rfl
  exact hsmall (min n 5) (Nat.min_le_right n 5) a (by rw [← hn, hp]; exact ht)

theorem redeclared_calls {n : Nat} {call : Call} (h : redeclared.deeds[n]? = some (.call call)) :
    call = paymentsCall ∧ (n = 0 ∨ n = 4) := by
  match n with
  | 0 | 4 => exact ⟨by cases h; rfl, by omega⟩
  | 1 | 2 | 3 => cases h
  | n + 5 => cases h

theorem redeclared_keepsContract : redeclared.KeepsContract where
  answers n call h i hi := by
    obtain ⟨rfl, rfl | rfl⟩ := redeclared_calls h
    · have h₀ : redeclared.invocations 0 paymentsCall = [⟨"Payments", .complete,
          .steady (.deferred .unit) (.deferred (.awaiting 0)), .ofArity 1 paymentsCall.id none,
          .answered (.deferred (.awaiting 0))⟩] := rfl
      rw [h₀, List.mem_singleton] at hi
      subst hi
      intro a ha
      cases ha
      rfl
    · have h₄ : redeclared.invocations 4 paymentsCall = [] := rfl
      rw [h₄] at hi
      cases hi
  arrivals i call d c k ha hf n key p a hp hk ht := by
    obtain ⟨-, rfl⟩ := hf.arrived_holds hp hk
    obtain ⟨rfl, rfl | rfl⟩ := redeclared_calls ha.deed
    · obtain ⟨look, bound⟩ := ha.asks
      cases look
      cases bound
      rw [redeclared_takes hp ht]
      rfl
    · -- the second call takes the answer and files nothing
      obtain ⟨-, later, hfiled⟩ := hf.filed
      have h₅ : redeclared.filed? 5 paymentsCall.key = none := by decide +kernel
      rw [h₅] at hfiled
      cases hfiled

theorem redeclared_otherKind : redeclared.Redeclared 4 paymentsCall := by
  have first : redeclared.Asks 0 paymentsCall (payments .unit (.awaiting 0))
      (.steady (.deferred .unit) (.deferred (.awaiting 0))) := ⟨rfl, rfl, rfl⟩
  have second : redeclared.Asks 4 paymentsCall (payments .status (.awaiting 0))
      (.steady (.deferred .status) (.deferred (.awaiting 0))) := ⟨rfl, rfl, rfl⟩
  have taken : redeclared.Uses 4 0 .unit :=
    ⟨paymentsCall, _, _, ⟨0, ⟨.complete, .resolved, some .unit⟩, none⟩, second,
      by decide +kernel, rfl, rfl⟩
  have filed : redeclared.Files 0 paymentsCall 0 :=
    files_of_deferral first rfl (show _ = some (.awaiting 0) from rfl)
  exact ⟨_, _, 0, .unit, second, taken, rfl, rfl, 0, paymentsCall, _, _, _, first, filed, rfl,
    nofun⟩

/-- It is told that it breaks its contract, and what it did is forgotten. -/
theorem redeclared_refused :
    redeclared.Checked ∧ redeclared.KeepsContract ∧
    (∃ error, redeclared.reply 4 paymentsCall = .refused (.contract error)) ∧
    redeclared.filed? 5 paymentsCall.key = none := by
  have told := contract_error_iff redeclared redeclared_checked redeclared_keepsContract
    (show redeclared.deeds[4]? = some (.call paymentsCall) from rfl)
  exact ⟨redeclared_checked, redeclared_keepsContract, told.2 redeclared_otherKind,
    by decide +kernel⟩

end Engine.Run

end Saga
