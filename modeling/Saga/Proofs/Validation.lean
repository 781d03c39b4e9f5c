import Mathlib.Data.List.Induction
import Mathlib.Data.List.Nodup
import Saga.Participant

/-!
# What validation accepts

A list of bindings keeps the contract (`Declaration.Lawful`) if every declared shape does and no
operation is bound twice. Validation goes through the list from its start, so it stops at the first
binding that spoils this (`Declaration.Fault`), and every list either keeps the contract or has such
a binding (`Declaration.lawful_or_fault`). `Descriptor.ofDeclaration_iff` puts the two together: what
is accepted, as which descriptor, and which error is the answer to everything else.
-/

set_option autoImplicit false

namespace Saga

/-! ## Shapes -/

namespace ReturnType

/-- A kind of value that is there when the callback returns. -/
inductive Immediate : ReturnType → Prop
  | unit : Immediate .unit
  | status : Immediate .status
  | response : Immediate .response

/-- A kind that the contract allows. -/
inductive Lawful : ReturnType → Prop
  | immediate {kind : ReturnType} : kind.Immediate → Lawful kind
  | deferred {kind : ReturnType} : kind.Immediate → Lawful (.deferred kind)

theorem isImmediate_iff {kind : ReturnType} : kind.isImmediate = true ↔ kind.Immediate := by
  constructor
  · intro h
    cases kind with
    | unit => exact .unit
    | status => exact .status
    | response => exact .response
    | deferred | other => cases h
  · rintro (_ | _ | _) <;> rfl

theorem isValid_iff {kind : ReturnType} : kind.isValid = true ↔ kind.Lawful := by
  constructor
  · intro h
    cases kind with
    | deferred inner => exact .deferred (isImmediate_iff.1 h)
    | unit | status | response | other => exact .immediate (isImmediate_iff.1 h)
  · rintro (h | h)
    · cases h <;> rfl
    · exact isImmediate_iff.2 h

end ReturnType

namespace Signature

section Params

variable {ps qs : List ParamType} {i : Nat} {p q : ParamType}

/-- Up to some place the parameters are the ones of their positions, and there one is not. -/
structure Misplaced (ps qs : List ParamType) (i : Nat) (p : ParamType) : Prop where
  sofar : ps.take i <+: qs
  found : ps[i]? = some p
  another : ∃ q, qs[i]? = some q ∧ p ≠ q

theorem misplaced_cons : Misplaced (p :: ps) (p :: qs) (i + 1) q ↔ Misplaced ps qs i q := by
  constructor
  · rintro ⟨hs, hf, ha⟩
    exact ⟨(List.prefix_cons_inj p).1 hs, by simpa using hf, by simpa using ha⟩
  · rintro ⟨hs, hf, ha⟩
    exact ⟨(List.prefix_cons_inj p).2 hs, by simpa using hf, by simpa using ha⟩

theorem prefix_or_misplaced (h : ps.length ≤ qs.length) :
    ps <+: qs ∨ ∃ i p, Misplaced ps qs i p := by
  induction ps generalizing qs with
  | nil => exact .inl List.nil_prefix
  | cons p ps ih =>
    cases qs with
    | nil => simp at h
    | cons q qs =>
      by_cases hpq : p = q
      · subst hpq
        rcases ih (by simpa using h) with hp | ⟨i, p', hm⟩
        · exact .inl ((List.prefix_cons_inj p).2 hp)
        · exact .inr ⟨i + 1, p', misplaced_cons.2 hm⟩
      · exact .inr ⟨0, p, List.nil_prefix, rfl, q, rfl, hpq⟩

theorem firstMisplaced?_of_prefix (k : Nat) (h : ps <+: qs) : firstMisplaced? k ps qs = none := by
  induction ps generalizing k qs with
  | nil => rfl
  | cons p ps ih =>
    cases qs with
    | nil => rfl
    | cons q qs =>
      obtain ⟨rfl, h'⟩ := List.cons_prefix_cons.1 h
      simp only [firstMisplaced?, if_true]
      exact ih (k + 1) h'

theorem Misplaced.firstMisplaced? (k : Nat) (h : Misplaced ps qs i p) :
    firstMisplaced? k ps qs = some (k + i, p) := by
  induction i generalizing k ps qs with
  | zero =>
    obtain ⟨-, hf, q, hq, hne⟩ := h
    obtain ⟨ps, rfl⟩ := List.head?_eq_some_iff.1 (List.head?_eq_getElem? ▸ hf)
    obtain ⟨qs, rfl⟩ := List.head?_eq_some_iff.1 (List.head?_eq_getElem? ▸ hq)
    simp [Signature.firstMisplaced?, hne]
  | succ i ih =>
    cases ps with
    | nil => cases h.found
    | cons p' ps =>
      cases qs with
      | nil => cases h.sofar.length_le
      | cons q' qs =>
        obtain ⟨rfl, -⟩ := List.cons_prefix_cons.1 h.sofar
        simp only [Signature.firstMisplaced?, if_true]
        rw [ih (k + 1) (misplaced_cons.1 h), Nat.add_right_comm, Nat.add_assoc]

end Params

/-- The declared shape keeps the contract. -/
structure Lawful (sig : Signature) : Prop where
  params : sig.params <+: [.actionId, .parentId]
  returns : sig.returns.Lawful

/-- The first fault of a declared shape: too many parameters, else the first parameter that is not
the one of its position, else the return kind. -/
inductive Fault (sig : Signature) : Breach → Prop
  | arity : 2 < sig.params.length → Fault sig (.arity sig.params.length)
  | parameter {i : Nat} {p : ParamType} : sig.params.length ≤ 2 →
      Misplaced sig.params [.actionId, .parentId] i p → Fault sig (.parameter i p.name)
  | returns : sig.params <+: [.actionId, .parentId] → ¬ sig.returns.Lawful →
      Fault sig (.returns sig.returns.name)

variable {sig : Signature} {b : Breach}

theorem lawful_or_fault (sig : Signature) : sig.Lawful ∨ ∃ b, sig.Fault b := by
  by_cases hl : sig.params.length ≤ 2
  · have hparams : sig.params <+: [.actionId, .parentId] ∨
        ∃ i p, Misplaced sig.params [.actionId, .parentId] i p := prefix_or_misplaced hl
    obtain hp | ⟨i, p, hm⟩ := hparams
    · by_cases hr : sig.returns.Lawful
      · exact .inl ⟨hp, hr⟩
      · exact .inr ⟨_, .returns hp hr⟩
    · exact .inr ⟨_, .parameter hl hm⟩
  · exact .inr ⟨_, .arity (Nat.lt_of_not_le hl)⟩

theorem Lawful.breach? (h : sig.Lawful) : sig.breach? = none := by
  have hl : ¬ positions.length < sig.arity := Nat.not_lt.2 h.params.length_le
  have hm : firstMisplaced? 0 sig.params positions = none := firstMisplaced?_of_prefix 0 h.params
  simp only [Signature.breach?, if_neg hl, hm, ReturnType.isValid_iff.2 h.returns, if_true]

theorem Fault.breach? (h : sig.Fault b) : sig.breach? = some b := by
  cases h with
  | arity hl =>
    have hl : positions.length < sig.arity := hl
    simp only [Signature.breach?, if_pos hl]
    rfl
  | parameter hl hm =>
    have hl : ¬ positions.length < sig.arity := Nat.not_lt.2 hl
    have hm := hm.firstMisplaced? 0
    rw [Nat.zero_add] at hm
    have hm : firstMisplaced? 0 sig.params positions = _ := hm
    simp only [Signature.breach?, if_neg hl, hm]
  | returns hp hr =>
    have hl : ¬ positions.length < sig.arity := Nat.not_lt.2 hp.length_le
    have hm : firstMisplaced? 0 sig.params positions = none := firstMisplaced?_of_prefix 0 hp
    have hv : ¬ sig.returns.isValid = true := fun h => hr (ReturnType.isValid_iff.1 h)
    simp only [Signature.breach?, if_neg hl, hm, if_neg hv]

end Signature

/-! ## Lists of bindings -/

namespace Declaration

variable {σ : Type}

/-- Every declared shape keeps the contract, and no operation is bound twice. -/
structure Lawful (bindings : List (Operation × Callback σ)) : Prop where
  shapes : ∀ b ∈ bindings, b.2.signature.Lawful
  once : (bindings.map Prod.fst).Nodup

/-- The binding of `op` to `c` after the bindings `before`, which keep the contract, spoils this:
its shape has a fault, or else the operation is bound already. -/
inductive Spoils (owner : String) (before : List (Operation × Callback σ)) (op : Operation)
    (c : Callback σ) : ContractError → Prop
  | arity {count : Nat} : c.signature.Fault (.arity count) →
      Spoils owner before op c (.arity owner op count)
  | parameter {i : Nat} {found : String} : c.signature.Fault (.parameter i found) →
      Spoils owner before op c (.parameterType owner op i found)
  | returns {found : String} : c.signature.Fault (.returns found) →
      Spoils owner before op c (.returnType owner op found)
  | again : c.signature.Lawful → op ∈ before.map Prod.fst →
      Spoils owner before op c (.duplicateBinding owner op)

/-- The error for the first binding of a list that spoils it. -/
inductive Fault (owner : String) (bindings : List (Operation × Callback σ)) : ContractError → Prop
  | first {before after : List (Operation × Callback σ)} {op : Operation} {c : Callback σ}
      {e : ContractError} : bindings = before ++ (op, c) :: after → Lawful before →
      Spoils owner before op c e → Fault owner bindings e

/-- The slots hold what the list binds. -/
def Binds (slots : Slots (Callback σ)) (bindings : List (Operation × Callback σ)) : Prop :=
  ∀ op c, slots.get? op = some c ↔ (op, c) ∈ bindings

variable {owner : String} {bindings bs : List (Operation × Callback σ)} {op : Operation}
  {c : Callback σ} {slots : Slots (Callback σ)} {e : ContractError}

theorem lawful_nil : Lawful ([] : List (Operation × Callback σ)) := ⟨nofun, List.nodup_nil⟩

theorem lawful_concat :
    Lawful (bs ++ [(op, c)]) ↔ Lawful bs ∧ c.signature.Lawful ∧ op ∉ bs.map Prod.fst := by
  have honce : ((bs ++ [(op, c)]).map Prod.fst).Nodup ↔
      op ∉ bs.map Prod.fst ∧ (bs.map Prod.fst).Nodup := by
    rw [List.map_append, List.map_singleton, ← List.concat_eq_append, List.nodup_concat]
  constructor
  · rintro ⟨hs, ho⟩
    obtain ⟨hop, ho⟩ := honce.1 ho
    exact ⟨⟨fun b hb => hs b (List.mem_append_left _ hb), ho⟩, hs (op, c) (by simp), hop⟩
  · rintro ⟨⟨hs, ho⟩, hc, hop⟩
    refine ⟨fun b hb => ?_, honce.2 ⟨hop, ho⟩⟩
    rcases List.mem_append.1 hb with hb | hb
    · exact hs b hb
    · rw [List.mem_singleton.1 hb]
      exact hc

theorem Spoils.fault (h : Spoils owner bs op c e) (hb : Lawful bs) :
    Fault owner (bs ++ [(op, c)]) e :=
  .first rfl hb h

theorem Fault.concat (h : Fault owner bs e) (b : Operation × Callback σ) :
    Fault owner (bs ++ [b]) e := by
  obtain ⟨rfl, hb, hs⟩ := h
  exact .first (List.append_assoc ..) hb hs

/-- A list keeps the contract, or some binding of it is the first to spoil this. -/
theorem lawful_or_fault (owner : String) (bindings : List (Operation × Callback σ)) :
    Lawful bindings ∨ ∃ e, Fault owner bindings e := by
  induction bindings using List.reverseRecOn with
  | nil => exact .inl lawful_nil
  | append_singleton bs b ih =>
    obtain ⟨op, c⟩ := b
    rcases ih with hb | ⟨e, hf⟩
    · rcases c.signature.lawful_or_fault with hc | ⟨breach, hc⟩
      · by_cases hop : op ∈ bs.map Prod.fst
        · exact .inr ⟨_, (Spoils.again hc hop).fault hb⟩
        · exact .inl (lawful_concat.2 ⟨hb, hc, hop⟩)
      · right
        cases breach with
        | arity => exact ⟨_, (Spoils.arity hc).fault hb⟩
        | parameter => exact ⟨_, (Spoils.parameter hc).fault hb⟩
        | returns => exact ⟨_, (Spoils.returns hc).fault hb⟩
    · exact .inr ⟨e, hf.concat _⟩

theorem binds_nil : Binds (.empty : Slots (Callback σ)) [] := by
  intro op c
  simp

theorem Binds.isSome_iff (h : Binds slots bs) (op : Operation) :
    (slots.get? op).isSome ↔ op ∈ bs.map Prod.fst := by
  simp [Option.isSome_iff_exists, h op _]

theorem Binds.insert (h : Binds slots bs) (hop : op ∉ bs.map Prod.fst) :
    Binds (slots.insert op c) (bs ++ [(op, c)]) := by
  intro op' c'
  have hnot : (op, c') ∉ bs := fun hm => hop (List.mem_map_of_mem hm)
  rw [Slots.get?_insert, List.mem_append, List.mem_singleton]
  split
  · rename_i heq
    subst heq
    simp [hnot, eq_comm]
  · rename_i hne
    rw [h op' c', Prod.mk.injEq]
    simp [Ne.symm hne]

end Declaration

/-! ## Validation -/

namespace Descriptor

open Declaration

variable {σ : Type} {owner : String} {bindings bs : List (Operation × Callback σ)} {op : Operation}
  {c : Callback σ} {slots slots' : Slots (Callback σ)} {e : ContractError}

theorem bindAll_append (h : bindAll owner slots bs = .ok slots') :
    bindAll owner slots (bs ++ bindings) = bindAll owner slots' bindings := by
  induction bs generalizing slots with
  | nil =>
    cases h
    rfl
  | cons b bs ih =>
    simp only [bindAll, List.cons_append] at h ⊢
    split at h
    · cases h
    · split at h
      · cases h
      · rename_i hfree
        rw [if_neg hfree]
        exact ih h

/-- The induction is on the end of the list, for the slots hold what was bound so far. -/
theorem bindAll_of_lawful (owner : String) (h : Lawful bindings) :
    ∃ slots, bindAll owner .empty bindings = .ok slots ∧ Binds slots bindings := by
  induction bindings using List.reverseRecOn with
  | nil => exact ⟨.empty, rfl, binds_nil⟩
  | append_singleton bs b ih =>
    obtain ⟨op, c⟩ := b
    obtain ⟨hbs, hc, hop⟩ := lawful_concat.1 h
    obtain ⟨slots, hok, hbinds⟩ := ih hbs
    have hfree : ¬ (slots.get? op).isSome := fun hs => hop ((hbinds.isSome_iff op).1 hs)
    refine ⟨slots.insert op c, ?_, hbinds.insert hop⟩
    rw [bindAll_append hok]
    simp only [bindAll, hc.breach?, if_neg hfree]

theorem bindAll_of_spoils (h : Spoils owner bs op c e) (hbinds : Binds slots bs) :
    bindAll owner slots ((op, c) :: bindings) = .error e := by
  cases h with
  | arity hf => simp only [bindAll, hf.breach?, ContractError.ofBreach]
  | parameter hf => simp only [bindAll, hf.breach?, ContractError.ofBreach]
  | returns hf => simp only [bindAll, hf.breach?, ContractError.ofBreach]
  | again hc hop => simp only [bindAll, hc.breach?, if_pos ((hbinds.isSome_iff op).2 hop)]

theorem bindAll_of_fault (h : Fault owner bindings e) :
    bindAll owner .empty bindings = .error e := by
  obtain ⟨rfl, hbs, hs⟩ := h
  obtain ⟨slots, hok, hbinds⟩ := bindAll_of_lawful owner hbs
  rw [bindAll_append hok]
  exact bindAll_of_spoils hs hbinds

theorem operations_of_binds {d : Descriptor σ} (h : Binds d.callbacks bindings) :
    d.operations = Operation.all.filter (· ∈ bindings.map Prod.fst) := by
  unfold operations Slots.bound
  congr 1
  funext op
  rw [Bool.eq_iff_iff, decide_eq_true_iff]
  exact h.isSome_iff op

section Declarations

variable {d : Declaration σ}

theorem ofDeclaration_of_nil (h : d.bindings = []) : ofDeclaration d = .ok none := by
  unfold ofDeclaration
  rw [h]

theorem ofDeclaration_of_ne_nil (h : d.bindings ≠ []) :
    ofDeclaration d =
      match bindAll d.owner .empty d.bindings with
      | .ok slots => .ok (some ⟨d.owner, d.mode, slots⟩)
      | .error e => .error e := by
  unfold ofDeclaration
  split
  · rename_i hnil
    exact absurd hnil h
  · rfl

theorem ofDeclaration_of_lawful (hne : d.bindings ≠ []) (hl : Lawful d.bindings) :
    ∃ slots, ofDeclaration d = .ok (some ⟨d.owner, d.mode, slots⟩) ∧ Binds slots d.bindings := by
  obtain ⟨slots, hok, hbinds⟩ := bindAll_of_lawful d.owner hl
  exact ⟨slots, by rw [ofDeclaration_of_ne_nil hne, hok], hbinds⟩

theorem ofDeclaration_of_fault (h : Fault d.owner d.bindings e) : ofDeclaration d = .error e := by
  have hne : d.bindings ≠ [] := by
    obtain ⟨heq, -, -⟩ := h
    simp [heq]
  rw [ofDeclaration_of_ne_nil hne, bindAll_of_fault h]

/-- The three outcomes of validation; the conditions cover every declaration. -/
theorem ofDeclaration_cases (d : Declaration σ) :
    (d.bindings = [] ∧ ofDeclaration d = .ok none) ∨
    (d.bindings ≠ [] ∧ Lawful d.bindings ∧
      ∃ slots, ofDeclaration d = .ok (some ⟨d.owner, d.mode, slots⟩) ∧ Binds slots d.bindings) ∨
    ∃ e, Fault d.owner d.bindings e ∧ ofDeclaration d = .error e := by
  by_cases hnil : d.bindings = []
  · exact .inl ⟨hnil, ofDeclaration_of_nil hnil⟩
  · rcases Declaration.lawful_or_fault d.owner d.bindings with hl | ⟨e, hf⟩
    · exact .inr (.inl ⟨hnil, hl, ofDeclaration_of_lawful hnil hl⟩)
    · exact .inr (.inr ⟨e, hf, ofDeclaration_of_fault hf⟩)

theorem lawful_of_ofDeclaration {p : Descriptor σ} (h : ofDeclaration d = .ok (some p)) :
    d.bindings ≠ [] ∧ Lawful d.bindings ∧ p.owner = d.owner ∧ p.mode = d.mode ∧
      Binds p.callbacks d.bindings := by
  obtain ⟨-, ho⟩ | ⟨hne, hl, slots, ho, hbinds⟩ | ⟨e, -, ho⟩ := ofDeclaration_cases d
  · rw [h] at ho
    cases ho
  · rw [h] at ho
    cases ho
    exact ⟨hne, hl, rfl, rfl, hbinds⟩
  · rw [h] at ho
    cases ho

end Declarations

/-- What validation makes of a declaration: nothing of one without bindings, a descriptor of one
whose bindings keep the contract, and of any other the error of the first binding that spoils
this. -/
theorem ofDeclaration_iff (d : Declaration σ) :
    (ofDeclaration d = .ok none ↔ d.bindings = []) ∧
    ((∃ p, ofDeclaration d = .ok (some p)) ↔ d.bindings ≠ [] ∧ Lawful d.bindings) ∧
    (∀ p, ofDeclaration d = .ok (some p) →
      p.owner = d.owner ∧ p.mode = d.mode ∧
      (∀ op c, p.callback? op = some c ↔ (op, c) ∈ d.bindings) ∧
      p.operations =
        [.complete, .compensate, .status, .forget].filter (· ∈ d.bindings.map Prod.fst)) ∧
    ∀ e, ofDeclaration d = .error e ↔ Fault d.owner d.bindings e := by
  have hcases := ofDeclaration_cases d
  refine ⟨⟨fun h => ?_, ofDeclaration_of_nil⟩, ⟨?_, ?_⟩, fun p hp => ?_,
    fun e => ⟨fun h => ?_, ofDeclaration_of_fault⟩⟩
  · simpa [h] using hcases
  · rintro ⟨p, hp⟩
    obtain ⟨hne, hl, -⟩ := lawful_of_ofDeclaration hp
    exact ⟨hne, hl⟩
  · rintro ⟨hne, hl⟩
    obtain ⟨slots, hok, -⟩ := ofDeclaration_of_lawful hne hl
    exact ⟨_, hok⟩
  · obtain ⟨-, -, ho, hm, hbinds⟩ := lawful_of_ofDeclaration hp
    exact ⟨ho, hm, hbinds, operations_of_binds hbinds⟩
  · simpa [h] using hcases

/-- The parameters are checked before the return kind. -/
example (h : Handler Unit) :
    ofDeclaration ⟨"Payments", .shared, [(.complete, ⟨.ofAction .unit, h⟩),
      (.status, ⟨⟨[.parentId], .other "number"⟩, h⟩)]⟩ =
      .error (.parameterType "Payments" .status 0 "ParentActionId") :=
  rfl

end Descriptor

end Saga
