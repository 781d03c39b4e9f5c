import Saga.Proofs.Validation
import Saga.Registry

/-!
# Registered participants

A registry only gets descriptors whose declarations were checked (`Registry.Built`): discovery and
registration keep it so (`Built.discover`). Whoever is found in it is found under its own name and
has a callback for some operation (`Built.of_lookup`), and every callback found has a shape that the
contract allows (`Built.breach?_of_lookup`).
-/

set_option autoImplicit false

namespace Saga

variable {σ τ : Type}

namespace Descriptor

theorem breach?_of_ofDeclaration {c : Declaration σ} {d : Descriptor σ}
    (h : ofDeclaration c = .ok (some d)) {op : Operation} {cb : Callback σ}
    (hc : d.callback? op = some cb) : cb.signature.breach? = none := by
  obtain ⟨-, hl, -, -, hbinds⟩ := lawful_of_ofDeclaration h
  exact (hl.shapes (op, cb) ((hbinds op cb).1 hc)).breach?

/-- A descriptor has the owner of its declaration and a callback for some operation. -/
theorem of_ofDeclaration {c : Declaration σ} {d : Descriptor σ}
    (h : ofDeclaration c = .ok (some d)) :
    d.owner = c.owner ∧ ∃ op, (d.callback? op).isSome := by
  obtain ⟨hne, -, ho, -, hbinds⟩ := lawful_of_ofDeclaration h
  obtain ⟨b, bs, hb⟩ := List.exists_cons_of_ne_nil hne
  exact ⟨ho, b.1, (hbinds.isSome_iff b.1).2 (by simp [hb])⟩

end Descriptor

namespace Registry

/-- A registry into which only checked descriptors were put. -/
inductive Built : Registry σ → Prop
  | empty : Built .empty
  | put {r : Registry σ} (c : Declaration σ) {d : Descriptor σ} :
    Built r → Descriptor.ofDeclaration c = .ok (some d) → Built (r.put d)

theorem lookup_put (r : Registry σ) (d : Descriptor σ) (owner : String) :
    (r.put d).lookup owner = if d.owner = owner then .ok d else r.lookup owner := by
  simp only [lookup, put, Table.get?_insert]
  by_cases h : d.owner = owner <;> simp [h]

namespace Built

variable {r : Registry σ} {owner : String} {d : Descriptor σ}

theorem of_lookup (h : r.Built) (hl : r.lookup owner = .ok d) :
    d.owner = owner ∧ ∃ op, (d.callback? op).isSome := by
  induction h with
  | empty => cases hl
  | @put r c d' _ hd ih =>
    rw [lookup_put] at hl
    split at hl
    · rename_i ho
      cases hl
      exact ⟨ho, (Descriptor.of_ofDeclaration hd).2⟩
    · exact ih hl

/-- What is bound in the registry keeps the contract. -/
theorem breach?_of_lookup (h : r.Built) (hl : r.lookup owner = .ok d) {op : Operation}
    {c : Callback σ} (hc : d.callback? op = some c) : c.signature.breach? = none := by
  induction h with
  | empty => cases hl
  | put _ _ hd ih =>
    rw [lookup_put] at hl
    split at hl
    · cases hl
      exact Descriptor.breach?_of_ofDeclaration hd hc
    · exact ih hl

variable [Journal τ]

theorem register (h : r.Built) {c : Declaration σ} (hd : Descriptor.ofDeclaration c = .ok (some d))
    (s : τ) : (r.register d s).2.1.Built := by
  unfold Registry.register
  split
  · exact h.put c hd
  · exact h.put c hd

theorem registerAll {ds : List (Descriptor σ)} (h : r.Built)
    (hds : ∀ d ∈ ds, ∃ c, Descriptor.ofDeclaration c = .ok (some d)) (s : τ) :
    (r.registerAll ds s).2.1.Built := by
  induction ds generalizing r s with
  | nil => exact h
  | cons d ds ih =>
    obtain ⟨c, hc⟩ := hds d List.mem_cons_self
    exact ih (h.register hc s) (fun d' hd' => hds d' (List.mem_cons_of_mem _ hd')) _

theorem of_discovered {batch : List (Declaration σ)} {ds : List (Descriptor σ)} {s s' : τ}
    (h : Saga.discover batch s = (.ok ds, s')) :
    ∀ d ∈ ds, ∃ c, Descriptor.ofDeclaration c = .ok (some d) := by
  induction batch generalizing ds s s' with
  | nil =>
    cases h
    nofun
  | cons c batch ih =>
    simp only [Saga.discover] at h
    split at h
    · cases h
    · exact ih h
    · rename_i d hd
      split at h
      · rename_i ds' s₁ hb
        cases h
        intro d' hd'
        rcases List.mem_cons.1 hd' with rfl | hd'
        · exact ⟨c, hd⟩
        · exact ih hb d' hd'
      · cases h

theorem discover (h : r.Built) (batch : List (Declaration σ)) (s : τ) :
    (r.discover batch s).2.1.Built := by
  unfold Registry.discover
  split
  · exact h
  · rename_i ds s' hb
    exact h.registerAll (of_discovered hb) s'

end Built

/-- Does the owner have a callback for the operation? -/
def binds (r : Registry σ) (op : Operation) (owner : String) : Bool :=
  match r.lookup owner with
  | .ok d => (d.callback? op).isSome
  | .error _ => false

theorem binds_of_lookup {r : Registry σ} {owner : String} {d : Descriptor σ}
    (h : r.lookup owner = .ok d) (op : Operation) : r.binds op owner = (d.callback? op).isSome := by
  simp only [binds, h]

/-- No callback of the registry ever breaks down. -/
def Calm (r : Registry σ) : Prop :=
  ∀ owner d op c, r.lookup owner = .ok d → d.callback? op = some c →
    ∀ args s text, (c.handler args s).1 ≠ .brokeDown text

end Registry

/-! ## Participants that always answer the same -/

/-- A callback that gives one answer each time. -/
def Callback.steady (returns : ReturnType) (a : Answer) : Callback σ :=
  ⟨.ofAction returns, fun _ s => (.answered a, s)⟩

/-- A participant that answers every request in one way. -/
def Descriptor.steady (owner : String) (returns : ReturnType) (a : Answer) : Descriptor σ :=
  let c := Callback.steady returns a
  ⟨owner, .shared, ⟨some c, some c, some c, some c⟩⟩

end Saga
