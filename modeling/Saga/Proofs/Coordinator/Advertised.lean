import Saga.Proofs.Coordinator.Outcome
import Saga.Proofs.Links.Header
import Saga.Proofs.Participants

/-!
# Participants are reached through their links

Discovery takes any name for an owner. The links that are made for a descriptor name its owner,
unless that name is empty (`Descriptor.link_resolves`), and whoever enlists with such a link is
asked when the action is ended (`Pass.call?_of_offers`, `Pass.not_dangling`). So an ending that
failed has another reason: some reply is a failure, or a link leads nowhere that was not made for a
participant with a name (`Office.Run.Leaves.fails_for`). `reached_through_links` puts this together.
-/

set_option autoImplicit false

namespace Saga

variable {σ τ : Type}

/-! ## Links -/

namespace Descriptor

variable {d : Descriptor σ} {op : Operation}

/-- The link for an operation names the owner, if that is not empty. -/
theorem link_resolves (base : String) (hop : op ∈ d.operations) :
    ∃ url, (Links.ofDescriptor d base).get? op = some url ∧
      Links.ofUrl? url = if d.owner = "" then none else some (d.owner, op) := by
  refine ⟨Links.urlOf base d.owner op, ?_, Links.ofUrl?_urlOf_eq base d.owner op⟩
  rw [Links.get?_ofDescriptor, if_pos ((Links.mem_operations d op).1 hop)]

theorem operations_ne_nil {c : Declaration σ} (h : ofDeclaration c = .ok (some d)) :
    d.operations ≠ [] := by
  obtain ⟨-, op, hop⟩ := of_ofDeclaration h
  exact List.ne_nil_of_mem ((Links.mem_operations d op).2 hop)

end Descriptor

/-- The link of the enlistment for the operation is one that was made for the descriptor. -/
def Enlistment.Offers (x : Enlistment) (d : Descriptor σ) (op : Operation) : Prop :=
  ∃ base url, (Links.ofDescriptor d base).get? op = some url ∧ x.links.get? op = some url

theorem Enlistment.Offers.ofUrl? {x : Enlistment} {d : Descriptor σ} {op : Operation}
    (h : x.Offers d op) (hd : d.owner ≠ "") :
    ∃ url, x.links.get? op = some url ∧ Links.ofUrl? url = some (d.owner, op) := by
  obtain ⟨base, url, hurl, hx⟩ := h
  have hop : op ∈ d.operations := by
    rw [Links.get?_ofDescriptor] at hurl
    split at hurl
    · rename_i hc
      exact (Links.mem_operations d op).2 hc
    · cases hurl
  obtain ⟨url', hurl', hres⟩ := Descriptor.link_resolves base hop
  rw [hurl, Option.some.injEq] at hurl'
  subst hurl'
  rw [if_neg hd] at hres
  exact ⟨url, hx, hres⟩

/-! ## Passes -/

namespace Pass

variable {p : Pass} {x : Enlistment} {d : Descriptor σ}

/-- Who offers a link of a participant with a name has that participant asked. -/
theorem call?_of_offers (h : x.Offers d p.ending.operation) (hd : d.owner ≠ "") :
    p.call? x = some ⟨d.owner, p.ending.operation, p.id, p.parent⟩ := by
  obtain ⟨url, hx, hres⟩ := h.ofUrl? hd
  unfold call?
  rw [hx, Option.bind_some, hres]
  rfl

theorem not_dangling (h : x.Offers d p.ending.operation) (hd : d.owner ≠ "") :
    p.dangling x = false := by
  obtain ⟨url, hx, hres⟩ := h.ofUrl? hd
  unfold dangling
  rw [hx, Option.any_some, hres]
  rfl

end Pass

/-! ## Requests that end an action -/

namespace Office.Run

variable [Journal σ] {r : Run σ} {n now : Nat} {u : Underway}

/-- What an ending that failed has failed for. -/
theorem Leaves.fails_for (h : r.Leaves n u now u.ending.failed) :
    (∃ y ∈ r.asked n u.id, y.2.isFailure = true) ∨
      ∃ x ∈ u.plan.enlisted, u.pass.dangling x = true ∧
        ∀ d : Descriptor τ, d.owner ≠ "" → ¬ x.Offers d u.ending.operation := by
  rcases fails_iff.2 (Ending.cameTo_eq_failed_iff.1 h.cameTo.symm) with ⟨x, hx, hdang⟩ | hy
  · refine .inr ⟨x, hx, hdang, fun d hd ho => ?_⟩
    have hno : u.pass.dangling x = false := Pass.not_dangling ho hd
    rw [hdang] at hno
    cases hno
  · exact .inl hy

end Office.Run

/-- **Participants are reached through their links.** Whatever discovery accepts has an operation,
and whatever the base is, there is a link for each of its operations, which names the owner and the
operation, unless the owner's name is empty: then it names nobody. Who enlists with the link of a
participant with a name has that participant asked for the operation. So no ending fails because
the link that was made for such a participant does not lead to it: if one fails, some reply is a
failure, or some link leads nowhere that was made for no such participant. -/
theorem reached_through_links [Journal τ] {batch : List (Declaration σ)}
    {ds : List (Descriptor σ)} {t t' : τ} (h : discover batch t = (.ok ds, t')) :
    (∀ d ∈ ds, d.operations ≠ [] ∧ ∀ base, ∀ op ∈ d.operations,
      ∃ url, (Links.ofDescriptor d base).get? op = some url ∧
        Links.ofUrl? url = if d.owner = "" then none else some (d.owner, op)) ∧
    (∀ d ∈ ds, d.owner ≠ "" → ∀ (p : Pass) (x : Enlistment), x.Offers d p.ending.operation →
      p.dangling x = false ∧
        p.call? x = some ⟨d.owner, p.ending.operation, p.id, p.parent⟩) ∧
    ∀ (r : Office.Run τ) (n now : Nat) (u : Underway), r.Leaves n u now u.ending.failed →
      (∃ y ∈ r.asked n u.id, y.2.isFailure = true) ∨
        ∃ x ∈ u.plan.enlisted, u.pass.dangling x = true ∧
          ∀ d ∈ ds, d.owner ≠ "" → ¬ x.Offers d u.ending.operation := by
  refine ⟨?_, ?_, ?_⟩
  · intro d hd
    obtain ⟨c, hc⟩ := Registry.Built.of_discovered h d hd
    exact ⟨Descriptor.operations_ne_nil hc, fun base op hop => Descriptor.link_resolves base hop⟩
  · intro d _ howner p x hx
    exact ⟨Pass.not_dangling hx howner, Pass.call?_of_offers hx howner⟩
  · intro r n now u hl
    obtain hy | ⟨x, hx, hdang, hno⟩ := hl.fails_for (τ := σ)
    · exact .inl hy
    · exact .inr ⟨x, hx, hdang, fun d _ howner => hno d howner⟩

/-! ## A participant without a name -/

namespace Office.Run

/-- A participant that completes at once. -/
def ready : Callback (List Event) := ⟨.ofAction .unit, fun _ s => (.answered .unit, s)⟩

/-- Its declaration under the name of an owner. -/
def readyDeclaration (owner : String) : Declaration (List Event) :=
  ⟨owner, .shared, [(.complete, ready)]⟩

def readyDescriptor (owner : String) : Descriptor (List Event) :=
  ⟨owner, .shared, Slots.empty.insert .complete ready⟩

/-- It enlists with the links that were made for it, and its action is closed. -/
def readyRun (owner : String) : Run (List Event) where
  base := "http://coord"
  registry := Registry.empty.put (readyDescriptor owner)
  state := []
  moves := [.start 0 "client" none,
    .join firstAction (Links.ofDescriptor (readyDescriptor owner) "http://svc").toHeader none none,
    .enter .close firstAction, .ask 0, .leave 0 1]

/-- Discovery accepts the empty name. The link that is made for it names nobody, so closing an
action in which it is enlisted fails, though nobody was asked for anything. -/
theorem nameless_not_reached :
    discover [readyDeclaration ""] ([] : List Event) = (.ok [readyDescriptor ""], []) ∧
    Operation.complete ∈ (readyDescriptor "").operations ∧
    ((Links.ofDescriptor (readyDescriptor "") "http://svc").get? .complete).map Links.ofUrl? =
      some none ∧
    ((readyRun "").before 2).coordinator.enlisted firstAction =
      [⟨Links.ofDescriptor (readyDescriptor "") "http://svc", "http://coord/recovery/1", none⟩] ∧
    (readyRun "").asked 5 firstAction = [] ∧
    ((readyRun "").before 5).floor.status? firstAction = some .failedToClose := by
  refine ⟨rfl, ?_, ?_, ?_, ?_, ?_⟩ <;> decide +kernel

/-- Of two participants that are accepted together, the one with a name is reached. -/
theorem named_reached :
    discover [readyDeclaration "", readyDeclaration "Payments"] ([] : List Event) =
      (.ok [readyDescriptor "", readyDescriptor "Payments"], []) ∧
    (∃ url, (Links.ofDescriptor (readyDescriptor "Payments") "http://svc").get? .complete =
      some url ∧ Links.ofUrl? url = some ("Payments", .complete)) ∧
    (Pass.call? ⟨.close, firstAction, none⟩
      ⟨Links.ofDescriptor (readyDescriptor "Payments") "http://svc", "http://coord/recovery/1",
        none⟩) = some ⟨"Payments", .complete, firstAction, none⟩ := by
  have hd : discover [readyDeclaration "", readyDeclaration "Payments"] ([] : List Event) =
      (.ok [readyDescriptor "", readyDescriptor "Payments"], []) := rfl
  obtain ⟨hlinks, hcalls, -⟩ := reached_through_links hd
  have hmem : readyDescriptor "Payments" ∈ [readyDescriptor "", readyDescriptor "Payments"] :=
    List.mem_cons_of_mem _ List.mem_cons_self
  have hurl := (hlinks _ hmem).2 "http://svc" .complete (by decide +kernel)
  obtain ⟨-, hcall⟩ := hcalls _ hmem (by decide) ⟨.close, firstAction, none⟩
    ⟨Links.ofDescriptor (readyDescriptor "Payments") "http://svc", "http://coord/recovery/1", none⟩
    ⟨"http://svc", _, rfl, rfl⟩
  exact ⟨hd, hurl, hcall⟩

end Office.Run

end Saga
