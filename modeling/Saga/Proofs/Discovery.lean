import Saga.Proofs.Occurrences
import Saga.Proofs.Participants
import Saga.Proofs.Replay

/-!
# Discovery

A batch is checked from its start, so discovery fails with the error of its first candidate that
breaks the contract (`Registry.Fault`), and nothing is registered then (`discover_of_fault`). Of a
valid batch every candidate that has a callback is registered in its turn (`discover_of_valid`), so
the last one of an owner is the one that stays (`Registry.LastOf`). What a registration makes of the
entry of an owner is said once, for discovery and for single descriptors (`Registration.Registers`,
`lookup_of_registers`, `lookup_of_not_registers`). So the entry after a whole run is the one of the
last registration that went through (`kept_of_run`). `discovers_all_or_nothing` puts these together.
-/

set_option autoImplicit false

namespace Saga

variable {σ τ : Type}

/-- The descriptor of a candidate, if it keeps the contract and has a callback. -/
def Declaration.descriptor? (c : Declaration σ) : Option (Descriptor σ) :=
  match Descriptor.ofDeclaration c with
  | .ok d => d
  | .error _ => none

namespace Registry

/-! ## Batches -/

/-- Every candidate of the batch keeps the contract. -/
def Valid (batch : List (Declaration σ)) : Prop := ∀ c ∈ batch, Declaration.Lawful c.bindings

/-- The error for the first candidate of the batch that does not keep the contract. -/
inductive Fault (batch : List (Declaration σ)) : ContractError → Prop
  | first {before after : List (Declaration σ)} {c : Declaration σ} {e : ContractError} :
    batch = before ++ c :: after → Valid before → Declaration.Fault c.owner c.bindings e →
    Fault batch e

/-- The last candidate of the batch that has this owner and a callback. -/
structure LastOf (batch : List (Declaration σ)) (owner : String) (c : Declaration σ) : Prop where
  owns : c.owner = owner
  bound : c.bindings ≠ []
  last : ∃ before after, batch = before ++ c :: after ∧
    ∀ c' ∈ after, c'.owner = owner → c'.bindings = []

variable {batch : List (Declaration σ)} {c : Declaration σ} {owner : String} {e : ContractError}
  {d : Descriptor σ}

theorem valid_cons : Valid (c :: batch) ↔ Declaration.Lawful c.bindings ∧ Valid batch :=
  List.forall_mem_cons

/-- A batch is valid, or some candidate is the first that is not. -/
theorem valid_or_fault (batch : List (Declaration σ)) : Valid batch ∨ ∃ e, Fault batch e := by
  induction batch with
  | nil => exact .inl nofun
  | cons c batch ih =>
    rcases Declaration.lawful_or_fault c.owner c.bindings with hc | ⟨e, hf⟩
    · rcases ih with hb | ⟨e, ⟨rfl, hb, hf⟩⟩
      · exact .inl (valid_cons.2 ⟨hc, hb⟩)
      · exact .inr ⟨e, .first rfl (valid_cons.2 ⟨hc, hb⟩) hf⟩
    · exact .inr ⟨e, .first (List.nil_append _).symm nofun hf⟩

/-- Unless no candidate of the owner has a callback, one is the last. -/
theorem exists_lastOf (batch : List (Declaration σ)) (owner : String) :
    (∃ c, LastOf batch owner c) ∨ ∀ c ∈ batch, c.owner = owner → c.bindings = [] := by
  rcases exists_last_or_forall_not (fun c => c.owner = owner ∧ c.bindings ≠ []) batch with
    ⟨before, c, after, h, ⟨howner, hbound⟩, hafter⟩ | hnone
  · refine .inl ⟨c, howner, hbound, before, after, h, fun c' hc' ho => ?_⟩
    exact Decidable.not_not.1 fun hb => hafter c' hc' ⟨ho, hb⟩
  · exact .inr fun c hc ho => Decidable.not_not.1 fun hb => hnone c hc ⟨ho, hb⟩

/-! ## Descriptors of a batch -/

theorem ofDeclaration_of_descriptor? (h : c.descriptor? = some d) :
    Descriptor.ofDeclaration c = .ok (some d) := by
  unfold Declaration.descriptor? at h
  split at h
  · rename_i hd
    rw [hd, h]
  · cases h

theorem of_descriptor? (h : c.descriptor? = some d) : d.owner = c.owner ∧ c.bindings ≠ [] := by
  obtain ⟨hne, -, ho, -⟩ := Descriptor.lawful_of_ofDeclaration (ofDeclaration_of_descriptor? h)
  exact ⟨ho, hne⟩

/-- What validation makes of a candidate that keeps the contract. -/
theorem ofDeclaration_of_lawful (h : Declaration.Lawful c.bindings) :
    Descriptor.ofDeclaration c = .ok c.descriptor? ∧
      c.descriptor?.isSome = !c.bindings.isEmpty := by
  unfold Declaration.descriptor?
  by_cases hnil : c.bindings = []
  · rw [Descriptor.ofDeclaration_of_nil hnil, hnil]
    exact ⟨rfl, rfl⟩
  · obtain ⟨slots, hok, -⟩ := Descriptor.ofDeclaration_of_lawful hnil h
    rw [hok]
    exact ⟨rfl, by simpa using hnil⟩

/-- The batch after the last candidate of an owner registers nothing for it. -/
theorem owner_ne_of_mem (h : ∀ c ∈ batch, c.owner = owner → c.bindings = [])
    (hd : d ∈ batch.filterMap Declaration.descriptor?) : d.owner ≠ owner := by
  obtain ⟨c, hc, hcd⟩ := List.mem_filterMap.1 hd
  obtain ⟨ho, hb⟩ := of_descriptor? hcd
  intro howner
  exact hb (h c hc (ho.symm.trans howner))

/-! ## Registering -/

variable {r : Registry σ} {ds : List (Descriptor σ)}

theorem lookup_foldl_put_of_ne (h : ∀ d ∈ ds, d.owner ≠ owner) :
    (ds.foldl put r).lookup owner = r.lookup owner := by
  induction ds generalizing r with
  | nil => rfl
  | cons d ds ih =>
    obtain ⟨hd, hds⟩ := List.forall_mem_cons.1 h
    rw [List.foldl_cons, ih hds, lookup_put, if_neg hd]

/-- Of several descriptors for an owner the last counts. -/
theorem lookup_foldl_put_last {before after : List (Descriptor σ)} (hd : d.owner = owner)
    (h : ∀ d' ∈ after, d'.owner ≠ owner) :
    ((before ++ d :: after).foldl put r).lookup owner = .ok d := by
  rw [List.foldl_append, List.foldl_cons, lookup_foldl_put_of_ne h, lookup_put, if_pos hd]

theorem lookup_ok_iff : r.lookup owner = .ok d ↔ r.participants.get? owner = some d := by
  unfold lookup
  cases r.participants.get? owner <;> simp

theorem mem_owners_iff : owner ∈ r.owners ↔ ∃ d, r.lookup owner = .ok d := by
  simp only [lookup_ok_iff, owners, List.mem_mergeSort]
  rw [← Option.isSome_iff_exists, ← Decidable.not_iff_not, ← Table.get?_eq_none_iff]
  simp

theorem nodup_owners (r : Registry σ) : r.owners.Nodup :=
  (List.mergeSort_perm _ _).nodup_iff.2 r.participants.nodup

variable [Journal τ]

theorem register_registry (r : Registry σ) (d : Descriptor σ) (s : τ) :
    (r.register d s).2.1 = r.put d := by
  unfold register
  split <;> rfl

theorem registerAll_registry (r : Registry σ) (ds : List (Descriptor σ)) (s : τ) :
    (r.registerAll ds s).2.1 = ds.foldl put r := by
  induction ds generalizing r s with
  | nil => rfl
  | cons d ds ih =>
    rw [List.foldl_cons, ← register_registry r d s]
    exact ih _ _

/-! ## Discovery -/

theorem discover_batch_of_valid (h : Valid batch) (s : τ) :
    (Saga.discover batch s).1 = .ok (batch.filterMap Declaration.descriptor?) := by
  induction batch generalizing s with
  | nil => rfl
  | cons c batch ih =>
    obtain ⟨hc, hbatch⟩ := valid_cons.1 h
    obtain ⟨hok, -⟩ := ofDeclaration_of_lawful hc
    cases hd : c.descriptor? with
    | none =>
      rw [hd] at hok
      rw [Saga.discover, hok, List.filterMap_cons_none hd]
      exact ih hbatch _
    | some d =>
      rw [hd] at hok
      have hrest := ih hbatch s
      rw [Saga.discover, hok, List.filterMap_cons_some hd]
      rcases hb : Saga.discover batch s with ⟨e | ds, s'⟩
      · rw [hb] at hrest
        cases hrest
      · rw [hb] at hrest
        cases hrest
        rfl

theorem discover_batch_of_fault (h : Fault batch e) (s : τ) :
    (Saga.discover batch s).1 = .error e := by
  obtain @⟨before, after, c, _, rfl, hbefore, hf⟩ := h
  induction before generalizing s with
  | nil => rw [List.nil_append, Saga.discover, Descriptor.ofDeclaration_of_fault hf]
  | cons b before ih =>
    obtain ⟨hb, hbefore⟩ := valid_cons.1 hbefore
    obtain ⟨hok, -⟩ := ofDeclaration_of_lawful hb
    rw [List.cons_append, Saga.discover, hok]
    cases hd : b.descriptor? with
    | none => exact ih _ hbefore
    | some d =>
      have hrest := ih s hbefore
      rcases hx : Saga.discover (before ++ c :: after) s with ⟨e' | ds, s'⟩
      · rw [hx] at hrest
        cases hrest
        rfl
      · rw [hx] at hrest
        cases hrest

/-- Nothing of a batch is registered if some candidate breaks the contract. -/
theorem discover_of_fault (r : Registry σ) (h : Fault batch e) (s : τ) :
    (r.discover batch s).1 = .error e ∧ (r.discover batch s).2.1 = r := by
  have hb := discover_batch_of_fault h s
  unfold discover
  rcases hx : Saga.discover batch s with ⟨e' | ds, s'⟩ <;> rw [hx] at hb <;> cases hb
  exact ⟨rfl, rfl⟩

theorem discover_of_valid (r : Registry σ) (h : Valid batch) (s : τ) :
    (r.discover batch s).1 = .ok (batch.filterMap Declaration.descriptor?).length ∧
      (r.discover batch s).2.1 = (batch.filterMap Declaration.descriptor?).foldl put r := by
  have hb := discover_batch_of_valid h s
  unfold discover
  rcases hx : Saga.discover batch s with ⟨e' | ds, s'⟩ <;> rw [hx] at hb <;> cases hb
  exact ⟨rfl, registerAll_registry r _ s'⟩

/-- As many are registered as have a callback. -/
theorem length_descriptors (h : Valid batch) :
    (batch.filterMap Declaration.descriptor?).length =
      batch.countP fun c => !c.bindings.isEmpty := by
  rw [List.length_filterMap_eq_countP]
  refine List.countP_congr fun c hc => ?_
  rw [(ofDeclaration_of_lawful (h c hc)).2]

/-! ## Registrations -/

/-- A way to get descriptors into a registry. -/
inductive Registration (σ : Type) where
  | discover (batch : List (Declaration σ))
  | register (d : Descriptor σ)

namespace Registration

/-- Carries the registration out. -/
def play (x : Registry σ × τ) : Registration σ → Registry σ × τ
  | .discover batch => (x.1.discover batch x.2).2
  | .register d => (x.1.register d x.2).2

/-- The registration goes through and has `d` for the owner. -/
inductive Registers (owner : String) : Registration σ → Descriptor σ → Prop
  | discovered {batch : List (Declaration σ)} {c : Declaration σ} {d : Descriptor σ} :
    Valid batch → LastOf batch owner c → Descriptor.ofDeclaration c = .ok (some d) →
    Registers owner (.discover batch) d
  | registered {d : Descriptor σ} : d.owner = owner → Registers owner (.register d) d

variable {g : Registration σ} {x : Registry σ × τ}

omit [Journal τ] in
theorem Registers.owner_eq (h : g.Registers owner d) : d.owner = owner := by
  cases h with
  | discovered hv hl hd => exact (Descriptor.of_ofDeclaration hd).1.trans hl.owns
  | registered ho => exact ho

omit [Journal τ] in
theorem registers_of_lastOf (hv : Valid batch) (hl : LastOf batch owner c) :
    ∃ d, Descriptor.ofDeclaration c = .ok (some d) ∧
      (Registration.discover batch).Registers owner d := by
  obtain ⟨before, after, rfl, -⟩ := hl.last
  have hc : Declaration.Lawful c.bindings := hv c (by simp)
  obtain ⟨slots, hd, -⟩ := Descriptor.ofDeclaration_of_lawful hl.bound hc
  exact ⟨_, hd, .discovered hv hl hd⟩

theorem lookup_of_registers (h : g.Registers owner d) : (g.play x).1.lookup owner = .ok d := by
  cases h with
  | @discovered _ c _ hv hl hd =>
    obtain ⟨before, after, rfl, hafter⟩ := hl.last
    have hsome : c.descriptor? = some d := by
      unfold Declaration.descriptor?
      rw [hd]
    rw [play, (discover_of_valid x.1 hv x.2).2, List.filterMap_append,
      List.filterMap_cons_some hsome]
    have ho := (Descriptor.of_ofDeclaration hd).1.trans hl.owns
    exact lookup_foldl_put_last ho fun d' hd' => owner_ne_of_mem hafter hd'
  | registered ho => rw [play, register_registry, lookup_put, if_pos ho]

theorem lookup_of_not_registers (h : ∀ d, ¬ g.Registers owner d) :
    (g.play x).1.lookup owner = x.1.lookup owner := by
  cases g with
  | discover batch =>
    rcases valid_or_fault batch with hv | ⟨e, hf⟩
    · have hnone : ∀ c ∈ batch, c.owner = owner → c.bindings = [] := by
        rcases exists_lastOf batch owner with ⟨c, hl⟩ | hnone
        · obtain ⟨d, -, hd⟩ := registers_of_lastOf hv hl
          exact absurd hd (h d)
        · exact hnone
      rw [play, (discover_of_valid x.1 hv x.2).2]
      exact lookup_foldl_put_of_ne fun d hd => owner_ne_of_mem hnone hd
    · rw [play, (discover_of_fault x.1 hf x.2).2]
  | register d =>
    have ho : d.owner ≠ owner := fun ho => h d (.registered ho)
    rw [play, register_registry, lookup_put, if_neg ho]

/-- A registration stores an entry under the name of its owner only. -/
theorem keyed (g : Registration σ) (h : ∀ owner d, x.1.lookup owner = .ok d → d.owner = owner)
    (hd : (g.play x).1.lookup owner = .ok d) : d.owner = owner := by
  by_cases hr : ∃ d', g.Registers owner d'
  · obtain ⟨d', hr⟩ := hr
    rw [lookup_of_registers hr] at hd
    cases hd
    exact hr.owner_eq
  · rw [lookup_of_not_registers fun d' hd' => hr ⟨d', hd'⟩] at hd
    exact h owner d hd

/-- Once more changes nothing that is found. -/
theorem lookup_again (g : Registration σ) (s' : τ) (owner : String) :
    (g.play ((g.play x).1, s')).1.lookup owner = (g.play x).1.lookup owner := by
  by_cases hr : ∃ d, g.Registers owner d
  · obtain ⟨d, hr⟩ := hr
    rw [lookup_of_registers hr, lookup_of_registers hr]
  · exact lookup_of_not_registers fun d hd => hr ⟨d, hd⟩

end Registration

/-! ## Runs -/

/-- The registry before registration `n` of a run on a new one, with the state beside it. -/
def before (s : τ) (run : List (Registration σ)) (n : Nat) : Registry σ × τ :=
  replay Registration.play (.empty, s) run n

/-- `d` is what the last of the first `n` registrations had for the owner that had anything for it
and went through. -/
def Latest (run : List (Registration σ)) (n : Nat) (owner : String) (d : Descriptor σ) : Prop :=
  ∃ m < n, ∃ g, run[m]? = some g ∧ g.Registers owner d ∧
    ∀ k, m < k → k < n → ∀ g', run[k]? = some g' → ∀ d', ¬ g'.Registers owner d'

/-- None of the first `n` registrations had anything for the owner and went through. -/
def Never (run : List (Registration σ)) (n : Nat) (owner : String) : Prop :=
  ∀ m < n, ∀ g, run[m]? = some g → ∀ d, ¬ g.Registers owner d

variable {run : List (Registration σ)} {n : Nat}

omit [Journal τ] in
theorem Latest.succ (h : Latest run n owner d)
    (hn : ∀ g, run[n]? = some g → ∀ d, ¬ g.Registers owner d) : Latest run (n + 1) owner d := by
  obtain ⟨m, hm, g, hg, hr, hlast⟩ := h
  refine ⟨m, Nat.lt_succ_of_lt hm, g, hg, hr, ?_⟩
  intro k hmk hkn
  rcases Nat.lt_succ_iff_lt_or_eq.1 hkn with hlt | rfl
  · exact hlast k hmk hlt
  · exact hn

omit [Journal τ] in
theorem Never.succ (h : Never run n owner)
    (hn : ∀ g, run[n]? = some g → ∀ d, ¬ g.Registers owner d) : Never run (n + 1) owner := by
  intro m hm
  rcases Nat.lt_succ_iff_lt_or_eq.1 hm with hlt | rfl
  · exact h m hlt
  · exact hn

/-- The entry of an owner is the one of the last registration for it. -/
theorem kept_of_run (s : τ) (run : List (Registration σ)) (n : Nat) (owner : String) :
    (∃ d, (before s run n).1.lookup owner = .ok d ∧ Latest run n owner d) ∨
      (before s run n).1.lookup owner = .error (.notFound owner) ∧ Never run n owner := by
  induction n with
  | zero => exact .inr ⟨rfl, nofun⟩
  | succ n ih =>
    by_cases hr : ∃ g d, run[n]? = some g ∧ g.Registers owner d
    · obtain ⟨g, d, hg, hd⟩ := hr
      refine .inl ⟨d, ?_, n, Nat.lt_succ_self n, g, hg, hd, ?_⟩
      · rw [before, replay_succ hg]
        exact Registration.lookup_of_registers hd
      · intro k hnk hkn
        omega
    · have hn : ∀ g, run[n]? = some g → ∀ d, ¬ g.Registers owner d :=
        fun g hg d hd => hr ⟨g, d, hg, hd⟩
      have hsame : (before s run (n + 1)).1.lookup owner = (before s run n).1.lookup owner := by
        cases hg : run[n]? with
        | none => rw [before, replay_of_none hg, before]
        | some g =>
          rw [before, replay_succ hg]
          exact Registration.lookup_of_not_registers (hn g hg)
      rw [hsame]
      rcases ih with ⟨d, hd, hl⟩ | ⟨he, hv⟩
      · exact .inl ⟨d, hd, hl.succ hn⟩
      · exact .inr ⟨he, hv.succ hn⟩

/-- **Discovery is all or nothing, and the last candidate wins.** If some candidate of a batch
breaks the contract, discovery fails with the error of the first that does, and the registry is as
it was. Otherwise as many are registered as have a callback; an owner is found with the descriptor
of its last candidate that has one, and if it has none, with what it was found with before. Every
entry that was stored under the name of its owner still is, no owner comes twice, and discovering
the batch once more is answered the same and changes nothing that is found. After any
registrations, an owner is found with what the last of them that went through had for it, under its
own name, and not found if none had anything for it. -/
theorem discovers_all_or_nothing (s : τ) :
    (∀ (r : Registry σ) (batch : List (Declaration σ)),
      ((∃ c ∈ batch, ¬ Declaration.Lawful c.bindings) →
        ∃ e, Fault batch e ∧ (r.discover batch s).1 = .error e ∧ (r.discover batch s).2.1 = r) ∧
      ((∀ c ∈ batch, Declaration.Lawful c.bindings) →
        (r.discover batch s).1 = .ok (batch.countP fun c => !c.bindings.isEmpty) ∧
        ∀ owner,
          (∀ c, LastOf batch owner c → ∃ d, Descriptor.ofDeclaration c = .ok (some d) ∧
            (r.discover batch s).2.1.lookup owner = .ok d) ∧
          ((∀ c ∈ batch, c.owner = owner → c.bindings = []) →
            (r.discover batch s).2.1.lookup owner = r.lookup owner)) ∧
      ((∀ owner d, r.lookup owner = .ok d → d.owner = owner) →
        ∀ owner d, (r.discover batch s).2.1.lookup owner = .ok d → d.owner = owner) ∧
      (r.discover batch s).2.1.owners.Nodup ∧
      (∀ owner, owner ∈ (r.discover batch s).2.1.owners ↔
        ∃ d, (r.discover batch s).2.1.lookup owner = .ok d) ∧
      ∀ s' : τ, ((r.discover batch s).2.1.discover batch s').1 = (r.discover batch s).1 ∧
        ∀ owner, ((r.discover batch s).2.1.discover batch s').2.1.lookup owner =
          (r.discover batch s).2.1.lookup owner) ∧
    ∀ (run : List (Registration σ)) n,
      (∀ owner, (∃ d, (before s run n).1.lookup owner = .ok d ∧ Latest run n owner d) ∨
        (before s run n).1.lookup owner = .error (.notFound owner) ∧ Never run n owner) ∧
      (∀ owner d, (before s run n).1.lookup owner = .ok d → d.owner = owner) ∧
      (before s run n).1.owners.Nodup := by
  refine ⟨fun r batch => ⟨?_, ?_, ?_, nodup_owners _, fun owner => mem_owners_iff, ?_⟩, ?_⟩
  · intro hbad
    rcases valid_or_fault batch with hv | ⟨e, hf⟩
    · obtain ⟨c, hc, hnot⟩ := hbad
      exact absurd (hv c hc) hnot
    · exact ⟨e, hf, discover_of_fault r hf s⟩
  · intro hv
    refine ⟨by rw [(discover_of_valid r hv s).1, length_descriptors hv], fun owner => ⟨?_, ?_⟩⟩
    · intro c hl
      obtain ⟨d, hd, hr⟩ := Registration.registers_of_lastOf hv hl
      exact ⟨d, hd, Registration.lookup_of_registers (x := (r, s)) hr⟩
    · intro hnone
      rw [(discover_of_valid r hv s).2]
      exact lookup_foldl_put_of_ne fun d hd => owner_ne_of_mem hnone hd
  · intro hkeyed owner d hd
    exact Registration.keyed (x := (r, s)) (.discover batch) hkeyed hd
  · intro s'
    refine ⟨?_, fun owner => Registration.lookup_again (x := (r, s)) (.discover batch) s' owner⟩
    rcases valid_or_fault batch with hv | ⟨e, hf⟩
    · rw [(discover_of_valid _ hv s').1, (discover_of_valid r hv s).1]
    · rw [(discover_of_fault _ hf s').1, (discover_of_fault r hf s).1]
  · intro run n
    refine ⟨fun owner => kept_of_run s run n owner, fun owner d hd => ?_, nodup_owners _⟩
    rcases kept_of_run s run n owner with ⟨d', hd', hl⟩ | ⟨he, -⟩
    · obtain ⟨m, -, g, -, hr, -⟩ := hl
      obtain rfl := Except.ok.inj (hd.symm.trans hd')
      exact hr.owner_eq
    · rw [he] at hd
      cases hd

end Registry

end Saga
