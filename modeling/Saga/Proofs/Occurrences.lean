/-!
# First and last occurrences

No member of a list has a property, or one is the first that has it, and one the last. The list is
split there, so that what stands before or after it is known not to have the property.
-/

set_option autoImplicit false

namespace Saga

variable {α : Type}

theorem exists_first_or_forall_not (p : α → Prop) (l : List α) :
    (∃ before a after, l = before ++ a :: after ∧ p a ∧ ∀ b ∈ before, ¬ p b) ∨
      ∀ a ∈ l, ¬ p a := by
  classical
  cases h : l.find? p with
  | none => exact .inr fun a ha hp => List.find?_eq_none.1 h a ha (decide_eq_true hp)
  | some a =>
    obtain ⟨ha, before, after, rfl, hbefore⟩ := List.find?_eq_some_iff_append.1 h
    exact .inl ⟨before, a, after, rfl, of_decide_eq_true ha, by simpa using hbefore⟩

theorem exists_last_or_forall_not (p : α → Prop) (l : List α) :
    (∃ before a after, l = before ++ a :: after ∧ p a ∧ ∀ b ∈ after, ¬ p b) ∨
      ∀ a ∈ l, ¬ p a := by
  rcases exists_first_or_forall_not p l.reverse with ⟨before, a, after, h, ha, hbefore⟩ | hnone
  · refine .inl ⟨after.reverse, a, before.reverse, ?_, ha, fun b hb => ?_⟩
    · rw [← List.reverse_reverse l, h, List.reverse_append, List.reverse_cons, List.append_assoc,
        List.singleton_append]
    · exact hbefore b (List.mem_reverse.1 hb)
  · exact .inr fun a ha => hnone a (List.mem_reverse.2 ha)

end Saga
