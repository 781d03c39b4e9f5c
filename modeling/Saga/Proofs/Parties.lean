/-!
# Parties that take steps

The parties to a protocol are a list, of which one at a time takes a step: it is replaced by what it
is then. How many parties have a property changes with that one only (`countP_set_add`), and the
others stay who they are (`eq_or_other_of_mem_set`, `mem_set_of_ne`).
-/

set_option autoImplicit false

namespace Saga

variable {α : Type} {xs : List α} {i j : Nat} {a b : α} {p : α → Bool}

theorem countP_set_add (hi : xs[i]? = some a) (b : α) (p : α → Bool) :
    (xs.set i b).countP p + (p a).toNat = xs.countP p + (p b).toNat := by
  obtain ⟨hlt, hget⟩ := List.getElem?_eq_some_iff.1 hi
  have hpos : p a = true → 0 < xs.countP p := fun h =>
    List.countP_pos_iff.2 ⟨a, List.mem_of_getElem? hi, h⟩
  rw [List.countP_set hlt, hget]
  cases ha : p a with
  | false => cases p b <;> simp
  | true =>
    have := hpos ha
    cases p b <;> simp <;> omega

theorem two_le_countP (hij : i ≠ j) (hi : xs[i]? = some a) (hj : xs[j]? = some b)
    (ha : p a = true) (hb : p b = true) : 2 ≤ xs.countP p := by
  induction xs generalizing i j with
  | nil => cases hi
  | cons x xs ih =>
    have one : ∀ {k : Nat} {c : α}, xs[k]? = some c → p c = true → 1 ≤ xs.countP p :=
      fun hk hc => List.countP_pos_iff.2 ⟨_, List.mem_of_getElem? hk, hc⟩
    match i, j with
    | 0, 0 => exact absurd rfl hij
    | 0, j + 1 =>
      obtain rfl : x = a := by simpa using hi
      have := one (by simpa using hj) hb
      rw [List.countP_cons_of_pos ha]
      omega
    | i + 1, 0 =>
      obtain rfl : x = b := by simpa using hj
      have := one (by simpa using hi) ha
      rw [List.countP_cons_of_pos hb]
      omega
    | i + 1, j + 1 =>
      have := ih (i := i) (j := j) (by omega) (by simpa using hi) (by simpa using hj)
      have := List.countP_cons (p := p) (a := x) (l := xs)
      omega

/-- Whoever is there after a step is the one that took it, or another who was there before. -/
theorem eq_or_other_of_mem_set {c : α} (h : c ∈ xs.set i b) :
    c = b ∨ ∃ j, i ≠ j ∧ xs[j]? = some c := by
  obtain ⟨j, hj⟩ := List.mem_iff_getElem?.1 h
  rw [List.getElem?_set] at hj
  split at hj
  · split at hj
    · exact .inl (Option.some.inj hj).symm
    · cases hj
  · rename_i hij
    exact .inr ⟨j, hij, hj⟩

/-- Whoever was there before a step and did not take it is there after it. -/
theorem mem_set_of_ne {c : α} (hi : xs[i]? = some a) (hc : c ∈ xs) (hca : c ≠ a) (b : α) :
    c ∈ xs.set i b := by
  obtain ⟨j, hj⟩ := List.mem_iff_getElem?.1 hc
  have hij : i ≠ j := by
    rintro rfl
    rw [hi] at hj
    exact hca (Option.some.inj hj).symm
  exact List.mem_of_getElem? ((List.getElem?_set_ne hij).trans hj)

end Saga
