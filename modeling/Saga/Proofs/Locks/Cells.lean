import Saga.Locks

/-!
# The cells of the locks

A cell is seen through two views, the number of references to it (`Locks.refs`) and whether it is
held (`Locks.held`). Each step of a caller changes the views of one cell; what it does to them, and
to the map, is said here once.
-/

set_option autoImplicit false

namespace Saga.Locks

variable {l : Locks} {key : CallKey} {n m : Nat}

/-- The references to the cell `n`; none if it is gone. -/
def refs (l : Locks) (n : Nat) : Nat := ((l.cells.get? n).map LockCell.refs).getD 0

/-- Is the cell `n` held? -/
def held (l : Locks) (n : Nat) : Bool := ((l.cells.get? n).map LockCell.held).getD false

theorem isFree_eq (l : Locks) (n : Nat) : l.isFree n = !l.held n := by
  unfold isFree held
  cases l.cells.get? n <;> rfl

theorem exists_cell (h : 0 < l.refs n) : ∃ c, l.cells.get? n = some c := by
  unfold refs at h
  cases hc : l.cells.get? n with
  | some c => exact ⟨c, rfl⟩
  | none =>
    rw [hc] at h
    exact absurd h (Nat.lt_irrefl 0)

theorem refs_of_get? {c : LockCell} (h : l.cells.get? n = some c) : l.refs n = c.refs := by
  rw [refs, h]
  rfl

theorem held_of_get? {c : LockCell} (h : l.cells.get? n = some c) : l.held n = c.held := by
  rw [held, h]
  rfl

/-! ## Taking and giving back the lock -/

/-- Who holds the cell `n` makes no difference to the references. -/
theorem refs_modify_held (l : Locks) (n m : Nat) (held : Bool) :
    ({ l with cells := l.cells.modify n fun c => { c with held } } : Locks).refs m = l.refs m := by
  by_cases h : n = m
  · subst h
    cases hc : l.cells.get? n <;> simp [refs, Table.get?_modify, hc]
  · simp [refs, Table.get?_modify, h]

@[simp] theorem refs_acquire (l : Locks) (n m : Nat) : (l.acquire n).refs m = l.refs m :=
  l.refs_modify_held n m true

@[simp] theorem refs_release (l : Locks) (n m : Nat) : (l.release n).refs m = l.refs m :=
  l.refs_modify_held n m false

theorem held_acquire (hn : 0 < l.refs n) (m : Nat) :
    (l.acquire n).held m = if n = m then true else l.held m := by
  obtain ⟨c, hc⟩ := exists_cell hn
  by_cases h : n = m
  · subst h
    simp [held, acquire, Table.get?_modify, hc]
  · simp [held, acquire, Table.get?_modify, h]

theorem held_release (l : Locks) (n m : Nat) :
    (l.release n).held m = if n = m then false else l.held m := by
  by_cases h : n = m
  · subst h
    cases hc : l.cells.get? n <;> simp [held, release, Table.get?_modify, hc]
  · simp [held, release, Table.get?_modify, h]

/-! ## Taking and giving back a reference -/

theorem refs_drop (l : Locks) (n m : Nat) :
    (l.drop n).refs m = if n = m then l.refs m - 1 else l.refs m := by
  unfold drop
  cases hc : l.cells.get? n with
  | none =>
    by_cases hm : n = m
    · subst hm
      simp [refs, hc]
    · simp [hm]
  | some c =>
    by_cases hr : c.refs ≤ 1 <;> by_cases hm : n = m
    · subst hm
      simp [refs, hc, hr, Table.get?_erase, Nat.sub_eq_zero_of_le hr]
    · simp [refs, hr, Table.get?_erase, hm]
    · subst hm
      simp [refs, hc, hr, Table.get?_insert]
    · simp [refs, hr, Table.get?_insert, hm]

/-- A cell that is held stays so while there is another reference. -/
theorem held_drop (h : l.held n = true → 2 ≤ l.refs n) (m : Nat) :
    (l.drop n).held m = l.held m := by
  unfold drop
  cases hc : l.cells.get? n with
  | none => rfl
  | some c =>
    rw [held_of_get? hc, refs_of_get? hc] at h
    by_cases hm : n = m
    · subst hm
      by_cases hr : c.refs ≤ 1
      · have hf : c.held = false := Bool.eq_false_iff.2 fun ht => by
          have := h ht
          omega
        simp [held, hc, hr, Table.get?_erase, hf]
      · simp [held, hc, hr, Table.get?_insert]
    · by_cases hr : c.refs ≤ 1
      · simp [held, hr, Table.get?_erase, hm]
      · simp [held, hr, Table.get?_insert, hm]

@[simp] theorem entries_drop (l : Locks) (n : Nat) : (l.drop n).entries = l.entries := by
  unfold drop
  split
  · split <;> rfl
  · rfl

@[simp] theorem fresh_drop (l : Locks) (n : Nat) : (l.drop n).fresh = l.fresh := by
  unfold drop
  split
  · split <;> rfl
  · rfl

theorem refs_attach_known (h : l.entries.get? key = some n) (hn : 0 < l.refs n) (m : Nat) :
    (l.attach key).2.refs m = if n = m then l.refs m + 1 else l.refs m := by
  obtain ⟨c, hc⟩ := exists_cell hn
  by_cases hm : n = m
  · subst hm
    simp [attach, h, refs, Table.get?_modify, hc]
  · simp [attach, h, refs, Table.get?_modify, hm]

theorem held_attach_known (h : l.entries.get? key = some n) (m : Nat) :
    (l.attach key).2.held m = l.held m := by
  by_cases hm : n = m
  · subst hm
    cases hc : l.cells.get? n <;> simp [attach, h, held, Table.get?_modify, hc]
  · simp [attach, h, held, Table.get?_modify, hm]

theorem refs_attach_new (h : l.entries.get? key = none) (m : Nat) :
    (l.attach key).2.refs m = if l.fresh = m then 2 else l.refs m := by
  simp only [attach, h, refs, Table.get?_insert]
  split <;> rfl

theorem held_attach_new (h : l.entries.get? key = none) (m : Nat) :
    (l.attach key).2.held m = if l.fresh = m then false else l.held m := by
  simp only [attach, h, held, Table.get?_insert]
  split <;> rfl

/-! ## Leaving the map -/

/-- The caller of the cell that the map has for the key takes the key out if there is no other
reference than the map's and its own. -/
theorem retire_eq (h : l.entries.get? key = some n) (hn : 0 < l.refs n) :
    l.retire key n =
      if l.refs n = 2 then { l with entries := l.entries.erase key }.drop n else l := by
  obtain ⟨c, hc⟩ := exists_cell hn
  rw [refs_of_get? hc]
  simp only [retire, hc, h]

end Saga.Locks
