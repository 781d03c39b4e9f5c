import Saga.Proofs.Locks.Contention

/-!
# Mutual exclusion

However the steps of any number of callers come between each other, at most one caller at a time
holds the lock of a key, because all who wait for it or hold it are at the one cell that the map has
for the key, and only another holder of that lock keeps anybody waiting (`Contention.exclusion`).
The steps of a caller whom nobody else comes between are what `Locks.holding` does
(`Contention.play_undisturbed`).
-/

set_option autoImplicit false

namespace Saga.Locks.Contention

/-- Two callers that hold the lock of one key are one. -/
theorem Sound.unique {x : Contention} (h : x.Sound) {i j : Nat} {c d : Caller}
    (hi : x.callers[i]? = some c) (hj : x.callers[j]? = some d) (hc : c.stage.holds = true)
    (hd : d.stage.holds = true) (hkey : c.key = d.key) : i = j := by
  have hcell := (h.cell_eq_iff (List.mem_of_getElem? hi) (List.mem_of_getElem? hj)
    (Stage.stays_of_holds hc) (Stage.stays_of_holds hd)).2 hkey
  refine Decidable.not_not.1 fun hij => ?_
  have htwo : 2 ≤ x.callers.countP (Caller.holds c.cell) :=
    two_le_countP hij hi hj (by simp [Caller.holds, hc]) (by simp [Caller.holds, hd, hcell])
  have hone := Bool.toNat_le (x.locks.held c.cell)
  have := h.held c.cell
  omega

/-- The cell of a caller that waits is held just if somebody holds the lock of its key. -/
theorem Sound.held_iff {x : Contention} (h : x.Sound) {c : Caller} (hc : c ∈ x.callers)
    (hs : c.stage.stays = true) :
    x.locks.held c.cell = true ↔ ∃ d ∈ x.callers, d.key = c.key ∧ d.stage.holds = true := by
  rw [h.held_iff_exists]
  constructor
  · rintro ⟨d, hd, hdh⟩
    obtain ⟨hholds, hcell⟩ : d.stage.holds = true ∧ d.cell = c.cell := by
      simpa [Caller.holds] using hdh
    exact ⟨d, hd, (h.cell_eq_iff hd hc (Stage.stays_of_holds hholds) hs).1 hcell, hholds⟩
  · rintro ⟨d, hd, hkey, hholds⟩
    have hcell := (h.cell_eq_iff hd hc (Stage.stays_of_holds hholds) hs).2 hkey
    exact ⟨d, hd, by simp [Caller.holds, hholds, hcell]⟩

/-- A caller that waits can go on just if nobody holds the lock of its key. -/
theorem Sound.next_iff {x : Contention} (h : x.Sound) {c : Caller} (hc : c ∈ x.callers)
    (hs : c.stage = .waiting) (broke : Bool) :
    (c.next? broke x.locks).isSome = true ↔
      ∀ d ∈ x.callers, d.key = c.key → d.stage.holds = false := by
  have hheld := h.held_iff hc (by rw [hs]; rfl)
  have hnext : (c.next? broke x.locks).isSome = !x.locks.held c.cell := by
    unfold Caller.next?
    rw [hs, ← isFree_eq]
    dsimp only
    split <;> simp_all
  rw [hnext, Bool.not_eq_true', ← Bool.not_eq_true, hheld]
  simp

/-- **No two are inside for one key, and nobody waits at a cell that is no longer the key's.**
Whatever steps were taken in whatever order, whether or not bodies broke down: two callers that hold
the lock of one key are one caller; a caller that waits for the lock of a key, holds it, or has
given it back and not yet looked whether it is the last, is at the very cell that the map has for
the key; and what keeps a caller waiting is only that somebody holds the lock of its key. -/
theorem exclusion (moves : List Move) (n : Nat) :
    (∀ (i j : Nat) (c d : Caller), (before moves n).callers[i]? = some c →
      (before moves n).callers[j]? = some d →
      c.stage.holds = true → d.stage.holds = true → c.key = d.key → i = j) ∧
    (∀ c ∈ (before moves n).callers, c.stage.stays = true →
      (before moves n).locks.entries.get? c.key = some c.cell) ∧
    ∀ c ∈ (before moves n).callers, c.stage = .waiting → ∀ broke,
      ((c.next? broke (before moves n).locks).isSome = true ↔
        ∀ d ∈ (before moves n).callers, d.key = c.key → d.stage.holds = false) := by
  have h := sound moves n
  refine ⟨?_, h.own, ?_⟩
  · intro i j c d hi hj hc hd hkey
    exact h.unique hi hj hc hd hkey
  · intro c hc hs broke
    exact h.next_iff hc hs broke

/-- The second caller of a key stays outside while the first is inside. -/
example :
    let key : CallKey := ⟨"Orders", ⟨"tx"⟩⟩
    (before [.call key, .call key, .go 1 false, .go 0 false] 4).callers.map Caller.stage =
      [.waiting, .inside] := by
  decide +kernel

/-- The five steps of a caller that finds the lock free and is not disturbed, after its call. -/
def passage (key : CallKey) (i : Nat) (broke : Bool) : List Move :=
  .call key :: List.replicate 5 (.go i broke)

theorem play_undisturbed (x : Contention) (key : CallKey) (broke : Bool)
    (hfree : (x.locks.attach key).2.isFree (x.locks.attach key).1 = true) :
    (passage key x.callers.length broke).foldl play x =
      ⟨(x.locks.holding key fun l => ((), l)).2,
        x.callers ++ [⟨key, (x.locks.attach key).1, .gone⟩]⟩ := by
  simp [passage, List.replicate, play, Caller.next?, hfree, holding]

end Saga.Locks.Contention
