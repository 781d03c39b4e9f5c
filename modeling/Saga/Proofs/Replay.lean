/-!
# Replaying deeds

`replay step s deeds n` is the state before deed `n`, when `deeds` are done one after the other from
the state `s` on. What the first state has and every deed keeps, every state has
(`replay_induction`, `replay_induction_mem`). The states of whatever is defined by a replay are
known to be such by `Follows`.
-/

set_option autoImplicit false

namespace Saga

universe u v

variable {σ : Type u} {δ : Type v} {step : σ → δ → σ} {s : σ} {deeds : List δ}
  {m n : Nat}

/-- The state before deed `n`; after the last deed it stays. -/
def replay (step : σ → δ → σ) (s : σ) (deeds : List δ) (n : Nat) : σ := (deeds.take n).foldl step s

theorem replay_succ {deed : δ} (h : deeds[n]? = some deed) :
    replay step s deeds (n + 1) = step (replay step s deeds n) deed := by
  simp [replay, List.take_add_one, h]

theorem replay_of_none (h : deeds[n]? = none) :
    replay step s deeds (n + 1) = replay step s deeds n := by
  simp [replay, List.take_add_one, h]

/-- `before` gives the states between the deeds: each comes out of the one before it by the deed,
and after the last deed it stays. -/
structure Follows (step : σ → δ → σ) (deeds : List δ) (before : Nat → σ) : Prop where
  succ : ∀ {n deed}, deeds[n]? = some deed → before (n + 1) = step (before n) deed
  of_none : ∀ {n}, deeds[n]? = none → before (n + 1) = before n

theorem follows_replay : Follows step deeds (replay step s deeds) := ⟨replay_succ, replay_of_none⟩

/-- Two states in a row are related, if a deed relates the state to what it makes of it. -/
theorem Follows.related {before : Nat → σ} (h : Follows step deeds before) {R : σ → σ → Prop}
    (refl : R (before n) (before n))
    (hstep : ∀ deed, deeds[n]? = some deed → R (before n) (step (before n) deed)) :
    R (before n) (before (n + 1)) := by
  cases hd : deeds[n]? with
  | none =>
    rw [h.of_none hd]
    exact refl
  | some deed =>
    rw [h.succ hd]
    exact hstep deed hd

/-- What holds before deed `m` and is kept by every deed from there on holds from there on. -/
theorem Follows.keeps {before : Nat → σ} (h : Follows step deeds before) {P : σ → Prop}
    (hmn : m ≤ n) (hm : P (before m))
    (hstep : ∀ k deed, m ≤ k → k < n → deeds[k]? = some deed → P (before k) →
      P (step (before k) deed)) : P (before n) := by
  induction hmn with
  | refl => exact hm
  | @step n hmn ih =>
    have hn : P (before n) := ih fun k deed hmk hkn => hstep k deed hmk (Nat.lt_succ_of_lt hkn)
    exact h.related (R := fun s s' => P s → P s') id
      (fun deed hd hn => hstep n deed hmn (Nat.lt_succ_self n) hd hn) hn

theorem replay_of_length_le (h : deeds.length ≤ n) :
    replay step s deeds n = replay step s deeds deeds.length := by
  rw [replay, replay, List.take_of_length_le h, List.take_length]

theorem replay_induction_mem {P : σ → Prop} (h₀ : P s)
    (h : ∀ s, ∀ deed ∈ deeds, P s → P (step s deed)) (n : Nat) : P (replay step s deeds n) :=
  follows_replay.keeps (Nat.zero_le n) h₀ fun _ deed _ _ hd => h _ deed (List.mem_of_getElem? hd)

theorem replay_induction {P : σ → Prop} (h₀ : P s) (h : ∀ s deed, P s → P (step s deed)) (n : Nat) :
    P (replay step s deeds n) :=
  replay_induction_mem h₀ (fun s deed _ => h s deed) n

end Saga
