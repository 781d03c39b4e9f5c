import Saga.Proofs.Engine.Filing

/-!
# The desk between two calls

A call does at most two things to what is filed on the desk, both under its own key: it takes an
answer that has arrived off (`Desk.Cleared`), and it files a deferred one, for which there is room
then (`Desk.Served`, `Engine.serve_served`). So the desk stays `Desk.Balanced`: what was filed and
not taken is there. Nobody is at any lock between two calls (`Locks.Idle.visited`), however the
callback ended. `Run.desk_in_order` says this of all runs.
-/

set_option autoImplicit false

namespace Saga

/-! ## Locks -/

namespace Locks

/-- Nobody is at any key. -/
structure Idle (l : Locks) : Prop where
  entries : ∀ key, l.entries.get? key = none
  cells : ∀ i, l.cells.get? i = none

theorem Idle.empty : Idle .empty := ⟨fun _ => rfl, fun _ => rfl⟩

theorem Idle.active {l : Locks} (h : l.Idle) : l.active = 0 := Table.size_eq_zero_iff.2 h.entries

/-- A caller whom nobody else meets makes the cell of its key, and takes it away when it goes. -/
theorem Idle.visited {l : Locks} (h : l.Idle) (key : CallKey) : (l.visited key).Idle := by
  have ha : l.attach key = (l.fresh,
      ⟨l.entries.insert key l.fresh, l.cells.insert l.fresh ⟨2, false⟩, l.fresh + 1⟩) := by
    simp only [attach, h.entries key]
  constructor
  · intro key'
    simp [Locks.visited, holding, ha, acquire, release, retire, detach, drop, Table.get?_modify,
      Table.get?_insert, Table.get?_erase, h.entries]
  · intro i
    by_cases hi : l.fresh = i <;>
      simp [Locks.visited, holding, ha, acquire, release, retire, detach, drop, Table.get?_modify,
        Table.get?_insert, Table.get?_erase, h.cells, hi]

end Locks

/-! ## What a call does to the desk -/

namespace Desk

variable {k k' : Desk} {key key' : CallKey} {call : Call}

/-- `k'` is `k`, or `k` after the answer of the key's entry was taken and the entry taken off, up to
counts that do not concern deferred answers. -/
inductive Cleared (k : Desk) (key : CallKey) (k' : Desk) : Prop
  | kept : k.Alike k' → Cleared k key k'
  | taken (p : Pending) (a : Answer) : k.pending.get? key = some p → p.cell.take.1 = some a →
    ((k.remove key).count .consumed).Alike k' → Cleared k key k'

/-- `k'` is what a call leaves of `k`: it may take the entry of its key off, and it may file one
where there is none. -/
inductive Served (k : Desk) (call : Call) (k' : Desk) : Prop
  | cleared : k.Cleared call.key k' → Served k call k'
  | filed (k₁ : Desk) (later : Deferred) : k.Cleared call.key k₁ →
    k₁.pending.get? call.key = none →
    k' = (k₁.file call.key call.operation later).count .deferred → Served k call k'

/-- Whatever was filed and not taken is there. -/
def Balanced (k : Desk) : Prop :=
  k.counters.pendingCreated = k.counters.pendingConsumed + k.pending.size

theorem Cleared.trans_alike {k₁ : Desk} (h : k.Cleared key k₁) (h' : k₁.Alike k') :
    k.Cleared key k' := by
  cases h with
  | kept h => exact .kept (h.trans h')
  | taken p a hp ha h => exact .taken p a hp ha (h.trans h')

theorem Cleared.others (h : k.Cleared key k') (hne : key' ≠ key) :
    k'.pending.get? key' = k.pending.get? key' := by
  cases h with
  | kept h => rw [h.pending]
  | taken p a hp ha h =>
    rw [h.pending, count_pending, remove_pending, Table.get?_erase, if_neg hne.symm]

theorem Cleared.back (h : k.Cleared key k') {q : Pending} (hq : k'.pending.get? key' = some q) :
    k.pending.get? key' = some q := by
  cases h with
  | kept h => rw [← h.pending, hq]
  | taken p a hp ha h =>
    rw [h.pending, count_pending, remove_pending, Table.get?_erase] at hq
    split at hq
    · cases hq
    · exact hq

theorem Cleared.created (h : k.Cleared key k') :
    k'.counters.pendingCreated = k.counters.pendingCreated := by
  cases h with
  | kept h => exact h.created
  | taken p a hp ha h => exact h.created

theorem Served.others (h : k.Served call k') (hne : key ≠ call.key) :
    k'.pending.get? key = k.pending.get? key := by
  cases h with
  | cleared h => exact h.others hne
  | filed k₁ later h hn hk =>
    rw [hk, count_pending, file_pending, Table.get?_insert, if_neg hne.symm, h.others hne]

/-- An entry whose answer can not be taken stays as it is. -/
theorem Served.stays (h : k.Served call k') {p : Pending} (hp : k.pending.get? key = some p)
    (ht : p.cell.take.1 = none) : k'.pending.get? key = some p := by
  by_cases hk : key = call.key
  · subst hk
    -- the key can not be cleared, so nothing can be filed under it either
    have hc : ∀ k₁ : Desk, k.Cleared call.key k₁ → k₁.pending.get? call.key = some p := by
      intro k₁ h
      cases h with
      | kept h => rw [h.pending, hp]
      | taken p' a hp' ha h =>
        rw [hp, Option.some.injEq] at hp'
        rw [← hp', ht] at ha
        cases ha
    cases h with
    | cleared h => exact hc _ h
    | filed k₁ later h hn hk' =>
      rw [hc k₁ h] at hn
      cases hn
  · rw [h.others hk, hp]

theorem Balanced.alike (hk : k.Balanced) (h : k.Alike k') : k'.Balanced := by
  unfold Balanced at *
  rw [h.created, h.consumed, h.pending]
  exact hk

theorem Balanced.cleared (hk : k.Balanced) (h : k.Cleared key k') : k'.Balanced := by
  cases h with
  | kept h => exact hk.alike h
  | taken p a hp ha h =>
    refine Balanced.alike ?_ h
    have hs : (k.pending.erase key).size + 1 = k.pending.size := Table.size_erase hp
    simp only [Balanced, count_counters, remove_counters, count_pending, remove_pending,
      Counters.consumed] at hk ⊢
    omega

theorem Balanced.served (hk : k.Balanced) (h : k.Served call k') : k'.Balanced := by
  cases h with
  | cleared h => exact hk.cleared h
  | filed k₁ later h hn hk' =>
    have h₁ := hk.cleared h
    subst hk'
    simp only [Balanced, count_counters, file_counters, count_pending, file_pending,
      Counters.deferred, Table.size_insert, if_neg (Table.get?_eq_none_iff.1 hn)] at h₁ ⊢
    omega

variable {σ : Type} [Journal σ] (d : Descriptor σ) (c : Callback σ) (s : σ)

/-- Calling a callback files its deferred answer, if the key has been cleared. -/
theorem Cleared.served_invoke {k₁ : Desk} (h : k.Cleared call.key k₁)
    (hn : k₁.pending.get? call.key = none) : k.Served call (k₁.invoke d c call s).2.1 := by
  cases hl : c.deferral? (outcome d c call s) with
  | none => exact .cleared (h.trans_alike (invoke_alike k₁ d c call s hl))
  | some later =>
    have h₁ : k.Cleared call.key (k₁.count .invoked) := h.trans_alike ⟨rfl, rfl, rfl⟩
    exact .filed (k₁.count .invoked) later h₁ hn (invoke_filed k₁ d c call s hl)

theorem serve_served (k : Desk) (call : Call) : k.Served call (k.serve d c call s).2.1 := by
  cases hp : k.pending.get? call.key with
  | none =>
    rw [serve_none k d c call s hp]
    exact Cleared.served_invoke d c s (.kept ⟨rfl, rfl, rfl⟩) hp
  | some p =>
    cases ht : p.cell.take.1 with
    | none =>
      rw [serve_outstanding k d c call s hp ht]
      exact .cleared (.kept ⟨rfl, rfl, rfl⟩)
    | some a =>
      have hc : k.Cleared call.key ((k.remove call.key).count .consumed) :=
        .taken p a hp ht ⟨rfl, rfl, rfl⟩
      cases ha : a.inProgress with
      | false =>
        rw [serve_arrived k d c call s hp ht ha]
        exact .cleared (hc.trans_alike (normalizeArrived_alike ..))
      | true =>
        rw [serve_inProgress k d c call s hp ht ha]
        refine Cleared.served_invoke d c _ (hc.trans_alike ⟨rfl, rfl, rfl⟩) ?_
        simp [Table.get?_erase]

theorem Balanced.advance (keys : List CallKey) {k : Desk} (hk : k.Balanced) (s : σ) :
    (k.advance keys s).1.Balanced := by
  induction keys generalizing k s with
  | nil => exact hk
  | cons key keys ih =>
    cases hp : k.pending.get? key with
    | none =>
      simp only [Desk.advance, hp]
      exact ih hk s
    | some p =>
      simp only [Desk.advance, hp]
      refine ih ?_ _
      simpa only [Balanced, Table.size_insert, if_pos (Table.mem_keys_of_get? hp)] using hk

end Desk

/-! ## The engine -/

namespace Engine

variable {σ : Type} [Journal σ]

theorem serve_served (e : Engine σ) (call : Call) (s : σ) :
    e.desk.Served call (e.serve call s).2.1.desk := by
  cases h : e.registry.lookup call.owner with
  | error error =>
    rw [serve_unknown h]
    exact .cleared (.kept ⟨rfl, rfl, rfl⟩)
  | ok d =>
    cases hc : d.callback? call.operation with
    | none =>
      rw [serve_unbound h hc]
      exact .cleared (.kept ⟨rfl, rfl, rfl⟩)
    | some c =>
      rw [serve_bound h hc]
      exact Desk.serve_served d c s e.desk call

theorem serve_idle {e : Engine σ} (h : e.locks.Idle) (call : Call) (s : σ) :
    (e.serve call s).2.1.locks.Idle := by
  cases hl : e.registry.lookup call.owner with
  | error error =>
    rw [serve_unknown hl]
    exact h
  | ok d =>
    cases hc : d.callback? call.operation with
    | none =>
      rw [serve_unbound hl hc]
      exact h
    | some c =>
      rw [serve_bound hl hc]
      exact h.visited call.key

/-- What holds of an engine between two calls. -/
structure InOrder (e : Engine σ) : Prop where
  balanced : e.desk.Balanced
  idle : e.locks.Idle

omit [Journal σ] in
theorem InOrder.ofRegistry (registry : Registry σ) : InOrder (.ofRegistry registry) :=
  ⟨rfl, .empty⟩

theorem InOrder.play {x : Engine σ × σ} (h : x.1.InOrder) (deed : Deed σ) :
    (deed.play x).1.InOrder := by
  cases deed with
  | call call => exact ⟨h.balanced.served (x.1.serve_served call x.2), serve_idle h.idle call x.2⟩
  | register d => exact ⟨h.balanced, h.idle⟩
  | fulfil t a =>
    refine ⟨?_, h.idle⟩
    simpa only [Desk.Balanced, Deed.play, fulfil, Table.size_mapValues] using h.balanced
  | arrive keys => exact ⟨h.balanced.advance keys x.2, h.idle⟩
  | elsewhere f => exact ⟨h.balanced, h.idle⟩

/-! ## Runs -/

namespace Run

theorem inOrder (r : Run σ) (n : Nat) : (r.engine n).InOrder :=
  replay_induction (P := fun x : Engine σ × σ => x.1.InOrder) (.ofRegistry r.registry)
    (fun _ deed h => h.play deed) n

/-- The number of deferred answers taken before deed `n`. -/
def consumed (r : Run σ) (n : Nat) : Nat := (r.engine n).desk.counters.pendingConsumed

theorem served {r : Run σ} {n : Nat} {call : Call} (h : r.deeds[n]? = some (.call call)) :
    (r.engine n).desk.Served call (r.engine (n + 1)).desk := by
  have hs := (r.engine n).serve_served call (r.before n).2
  rwa [engine, engine, r.follows.succ h]

/-- Only calls file deferred answers. -/
theorem created_of_not_call {r : Run σ} {n : Nat} (h : ∀ call, r.deeds[n]? ≠ some (.call call)) :
    r.created (n + 1) = r.created n := by
  rcases r.carries_or_refiled n with hc | ⟨call, _, _, hd, -⟩
  · exact hc.created
  · exact absurd hd (h call)

/-- **The desk between two calls.** Whatever was filed and not taken is there, no cell that is there
has been emptied, and nobody is at any lock. A call leaves the entries of other keys as they are. A
deferred answer is only ever filed by a call, under the key of the call, where nothing is filed: a
former entry was taken off with its answer. -/
theorem desk_in_order (r : Run σ) :
    (∀ n, r.created n = r.consumed n + (r.engine n).pendingSize) ∧
    (∀ n key, (r.engine n).stateOf? key ≠ some .consumed) ∧
    (∀ n, (r.engine n).locks.Idle ∧ (r.engine n).locks.active = 0) ∧
    (∀ n call, r.deeds[n]? = some (.call call) → ∀ key, key ≠ call.key →
      r.filed? (n + 1) key = r.filed? n key) ∧
    ∀ n, r.created (n + 1) ≠ r.created n → ∃ call k later, r.deeds[n]? = some (.call call) ∧
      (r.engine n).desk.Cleared call.key k ∧ k.pending.get? call.key = none ∧
      (r.engine (n + 1)).desk = (k.file call.key call.operation later).count .deferred := by
  refine ⟨fun n => (r.inOrder n).balanced, fun n key hs => ?_,
    fun n => ⟨(r.inOrder n).idle, (r.inOrder n).idle.active⟩,
    fun n call hd key hne => (served hd).others hne, fun n hne => ?_⟩
  · obtain ⟨p, hp, hs⟩ := Option.map_eq_some_iff.1 hs
    rcases (r.sound n).live key p hp with h | ⟨h, -⟩ <;> simp [PendingCell.state, h] at hs
  · by_cases hd : ∃ call, r.deeds[n]? = some (.call call)
    · obtain ⟨call, hd⟩ := hd
      cases served hd with
      | cleared h => exact absurd h.created hne
      | filed k later h hn hk => exact ⟨call, k, later, hd, h, hn, hk⟩
    · exact absurd (created_of_not_call fun call h => hd ⟨call, h⟩) hne

end Run

end Engine

end Saga
