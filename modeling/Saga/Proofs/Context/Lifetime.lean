import Saga.Proofs.Context.Chains
import Saga.Proofs.Context.Requests
import Saga.Proofs.Replay

/-!
# How long a frame and its scratch values last

`Scopes.Run` is any sequence of requests to a new chain. What one request makes of a chain is said
by three lemmas: it stays neat (`Request.neat_turn`), its active actions change as a list does
(`Request.active_turn`), and its scratch values stay, but for one that is stored, unless no action
is active any more (`Request.scratch?_turn`). By induction on the run the scratch value under a key
is the last one stored there since nothing was active (`Run.scratch?_iff`).
-/

set_option autoImplicit false

namespace Saga.Scopes

open Chain

variable {α κ τ : Type}

namespace Request

/-- What a request makes of a list of actions, each of which is there once. -/
def onList (q : Request α κ) (ids : List ActionId) : List ActionId :=
  match q with
  | .push id => pushed ids id
  | .pop => ids.dropLast
  | .remove id => ids.erase id
  | .reset | .clear _ => []
  | .receive headers =>
    match headers.readContext with
    | .ok carried => carried.foldl pushed ids
    | .error _ => ids
  | .store .. | .load .. | .peek | .active => ids
where
  /-- The list with `id` at its end, unless it is there already. -/
  pushed (ids : List ActionId) (id : ActionId) : List ActionId :=
    if id ∈ ids then ids else ids ++ [id]

/-! ## One request -/

variable (q : Request α κ) {c : Chain α}

theorem active_foldl_push (ids : List ActionId) (c : Chain α) :
    (ids.foldl Chain.push c).active = ids.foldl onList.pushed c.active := by
  induction ids generalizing c with
  | nil => rfl
  | cons id ids ih => rw [List.foldl_cons, List.foldl_cons, ih, active_push, onList.pushed]

theorem neat_foldl_push (ids : List ActionId) (h : c.Neat) : (ids.foldl Chain.push c).Neat := by
  induction ids generalizing c with
  | nil => exact h
  | cons id ids ih => exact ih (h.push id)

theorem scratch?_foldl_push (ids : List ActionId) (c : Chain α) (key : String) :
    (ids.foldl Chain.push c).scratch? key = c.scratch? key := by
  induction ids generalizing c with
  | nil => rfl
  | cons id ids ih => rw [List.foldl_cons, ih, scratch?_push]

theorem neat_turn (h : c.Neat) : (q.turn c).Neat := by
  cases q with
  | push id => exact h.push id
  | pop =>
    rw [turn, h.pop_snd]
    cases c with
    | none => exact .none
    | some f => exact neat_ofFrame ((List.dropLast_sublist _).nodup (h f rfl).2)
  | remove id =>
    rw [turn, remove_snd]
    cases c with
    | none => exact .none
    | some f => exact neat_ofFrame ((h f rfl).2.erase id)
  | reset | clear _ => exact .none
  | receive headers =>
    simp only [turn]
    cases headers.readContext with
    | error e => exact h
    | ok carried => exact neat_foldl_push carried h
  | store key value =>
    cases c with
    | none => exact .none
    | some f =>
      intro f' hf
      cases hf
      exact h f rfl
  | load | peek | active => exact h

theorem active_turn (h : c.Neat) : (q.turn c).active = q.onList c.active := by
  cases q with
  | push id => exact active_push c id
  | pop =>
    rw [turn, h.pop_snd]
    cases c with
    | none => rfl
    | some f => exact active_ofFrame _
  | remove id =>
    rw [turn, remove_snd]
    cases c with
    | none => rfl
    | some f => exact active_ofFrame _
  | receive headers =>
    simp only [turn, onList]
    cases headers.readContext with
    | error e => rfl
    | ok carried => exact active_foldl_push carried c
  | store key value => cases c <;> rfl
  | reset | clear _ | load | peek | active => rfl

/-- A request stores a value, or it leaves the scratch values alone, or it takes them all. -/
theorem scratch?_turn (h : c.Neat) (key : String) :
    (q.turn c).scratch? key =
      if (q.turn c).active = [] then none
      else match q with
        | .store key' value => if key' = key then some value else c.scratch? key
        | _ => c.scratch? key := by
  by_cases ha : (q.turn c).active = []
  · rw [if_pos ha, ((q.neat_turn h).active_eq_nil_iff).1 ha]
    rfl
  · rw [if_neg ha]
    cases q with
    | push id => exact scratch?_push c id key
    | pop =>
      simp only [turn, h.pop_snd] at ha ⊢
      cases c with
      | none => rfl
      | some f =>
        rw [Option.bind_some, active_ofFrame] at ha
        rw [Option.bind_some, scratch?_ofFrame, if_neg ha]
        rfl
    | remove id =>
      simp only [turn, remove_snd] at ha ⊢
      cases c with
      | none => rfl
      | some f =>
        rw [Option.bind_some, active_ofFrame] at ha
        rw [Option.bind_some, scratch?_ofFrame, if_neg ha]
        rfl
    | receive headers =>
      simp only [turn]
      cases headers.readContext with
      | error e => rfl
      | ok carried => exact scratch?_foldl_push carried c key
    | store key' value =>
      cases c with
      | none => exact absurd rfl ha
      | some f => exact Table.get?_insert f.scratch key' key value
    | reset | clear _ => exact absurd rfl ha
    | load | peek | active => rfl

end Request

/-! ## Runs -/

/-- Requests made one after the other in a new chain, inside some scopes. -/
structure Run (α κ τ : Type) where
  around : Scopes α
  journal : τ
  requests : List (Request α κ)

namespace Run

variable [DecidableEq κ] [HasKind α κ] [Journal τ] (r : Run α κ τ) {n : Nat} {key : String}
  {value : α}

/-- The scopes and the journal before request `n`. -/
def before (n : Nat) : Scopes α × τ :=
  replay (fun x q => (perform q x.1 x.2).2) (enter r.around, r.journal) r.requests n

/-- The chain before request `n`. -/
def chain (n : Nat) : Chain α := (r.before n).1.chain

/-- The actions that a list holds on which the requests are done in place of a chain. -/
def reference (n : Nat) : List ActionId := replay (fun ids q => q.onList ids) [] r.requests n

/-- The last of the values stored under the key, since some action is active, is `value`. -/
def LastStored (n : Nat) (key : String) (value : α) : Prop :=
  ∃ m < n, r.requests[m]? = some (.store key value) ∧
    (∀ k, m ≤ k → k ≤ n → (r.before k).1.active ≠ []) ∧
    ∀ k value', m < k → k < n → r.requests[k]? ≠ some (.store key value')

theorem before_eq (n : Nat) : (r.before n).1 = r.chain n :: r.around := by
  suffices h : ∃ c, (r.before n).1 = c :: r.around by
    obtain ⟨c, hc⟩ := h
    rw [chain, hc]
    rfl
  refine replay_induction (P := fun x : Scopes α × τ => ∃ c, x.1 = c :: r.around) ⟨none, rfl⟩ ?_ n
  rintro ⟨s, j⟩ q ⟨c, rfl⟩
  obtain ⟨j', hj⟩ := perform_cons q c r.around j
  exact ⟨q.turn c, by rw [hj]⟩

theorem follows : Follows (fun c q => q.turn c) r.requests r.chain where
  succ {n q} h := by
    have hs : r.before (n + 1) = (perform q (r.before n).1 (r.before n).2).2 := replay_succ h
    rw [r.before_eq] at hs
    obtain ⟨j', hj⟩ := perform_cons q (r.chain n) r.around (r.before n).2
    rw [chain, hs, hj]
    rfl
  of_none {n} h := by
    rw [chain, before, replay_of_none h]
    rfl

theorem neat (n : Nat) : (r.chain n).Neat :=
  r.follows.keeps (Nat.zero_le n) .none fun _ q _ _ _ h => q.neat_turn h

theorem active_eq (n : Nat) : (r.chain n).active = r.reference n := by
  induction n with
  | zero => rfl
  | succ n ih =>
    cases hq : r.requests[n]? with
    | none =>
      rw [r.follows.of_none hq, ih]
      exact (replay_of_none hq).symm
    | some q =>
      have hs : r.reference (n + 1) = q.onList (r.reference n) := replay_succ hq
      rw [r.follows.succ hq, q.active_turn (r.neat n), ih, hs]

/-! ### The last value stored -/

namespace LastStored

variable {r}

theorem zero : ¬ r.LastStored 0 key value := by
  rintro ⟨m, hm, -⟩
  exact absurd hm (Nat.not_lt_zero m)

theorem active_ne_nil (h : r.LastStored n key value) : (r.chain n).active ≠ [] := by
  obtain ⟨m, hm, -, ha, -⟩ := h
  exact ha n (Nat.le_of_lt hm) (Nat.le_refl n)

/-- Just after a value was stored it is the last one. -/
theorem of_store (h : r.requests[n]? = some (.store key value))
    (ha : (r.chain (n + 1)).active ≠ []) : r.LastStored (n + 1) key value := by
  refine ⟨n, n.lt_succ_self, h, fun k hk hk' => ?_, fun k _ hk hk' => absurd hk' (by omega)⟩
  obtain rfl | rfl : k = n ∨ k = n + 1 := by omega
  · rw [r.follows.succ h, Request.active_turn _ (r.neat k)] at ha
    exact ha
  · exact ha

/-- A step that neither stores under the key nor ends the last action changes nothing. -/
theorem succ_iff (h : ∀ value', r.requests[n]? ≠ some (.store key value'))
    (ha : (r.chain (n + 1)).active ≠ []) :
    r.LastStored (n + 1) key value ↔ r.LastStored n key value := by
  constructor
  · rintro ⟨m, hm, hs, hact, hlast⟩
    have hmn : m ≠ n := fun e => h value (e ▸ hs)
    exact ⟨m, by omega, hs, fun k hk hk' => hact k hk (by omega),
      fun k v hk hk' => hlast k v hk (by omega)⟩
  · rintro ⟨m, hm, hs, hact, hlast⟩
    refine ⟨m, by omega, hs, fun k hk hk' => ?_, fun k v hk hk' => ?_⟩
    · obtain hk' | rfl : k ≤ n ∨ k = n + 1 := by omega
      · exact hact k hk hk'
      · exact ha
    · obtain hk' | rfl : k < n ∨ k = n := by omega
      · exact hlast k v hk hk'
      · exact h v

/-- Of two values that are each the last one stored, the later hides the other. -/
theorem eq_of_store {value' : α} (h : r.requests[n]? = some (.store key value))
    (h' : r.LastStored (n + 1) key value') : value' = value := by
  obtain ⟨m, hm, hs, -, hlast⟩ := h'
  obtain hm | rfl : m < n ∨ m = n := by omega
  · exact absurd h (hlast n value hm n.lt_succ_self)
  · rw [hs] at h
    cases h
    rfl

end LastStored

theorem scratch?_iff : (r.chain n).scratch? key = some value ↔ r.LastStored n key value := by
  induction n with
  | zero => exact ⟨nofun, fun h => absurd h LastStored.zero⟩
  | succ n ih =>
    by_cases ha : (r.chain (n + 1)).active = []
    · rw [((r.neat (n + 1)).active_eq_nil_iff).1 ha]
      exact ⟨nofun, fun h => absurd ha h.active_ne_nil⟩
    cases hq : r.requests[n]? with
    | none =>
      rw [LastStored.succ_iff (by simp [hq]) ha, r.follows.of_none hq]
      exact ih
    | some q =>
      have hc := q.scratch?_turn (r.neat n) key
      rw [← r.follows.succ hq, if_neg ha] at hc
      by_cases hs : ∃ value', q = .store key value'
      · obtain ⟨value', rfl⟩ := hs
        have hl := LastStored.of_store hq ha
        rw [hc.trans (if_pos rfl), Option.some_inj]
        exact ⟨fun h => h ▸ hl, fun h => (LastStored.eq_of_store hq h).symm⟩
      · -- what is stored under another key is no value of this one
        have hk : (r.chain (n + 1)).scratch? key = (r.chain n).scratch? key := by
          rw [hc]
          split
          · rename_i key' value'
            refine if_neg ?_
            rintro rfl
            exact hs ⟨value', rfl⟩
          · rfl
        have hq' : ∀ value', r.requests[n]? ≠ some (.store key value') := by
          intro value' h
          rw [hq] at h
          exact hs ⟨value', Option.some.inj h⟩
        rw [hk, LastStored.succ_iff hq' ha]
        exact ih

/-- A frame lasts while some action is active, and the scratch values with it. At any time of a run
there is no frame or one with actions, each of them once; they are those of the reference list. Pop
fails and store tells that there is no frame just when no action is active, and what can be loaded
is the last value stored under the key since then, if it is of the kind asked for. -/
theorem frame_lifetime (n : Nat) :
    (r.chain n = none ∨ ∃ f, r.chain n = some f ∧ f.ids ≠ [] ∧ f.ids.Nodup) ∧
    ((r.before n).1.pop.1 = .error .emptyFrame ↔ (r.before n).1.active = []) ∧
    (∀ key value, ((r.before n).1.store key value).1 = false ↔ (r.before n).1.active = []) ∧
    (r.before n).1.active = r.reference n ∧
    ∀ kind key value, (r.before n).1.load kind key = some value ↔
      r.LastStored n key value ∧ HasKind.kind value = kind := by
  have hneat := r.neat n
  have hpop : (r.before n).1.pop.1 = (r.chain n).pop.1 := by
    rw [r.before_eq]
    rfl
  have hstore : ∀ key value,
      ((r.before n).1.store key value).1 = ((r.chain n).store key value).1 := by
    rw [r.before_eq]
    exact fun _ _ => rfl
  refine ⟨?_, ?_, fun key value => ?_, r.active_eq n, fun kind key value => ?_⟩
  · cases h : r.chain n with
    | none => exact .inl rfl
    | some f => exact .inr ⟨f, rfl, hneat f h⟩
  · rw [hpop, pop_fst]
    show _ ↔ (r.chain n).active = []
    cases h : (r.chain n).active.getLast? with
    | none => simpa using List.getLast?_eq_none_iff.1 h
    | some id =>
      have : (r.chain n).active ≠ [] := fun h' => by simp [h'] at h
      simp [this]
  · rw [hstore]
    show _ ↔ (r.chain n).active = []
    rw [hneat.active_eq_nil_iff]
    cases r.chain n <;> simp [Chain.store]
  · show (r.chain n).load kind key = some value ↔ _
    rw [load_eq, Option.filter_eq_some_iff, r.scratch?_iff, beq_iff_eq]

end Run

end Saga.Scopes
