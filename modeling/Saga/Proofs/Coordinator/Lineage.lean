import Saga.Proofs.Coordinator.StatusMachine

/-!
# The ids and the parents of actions

The only move that adds an action is a start that goes through (`Sound.started_of_new`), and no move
changes what was given at the start of an action (`Step.sameStart`). So every recorded action was
started once, with the client and the parent that it still has (`Run.exists_starts`,
`Run.Starts.unique`), and its parent was started before it (`Run.Starts.parent_started`). The
parents from an action on are a `Coordinator.Lineage`; there is one because the moves that started
them come earlier and earlier (`Run.exists_lineage`). `Run.lineage_of_actions` puts these together.
-/

set_option autoImplicit false

namespace Saga

/-- What is given at the start of an action is the same. -/
structure ActionRecord.SameStart (x y : ActionRecord) : Prop where
  id : y.id = x.id
  clientId : y.clientId = x.clientId
  parent : y.parent = x.parent
  isTopLevel : y.isTopLevel = x.isTopLevel
  startedAt : y.startedAt = x.startedAt

namespace ActionRecord.SameStart

variable {x y z : ActionRecord}

theorem refl (x : ActionRecord) : x.SameStart x := ⟨rfl, rfl, rfl, rfl, rfl⟩

theorem trans (h : x.SameStart y) (h' : y.SameStart z) : x.SameStart z :=
  ⟨h'.id.trans h.id, h'.clientId.trans h.clientId, h'.parent.trans h.parent,
    h'.isTopLevel.trans h.isTopLevel, h'.startedAt.trans h.startedAt⟩

end ActionRecord.SameStart

/-! ## Parents -/

namespace Coordinator

variable {c c' : Coordinator} {id : ActionId} {path path' : List ActionId}

theorem get?_of_actions {e : ActionEntry} (h : c.actions.get? id = some e) :
    c.get? id = some e.record := by
  rw [get?, h]
  rfl

/-- The entry that a request changes is not a new one. -/
theorem Sets.get?_eq_none {id' : ActionId} {e e' : ActionEntry} {n : Nat}
    (hs : c.Sets c' id' e' n) (he : c.actions.get? id' = some e) (h : c.actions.get? id = none) :
    c'.actions.get? id = none := by
  rw [hs.get?, if_neg, h]
  rintro rfl
  rw [h] at he
  cases he

/-- The action, its parent, the parent of that, and so on up to a top-level action. -/
inductive Lineage (c : Coordinator) : ActionId → List ActionId → Prop
  | top {id : ActionId} {x : ActionRecord} : c.get? id = some x → x.isTopLevel = true →
    Lineage c id [id]
  | nested {id p : ActionId} {x : ActionRecord} {path : List ActionId} : c.get? id = some x →
    x.isTopLevel = false → x.parent = some p → Lineage c p path → Lineage c id (id :: path)

theorem Lineage.unique (h : c.Lineage id path) (h' : c.Lineage id path') : path' = path := by
  induction h generalizing path' with
  | top hx ht =>
    cases h' with
    | top => rfl
    | nested hy hn =>
      obtain rfl := Option.some.inj (hx.symm.trans hy)
      rw [ht] at hn
      cases hn
  | nested hx hn hp _ ih =>
    cases h' with
    | top hy ht =>
      obtain rfl := Option.some.inj (hx.symm.trans hy)
      rw [hn] at ht
      cases ht
    | nested hy _ hq hl =>
      obtain rfl := Option.some.inj (hx.symm.trans hy)
      obtain rfl := Option.some.inj (hp.symm.trans hq)
      rw [ih hl]

end Coordinator

namespace Floor

variable {f f' : Floor} {id : ActionId}

/-! ## One move -/

theorem Step.sameStart {e : ActionEntry} {y : Option ActionEntry} (h : Step (some e) y) :
    ∃ e', y = some e' ∧ e.record.SameStart e'.record := by
  cases h with
  | stays => exact ⟨e, rfl, .refl _⟩
  | joined e enlistment => exact ⟨_, rfl, .refl _⟩
  | entered e ending => exact ⟨_, rfl, rfl, rfl, rfl, rfl, rfl⟩
  | left e ending st now => exact ⟨_, rfl, rfl, rfl, rfl, rfl, rfl⟩

/-- An action that was not there before was started. -/
theorem Sound.started_of_new (hf : f.Sound) {m : Move} {e : ActionEntry}
    (hn : f.coordinator.actions.get? id = none)
    (he : (f.play m).coordinator.actions.get? id = some e) :
    ∃ now clientId parent, m = .start now clientId parent ∧
      (f.coordinator.start now clientId parent).1 = .ok id ∧
      e = ⟨⟨id, clientId, .active, parent, parent.isNone, now, none⟩, []⟩ := by
  have hnew {id' : ActionId} {e' x : ActionEntry} {n : Nat}
      (hs : f.coordinator.Sets (f.play m).coordinator id' x n)
      (he' : f.coordinator.actions.get? id' = some e') : False := by
    rw [hs.get?_eq_none he' hn] at he
    cases he
  cases play_alters hf m with
  | nothing hs =>
    rw [hs.actions, hn] at he
    cases he
  | started now clientId parent id' hok hs =>
    rw [hs.get?] at he
    split at he
    · rename_i hid
      subst hid
      cases he
      exact ⟨now, clientId, parent, rfl, hok, rfl⟩
    · rw [hn] at he
      cases he
  | joined id' header recovery data e' url hok he' hs => exact (hnew hs he').elim
  | recorded id' e' x he' hs => exact (hnew hs he').elim

namespace Run

variable {r : Run} {n m : Nat} {x : ActionRecord} {clientId clientId' : String}
  {parent parent' : Option ActionId}

/-! ## What every move keeps -/

/-- A recorded action stays, with what was given at its start. -/
theorem get?_mono (h : (r.before n).coordinator.get? id = some x) (hnm : n ≤ m) :
    ∃ y, (r.before m).coordinator.get? id = some y ∧ x.SameStart y := by
  induction hnm with
  | refl => exact ⟨x, h, .refl x⟩
  | @step m _ ih =>
    obtain ⟨y, hy, hxy⟩ := ih
    obtain ⟨e, he, rfl⟩ := Option.map_eq_some_iff.1 hy
    have hs := (r.history.change m).step (r.sound m) id
    rw [he] at hs
    obtain ⟨e', he', hee⟩ := hs.sameStart
    exact ⟨e'.record, Coordinator.get?_of_actions he', hxy.trans hee⟩

/-! ## Starts -/

/-- Move `n` starts the action. -/
def Starts (r : Run) (n : Nat) (id : ActionId) (clientId : String) (parent : Option ActionId) :
    Prop :=
  ∃ now, r.moves[n]? = some (.start now clientId parent) ∧
    ((r.before n).coordinator.start now clientId parent).1 = .ok id

theorem exists_start_of_known {now : Nat} (hm : r.moves[n]? = some (.start now clientId parent))
    (hs : (r.before n).coordinator.failStart = false)
    (hp : ∀ p, parent = some p → ∃ y, (r.before n).coordinator.get? p = some y) :
    ∃ id, r.Starts n id clientId parent := by
  refine ⟨_, now, hm, Coordinator.start_ok hs (fun p hpar => ?_) now clientId⟩
  obtain ⟨y, hy⟩ := hp p hpar
  obtain ⟨e, he, -⟩ := Option.map_eq_some_iff.1 hy
  exact Option.isSome_iff_exists.2 ⟨e, he⟩

/-- A start leaves every recorded action as it is, and gives the id of none of them. -/
theorem start_spares {now : Nat} (hm : r.moves[n]? = some (.start now clientId parent))
    {e : ActionEntry} (he : (r.before n).coordinator.actions.get? id = some e) :
    ((r.before n).coordinator.start now clientId parent).1 ≠ .ok id ∧
      (r.before (n + 1)).coordinator.actions.get? id = some e := by
  rcases h : (r.before n).coordinator.start now clientId parent with ⟨y, c⟩
  have hc : (r.before (n + 1)).coordinator = c := by rw [r.follows.succ hm, play, h]
  rw [hc]
  obtain ⟨⟨error, rfl⟩, hs⟩ | ⟨rfl, -, hs⟩ := Coordinator.start_cases h
  · refine ⟨?_, by rw [hs.actions, he]⟩
    intro hok
    cases hok
  · have hne := (r.sound n).idOf_ne he (Nat.le_refl _)
    refine ⟨?_, by rw [hs.get?, if_neg hne, he]⟩
    intro hok
    exact hne (Except.ok.inj hok)

namespace Starts

variable (h : r.Starts n id clientId parent)
include h

/-- What the move does. -/
theorem sets : ∃ now, id = (r.before n).coordinator.idOf (r.before n).coordinator.nextNumber ∧
    (∀ p ∈ parent, (r.before n).coordinator.actions.contains p = true) ∧
    (r.before n).coordinator.Sets (r.before (n + 1)).coordinator id
      ⟨⟨id, clientId, .active, parent, parent.isNone, now, none⟩, []⟩ 1 := by
  obtain ⟨now, hm, hid⟩ := h
  rcases hx : (r.before n).coordinator.start now clientId parent with ⟨y, c⟩
  have hc : (r.before (n + 1)).coordinator = c := by rw [r.follows.succ hm, play, hx]
  rw [hx] at hid
  obtain ⟨⟨error, rfl⟩, -⟩ | ⟨rfl, hp, hs⟩ := Coordinator.start_cases hx
  · cases hid
  · cases hid
    exact ⟨now, rfl, hp, hc ▸ hs⟩

/-- The id was no action's before, and the parent is an action. -/
theorem fresh : (r.before n).coordinator.get? id = none ∧
    ∀ p ∈ parent, ∃ y, (r.before n).coordinator.get? p = some y := by
  obtain ⟨now, rfl, hp, -⟩ := h.sets
  refine ⟨by rw [Coordinator.get?, (r.sound n).fresh _ (Nat.le_refl _)]; rfl, ?_⟩
  intro p hpar
  obtain ⟨e, he⟩ := Option.isSome_iff_exists.1 (hp p hpar)
  exact ⟨e.record, Coordinator.get?_of_actions he⟩

theorem recorded : ∃ y, (r.before (n + 1)).coordinator.get? id = some y ∧ y.id = id ∧
    y.clientId = clientId ∧ y.parent = parent ∧ y.isTopLevel = parent.isNone := by
  obtain ⟨now, -, -, hs⟩ := h.sets
  exact ⟨_, Coordinator.get?_of_actions (by rw [hs.get?, if_pos rfl]), rfl, rfl, rfl, rfl⟩

theorem not_lt (h' : r.Starts m id clientId' parent') : ¬ n < m := by
  intro hlt
  obtain ⟨y, hy, -⟩ := h.recorded
  obtain ⟨z, hz, -⟩ := get?_mono hy hlt
  rw [h'.fresh.1] at hz
  cases hz

/-- No id is given twice. -/
theorem unique (h' : r.Starts m id clientId' parent') : m = n := by
  apply Nat.le_antisymm
  · exact Nat.not_lt.1 (h.not_lt h')
  · exact Nat.not_lt.1 (h'.not_lt h)

end Starts

/-- Every recorded action was started, with the client and the parent that it has. -/
theorem exists_starts (h : (r.before n).coordinator.get? id = some x) :
    ∃ m < n, r.Starts m id x.clientId x.parent ∧ x.id = id ∧ x.isTopLevel = x.parent.isNone := by
  induction n generalizing x with
  | zero => cases h
  | succ n ih =>
    cases hn : (r.before n).coordinator.actions.get? id with
    | some e =>
      obtain ⟨y, hy, hs⟩ := get?_mono (Coordinator.get?_of_actions hn) (Nat.le_succ n)
      obtain rfl := Option.some.inj (h.symm.trans hy)
      obtain ⟨m, hm, hst, hid, htop⟩ := ih (Coordinator.get?_of_actions hn)
      exact ⟨m, Nat.lt_succ_of_lt hm, by rw [hs.clientId, hs.parent]; exact hst,
        hs.id.trans hid, by rw [hs.isTopLevel, hs.parent, htop]⟩
    | none =>
      obtain ⟨e, he, rfl⟩ := Option.map_eq_some_iff.1 h
      cases hm : r.moves[n]? with
      | none =>
        rw [r.follows.of_none hm, hn] at he
        cases he
      | some move =>
        rw [r.follows.succ hm] at he
        obtain ⟨now, clientId, parent, rfl, hok, rfl⟩ := (r.sound n).started_of_new hn he
        exact ⟨n, Nat.lt_succ_self n, ⟨now, hm, hok⟩, rfl, rfl⟩

/-- The parent was started before. -/
theorem Starts.parent_started {p : ActionId} (h : r.Starts n id clientId (some p)) :
    ∃ y, (r.before n).coordinator.get? p = some y ∧
      ∃ k < n, r.Starts k p y.clientId y.parent := by
  obtain ⟨y, hy⟩ := h.fresh.2 p rfl
  obtain ⟨k, hk, hs, -⟩ := exists_starts hy
  exact ⟨y, hy, k, hk, hs⟩

/-! ## Lineages -/

/-- The action has a lineage, of actions that were started no later than it. -/
theorem exists_lineage (h : (r.before n).coordinator.get? id = some x)
    (hs : r.Starts m id x.clientId x.parent) (hmn : m < n) :
    ∃ path, (r.before n).coordinator.Lineage id path ∧ path.Nodup ∧
      ∀ q ∈ path, ∃ k ≤ m, ∃ clientId parent, r.Starts k q clientId parent := by
  -- the number of the move that starts a parent is less than that of its child's
  induction m using Nat.strongRecOn generalizing id x with
  | ind m ih =>
    obtain ⟨-, -, -, -, htop⟩ := exists_starts h
    cases hp : x.parent with
    | none =>
      refine ⟨[id], .top h (by rw [htop, hp]; rfl), by simp, fun q hq => ?_⟩
      obtain rfl := List.mem_singleton.1 hq
      exact ⟨m, Nat.le_refl m, _, _, hs⟩
    | some p =>
      rw [hp] at hs
      obtain ⟨y, hy, k, hk, hsp⟩ := hs.parent_started
      obtain ⟨z, hz, hyz⟩ := get?_mono hy (Nat.le_of_lt hmn)
      rw [← hyz.clientId, ← hyz.parent] at hsp
      obtain ⟨path, hl, hnd, hq⟩ := ih k hk hz hsp (Nat.lt_trans hk hmn)
      have hnested : (r.before n).coordinator.Lineage id (id :: path) :=
        .nested h (by rw [htop, hp]; rfl) hp hl
      refine ⟨id :: path, hnested, List.nodup_cons.2 ⟨?_, hnd⟩, ?_⟩
      · intro hmem
        obtain ⟨k', hk', _, _, hs'⟩ := hq id hmem
        have : k' = m := hs.unique hs'
        omega
      · intro q hmem
        rcases List.mem_cons.1 hmem with rfl | hmem
        · exact ⟨m, Nat.le_refl m, _, _, hs⟩
        · obtain ⟨k', hk', hs'⟩ := hq q hmem
          exact ⟨k', Nat.le_of_lt (Nat.lt_of_le_of_lt hk' hk), hs'⟩

/-- **The ids and the parents of actions.** In every order of requests, a start goes through if
starts are not refused and the parent is known. It changes no recorded action and gives the id of
none; the id it gives is recorded with its client and its parent, and is never given again. Every
recorded action is one that was started so, it is a top-level action exactly when it has no parent,
and its parent is an action that was started before it. None of this changes afterwards. The
parents from an action on lead in one way, and without meeting an action twice, to a top-level
action. -/
theorem lineage_of_actions (r : Run) :
    (∀ n now clientId parent, r.moves[n]? = some (.start now clientId parent) →
      ((r.before n).coordinator.failStart = false →
        (∀ p, parent = some p → ∃ y, (r.before n).coordinator.get? p = some y) →
        ∃ id, r.Starts n id clientId parent) ∧
      ∀ id e, (r.before n).coordinator.actions.get? id = some e →
        ((r.before n).coordinator.start now clientId parent).1 ≠ .ok id ∧
        (r.before (n + 1)).coordinator.actions.get? id = some e) ∧
    (∀ n id clientId parent, r.Starts n id clientId parent →
      (∃ x, (r.before (n + 1)).coordinator.get? id = some x ∧ x.id = id ∧
        x.clientId = clientId ∧ x.parent = parent) ∧
      ∀ m clientId' parent', r.Starts m id clientId' parent' → m = n) ∧
    (∀ n id x, (r.before n).coordinator.get? id = some x →
      x.id = id ∧ (x.isTopLevel = true ↔ x.parent = none) ∧
      ∃ m < n, r.Starts m id x.clientId x.parent ∧
        ∀ p, x.parent = some p → ∃ y, (r.before n).coordinator.get? p = some y ∧
          ∃ k < m, r.Starts k p y.clientId y.parent) ∧
    (∀ n m id x, (r.before n).coordinator.get? id = some x → n ≤ m →
      ∃ y, (r.before m).coordinator.get? id = some y ∧ y.id = x.id ∧ y.clientId = x.clientId ∧
        y.parent = x.parent ∧ y.isTopLevel = x.isTopLevel) ∧
    ∀ n id x, (r.before n).coordinator.get? id = some x →
      ∃ path, (r.before n).coordinator.Lineage id path ∧ path.Nodup ∧
        ∀ path', (r.before n).coordinator.Lineage id path' → path' = path := by
  refine ⟨?_, ?_, ?_, ?_, ?_⟩
  · intro n now clientId parent hm
    exact ⟨exists_start_of_known hm, fun id e he => start_spares hm he⟩
  · intro n id clientId parent h
    obtain ⟨x, hx, hid, hc, hp, -⟩ := h.recorded
    exact ⟨⟨x, hx, hid, hc, hp⟩, fun m clientId' parent' h' => h.unique h'⟩
  · intro n id x h
    obtain ⟨m, hm, hs, hid, htop⟩ := exists_starts h
    refine ⟨hid, by rw [htop, Option.isNone_iff_eq_none], m, hm, hs, ?_⟩
    intro p hp
    rw [hp] at hs
    obtain ⟨y, hy, k, hk, hsp⟩ := hs.parent_started
    obtain ⟨z, hz, hyz⟩ := get?_mono hy (Nat.le_of_lt hm)
    exact ⟨z, hz, k, hk, by rw [hyz.clientId, hyz.parent]; exact hsp⟩
  · intro n m id x h hnm
    obtain ⟨y, hy, hxy⟩ := get?_mono h hnm
    exact ⟨y, hy, hxy.id, hxy.clientId, hxy.parent, hxy.isTopLevel⟩
  · intro n id x h
    obtain ⟨m, hm, hs, -⟩ := exists_starts h
    obtain ⟨path, hl, hnd, -⟩ := exists_lineage h hs hm
    exact ⟨path, hl, hnd, fun path' h' => hl.unique h'⟩

end Run

end Floor

end Saga
