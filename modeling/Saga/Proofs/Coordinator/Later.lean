import Saga.Coordinator.Service
import Saga.Proofs.Coordinator.StatusMachine

/-!
# What the coordinator keeps

`Coordinator.Later c c'` says what a coordinator keeps whatever it is asked: nothing that it knows
is forgotten, the place of an action among the others is what it was started with, and no action has
a number that is still to come. Every request leads to a later coordinator (`Ready.later_start`,
`later_join`, `System.later_finish`), and one that was new once is `Ready` while starts are enabled
(`Ready.of_run`). Then an action with a parent that is known, or with none, can be started, and its
id is new (`Ready.start`).
-/

set_option autoImplicit false

namespace Saga

namespace Coordinator

variable {c c' c'' : Coordinator} {id : ActionId}

/-- No action has a number that is still to come. -/
def Fresh (c : Coordinator) : Prop := ∀ m, c.nextNumber ≤ m → c.actions.get? (c.idOf m) = none

/-- `id` is recorded with this parent; it is a top level action if it has none. -/
def Places (c : Coordinator) (id : ActionId) (parent : Option ActionId) : Prop :=
  ∃ r, c.get? id = some r ∧ r.parent = parent ∧ r.isTopLevel = parent.isNone

/-- What a coordinator keeps. -/
structure Later (c c' : Coordinator) : Prop where
  starts : c.failStart = false → c'.failStart = false
  fresh : c.Fresh → c'.Fresh
  known : ∀ id, (c.actions.get? id).isSome → (c'.actions.get? id).isSome
  places : ∀ id parent, c.Places id parent → c'.Places id parent

/-- Actions can be started. -/
structure Ready (c : Coordinator) : Prop where
  starts : c.failStart = false
  fresh : c.Fresh

/-- Whatever was asked of a coordinator since it was new, actions can be started if starts are
enabled. -/
theorem Ready.of_run (r : Floor.Run) (n : Nat) (h : (r.before n).coordinator.failStart = false) :
    (r.before n).coordinator.Ready := ⟨h, (r.sound n).fresh⟩

theorem Ready.later (h : c.Ready) (hl : c.Later c') : c'.Ready :=
  ⟨hl.starts h.starts, hl.fresh h.fresh⟩

theorem Places.known {parent : Option ActionId} (h : c.Places id parent) :
    (c.actions.get? id).isSome := by
  obtain ⟨r, hr, -⟩ := h
  obtain ⟨e, he, -⟩ := Option.map_eq_some_iff.1 hr
  exact Option.isSome_iff_exists.2 ⟨e, he⟩

namespace Later

theorem refl (c : Coordinator) : c.Later c := ⟨id, id, fun _ h => h, fun _ _ h => h⟩

theorem trans (h : c.Later c') (h' : c'.Later c'') : c.Later c'' where
  starts := h'.starts ∘ h.starts
  fresh := h'.fresh ∘ h.fresh
  known id hk := h'.known id (h.known id hk)
  places id parent hp := h'.places id parent (h.places id parent hp)

theorem of_same (h : c.Same c') (hf : c'.failStart = c.failStart) : c.Later c' where
  starts hs := hf.trans hs
  fresh hc m hm := by
    rw [h.actions, idOf_congr h.baseUrl]
    exact hc m (h.nextNumber ▸ hm)
  known id hk := h.actions ▸ hk
  places id parent hp := by
    unfold Places Coordinator.get? at *
    rwa [h.actions]

/-- An entry may be added under the next number, which is used up then. -/
theorem of_new {e : ActionEntry} (h : c.Sets c' (c.idOf c.nextNumber) e 1)
    (hf : c'.failStart = c.failStart) (hnew : c.actions.get? (c.idOf c.nextNumber) = none) :
    c.Later c' where
  starts hs := hf.trans hs
  fresh hc m hm := by
    have hlt : c.nextNumber < m := by
      have := h.nextNumber
      omega
    have hne : c.idOf c.nextNumber ≠ c.idOf m := fun e => Nat.ne_of_lt hlt (idOf_inj e)
    rw [idOf_congr h.baseUrl, h.get?, if_neg hne]
    exact hc m (Nat.le_of_lt hlt)
  known id hk := by
    rw [h.get?]
    split
    · rfl
    · exact hk
  places id parent hp := by
    have hne : c.idOf c.nextNumber ≠ id := by
      rintro rfl
      have hk := hp.known
      rw [hnew] at hk
      cases hk
    unfold Places Coordinator.get? at *
    rwa [h.get?, if_neg hne]

/-- The entry of an action that is known may change, but for its place. -/
theorem of_sets {e e' : ActionEntry} (h : c.Sets c' id e' 0) (hf : c'.failStart = c.failStart)
    (he : c.actions.get? id = some e) (hp : e'.record.parent = e.record.parent)
    (ht : e'.record.isTopLevel = e.record.isTopLevel) : c.Later c' where
  starts hs := hf.trans hs
  fresh hc m hm := by
    have hnone := hc m (by have := h.nextNumber; omega)
    have hne : id ≠ c.idOf m := by
      rintro rfl
      rw [he] at hnone
      cases hnone
    rw [idOf_congr h.baseUrl, h.get?, if_neg hne]
    exact hnone
  known id' hk := by
    rw [h.get?]
    split
    · rfl
    · exact hk
  places id' parent := by
    rintro ⟨r, hr, hrp, hrt⟩
    unfold Places Coordinator.get? at *
    rw [h.get?]
    split
    · rename_i hid
      subst hid
      rw [he] at hr
      cases hr
      exact ⟨e'.record, rfl, hp.trans hrp, ht.trans hrt⟩
    · exact ⟨r, hr, hrp, hrt⟩

end Later

/-! ## Requests -/

theorem later_count (c : Coordinator) (ending : Ending) : c.Later (c.count ending) :=
  .of_same (count_same ending) (by cases ending <;> rfl)

theorem later_beginEnding (c : Coordinator) (ending : Ending) (id : ActionId) :
    c.Later (c.beginEnding ending id).2 := by
  have hf : (c.beginEnding ending id).2.failStart = c.failStart := by
    unfold beginEnding
    split
    · rfl
    · split <;> rfl
  rcases h : c.beginEnding ending id with ⟨x, c'⟩
  rw [h] at hf
  obtain ⟨hs, -⟩ | ⟨e, he, -, -, hs⟩ := beginEnding_cases h
  · exact .of_same hs hf
  · exact .of_sets hs hf he rfl rfl

theorem later_record (c : Coordinator) (now : Nat) (id : ActionId) (st : ActionStatus) :
    c.Later (c.record now id st) := by
  unfold record
  cases he : c.actions.get? id with
  | none => exact .refl c
  | some e => exact .of_sets ⟨rfl, rfl, rfl⟩ rfl he rfl rfl

theorem later_join (c : Coordinator) (id : ActionId) (header : String)
    (recovery data : Option String) : c.Later (c.join id header recovery data).2 := by
  have hf : (c.join id header recovery data).2.failStart = c.failStart := by
    simp only [join]
    split
    · rfl
    · split
      · rfl
      · split
        · rfl
        · split <;> rfl
  rcases h : c.join id header recovery data with ⟨x, c'⟩
  rw [h] at hf
  obtain ⟨-, hs⟩ | ⟨e, _, -, -, he, -, hs⟩ := join_cases h
  · exact .of_same hs hf
  · exact .of_sets hs hf he rfl rfl

theorem Ready.later_start (h : c.Ready) (now : Nat) (clientId : String)
    (parent : Option ActionId) : c.Later (c.start now clientId parent).2 := by
  have hf : (c.start now clientId parent).2.failStart = c.failStart := by
    simp only [start]
    split
    · rfl
    · split <;> rfl
  rcases hx : c.start now clientId parent with ⟨x, c'⟩
  rw [hx] at hf
  obtain ⟨-, hs⟩ | ⟨-, -, hs⟩ := start_cases hx
  · exact .of_same hs hf
  · exact .of_new hs hf (h.fresh _ (Nat.le_refl _))

/-- An action that is started is recorded where it was put, and its id was no action's before. -/
theorem Ready.start (h : c.Ready) (now : Nat) (clientId : String) {parent : Option ActionId}
    (hp : ∀ p ∈ parent, (c.actions.get? p).isSome) :
    ∃ id c', c.start now clientId parent = (.ok id, c') ∧ c.actions.get? id = none ∧
      c.Later c' ∧ c'.Places id parent := by
  have hok := start_ok h.starts hp now clientId
  have hl := h.later_start now clientId parent
  rcases hx : c.start now clientId parent with ⟨x, c'⟩
  rw [hx] at hok hl
  obtain ⟨⟨error, rfl⟩, -⟩ | ⟨rfl, -, hs⟩ := start_cases hx
  · cases hok
  · have hget : c'.get? (c.idOf c.nextNumber) = some
        ⟨c.idOf c.nextNumber, clientId, .active, parent, parent.isNone, now, none⟩ := by
      rw [get?, hs.get?, if_pos rfl]
      rfl
    exact ⟨_, c', rfl, h.fresh _ (Nat.le_refl _), hl, _, hget, rfl, rfl⟩

end Coordinator

namespace System

variable {σ : Type} [Journal σ] [Located σ]

theorem later_finish (sys : System (Engine σ)) (now : Nat) (ending : Ending) (id : ActionId)
    (s : σ) :
    sys.coordinator.Later (sys.finish now ending id s).2.1.coordinator := by
  have hb := (Coordinator.later_count sys.coordinator ending).trans
    (Coordinator.later_beginEnding (sys.coordinator.count ending) ending id)
  unfold finish
  rcases h : (sys.coordinator.count ending).beginEnding ending id with ⟨e | plan, c⟩ <;>
    rw [h] at hb
  · exact hb
  · cases sys.wired with
    | false => exact hb.trans (c.later_record now id _)
    | true => exact hb.trans (c.later_record now id _)

end System

end Saga
