import Saga.Context.Chain

/-!
# What the operations do to a chain

A chain is seen through the actions that are active on it (`Chain.active`) and the scratch values
under their keys (`Chain.scratch?`), and each operation through what it does to the two. All of them
keep a chain `Neat`: it has a frame only while some action is active. So the scratch values go with
the last action, and an action that is made active and ended again leaves no trace (`remove_push`).
-/

set_option autoImplicit false

namespace Saga

variable {α : Type}

@[simp] theorem Frame.retire_ids (f : Frame α) : f.retire.ids = f.ids := by
  unfold retire
  split <;> rfl

namespace Chain

/-- There is a frame only while some action is active, and no action is active twice. -/
def Neat (c : Chain α) : Prop := ∀ f, c = some f → f.ids ≠ [] ∧ f.ids.Nodup

/-- The scratch value under a key, of whatever kind. -/
def scratch? (c : Chain α) (key : String) : Option α := c.bind fun f => f.scratch.get? key

@[simp] theorem active_none : active (none : Chain α) = [] := rfl

@[simp] theorem active_some (f : Frame α) : active (some f) = f.ids := rfl

theorem peek_eq (c : Chain α) : c.peek = c.active.getLast? := by
  cases c <;> rfl

theorem load_eq {κ : Type} [DecidableEq κ] [HasKind α κ] (c : Chain α) (kind : κ) (key : String) :
    c.load kind key = (c.scratch? key).filter fun value => HasKind.kind value == kind := by
  cases c <;> rfl

/-- The chain of a frame that is kept only while some action is active. -/
def ofFrame (f : Frame α) : Chain α := if f.ids.isEmpty then none else some f

theorem active_ofFrame (f : Frame α) : (ofFrame f).active = f.ids := by
  unfold ofFrame
  split
  · rename_i h
    exact (List.isEmpty_iff.1 h).symm
  · rfl

@[simp] theorem ofFrame_retire (f : Frame α) : ofFrame f.retire = ofFrame f := by
  unfold ofFrame
  rw [Frame.retire_ids]
  by_cases h : f.ids.isEmpty = true <;> simp [Frame.retire, h]

theorem neat_ofFrame {f : Frame α} (h : f.ids.Nodup) : (ofFrame f).Neat := by
  unfold ofFrame
  split
  · nofun
  · rename_i hne
    intro f' hf
    cases hf
    exact ⟨by simpa using hne, h⟩

theorem scratch?_ofFrame (f : Frame α) (key : String) :
    (ofFrame f).scratch? key = if f.ids = [] then none else f.scratch.get? key := by
  unfold ofFrame
  by_cases h : f.ids = [] <;> simp [h, scratch?]

namespace Neat

variable {c : Chain α}

theorem none : Neat (none : Chain α) := nofun

theorem active_eq_nil_iff (h : c.Neat) : c.active = [] ↔ c = Option.none := by
  cases c with
  | none => simp
  | some f => simp [(h f rfl).1]

theorem nodup (h : c.Neat) : c.active.Nodup := by
  cases c with
  | none => exact List.nodup_nil
  | some f => exact (h f rfl).2

end Neat

/-! ## Push -/

theorem active_push (c : Chain α) (id : ActionId) :
    (c.push id).active = if id ∈ c.active then c.active else c.active ++ [id] := by
  cases c with
  | none => rfl
  | some f =>
    by_cases h : id ∈ f.ids <;> simp [push, Frame.push, h]

theorem active_push_ne_nil (c : Chain α) (id : ActionId) : (c.push id).active ≠ [] := by
  rw [active_push]
  split
  · rename_i h
    exact List.ne_nil_of_mem h
  · simp

theorem Neat.push {c : Chain α} (h : c.Neat) (id : ActionId) : (c.push id).Neat := by
  intro f hf
  have ha : (c.push id).active = f.ids := by rw [hf]; rfl
  rw [← ha]
  refine ⟨active_push_ne_nil c id, ?_⟩
  rw [active_push]
  split
  · exact h.nodup
  · rename_i hid
    refine List.nodup_append.2 ⟨h.nodup, by simp, fun x hx y hy => ?_⟩
    rw [List.mem_singleton.1 hy]
    exact fun hxy => hid (hxy ▸ hx)

theorem scratch?_push (c : Chain α) (id : ActionId) (key : String) :
    (c.push id).scratch? key = c.scratch? key := by
  cases c with
  | none => rfl
  | some f =>
    simp only [push, Option.getD_some, Frame.push]
    split <;> rfl

/-! ## Pop and remove -/

theorem pop_fst (c : Chain α) :
    c.pop.1 = match c.active.getLast? with
      | none => .error .emptyFrame
      | some id => .ok id := by
  cases c with
  | none => rfl
  | some f => cases h : f.ids.getLast? <;> simp [pop, Frame.pop, h]

theorem Neat.pop_snd {c : Chain α} (h : c.Neat) :
    c.pop.2 = c.bind fun f => ofFrame { f with ids := f.ids.dropLast } := by
  cases c with
  | none => rfl
  | some f =>
    obtain ⟨id, hid⟩ : ∃ id, f.ids.getLast? = some id :=
      ⟨_, List.getLast?_eq_some_getLast (h f rfl).1⟩
    rw [Option.bind_some, ← ofFrame_retire]
    simp only [pop, Frame.pop, hid]
    rfl

theorem remove_snd (c : Chain α) (id : ActionId) :
    (c.remove id).2 = c.bind fun f => ofFrame { f with ids := f.ids.erase id } := by
  cases c with
  | none => rfl
  | some f =>
    by_cases hid : id ∈ f.ids
    · rw [Option.bind_some, ← ofFrame_retire]
      simp only [remove, Frame.remove, hid, if_true]
      rfl
    · simp only [remove, Frame.remove, hid, if_false, Option.bind_some, List.erase_of_not_mem hid]
      rfl

/-- An action that was not active before is made active and ended again. -/
theorem Neat.remove_push {c : Chain α} (h : c.Neat) {id : ActionId} (hid : id ∉ c.active) :
    ((c.push id).remove id).2 = c := by
  cases c with
  | none => simp [Chain.push, remove_snd, Frame.push, Frame.empty, ofFrame]
  | some f =>
    rw [active_some] at hid
    have he : (f.ids ++ [id]).erase id = f.ids := by
      rw [List.erase_append_right _ hid, List.erase_cons_head, List.append_nil]
    simp [Chain.push, remove_snd, Frame.push, hid, he, ofFrame, (h f rfl).1]

end Chain

end Saga
