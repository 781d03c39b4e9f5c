import Saga.Proofs.Context.Codec
import Saga.Proofs.Occurrences

/-!
# Stamping messages

What a message carried before never stays, and nothing but the context header changes. The ids are
written in their order, and the first that no header value can hold (`ActionId.Storable`) breaks the
writing off. What was written before it is left on the message, so a stamp that fails may leave a
part of the active ids there (`Scopes.stamp_leaves`).
-/

set_option autoImplicit false

namespace Saga

open Text

/-- A header value can hold the id: its text has no control byte but tabs. -/
def ActionId.Storable (id : ActionId) : Prop := ∀ b ∈ utf8 id.text, b = 9 ∨ 32 ≤ b ∧ b ≠ 127

instance (id : ActionId) : Decidable id.Storable :=
  inferInstanceAs (Decidable (∀ b ∈ utf8 id.text, b = 9 ∨ 32 ≤ b ∧ b ≠ 127))

namespace Headers

variable {ids before : List ActionId} {bad : ActionId}

theorem isWritable_iff {id : ActionId} : isWritable id = true ↔ id.Storable := by
  simp [isWritable, ActionId.Storable, isStorable]

theorem all_isWritable_iff : ids.all isWritable = true ↔ ∀ id ∈ ids, id.Storable := by
  rw [List.all_eq_true]
  exact forall₂_congr fun id _ => isWritable_iff

theorem takeWhile_isWritable_append (hb : ∀ id ∈ before, id.Storable) (hbad : ¬ bad.Storable)
    (after : List ActionId) :
    (before ++ bad :: after).takeWhile isWritable = before := by
  have hstop : isWritable bad ≠ true := fun h => hbad (isWritable_iff.1 h)
  rw [List.takeWhile_append_of_pos fun id hid => isWritable_iff.2 (hb id hid),
    List.takeWhile_cons_of_neg hstop, List.append_nil]

/-- Every id can be stored, or one is the first that can not. -/
theorem storable_or_cut (ids : List ActionId) :
    (∀ id ∈ ids, id.Storable) ∨
      ∃ before bad after, ids = before ++ bad :: after ∧ (∀ id ∈ before, id.Storable) ∧
        ¬ bad.Storable := by
  rcases exists_first_or_forall_not (fun id : ActionId => ¬ id.Storable) ids with
    ⟨before, bad, after, h, hbad, hbefore⟩ | hall
  · refine .inr ⟨before, bad, after, h, fun id hid => ?_, hbad⟩
    exact Decidable.not_not.1 (hbefore id hid)
  · exact .inl fun id hid => Decidable.not_not.1 (hall id hid)

theorem writeContext_of_storable (h : Headers) (hids : ∀ id ∈ ids, id.Storable) :
    (h.writeContext ids).1 = .ok () ∧
      (h.writeContext ids).2.getAll contextName = ids.map fun id => utf8 id.text := by
  have hall := all_isWritable_iff.2 hids
  refine ⟨by rw [writeContext_fst, if_pos hall], ?_⟩
  rw [getAll_writeContext, if_pos rfl, List.takeWhile_eq_self_iff.2 (List.all_eq_true.1 hall)]

/-- The ids before the first that can not be stored are left in the headers. -/
theorem writeContext_of_cut (h : Headers) (hb : ∀ id ∈ before, id.Storable)
    (hbad : ¬ bad.Storable) (after : List ActionId) :
    (h.writeContext (before ++ bad :: after)).1 = .error (.invalidHeader .unstorable) ∧
      (h.writeContext (before ++ bad :: after)).2.getAll contextName =
        before.map fun id => utf8 id.text := by
  have hnot : ¬ (before ++ bad :: after).all isWritable = true := fun hall =>
    hbad (all_isWritable_iff.1 hall bad (by simp))
  refine ⟨by rw [writeContext_fst, if_neg hnot], ?_⟩
  rw [getAll_writeContext, if_pos rfl, takeWhile_isWritable_append hb hbad]

end Headers

namespace Scopes

variable {α : Type}

/-- **What a stamp leaves on a message.** All headers but the one for the context stay as they are,
and of that one nothing stays that it carried before. If every active id can be stored, stamping
succeeds and the message carries all of them, in order. Otherwise it fails, and the message is left
with the ids before the first that can not be stored. So it carries all or nothing exactly if every
active id can be stored or the outermost can not. -/
theorem stamp_leaves (s : Scopes α) (h : Headers) :
    (∀ name, name ≠ Headers.contextName → (s.stamp h).2.getAll name = h.getAll name) ∧
    ((∀ id ∈ s.active, id.Storable) → (s.stamp h).1 = .ok () ∧
      (s.stamp h).2.getAll Headers.contextName = s.active.map fun id => utf8 id.text) ∧
    ((∃ id ∈ s.active, ¬ id.Storable) →
      (s.stamp h).1 = .error (.invalidHeader .unstorable) ∧
      ∃ before bad after, s.active = before ++ bad :: after ∧ (∀ id ∈ before, id.Storable) ∧
        ¬ bad.Storable ∧
        (s.stamp h).2.getAll Headers.contextName = before.map fun id => utf8 id.text) ∧
    ((s.stamp h).2.getAll Headers.contextName = (s.active.map fun id => utf8 id.text) ∨
        (s.stamp h).2.getAll Headers.contextName = [] ↔
      (∀ id ∈ s.active, id.Storable) ∨ ∀ id ∈ s.active.head?, ¬ id.Storable) := by
  unfold stamp
  refine ⟨fun name hn => by rw [Headers.getAll_writeContext, if_neg hn], ?_, ?_, ?_⟩
  · exact Headers.writeContext_of_storable h
  · rintro ⟨id, hid, hnot⟩
    rcases Headers.storable_or_cut s.active with hall | ⟨before, bad, after, heq, hb, hbad⟩
    · exact absurd (hall id hid) hnot
    · rw [heq]
      obtain ⟨hfails, hleft⟩ := h.writeContext_of_cut hb hbad after
      exact ⟨hfails, before, bad, after, rfl, hb, hbad, hleft⟩
  · rcases Headers.storable_or_cut s.active with hall | ⟨before, bad, after, heq, hb, hbad⟩
    · exact iff_of_true (.inl (h.writeContext_of_storable hall).2) (.inl hall)
    · rw [heq, (h.writeContext_of_cut hb hbad after).2]
      cases before with
      | nil => exact iff_of_true (.inr rfl) (.inr (by simpa using hbad))
      | cons id before =>
        -- a part that is neither nothing nor everything
        refine iff_of_false ?_ ?_
        · rintro (hall | hnone)
          · have := congrArg List.length hall
            simp at this
          · cases hnone
        · rintro (hall | hhead)
          · exact hbad (hall bad (by simp))
          · exact hhead id rfl (hb id List.mem_cons_self)

/-- A chain in which the inner one of two active ids ends with a line break. -/
def broken : Scopes := (push ⟨"http://c/lra/2\n"⟩ (push ⟨"http://c/lra/1"⟩ [none]).2).2

/-- A message that carries an id from before. -/
def stale : Headers := .ofList [("long-running-action", utf8 "stale"), ("x-keep", utf8 "1")]

/-- The message is left with the outer id alone. -/
theorem broken_leaves_part :
    (broken.stamp stale).1 = .error (.invalidHeader .unstorable) ∧
    (broken.stamp stale).2.getAll Headers.contextName = [utf8 "http://c/lra/1"] ∧
    ¬ ((broken.stamp stale).2.getAll Headers.contextName =
          (broken.active.map fun id => utf8 id.text) ∨
        (broken.stamp stale).2.getAll Headers.contextName = []) := by
  obtain ⟨-, -, hfails, hiff⟩ := stamp_leaves broken stale
  have hhead : (⟨"http://c/lra/1"⟩ : ActionId).Storable := by decide +kernel
  have hlast : ¬ (⟨"http://c/lra/2\n"⟩ : ActionId).Storable := by decide +kernel
  have hactive : broken.active = [⟨"http://c/lra/1"⟩, ⟨"http://c/lra/2\n"⟩] := rfl
  refine ⟨(hfails ⟨_, by simp [hactive], hlast⟩).1, by decide +kernel, fun hpart => ?_⟩
  rcases hiff.1 hpart with hall | hout
  · exact hlast (hall _ (by simp [hactive]))
  · exact hout _ (by simp [hactive]) hhead

end Scopes

end Saga
