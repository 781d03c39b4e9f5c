import Mathlib.Data.List.Nodup
import Saga.Proofs.Engine.Producers

/-!
# The numbers of completion handles

The engine never looks at the number of a completion handle but to find what waits for it. So what
it makes of an answer of a callback shows in the answer without the numbers (`Outcome.blank`), and
what it makes of an entry shows in the entry with each handle renamed to its place among the handles
handed out so far (`Pending.face`). Such a face is all that a call goes by (`PendingCell.face_take`),
or the turn of a producer (`Pending.face_turned`), or the use of a handle
(`Pending.face_fulfilled`).
-/

set_option autoImplicit false

namespace Saga

/-! ## Without the numbers -/

mutual
/-- The answer without the numbers of its handles. -/
def Answer.blank : Answer → Answer
  | .unit => .unit
  | .status s => .status s
  | .response r => .response r
  | .deferred d => .deferred d.blank
  | .failed reason => .failed reason
  | .protocol r => .protocol r
/-- The deferred answer without the numbers of its handles. -/
def Deferred.blank : Deferred → Deferred
  | .awaiting _ => .awaiting 0
  | .ready a => .ready a.blank
  | .lost => .lost
end

def Outcome.blank : Outcome → Outcome
  | .answered a => .answered a.blank
  | .brokeDown text => .brokeDown text

mutual
/-- The handle somewhere in the answer; there is one at most. -/
def Answer.handle? : Answer → Option Ticket
  | .unit => none
  | .status _ => none
  | .response _ => none
  | .deferred d => d.handle?
  | .failed _ => none
  | .protocol _ => none
/-- The handle somewhere in the deferred answer. -/
def Deferred.handle? : Deferred → Option Ticket
  | .awaiting t => some t
  | .ready a => a.handle?
  | .lost => none
end

/-- The handle that a callback hands out. -/
def Outcome.handle? : Outcome → Option Ticket
  | .answered a => a.handle?
  | .brokeDown _ => none

mutual
theorem Answer.handle?_blank : ∀ a : Answer, a.blank.handle? = a.handle?.map fun _ => 0
  | .unit => rfl
  | .status _ => rfl
  | .response _ => rfl
  | .deferred d => d.handle?_blank
  | .failed _ => rfl
  | .protocol _ => rfl
theorem Deferred.handle?_blank : ∀ d : Deferred, d.blank.handle? = d.handle?.map fun _ => 0
  | .awaiting _ => rfl
  | .ready a => a.handle?_blank
  | .lost => rfl
end

theorem Outcome.handle?_blank (o : Outcome) : o.blank.handle? = o.handle?.map fun _ => 0 := by
  cases o with
  | answered a => exact a.handle?_blank
  | brokeDown text => rfl

/-- Outcomes that differ in numbers only hand out as many handles. -/
theorem Outcome.length_handle {o o' : Outcome} (h : o.blank = o'.blank) :
    o.handle?.toList.length = o'.handle?.toList.length := by
  have hmap := o.handle?_blank.symm.trans ((congrArg Outcome.handle? h).trans o'.handle?_blank)
  cases ho : o.handle? <;> cases ho' : o'.handle? <;> simp [ho, ho'] at hmap ⊢

namespace Callback

variable {σ : Type} (c : Callback σ)

theorem outcomeReply_blank (owner : String) (op : Operation) (o : Outcome) :
    c.outcomeReply owner op o.blank = c.outcomeReply owner op o := by
  cases o with
  | brokeDown text => rfl
  | answered a =>
    cases a with
    | deferred later =>
      simp only [Outcome.blank, Answer.blank, outcomeReply]
      cases c.signature.returns <;> rfl
    | unit | status _ | response _ | failed _ | protocol _ => rfl

theorem deferral?_blank (o : Outcome) :
    c.deferral? o.blank = (c.deferral? o).map Deferred.blank := by
  cases o with
  | brokeDown text => rfl
  | answered a =>
    cases a with
    | deferred later =>
      simp only [Outcome.blank, Answer.blank, deferral?]
      cases c.signature.returns <;> rfl
    | unit | status _ | response _ | failed _ | protocol _ => rfl

variable {c}

theorem handle?_of_deferral {o : Outcome} {later : Deferred} (h : c.deferral? o = some later) :
    o.handle? = later.handle? := by
  unfold deferral? at h
  split at h
  · split at h
    · cases h
      rfl
    · cases h
  · cases h

end Callback

/-! ## Faces -/

/-- All that the engine makes of an answer that has arrived. -/
def Answer.face : Answer → Answer
  | .deferred _ => .deferred .lost
  | a => a

/-- A deferred answer by the face of what it came to, or by the place of its handle in `ts`. -/
def Deferred.face (ts : List Ticket) : Deferred → Deferred
  | .awaiting t => .awaiting (ts.idxOf t)
  | .ready a => .ready a.face
  | .lost => .lost

def PendingCell.face (p : PendingCell) : PendingCell := { p with value := p.value.map Answer.face }

/-- An entry without its number, with the place in `ts` for the handle that it waits for. -/
def Pending.face (ts : List Ticket) (p : Pending) : Pending :=
  ⟨0, p.cell.face, p.producer.map (Deferred.face ts)⟩

namespace Answer

theorem face_blank (a : Answer) : a.blank.face = a.face := by
  cases a <;> rfl

theorem face_fulfil (t : Ticket) (a b : Answer) : (Answer.fulfil t a b).face = b.face := by
  cases b <;> rfl

theorem fulfil_face (t : Ticket) (a b : Answer) : Answer.fulfil t a b.face = b.face := by
  cases b <;> rfl

theorem inProgress_face (a : Answer) : a.face.inProgress = a.inProgress := by
  cases a <;> rfl

end Answer

theorem Descriptor.arrivedReply_face {σ : Type} (d : Descriptor σ) (origin : Operation)
    (a : Answer) : d.arrivedReply origin a.face = d.arrivedReply origin a := by
  cases a <;> rfl

namespace Deferred

variable {ts ts' : List Ticket} {later later' : Deferred}

/-- Handles that are handed out at the same time get the same place. -/
theorem face_handed (hlen : ts.length = ts'.length) (hblank : later.blank = later'.blank)
    (hnew : ∀ t, later.handle? = some t → t ∉ ts)
    (hnew' : ∀ t, later'.handle? = some t → t ∉ ts') :
    later.face (ts ++ later.handle?.toList) = later'.face (ts' ++ later'.handle?.toList) := by
  cases later with
  | awaiting t =>
    cases later' with
    | awaiting t' =>
      have ht := hnew t rfl
      have ht' := hnew' t' rfl
      simp [face, handle?, List.idxOf_append_of_notMem ht, List.idxOf_append_of_notMem ht', hlen]
    | ready a | lost => cases hblank
  | ready a =>
    cases later' with
    | ready a' =>
      have ha : a.blank = a'.blank := by injection hblank
      have hface : a.face = a'.face := by rw [← a.face_blank, ha, a'.face_blank]
      exact congrArg Deferred.ready hface
    | awaiting t | lost => cases hblank
  | lost =>
    cases later' with
    | lost => rfl
    | awaiting t | ready a => cases hblank

/-- New handles do not change the places of the others. -/
theorem face_append (us : List Ticket) (h : ∀ t, later = .awaiting t → t ∈ ts) :
    later.face (ts ++ us) = later.face ts := by
  cases later with
  | awaiting t => exact congrArg awaiting (List.idxOf_append_of_mem (h t rfl))
  | ready a | lost => rfl

theorem face_fulfil (h : ∀ u, later = .awaiting u → u ∈ ts) (t : Ticket) (a : Answer) :
    (Deferred.fulfil t a later).face ts =
      Deferred.fulfil (ts.idxOf t) a.face (later.face ts) := by
  cases later with
  | awaiting u =>
    have hplace : ts.idxOf u = ts.idxOf t ↔ u = t := List.idxOf_inj (h u rfl)
    by_cases hut : u = t
    · simp [face, Deferred.fulfil, hut]
    · have hne : ts.idxOf u ≠ ts.idxOf t := fun he => hut (hplace.1 he)
      simp [face, Deferred.fulfil, hut, hne]
  | ready b => simp [face, Deferred.fulfil, Answer.face_fulfil, Answer.fulfil_face]
  | lost => simp [face, Deferred.fulfil]

/-- A handle that was never handed out makes no difference. -/
theorem face_fulfil_of_not_mem {t : Ticket} (ht : t ∉ ts)
    (h : ∀ u, later = .awaiting u → u ∈ ts) (a : Answer) :
    (Deferred.fulfil t a later).face ts = later.face ts := by
  cases later with
  | awaiting u =>
    have hut : u ≠ t := fun hut => ht (hut ▸ h u rfl)
    simp [face, Deferred.fulfil, hut]
  | ready b => simp [face, Deferred.fulfil, Answer.face_fulfil]
  | lost => simp [face, Deferred.fulfil]

end Deferred

namespace PendingCell

theorem face_fulfil (p : PendingCell) (t : Ticket) (a : Answer) :
    (p.fulfil t a).face = p.face := by
  cases hv : p.value <;> simp [face, fulfil, hv, Answer.face_fulfil]

theorem fulfil_face (p : PendingCell) (t : Ticket) (a : Answer) : p.face.fulfil t a = p.face := by
  cases hv : p.value <;> simp [face, fulfil, hv, Answer.fulfil_face]

theorem face_resolve (p : PendingCell) (a : Answer) :
    (p.resolve a).2.face = (p.face.resolve a.face).2 := by
  by_cases h : p.phase = .unresolved
  · simp [face, resolve, claim?, store, publish, h]
  · simp [face, resolve, claim?, h]

theorem face_take (p : PendingCell) : p.face.take.1 = p.take.1.map Answer.face := by
  by_cases h : p.phase = .resolved
  · simp [face, take, handOver?, collect, h]
  · simp [face, take, handOver?, h]

end PendingCell

namespace Pending

variable {ts us : List Ticket} {p : Pending} {t : Ticket} {a : Answer}

theorem face_turned (ts : List Ticket) (p : Pending) : p.turned.face ts = (p.face ts).turned := by
  rcases hp : p.producer with _ | ⟨t | a | _⟩
  · simp [face, turned, hp]
  · simp [face, turned, hp, Deferred.face]
  · simp [face, turned, hp, Deferred.face, PendingCell.face_resolve]
  · simp [face, turned, hp, Deferred.face]

/-- Does the entry wait for the handle? -/
def Awaits (p : Pending) (t : Ticket) : Prop := p.producer = some (.awaiting t)

/-- Nothing comes to wait for a handle after it was filed. -/
theorem Next.awaits {q : Pending} (h : p.Next q) (hq : q.Awaits t) : p.Awaits t := by
  cases h with
  | same => exact hq
  | turned =>
    rcases hp : p.producer with _ | ⟨u | b | _⟩ <;> simp [Pending.turned, Awaits, hp] at hq ⊢
    exact hq
  | fulfilled u b =>
    rcases hp : p.producer with _ | ⟨v | b' | _⟩ <;>
      simp [Pending.fulfilled, Awaits, hp, Deferred.fulfil] at hq ⊢
    split at hq
    · cases hq
    · exact Deferred.awaiting.inj hq

theorem face_append (us : List Ticket) (h : ∀ t, p.Awaits t → t ∈ ts) :
    p.face (ts ++ us) = p.face ts := by
  have hproducer : p.producer.map (Deferred.face (ts ++ us)) = p.producer.map (Deferred.face ts) :=
    Option.map_congr fun later hl => later.face_append us fun t ht => h t (hl.trans (by rw [ht]))
  rw [face, hproducer]
  rfl

theorem face_fulfilled (h : ∀ u, p.Awaits u → u ∈ ts) (t : Ticket) (a : Answer) :
    (p.fulfilled t a).face ts = (p.face ts).fulfilled (ts.idxOf t) a.face := by
  have hproducer : (p.producer.map (Deferred.fulfil t a)).map (Deferred.face ts) =
      (p.producer.map (Deferred.face ts)).map (Deferred.fulfil (ts.idxOf t) a.face) := by
    rw [Option.map_map, Option.map_map]
    exact Option.map_congr fun later hl =>
      later.face_fulfil (fun u hu => h u (hl.trans (by rw [hu]))) t a
  simp only [face, fulfilled, hproducer, PendingCell.face_fulfil, PendingCell.fulfil_face]

theorem face_fulfilled_of_not_mem (ht : t ∉ ts) (h : ∀ u, p.Awaits u → u ∈ ts) (a : Answer) :
    (p.fulfilled t a).face ts = p.face ts := by
  have hproducer : (p.producer.map (Deferred.fulfil t a)).map (Deferred.face ts) =
      p.producer.map (Deferred.face ts) := by
    rw [Option.map_map]
    exact Option.map_congr fun later hl =>
      later.face_fulfil_of_not_mem ht (fun u hu => h u (hl.trans (by rw [hu]))) a
  simp only [face, fulfilled, hproducer, PendingCell.face_fulfil]

end Pending

end Saga
