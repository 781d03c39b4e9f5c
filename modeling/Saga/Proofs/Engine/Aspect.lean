import Saga.Proofs.Engine.Handles
import Saga.Proofs.Engine.Log

/-!
# The desk as one participant has it

The entries under the keys of one participant, by their faces, are what the calls of that
participant go by. Two desks are `Facing` each other if those entries have the same faces, each for
the handles that were handed out with it. What happens to both desks alike keeps them facing
(`Facing.advance`, `Facing.fulfil`, `Facing.invoke`), while the entries wait only for handles that
were handed out (`Desk.Awaits`).
-/

set_option autoImplicit false

namespace Saga

variable {σ : Type} [Journal σ]

namespace Desk

variable {owner : String} {ts ts' : List Ticket} {k k' : Desk}

/-- The entries of `owner` wait only for handles in `ts`. -/
def Awaits (owner : String) (ts : List Ticket) (k : Desk) : Prop :=
  ∀ id p t, k.pending.get? ⟨owner, id⟩ = some p → p.Awaits t → t ∈ ts

/-- The entries of `owner` have the same faces on both desks. -/
def Facing (owner : String) (ts ts' : List Ticket) (k k' : Desk) : Prop :=
  ∀ id, (k.pending.get? ⟨owner, id⟩).map (Pending.face ts) =
    (k'.pending.get? ⟨owner, id⟩).map (Pending.face ts')

theorem Awaits.map_face_append (h : k.Awaits owner ts) (us : List Ticket) (id : ActionId) :
    (k.pending.get? ⟨owner, id⟩).map (Pending.face (ts ++ us)) =
      (k.pending.get? ⟨owner, id⟩).map (Pending.face ts) :=
  Option.map_congr fun p hp => p.face_append us fun t ht => h id p t hp ht

theorem Awaits.remove (h : k.Awaits owner ts) (key : CallKey) : (k.remove key).Awaits owner ts := by
  intro id p t hp ht
  rw [remove_pending, Table.get?_erase] at hp
  split at hp
  · cases hp
  · exact h id p t hp ht

namespace Facing

theorem get?_none (h : k.Facing owner ts ts' k') {id : ActionId}
    (hn : k.pending.get? ⟨owner, id⟩ = none) : k'.pending.get? ⟨owner, id⟩ = none := by
  have := h id
  rw [hn, Option.map_none] at this
  exact Option.map_eq_none_iff.1 this.symm

theorem get?_some (h : k.Facing owner ts ts' k') {id : ActionId} {p : Pending}
    (hp : k.pending.get? ⟨owner, id⟩ = some p) :
    ∃ p', k'.pending.get? ⟨owner, id⟩ = some p' ∧ p'.face ts' = p.face ts := by
  have := h id
  rw [hp, Option.map_some] at this
  exact Option.map_eq_some_iff.1 this.symm

theorem append (h : k.Facing owner ts ts' k') (hk : k.Awaits owner ts) (hk' : k'.Awaits owner ts')
    (us us' : List Ticket) : k.Facing owner (ts ++ us) (ts' ++ us') k' := by
  intro id
  rw [hk.map_face_append, hk'.map_face_append]
  exact h id

theorem remove (h : k.Facing owner ts ts' k') (key : CallKey) :
    (k.remove key).Facing owner ts ts' (k'.remove key) := by
  intro id
  rw [remove_pending, remove_pending, Table.get?_erase, Table.get?_erase]
  split
  · rfl
  · exact h id

/-- The producers of the same entries of `owner` get their turn. -/
theorem advance (h : k.Facing owner ts ts' k') {keys keys' : List CallKey}
    (hkeys : ∀ id, (⟨owner, id⟩ : CallKey) ∈ keys ↔ (⟨owner, id⟩ : CallKey) ∈ keys') (s s' : σ) :
    (k.advance keys s).1.Facing owner ts ts' (k'.advance keys' s').1 := by
  have turn : ∀ (us : List Ticket) (entry : Option Pending) (turns : Prop) [Decidable turns],
      (entry.map fun p => if turns then p.turned else p).map (Pending.face us) =
        (entry.map (Pending.face us)).map fun p => if turns then p.turned else p := by
    intro us entry turns _
    cases entry with
    | none => rfl
    | some p =>
      by_cases ht : turns
      · simp [ht, Pending.face_turned]
      · simp [ht]
  intro id
  rw [get?_advance, get?_advance, turn, turn, h id]
  simp only [hkeys]

omit [Journal σ] in
/-- The same handle is used on both desks, whatever its number. -/
theorem fulfil {e e' : Engine σ} (h : e.desk.Facing owner ts ts' e'.desk)
    (hk : e.desk.Awaits owner ts) (hk' : e'.desk.Awaits owner ts') {t t' : Ticket}
    (ht : ts.idxOf t = ts'.idxOf t') (a : Answer) :
    (e.fulfil t a).desk.Facing owner ts ts' (e'.fulfil t' a).desk := by
  have use : ∀ (us : List Ticket) (entry : Option Pending) (u : Ticket),
      (∀ p t, entry = some p → p.Awaits t → t ∈ us) →
      (entry.map fun p => p.fulfilled u a).map (Pending.face us) =
        (entry.map (Pending.face us)).map fun p => p.fulfilled (us.idxOf u) a.face := by
    intro us entry u hus
    cases entry with
    | none => rfl
    | some p => exact congrArg some (p.face_fulfilled (fun t ht => hus p t rfl ht) u a)
  intro id
  rw [Engine.get?_fulfil, Engine.get?_fulfil, use ts _ t (fun p t => hk id p t),
    use ts' _ t' (fun p t => hk' id p t), h id, ht]

omit [Journal σ] in
/-- The use of a handle that was not handed out with one desk concerns that desk not. -/
theorem fulfil_left {e : Engine σ} (h : e.desk.Facing owner ts ts' k') (hk : e.desk.Awaits owner ts)
    {t : Ticket} (ht : t ∉ ts) (a : Answer) : (e.fulfil t a).desk.Facing owner ts ts' k' := by
  intro id
  rw [← h id, Engine.get?_fulfil, Option.map_map]
  exact Option.map_congr fun p hp =>
    Pending.face_fulfilled_of_not_mem ht (fun u hu => hk id p u hp hu) a

end Facing

end Desk

/-! ## A call of the participant -/

namespace Invocation

/-- What the participant sees of it when its callback is called. -/
def seen (i : Invocation σ) : Operation × Arguments := (i.operation, i.args)

/-- The handles that the callback hands out. -/
def handles (i : Invocation σ) : List Ticket := i.outcome.handle?.toList

end Invocation

/-- The part of the state that `view` shows is not where events are recorded. -/
def Quiet {α : Type} (view : σ → α) : Prop :=
  ∀ event s, view (Journal.note event s) = view s

/-- What the callback does goes by what `view` shows, and differs in the numbers of handles only
where that is the same. -/
def Callback.GoesBy {α : Type} (view : σ → α) (c : Callback σ) : Prop :=
  ∀ args s s', view s = view s' →
    (c.handler args s).1.blank = (c.handler args s').1.blank ∧
      view (c.handler args s).2 = view (c.handler args s').2

/-- What the callback does leaves alone what `view` shows. -/
def Callback.Spares {α : Type} (view : σ → α) (c : Callback σ) : Prop :=
  ∀ args s, view (c.handler args s).2 = view s

namespace Desk

variable {α : Type} {owner : String} {ts ts' : List Ticket} {view : σ → α}

/-- A call was served in two places in the same way, but for the numbers of handles. -/
structure Parallel (owner : String) (ts ts' : List Ticket) (view : σ → α)
    (out out' : Reply × Desk × σ) (is is' : List (Invocation σ)) : Prop where
  reply : out.1 = out'.1
  seen : is.map Invocation.seen = is'.map Invocation.seen
  length : (is.flatMap Invocation.handles).length = (is'.flatMap Invocation.handles).length
  view : view out.2.2 = view out'.2.2
  facing : out.2.1.Facing owner (ts ++ is.flatMap Invocation.handles)
    (ts' ++ is'.flatMap Invocation.handles) out'.2.1

variable (k : Desk) (d : Descriptor σ) (c : Callback σ) (call : Call) (s : σ)

theorem normalize_view (hq : Quiet view) (op : Operation) (id : ActionId) (a : Answer) :
    view (k.normalize owner op id a s).2.2 = view s := by
  cases a with
  | failed reason => exact hq _ s
  | unit | status _ | response _ | deferred _ | protocol _ => rfl

theorem normalizeArrived_view (hq : Quiet view) (origin : Operation) (a : Answer) :
    view (k.normalizeArrived d origin call a s).2.2 = view s := by
  cases a with
  | failed _ | protocol _ => exact normalize_view k s hq ..
  | deferred _ => rfl
  | unit | status _ | response _ =>
    simp only [normalizeArrived]
    cases d.callback? origin with
    | none => exact normalize_view k s hq ..
    | some c =>
      dsimp only
      split
      · exact normalize_view k s hq ..
      · exact hq _ s

theorem invoke_view (hq : Quiet view) :
    view (k.invoke d c call s).2.2 =
      view (c.invoke call.id call.parent (announce d c call s)).2 := by
  rcases hi : c.invoke call.id call.parent (announce d c call s) with ⟨o, s'⟩
  simp only [invoke, hi]
  cases o with
  | brokeDown text => rfl
  | answered a =>
    cases a with
    | failed _ | protocol _ => exact normalize_view _ s' hq ..
    | unit | status _ | response _ =>
      dsimp only
      split
      · exact normalize_view _ s' hq ..
      · exact hq _ s'
    | deferred later =>
      dsimp only
      split
      · rfl
      · exact hq _ s'

variable {k d c call s} {k' : Desk} {s' : σ}

/-- The same callback is called in two places that look the same to it. -/
theorem Facing.invoke (h : k.Facing owner ts ts' k') (hk : k.Awaits owner ts)
    (hk' : k'.Awaits owner ts') (hlen : ts.length = ts'.length) (hq : Quiet view)
    (hc : c.GoesBy view) (hs : view s = view s')
    (hnew : ∀ t ∈ (invocation d c call s).handles, t ∉ ts)
    (hnew' : ∀ t ∈ (invocation d c call s').handles, t ∉ ts') :
    Parallel owner ts ts' view (k.invoke d c call s) (k'.invoke d c call s')
      [invocation d c call s] [invocation d c call s'] := by
  have hann : view (announce d c call s) = view (announce d c call s') := by
    rw [announce, announce, hq, hq, hs]
  obtain ⟨ho, hv⟩ := hc (.ofArity c.signature.arity call.id call.parent) _ _ hann
  have ho : (outcome d c call s).blank = (outcome d c call s').blank := ho
  refine ⟨?_, rfl, ?_, ?_, ?_⟩
  · rw [invoke_reply, invoke_reply, ← c.outcomeReply_blank, ho, c.outcomeReply_blank]
  · simpa [Invocation.handles] using Outcome.length_handle ho
  · rw [invoke_view k d c call s hq, invoke_view k' d c call s' hq]
    exact hv
  · simp only [List.flatMap_singleton, Invocation.handles, invocation_outcome, Option.mem_toList]
      at hnew hnew' ⊢
    have hext := h.append hk hk' (outcome d c call s).handle?.toList
      (outcome d c call s').handle?.toList
    have hdef := c.deferral?_blank (outcome d c call s)
    rw [ho, c.deferral?_blank] at hdef
    intro id
    rw [invoke_pending, invoke_pending]
    cases hl : c.deferral? (outcome d c call s) with
    | none =>
      rw [hl, Option.map_none, Option.map_eq_none_iff] at hdef
      rw [hdef]
      exact hext id
    | some later =>
      rw [hl, Option.map_some] at hdef
      obtain ⟨later', hl', hblank⟩ := Option.map_eq_some_iff.1 hdef
      rw [hl']
      dsimp only
      rw [Table.get?_insert, Table.get?_insert]
      split
      · have hh := Callback.handle?_of_deferral hl
        have hh' := Callback.handle?_of_deferral hl'
        rw [hh] at hnew ⊢
        rw [hh'] at hnew' ⊢
        have hface := Deferred.face_handed hlen hblank.symm hnew hnew'
        simp [Pending.face, PendingCell.face, PendingCell.ofOperation, hface]
      · exact hext id

/-- The same call of the participant comes to both desks. -/
theorem Facing.serve (h : k.Facing call.owner ts ts' k') (hk : k.Awaits call.owner ts)
    (hk' : k'.Awaits call.owner ts') (hlen : ts.length = ts'.length) (hq : Quiet view)
    (hc : c.GoesBy view) (hs : view s = view s')
    (hnew : ∀ t ∈ (k.called d c call s).flatMap Invocation.handles, t ∉ ts)
    (hnew' : ∀ t ∈ (k'.called d c call s').flatMap Invocation.handles, t ∉ ts') :
    Parallel call.owner ts ts' view (k.serve d c call s) (k'.serve d c call s')
      (k.called d c call s) (k'.called d c call s') := by
  cases hp : k.pending.get? call.key with
  | none =>
    have hp' : k'.pending.get? call.key = none := h.get?_none hp
    have hi : k.called d c call s = [invocation d c call s] := by rw [called, hp]
    have hi' : k'.called d c call s' = [invocation d c call s'] := by rw [called, hp']
    rw [hi, List.flatMap_singleton] at hnew
    rw [hi', List.flatMap_singleton] at hnew'
    rw [serve_none k d c call s hp, serve_none k' d c call s' hp', hi, hi']
    exact h.invoke hk hk' hlen hq hc hs hnew hnew'
  | some p =>
    obtain ⟨p', hp', hface⟩ := h.get?_some hp
    have hp' : k'.pending.get? call.key = some p' := hp'
    have htake : p'.cell.take.1.map Answer.face = p.cell.take.1.map Answer.face := by
      have htakes := congrArg (fun q : Pending => q.cell.take.1) hface
      exact p'.cell.face_take.symm.trans (htakes.trans p.cell.face_take)
    have hop : p'.cell.operation = p.cell.operation := by
      show (p'.face ts').cell.operation = (p.face ts).cell.operation
      rw [hface]
    cases ht : p.cell.take.1 with
    | none =>
      have ht' : p'.cell.take.1 = none := by
        rw [ht, Option.map_none] at htake
        exact Option.map_eq_none_iff.1 htake
      have hi : k.called d c call s = [] := by simp only [called, hp, ht]
      have hi' : k'.called d c call s' = [] := by simp only [called, hp', ht']
      rw [serve_outstanding k d c call s hp ht, serve_outstanding k' d c call s' hp' ht', hi, hi']
      refine ⟨rfl, rfl, rfl, ?_, ?_⟩
      · rw [hq, hq, hs]
      · intro id
        simpa using h id
    | some a =>
      obtain ⟨a', ht', ha⟩ : ∃ a', p'.cell.take.1 = some a' ∧ a'.face = a.face := by
        rw [ht, Option.map_some] at htake
        exact Option.map_eq_some_iff.1 htake
      have hprog : a'.inProgress = a.inProgress := by
        rw [← a'.inProgress_face, ha, a.inProgress_face]
      cases hf : a.inProgress with
      | false =>
        have hi : k.called d c call s = [] := by simp [called, hp, ht, hf]
        have hi' : k'.called d c call s' = [] := by simp [called, hp', ht', hprog, hf]
        rw [serve_arrived k d c call s hp ht hf,
          serve_arrived k' d c call s' hp' ht' (hprog.trans hf), hi, hi']
        refine ⟨?_, rfl, rfl, ?_, ?_⟩
        · rw [normalizeArrived_reply, normalizeArrived_reply, hop, ← d.arrivedReply_face, ← ha,
            d.arrivedReply_face]
        · rw [normalizeArrived_view _ d call s hq, normalizeArrived_view _ d call s' hq, hs]
        · intro id
          rw [normalizeArrived_pending, normalizeArrived_pending]
          simpa using h.remove call.key id
      | true =>
        have hi : k.called d c call s = [invocation d c call
            (Journal.note (.resultInProgress d.owner call.id) s)] := by
          simp only [called, hp, ht, hf, if_true]
        have hi' : k'.called d c call s' = [invocation d c call
            (Journal.note (.resultInProgress d.owner call.id) s')] := by
          simp only [called, hp', ht', hprog.trans hf, if_true]
        rw [hi, List.flatMap_singleton] at hnew
        rw [hi', List.flatMap_singleton] at hnew'
        rw [serve_inProgress k d c call s hp ht hf,
          serve_inProgress k' d c call s' hp' ht' (hprog.trans hf), hi, hi']
        have hs₁ : view (Journal.note (.resultInProgress d.owner call.id) s) =
            view (Journal.note (.resultInProgress d.owner call.id) s') := by rw [hq, hq, hs]
        have hfree : (((k.remove call.key).count .consumed).count .inconsistent).Facing call.owner
            ts ts' (((k'.remove call.key).count .consumed).count .inconsistent) :=
          h.remove call.key
        exact hfree.invoke (hk.remove call.key) (hk'.remove call.key) hlen hq hc hs₁ hnew hnew'

end Desk

end Saga
