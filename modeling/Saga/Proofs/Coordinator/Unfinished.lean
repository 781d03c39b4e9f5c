import Saga.Proofs.Coordinator.OneDirection
import Saga.Proofs.Engine.Filing

/-!
# Endings that stay unfinished

A request to end an action is let in only while the action is active. So an action that some
participant left in the transient status of an ending, and that nobody is on the way to end, can
not be ended any more: every further request is rejected with the status, and nobody is asked
again (`Run.unfinished_stays`). This is so even if asking everybody once more would end it
(`Pass.terminal_run`).
-/

set_option autoImplicit false

namespace Saga

def Reply.inProgress : Reply → Bool
  | .answered t => t.inProgress
  | .refused _ | .brokeDown _ => false

theorem Coordinator.get?_record {c : Coordinator} {id : ActionId} {e : ActionEntry}
    (h : c.actions.get? id = some e) (now : Nat) (st : ActionStatus) :
    (c.record now id st).get? id = some (e.record.settle now st) := by
  simp [Coordinator.record, h, Coordinator.get?, Table.get?_insert]

/-! ## What a pass comes to when nobody is still at work -/

namespace Pass

variable {τ : Type} [Journal τ] (p : Pass) (serve : Server τ)

/-- The status of an ending in which nobody is still at work. -/
def Final (st : ActionStatus) : Prop := st = p.ending.done ∨ st = p.ending.failed

variable {p}

theorem Final.terminal {st : ActionStatus} (h : p.Final st) : st.terminal = true := by
  rcases h with rfl | rfl <;> cases p.ending <;> rfl

theorem Final.tally {st : ActionStatus} (h : p.Final st) {t : Termination}
    (ht : t.inProgress = false) : p.Final (tally p.ending st t) := by
  unfold Pass.tally
  rw [ht, if_neg Bool.false_ne_true]
  split
  · exact .inr rfl
  · exact h

theorem Final.ask {st st' : ActionStatus} (h : p.Final st) {x : Enlistment} {w : Asked τ}
    (hr : ∀ y ∈ (p.ask serve.noted x st w).2.log, y.2.inProgress = false)
    (ha : (p.ask serve.noted x st w).1 = some st') : p.Final st' := by
  unfold Pass.ask at hr ha
  split at ha
  · cases ha
    exact h
  · rename_i url hl
    split at ha
    · cases ha
      exact .inr rfl
    · rename_i owner op hu
      simp only [hl, hu, Server.noted, Recorded.act_eq] at hr ha
      rcases hs : serve ⟨owner, p.ending.operation, p.id, p.parent⟩ w.state with ⟨_ | _ | _, t⟩ <;>
        rw [hs] at hr ha <;> cases ha
      · refine h.tally (hr (⟨owner, p.ending.operation, p.id, p.parent⟩, .answered _) ?_)
        simp
      · exact .inr rfl

theorem Final.askAll (enlisted : List Enlistment) {st st' : ActionStatus} (h : p.Final st)
    {w : Asked τ} (hr : ∀ y ∈ (p.askAll serve.noted enlisted st w).2.log, y.2.inProgress = false)
    (ha : (p.askAll serve.noted enlisted st w).1 = some st') : p.Final st' := by
  induction enlisted generalizing st w with
  | nil =>
    cases ha
    exact h
  | cons x enlisted ih =>
    rcases hx : p.ask serve.noted x st w with ⟨_ | st₁, w₁⟩
    · simp [Pass.askAll, hx] at ha
    · simp only [Pass.askAll, hx] at hr ha
      -- what is on the record after one participant is there to the end
      obtain ⟨asked, -, hn⟩ := p.askAll_noted serve enlisted st₁ w₁.state
      have hsub : ∀ y ∈ w₁.log, y.2.inProgress = false := fun y hy =>
        hr y (by rw [hn w₁.log]; exact List.mem_append_left _ hy)
      exact ih (h.ask serve (by rw [hx]; exact hsub) (by rw [hx])) hr ha

/-- A pass in which nobody answers that work goes on comes to a terminal status. -/
theorem terminal_run (enlisted : List Enlistment) (t : τ)
    (hr : ∀ y ∈ (p.run serve.noted enlisted ⟨[], t⟩).2.log, y.2.inProgress = false) :
    (p.run serve enlisted t).1.terminal = true := by
  obtain ⟨asked, -, hn⟩ := p.run_noted serve enlisted t
  have h : (p.run serve.noted enlisted ⟨[], t⟩).1 = (p.run serve enlisted t).1 := by rw [hn]
  rw [← h]
  refine Final.terminal (p := p) ?_
  unfold run at hr ⊢
  rcases ha : p.askAll serve.noted enlisted p.ending.done ⟨[], t⟩ with ⟨_ | st, w⟩
  · exact .inr rfl
  · rw [ha] at hr
    exact Final.askAll serve enlisted (.inl rfl) (by rw [ha]; exact hr) (by rw [ha])

end Pass

/-! ## Actions left unfinished -/

namespace Office

variable {σ : Type} {o : Office σ} {ending : Ending} {id : ActionId} {e : ActionEntry}

theorem enter_rejected (he : o.coordinator.actions.get? id = some e)
    (ha : e.record.status ≠ .active) (ending : Ending) :
    o.enter ending id = (.error (.rejected id (.notActive e.record.status)),
      { o with coordinator := o.coordinator.count ending }) := by
  have hc : (o.coordinator.count ending).actions.get? id = some e := by
    rw [(Coordinator.count_same ending).actions, he]
  simp only [enter, Coordinator.beginEnding, hc, if_pos ha]

variable [Journal σ]

/-- An ending was left unfinished and nobody is on the way to end the action, though everybody who
enlisted is known and would by now answer for good. -/
structure Endable (o : Office σ) (ending : Ending) (id : ActionId) (e : ActionEntry) : Prop where
  entry : o.coordinator.actions.get? id = some e
  unfinished : e.record.status = ending.transient
  idle : ∀ r ∈ o.rounds, r.underway.id ≠ id
  resolves : ∀ x ∈ e.enlisted, ∀ url, x.links.get? ending.operation = some url →
    ∃ owner op d, Links.ofUrl? url = some (owner, op) ∧
      o.served.state.1.registry.lookup owner = .ok d
  arrived : ∀ call ∈ Pass.calls ⟨ending, id, e.record.parent⟩ e.enlisted,
    o.served.state.1.stateOf? call.key ≠ some .unresolved
  answers : ∀ y ∈ (Pass.run ⟨ending, id, e.record.parent⟩ Engine.server.noted e.enlisted
    ⟨[], o.served.state⟩).2.log, y.2.inProgress = false

theorem Endable.settled (h : o.Endable ending id e) : o.floor.Settled id ending.transient := by
  refine ⟨by rw [Floor.status?_of_get? h.entry, h.unfinished],
    Ending.Verdict.ne_active (.inl rfl), fun u hu => ?_⟩
  obtain ⟨r, hr, rfl⟩ := List.mem_map.1 hu
  exact h.idle r hr

namespace Run

variable {r : Run σ} {n m : Nat} {st : ActionStatus}

/-- Nobody is asked any more for an action that is settled. -/
theorem asked_of_settled (h : (r.before n).floor.Settled id st) (hnm : n ≤ m) :
    r.asked m id = r.asked n id := by
  refine r.follows.keeps (P := fun o => o.askedFor id = r.asked n id) hnm rfl ?_
  intro k move hnk _ _ hk
  have hs := r.history.settled_mono h hnk
  exact ((play_turn (r.sound k).verdict move).askedFor_of_settled hs).trans hk

/-- **An ending that was left unfinished stays so.** From then on every request to end the action is
rejected with the status and only counted, the status stays, there is no time at which the action
finished, and nobody is asked for it again. The pass that is not made would come to a terminal
status, and to record that would note the time. -/
theorem unfinished_stays (r : Run σ) {n : Nat} (h : (r.before n).Endable ending id e) :
    (∀ m, n ≤ m → ∀ ending', (r.before m).enter ending' id =
      (.error (.rejected id (.notActive ending.transient)),
        { r.before m with coordinator := (r.before m).coordinator.count ending' })) ∧
    (∀ m, n ≤ m → r.asked m id = r.asked n id ∧
      ∃ x, (r.before m).coordinator.get? id = some x ∧ x.status = ending.transient ∧
        x.finishedAt = none) ∧
    ∀ now, ∃ st x, (Pass.run ⟨ending, id, e.record.parent⟩ Engine.server e.enlisted
        (r.before n).served.state).1 = st ∧ st.terminal = true ∧
      ((r.before n).coordinator.record now id st).get? id = some x ∧ x.status = st ∧
        x.finishedAt = some now := by
  have hs : ∀ m, n ≤ m → (r.before m).floor.Settled id ending.transient := fun m hnm =>
    r.history.settled_mono h.settled hnm
  have hentry : ∀ m, n ≤ m → ∃ x, (r.before m).coordinator.actions.get? id = some x ∧
      x.record.status = ending.transient := by
    intro m hnm
    have hst := (hs m hnm).status
    rw [Floor.status?_eq] at hst
    exact Option.map_eq_some_iff.1 hst
  refine ⟨fun m hnm ending' => ?_, fun m hnm => ⟨asked_of_settled h.settled hnm, ?_⟩,
    fun now => ?_⟩
  · obtain ⟨x, hx, hst⟩ := hentry m hnm
    have ha : x.record.status ≠ .active := hst ▸ Ending.Verdict.ne_active (.inl rfl)
    rw [enter_rejected hx ha, hst]
  · obtain ⟨x, hx, hst⟩ := hentry m hnm
    have hf : x.record.finishedAt.isSome = x.record.status.terminal :=
      (r.sound m).floor.finished id x hx
    refine ⟨x.record, by rw [Coordinator.get?, hx]; rfl, hst, ?_⟩
    rw [hst] at hf
    cases hx : x.record.finishedAt with
    | none => rfl
    | some t => rw [hx] at hf; cases ending <;> cases hf
  · have ht := Pass.terminal_run Engine.server e.enlisted _ h.answers
    refine ⟨_, e.record.settle now _, rfl, ht, Coordinator.get?_record h.entry .., rfl, ?_⟩
    rw [ActionRecord.settle, if_pos ht]

end Run

/-! ## An action left in closing -/

/-- The first action that the coordinator at `http://coord` starts. -/
def firstAction : ActionId := ⟨"http://coord/lra-coordinator/1"⟩

/-- A participant enlists, the action is closed while it is at work, its answer arrives, and the
action is closed again. -/
def unhurriedRun : Run (List Event) where
  base := "http://coord"
  registry := Registry.empty.put (Engine.Run.payments .unit (.awaiting 0))
  state := []
  moves := [.start 0 "client" none,
    .join firstAction "<http://coord/lra-participant/Payments/complete>; rel=complete" none none,
    .enter .close firstAction, .ask 0, .leave 0 1, .elsewhere (.fulfil 0 .unit),
    .elsewhere (.arrive [⟨"Payments", firstAction⟩]), .enter .close firstAction]

/-- The entry of the action when everybody would answer for good. -/
def unhurriedEntry : ActionEntry where
  record := ⟨firstAction, "client", .closing, none, true, 0, none⟩
  enlisted := [⟨Slots.empty.insert .complete "http://coord/lra-participant/Payments/complete",
    "http://coord/recovery/1", none⟩]

theorem unhurried_endable :
    (unhurriedRun.before 7).Endable .close firstAction unhurriedEntry where
  entry := by decide +kernel
  unfinished := rfl
  idle := by
    have h : (unhurriedRun.before 7).rounds.length = 0 := by decide +kernel
    rw [List.length_eq_zero_iff.1 h]
    simp
  resolves := by
    intro x hx url hurl
    obtain rfl := List.mem_singleton.1 hx
    obtain rfl : "http://coord/lra-participant/Payments/complete" = url := Option.some.inj hurl
    exact ⟨"Payments", .complete, _, by decide +kernel, rfl⟩
  arrived := by decide +kernel
  answers := by decide +kernel

/-- The request to close it again is rejected and leaves it as it is. -/
theorem second_close_rejected :
    (unhurriedRun.before 7).Endable .close firstAction unhurriedEntry ∧
    ((unhurriedRun.before 7).enter .close firstAction).1 =
      .error (.rejected firstAction (.notActive .closing)) ∧
    (unhurriedRun.before 8).coordinator.get? firstAction = some unhurriedEntry.record := by
  have he := unhurried_endable.entry
  have hr := enter_rejected he (by decide) .close
  have hm : unhurriedRun.moves[7]? = some (.enter .close firstAction) := rfl
  refine ⟨unhurried_endable, by rw [hr]; rfl, ?_⟩
  rw [unhurriedRun.follows.succ hm, play, hr, Coordinator.get?,
    (Coordinator.count_same .close).actions, he]
  rfl

theorem unhurried_stays :
    (unhurriedRun.before 7).Endable .close firstAction unhurriedEntry ∧
    ∀ m, 7 ≤ m → ∃ x, (unhurriedRun.before m).coordinator.get? firstAction = some x ∧
      x.status = .closing ∧ x.finishedAt = none :=
  ⟨unhurried_endable, fun m hm =>
    ((Run.unfinished_stays unhurriedRun unhurried_endable).2.1 m hm).2⟩

end Office

end Saga
