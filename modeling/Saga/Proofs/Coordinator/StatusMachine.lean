import Saga.Proofs.Coordinator.Floor
import Saga.Proofs.Replay

/-!
# The statuses of an action

`Floor.Run` is any sequence of requests to a new coordinator, with those that end actions taken in
their two halves. Every move leaves the status of an action as it is or moves it along
`ActionStatus.Steps` (`Floor.Change.steps`). What is true of an action that nobody can end any more
(`Floor.Settled`) stays so. `status_machine` puts the life of an action together from these.
-/

set_option autoImplicit false

namespace Saga

/-- How a status may change. -/
inductive ActionStatus.Moves : ActionStatus → ActionStatus → Prop
  | entered (ending : Ending) : Moves .active ending.transient
  | left (ending : Ending) {st : ActionStatus} : ending.Verdict st → Moves ending.transient st

/-- What one move may make of the status of an action, if there is the action. -/
inductive ActionStatus.Steps : Option ActionStatus → Option ActionStatus → Prop
  | stays (st : Option ActionStatus) : Steps st st
  | started : Steps none (some .active)
  | moves {st st' : ActionStatus} : Moves st st' → Steps (some st) (some st')

namespace Floor

variable {f f' : Floor} {id : ActionId} {st : ActionStatus}

/-- The status of an action. -/
def status? (f : Floor) (id : ActionId) : Option ActionStatus :=
  (f.coordinator.get? id).map ActionRecord.status

theorem status?_eq (f : Floor) (id : ActionId) :
    f.status? id = (f.coordinator.actions.get? id).map fun e => e.record.status := by
  rw [status?, Coordinator.get?, Option.map_map]
  rfl

theorem status?_of_get? {e : ActionEntry} (h : f.coordinator.actions.get? id = some e) :
    f.status? id = some e.record.status := by
  rw [status?_eq, h]
  rfl

theorem status?_of_same (h : f.coordinator.Same f'.coordinator) (id : ActionId) :
    f'.status? id = f.status? id := by
  rw [status?_eq, status?_eq, h.actions]

theorem status?_of_sets {id' : ActionId} {e : ActionEntry} {n : Nat}
    (h : f.coordinator.Sets f'.coordinator id' e n) (id : ActionId) :
    f'.status? id = if id' = id then some e.record.status else f.status? id := by
  rw [status?_eq, status?_eq, h.get?]
  split <;> rfl

/-! ## One move -/

/-- What one move may make of the entry of an action. -/
inductive Step : Option ActionEntry → Option ActionEntry → Prop
  | stays (x : Option ActionEntry) : Step x x
  | started (r : ActionRecord) : r.status = .active → Step none (some ⟨r, []⟩)
  | joined (e : ActionEntry) (enlistment : Enlistment) : e.record.status = .active →
    Step (some e) (some { e with enlisted := e.enlisted ++ [enlistment] })
  | entered (e : ActionEntry) (ending : Ending) : e.record.status = .active →
    Step (some e) (some { e with record.status := ending.transient })
  | left (e : ActionEntry) (ending : Ending) (st : ActionStatus) (now : Nat) :
    e.record.status = ending.transient → ending.Verdict st →
    Step (some e) (some { e with record := e.record.settle now st })

theorem step_of_sets {id' : ActionId} {e : ActionEntry} {n : Nat}
    (h : f.coordinator.Sets f'.coordinator id' e n)
    (hs : Step (f.coordinator.actions.get? id') (some e)) (id : ActionId) :
    Step (f.coordinator.actions.get? id) (f'.coordinator.actions.get? id) := by
  rw [h.get?]
  split
  · rename_i hid
    exact hid ▸ hs
  · exact .stays _

theorem Change.step (hf : f.Sound) (h : f.Change f') (id : ActionId) :
    Step (f.coordinator.actions.get? id) (f'.coordinator.actions.get? id) := by
  cases h with
  | nothing hs hu =>
    rw [hs.actions]
    exact .stays _
  | started r ha hr hs hu =>
    refine step_of_sets hs ?_ id
    rw [hf.fresh _ (Nat.le_refl _)]
    exact .started r ha
  | joined id' e enlistment he ha hs hu => exact step_of_sets hs (he ▸ .joined e enlistment ha) id
  | entered ending id' e he ha hs hu => exact step_of_sets hs (he ▸ .entered e ending ha) id
  | left i u e st now hi he hst hv hs hu =>
    exact step_of_sets hs (he ▸ .left e u.ending st now hst hv) id

theorem Step.status {x y : Option ActionEntry} (h : Step x y) :
    ActionStatus.Steps (x.map fun e => e.record.status) (y.map fun e => e.record.status) := by
  cases h with
  | stays => exact .stays _
  | started r ha =>
    simp only [Option.map_some, ha]
    exact .started
  | joined e enlistment ha => exact .stays _
  | entered e ending ha =>
    simp only [Option.map_some, ha]
    exact .moves (.entered ending)
  | left e ending st now hst hv =>
    simp only [Option.map_some, hst]
    exact .moves (.left ending hv)

theorem Step.active {x y : Option ActionEntry} (h : Step x y)
    (hne : (y.map ActionEntry.enlisted).getD [] ≠ (x.map ActionEntry.enlisted).getD []) :
    (x.map fun e => e.record.status) = some .active ∧
      (y.map fun e => e.record.status) = some .active := by
  cases h with
  | joined e enlistment ha => exact ⟨congrArg some ha, congrArg some ha⟩
  | stays | started | entered | left => exact absurd rfl hne

theorem Change.steps (hf : f.Sound) (h : f.Change f') (id : ActionId) :
    ActionStatus.Steps (f.status? id) (f'.status? id) := by
  rw [status?_eq, status?_eq]
  exact (h.step hf id).status

theorem enlisted_eq (f : Floor) (id : ActionId) : f.coordinator.enlisted id =
    ((f.coordinator.actions.get? id).map ActionEntry.enlisted).getD [] := by
  unfold Coordinator.enlisted
  cases f.coordinator.actions.get? id <;> rfl

/-- The enlistments of an action change only while it is active. -/
theorem Change.enlisted (hf : f.Sound) (h : f.Change f')
    (hne : f'.coordinator.enlisted id ≠ f.coordinator.enlisted id) :
    f.status? id = some .active ∧ f'.status? id = some .active := by
  rw [enlisted_eq, enlisted_eq] at hne
  rw [status?_eq, status?_eq]
  exact (h.step hf id).active hne

/-- An action that is no longer active never is again. -/
theorem Change.not_active (hf : f.Sound) (h : f.Change f') (hst : f.status? id = some st)
    (ha : st ≠ .active) : ∃ st', f'.status? id = some st' ∧ st' ≠ .active := by
  have hs := h.steps hf id
  rw [hst] at hs
  generalize f'.status? id = o at hs
  cases hs with
  | stays => exact ⟨st, rfl, ha⟩
  | @moves _ st' hm =>
    refine ⟨st', rfl, ?_⟩
    cases hm with
    | entered => exact absurd rfl ha
    | left ending hv => exact hv.ne_active

/-- The status of the action is `st`, and there is nobody left to change it. -/
structure Settled (f : Floor) (id : ActionId) (st : ActionStatus) : Prop where
  status : f.status? id = some st
  left : st ≠ .active
  nobody : ∀ u ∈ f.underway, u.id ≠ id

theorem Settled.change (h : f.Settled id st) (hf : f.Sound) (hc : f.Change f') :
    f'.Settled id st := by
  cases hc with
  | nothing hs hu => exact ⟨by rw [status?_of_same hs, h.status], h.left, hu ▸ h.nobody⟩
  | started r ha hr hs hu =>
    refine ⟨?_, h.left, hu ▸ h.nobody⟩
    rw [status?_of_sets hs, if_neg, h.status]
    rintro rfl
    have := h.status
    rw [status?_eq, hf.fresh _ (Nat.le_refl _)] at this
    cases this
  | joined id' e enlistment he ha hs hu =>
    refine ⟨?_, h.left, hu ▸ h.nobody⟩
    rw [status?_of_sets hs]
    split
    · rename_i hid
      rw [← h.status, ← hid, status?_of_get? he]
    · exact h.status
  | entered ending id' e he ha hs hu =>
    have hne : id' ≠ id := by
      rintro rfl
      have := h.status
      rw [status?_of_get? he, ha, Option.some.injEq] at this
      exact h.left this.symm
    refine ⟨by rw [status?_of_sets hs, if_neg hne, h.status], h.left, fun u hm => ?_⟩
    rw [hu, List.mem_append, List.mem_singleton] at hm
    rcases hm with hm | rfl
    · exact h.nobody u hm
    · exact hne
  | left i u e st' now hi he hst hv hs hu =>
    have hne : u.id ≠ id := h.nobody u (List.mem_of_getElem? hi)
    refine ⟨by rw [status?_of_sets hs, if_neg hne, h.status], h.left, fun u' hm => ?_⟩
    rw [hu] at hm
    exact h.nobody u' (List.mem_of_mem_eraseIdx hm)

theorem Sound.settled_of_terminal (hf : f.Sound) (h : f.status? id = some st)
    (ht : st.terminal = true) : f.Settled id st := by
  refine ⟨h, (by rintro rfl; cases ht), ?_⟩
  rintro u hu rfl
  obtain ⟨e, he, hst⟩ := hf.underway u hu
  rw [status?_of_get? he, hst, Option.some.injEq] at h
  subst h
  cases hend : u.ending <;> rw [hend] at ht <;> cases ht

/-! ## One floor after the other -/

/-- Floors of which each is what a change has made of the one before it. -/
structure History where
  floor : Nat → Floor
  sound : ∀ n, (floor n).Sound
  change : ∀ n, (floor n).Change (floor (n + 1))

namespace History

variable {h : History} {n m : Nat} {ending ending' : Ending}

theorem settled_mono (hs : (h.floor n).Settled id st) (hnm : n ≤ m) :
    (h.floor m).Settled id st := by
  induction hnm with
  | refl => exact hs
  | step _ ih => exact ih.change (h.sound _) (h.change _)

theorem not_active_mono (hst : (h.floor n).status? id = some st) (ha : st ≠ .active)
    (hnm : n ≤ m) : ∃ st', (h.floor m).status? id = some st' ∧ st' ≠ .active := by
  induction hnm with
  | refl => exact ⟨st, hst, ha⟩
  | step _ ih =>
    obtain ⟨st', h', ha'⟩ := ih
    exact (h.change _).not_active (h.sound _) h' ha'

/-- After floor `n` a request to end the action has got past its first half. -/
structure Enters (h : History) (n : Nat) (ending : Ending) (id : ActionId) : Prop where
  active : (h.floor n).status? id = some .active
  transient : (h.floor (n + 1)).status? id = some ending.transient

/-- Once a request got past its first half, the action is active no more. -/
theorem Enters.not_active (he : h.Enters n ending id) (hnm : n < m) :
    ∃ st, (h.floor m).status? id = some st ∧ st ≠ .active :=
  not_active_mono he.transient (Ending.Verdict.ne_active (.inl rfl)) hnm

theorem Enters.not_lt (he : h.Enters n ending id) (he' : h.Enters m ending' id) : ¬ n < m := by
  intro hlt
  obtain ⟨st, hst, ha⟩ := he.not_active hlt
  rw [he'.active, Option.some.injEq] at hst
  exact ha hst.symm

theorem Enters.unique (he : h.Enters n ending id) (he' : h.Enters m ending' id) :
    m = n ∧ ending' = ending := by
  obtain rfl : m = n :=
    Nat.le_antisymm (Nat.not_lt.1 (he.not_lt he')) (Nat.not_lt.1 (he'.not_lt he))
  have ht : ending.transient = ending'.transient :=
    Option.some.inj (he.transient.symm.trans he'.transient)
  refine ⟨rfl, ?_⟩
  cases ending <;> cases ending' <;> first | rfl | cases ht

end History

/-! ## Runs -/

/-- Moves made one after the other on the floor of a new coordinator. -/
structure Run where
  base : String
  moves : List Move

namespace Run

variable {r : Run} {n m : Nat} {ending ending' : Ending}

/-- The floor before move `n`. -/
def before (r : Run) (n : Nat) : Floor := replay play ⟨.ofBaseUrl r.base, []⟩ r.moves n

theorem follows (r : Run) : Follows play r.moves r.before := follows_replay

theorem sound (r : Run) (n : Nat) : (r.before n).Sound :=
  replay_induction (.ofBaseUrl r.base) (fun _ move hf => hf.change (play_change hf move)) n

/-- The floors before the moves. -/
def history (r : Run) : History where
  floor := r.before
  sound := r.sound
  change n := r.follows.related (.nothing ⟨rfl, rfl, rfl⟩ rfl) fun move _ =>
    play_change (r.sound n) move

/-- The status of an action before move `n`. -/
def status? (r : Run) (n : Nat) (id : ActionId) : Option ActionStatus := (r.before n).status? id

/-- Move `n` is the first half of a request to end the action, and the request gets past it. -/
def Enters (r : Run) (n : Nat) (ending : Ending) (id : ActionId) : Prop :=
  r.moves[n]? = some (.enter ending id) ∧ ∃ plan, ((r.before n).enter ending id).1 = .ok plan

/-- Move `n` is the second half of a request to end the action, which is answered with `st`. -/
def Leaves (r : Run) (n : Nat) (id : ActionId) (st : ActionStatus) : Prop :=
  ∃ i now b u, r.moves[n]? = some (.leave i now b) ∧ (r.before n).underway[i]? = some u ∧
    u.id = id ∧ ((r.before n).leave i now b).1 = some st

/-! ## Requests that end an action -/

theorem Enters.history (h : r.Enters n ending id) : r.history.Enters n ending id := by
  obtain ⟨hm, plan, hp⟩ := h
  rcases he : (r.before n).enter ending id with ⟨x, f'⟩
  have hf : r.before (n + 1) = f' := by rw [r.follows.succ hm, play, he]
  obtain ⟨-, -, ⟨-, rfl⟩ | ⟨e, -, -, rfl⟩⟩ | ⟨e, hget, ha, -, hs, -⟩ := enter_cases he
  · rw [he] at hp; cases hp
  · rw [he] at hp; cases hp
  · refine ⟨?_, ?_⟩
    · exact (status?_of_get? hget).trans (congrArg some ha)
    · show (r.before (n + 1)).status? id = _
      rw [hf, status?_of_sets hs, if_pos rfl]

/-- A request that does not get past its first half is rejected with the status. -/
theorem rejected_of_not_enters (hm : r.moves[n]? = some (.enter ending id))
    (hst : r.status? n id = some st) (hn : ¬ r.Enters n ending id) :
    ((r.before n).enter ending id).1 = .error (.rejected id (.notActive st)) := by
  rcases he : (r.before n).enter ending id with ⟨x, f'⟩
  obtain ⟨-, -, ⟨hget, -⟩ | ⟨e, hget, -, rfl⟩⟩ | ⟨e, -, -, rfl, -, -⟩ := enter_cases he
  · rw [status?, status?_eq, hget] at hst
    cases hst
  · rw [status?, status?_of_get? hget, Option.some.injEq] at hst
    rw [hst]
  · exact absurd ⟨hm, _, by rw [he]⟩ hn

/-- A request that ends an action leaves the status it is answered with for good. -/
theorem Leaves.settled (h : r.Leaves n id st) : (r.before (n + 1)).Settled id st := by
  obtain ⟨i, now, b, u, hm, hu, rfl, hst⟩ := h
  rcases hl : (r.before n).leave i now b with ⟨x, f'⟩
  have hf : r.before (n + 1) = f' := by rw [r.follows.succ hm, play, hl]
  obtain ⟨hn, -, -⟩ | ⟨u', e, hu', rfl, -, -, hs, hus⟩ := leave_cases (r.sound n) hl
  · rw [hu] at hn
    cases hn
  · rw [hu, Option.some.injEq] at hu'
    subst hu'
    obtain rfl : u.verdict b = st := by simpa [hl] using hst
    rw [hf]
    refine ⟨by rw [status?_of_sets hs, if_pos rfl]; rfl, ?_, fun v hv => ?_⟩
    · exact (u.verdict_verdict b).ne_active
    · rw [hus] at hv
      exact (r.sound n).id_ne_of_mem_eraseIdx hu hv

/-- **The statuses of actions.** In every order of requests, the status of an action only moves
along its line. At most one request to end it gets past its first half, and the others are
rejected. A terminal status stays, and the actions with one are those that have a time at which they
finished. What a request that ends an action answers is the status then and ever after. The
enlistments of an action change only while it is active. -/
theorem status_machine (r : Run) :
    (∀ n id, ActionStatus.Steps (r.status? n id) (r.status? (n + 1) id)) ∧
    (∀ n m ending ending' id, r.Enters n ending id → r.Enters m ending' id → m = n) ∧
    (∀ n ending id st, r.moves[n]? = some (.enter ending id) → r.status? n id = some st →
      ¬ r.Enters n ending id →
        ((r.before n).enter ending id).1 = .error (.rejected id (.notActive st))) ∧
    (∀ n m id st, r.status? n id = some st → st.terminal = true → n ≤ m →
      r.status? m id = some st) ∧
    (∀ n id x, (r.before n).coordinator.get? id = some x →
      x.finishedAt.isSome = x.status.terminal) ∧
    (∀ n m id st, r.Leaves n id st → n < m → r.status? m id = some st) ∧
    ∀ n id, (r.before (n + 1)).coordinator.enlisted id ≠ (r.before n).coordinator.enlisted id →
      r.status? n id = some .active ∧ r.status? (n + 1) id = some .active := by
  refine ⟨fun n id => (r.history.change n).steps (r.sound n) id,
    fun n m ending ending' id h h' => (h.history.unique h'.history).1,
    fun n ending id st hm hst hn => rejected_of_not_enters hm hst hn,
    fun n m id st h ht hnm => ?_, fun n id x hx => ?_, fun n m id st h hnm => ?_,
    fun n id hne => (r.history.change n).enlisted (r.sound n) hne⟩
  · exact (r.history.settled_mono ((r.sound n).settled_of_terminal h ht) hnm).status
  · obtain ⟨e, he, rfl⟩ := Option.map_eq_some_iff.1 hx
    exact (r.sound n).finished id e he
  · exact (r.history.settled_mono h.settled hnm).status

end Run

end Floor

end Saga
