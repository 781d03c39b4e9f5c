import Saga.Proofs.Context.Chains
import Saga.Proofs.Orchestrator.Acts

/-!
# A run and the chain of its caller

A run makes its action active on the caller's chain before the work, and ends it there on every way
out (`launch_chain`, `conclude_chain`). What the work does to the chain in between is its own
affair, so the account of a run (`Orchestrator.Trip`) is in terms of the chain that the work finds
and the one it leaves. These are read off a record of the calls of the work (`Orchestrator.visits`);
keeping it changes nothing else (`runJob_recording_visits`).
-/

set_option autoImplicit false

namespace Saga

/-! ## What a run does to the chain -/

namespace Chain

variable {c y z c' : Chain} {id : ActionId}

/-- The chain `y` is the chain `c` with `id` innermost. -/
structure Entered (id : ActionId) (c y : Chain) : Prop where
  active : id ∉ c.active → y.active = c.active ++ [id]
  again : id ∈ c.active → y.active = c.active
  scratch : ∀ key, y.scratch? key = c.scratch? key

/-- The chain `c'` is the chain `z` without `id`; nothing is left of it without an active action. -/
structure Retired (id : ActionId) (z c' : Chain) : Prop where
  active : c'.active = z.active.erase id
  gone : z.active.Nodup → id ∉ c'.active
  frame : c' = none ↔ c'.active = []
  scratch : c'.active ≠ [] → ∀ key, c'.scratch? key = z.scratch? key

theorem entered_push (c : Chain) (id : ActionId) : Entered id c (c.push id) where
  active h := by rw [active_push, if_neg h]
  again h := by rw [active_push, if_pos h]
  scratch := scratch?_push c id

theorem active_remove (c : Chain) (id : ActionId) :
    (c.remove id).2.active = c.active.erase id := by
  rw [remove_snd]
  cases c with
  | none => rfl
  | some f => exact active_ofFrame _

theorem retired_remove (z : Chain) (id : ActionId) : Retired id z (z.remove id).2 where
  active := active_remove z id
  gone h := by
    rw [active_remove]
    exact h.not_mem_erase
  frame := by
    rw [active_remove, remove_snd]
    cases z with
    | none => simp
    | some f => simp [ofFrame, -List.erase_eq_nil_iff]
  scratch h key := by
    rw [active_remove] at h
    rw [remove_snd]
    cases z with
    | none => rfl
    | some f =>
      rw [Option.bind_some, scratch?_ofFrame]
      exact if_neg h

theorem Retired.restores (hr : Retired id y c') (he : Entered id c y) (hc : c.Neat)
    (hid : id ∉ c.active) : c'.active = c.active ∧ ∀ key, c'.scratch? key = c.scratch? key := by
  have hactive : c'.active = c.active := by
    rw [hr.active, he.active hid, List.erase_append_right _ hid, List.erase_cons_head,
      List.append_nil]
  refine ⟨hactive, fun key => ?_⟩
  by_cases hnil : c.active = []
  · rw [hr.frame.2 (hactive.trans hnil), hc.active_eq_nil_iff.1 hnil]
  · rw [hr.scratch (hactive ▸ hnil) key, he.scratch key]

end Chain

/-- One call of the work of a run: its action, and the chain before and after. -/
structure Visit where
  id : ActionId
  before : Chain
  after : Chain

namespace Orchestrator

open Chain

variable {σ ρ ε α : Type}

/-- What a first run does with the chain `c` of its caller: from what came of the start of the
action and the calls of the work to the result and the chain that it leaves. -/
inductive Trip (c : Chain) :
    Except RequestError ActionId → List Visit → Except (RunError ε) α → Chain → Prop
  | notStarted (e : RequestError) : Trip c (.error e) [] (.error (.start e)) c
  | notEnlisted {id : ActionId} {y c' : Chain} (owner : String) (failure : EnlistFailure) :
    Entered id c y → Retired id y c' →
      Trip c (.ok id) [] (.error (.enlist owner failure)) c'
  | worked {id : ActionId} {y z c' : Chain} (result : Except (RunError ε) α) :
    Entered id c y → Retired id z c' → Trip c (.ok id) [⟨id, y, z⟩] result c'

/-- If the work, where it is called, leaves the chain as it finds it, then so does the run. -/
theorem Trip.restores {c c' : Chain} {answer : Except RequestError ActionId} {visits : List Visit}
    {result : Except (RunError ε) α} (h : Trip c answer visits result c') (hc : c.Neat)
    (hid : ∀ id, answer = .ok id → id ∉ c.active) (hv : ∀ v ∈ visits, v.after = v.before) :
    c'.active = c.active ∧ ∀ key, c'.scratch? key = c.scratch? key := by
  cases h with
  | notStarted => exact ⟨rfl, fun _ => rfl⟩
  | notEnlisted _ _ he hr => exact hr.restores he hc (hid _ rfl)
  | @worked id y z _ _ he hr =>
    have hzy : z = y := hv ⟨id, y, z⟩ List.mem_cons_self
    subst hzy
    exact hr.restores he hc (hid id rfl)

/-! ## The stages -/

variable (env : Surroundings σ) (text : ε → String) (registry : Registry ρ) (o : Orchestrator)

/-- Only a participant that is not enlisted ends the enlistment. -/
theorem enlist_error (config : Config) (id : ActionId) (owners : List String) {s : σ}
    {e : RunError ε} (h : (enlist env registry config id owners s).1 = .error e) :
    ∃ owner failure, e = .enlist owner failure := by
  induction owners generalizing s with
  | nil => cases h
  | cons owner owners ih =>
    simp only [enlist] at h
    split at h
    · cases h
      exact ⟨_, _, rfl⟩
    · split at h
      · cases h
        exact ⟨_, _, rfl⟩
      · exact ih h

/-- What comes after the work ends the action on the chain, whatever came of the work. -/
theorem conclude_chain (id : ActionId) (result : Except ε α) (chain : Chain) (s : σ) :
    (conclude env text o id result chain s).2.2.1 = (chain.remove id).2 := by
  cases result with
  | ok value =>
    rcases hc : env.client.close id s with ⟨e | status, s'⟩ <;>
      simp [conclude, judge, close, finish, hc]
  | error e => rfl

variable [Journal σ] (parent : Option ActionId) (owners : List String)

/-- What comes before the work leaves the chain alone if the action is not started, and with the
action innermost if the work is to run. -/
theorem launch_chain (chain : Chain) (s : σ) (h : o.state = .starting) :
    let answer := (env.client.start o.config.clientId o.config.timeout (parent.or chain.peek) s).1
    let launched := launch (ε := ε) env registry o parent owners chain s
    (∃ e, answer = .error e ∧ launched.1 = .error (.start e) ∧ launched.2.2.1 = chain) ∨
    (∃ id owner failure, answer = .ok id ∧ launched.1 = .error (.enlist owner failure) ∧
      launched.2.2.1 = ((chain.push id).remove id).2) ∨
    ∃ id, answer = .ok id ∧ launched.1 = .ok id ∧ launched.2.2.1 = chain.push id := by
  rcases hs : env.client.start o.config.clientId o.config.timeout (parent.or chain.peek) s
    with ⟨e | id, s'⟩
  · exact .inl ⟨e, by simp [launch, start, h, hs]⟩
  · rcases he : enlist (ε := ε) env registry o.config id owners
      (env.observer.notify (.started id (parent.or chain.peek)) s') with ⟨e | _, s''⟩
    · obtain ⟨owner, failure, rfl⟩ := enlist_error env registry o.config id owners
        (congrArg Prod.fst he)
      refine .inr (.inl ⟨id, owner, failure, ?_⟩)
      simp [launch, start, enlistAll, cancel, finish, h, hs, he]
    · exact .inr (.inr ⟨id, by simp [launch, start, enlistAll, h, hs, he]⟩)

/-! ## Runs -/

variable (work : Work σ ε α)

theorem runIn_visits (chain : Chain) (s : σ) (h : o.state = .starting) :
    ∃ visits, Trip chain
        (env.client.start o.config.clientId o.config.timeout (parent.or chain.peek) s).1 visits
        (runIn env text registry o parent owners work chain s).1
        (runIn env text registry o parent owners work chain s).2.2.1 ∧
      ∀ before,
        runIn (env.recording fun _ : Act ε α => []) text registry o parent owners
            (work.recording fun id before _ after => [⟨id, before, after⟩]) chain ⟨before, s⟩ =
          mapState (Recorded.mk (before ++ visits))
            (runIn env text registry o parent owners work chain s) := by
  have hl := launch_chain (ε := ε) env registry o parent owners chain s h
  have hnone (acts : List (Act ε α)) : acts.flatMap (fun _ => ([] : List Visit)) = [] :=
    List.flatMap_eq_nil_iff.2 fun _ _ => rfl
  obtain ⟨acts, -, hv⟩ := launch_recording (ε := ε) (ι := Visit) env registry o
    (fun _ : Act ε α => []) parent owners chain s h
  rcases hlaunch : launch (ε := ε) env registry o parent owners chain s with ⟨e | id, o', y, s'⟩
  · -- the work is not called
    simp only [hlaunch, reduceCtorEq, false_and, and_false, exists_false, or_false,
      Except.error.injEq] at hl
    refine ⟨[], ?_, fun before => ?_⟩
    · simp only [runIn, hlaunch]
      rcases hl with ⟨e, ha, rfl, rfl⟩ | ⟨id, owner, failure, ha, rfl, rfl⟩
      · rw [ha]
        exact .notStarted e
      · rw [ha]
        exact .notEnlisted owner failure (entered_push chain id) (retired_remove _ id)
    · simp [runIn, hv, hnone, hlaunch, mapState]
  · -- the work is called once, and after it the action is ended
    simp only [hlaunch, reduceCtorEq, false_and, and_false, exists_false, false_or,
      Except.ok.injEq] at hl
    obtain ⟨_, ha, rfl, rfl⟩ := hl
    rcases hw : work id (chain.push id) s' with ⟨result, z, s''⟩
    obtain ⟨ending, -, hc⟩ := conclude_recording (ι := Visit) env text o' (fun _ : Act ε α => []) id
      result z s''
    refine ⟨[⟨id, chain.push id, z⟩], ?_, fun before => ?_⟩
    · simp only [runIn, hlaunch, hw]
      rw [ha, conclude_chain]
      exact .worked _ (entered_push chain id) (retired_remove z id)
    · simp [runIn, hv, hnone, hlaunch, mapState, Work.recording, hw, hc]

variable (job : Job σ ρ ε α)

/-- The calls of the work by the run for a job. -/
def visits (s : σ) : List Visit :=
  (o.runJob (env.recording fun _ : Act ε α => []) text
    (job.recording fun id before _ after => [⟨id, before, after⟩]) ⟨[], s⟩).2.2.2.log

theorem visits_used (s : σ) (h : o.state ≠ .starting) : o.visits env text job s = [] := by
  rw [visits, runJob_used _ _ _ _ _ h]

/-- Keeping the record changes nothing else. -/
theorem runJob_recording_visits (w : Recorded Visit σ) :
    o.runJob (env.recording fun _ : Act ε α => []) text
        (job.recording fun id before _ after => [⟨id, before, after⟩]) w =
      mapState (Recorded.mk (w.log ++ o.visits env text job w.state))
        (o.runJob env text job w.state) := by
  by_cases h : o.state = .starting
  · obtain ⟨visits', -, hn⟩ := runIn_visits env text job.registry o job.parent job.owners job.work
      job.scopes.chain w.state h
    simp only [visits, runJob_eq, Job.recording, hn]
    rfl
  · rw [visits_used _ _ _ _ _ h, runJob_used _ _ _ _ _ h, runJob_used _ _ _ _ _ h]
    simp [mapState, Job.recording]

/-- What a run does to the chain of its caller. An orchestrator that has run before does nothing.
The first run makes a trip on the caller's chain, or on one of its own if the caller has none; of
that one nothing is left. -/
theorem runJob_trip (s : σ) :
    (o.state ≠ .starting →
      o.visits env text job s = [] ∧ (o.runJob env text job s).2.2.1 = job.scopes) ∧
    (o.state = .starting → ∃ c',
      Trip job.scopes.chain
        (env.client.start o.config.clientId o.config.timeout (job.parent.or job.scopes.peek) s).1
        (o.visits env text job s) (o.runJob env text job s).1 c' ∧
      (o.runJob env text job s).2.2.1 = (job.scopes.onChain fun _ => ((), c')).2) ∧
    (job.scopes = [] → (o.runJob env text job s).2.2.1 = []) := by
  refine ⟨fun h => ?_, fun h => ?_, fun h => ?_⟩
  · rw [visits_used _ _ _ _ _ h, runJob_used _ _ _ _ _ h]
    exact ⟨rfl, rfl⟩
  · obtain ⟨visits', ht, hn⟩ := runIn_visits env text job.registry o job.parent job.owners job.work
      job.scopes.chain s h
    refine ⟨_, ?_, by rw [runJob_eq]⟩
    rw [visits, runJob_eq, runJob_eq]
    simp only [Job.recording, hn]
    exact ht
  · unfold runJob
    rw [h]
    rfl

/-- Work that ends the action of its run itself: no other action is ended in its place. -/
example :
    let client : Client (List Event) :=
      ⟨fun _ _ _ s => (.ok ⟨"inner"⟩, s), fun _ _ _ _ _ s => (.ok "", s),
        fun _ s => (.ok .closed, s), fun _ s => (.ok .cancelled, s)⟩
    let job : Job (List Event) Unit String Unit :=
      ⟨.empty, none, [], fun _ chain s => (.ok (), chain.pop.2, s), [Chain.push none ⟨"outer"⟩]⟩
    ((ofConfig .standard).runJob ⟨client, .silent⟩ id job []).2.2.1 =
      [Chain.push none ⟨"outer"⟩] :=
  rfl

end Orchestrator

end Saga
