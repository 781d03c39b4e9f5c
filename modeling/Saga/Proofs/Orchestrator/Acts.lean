import Saga.Orchestrator
import Saga.Proofs.Record

/-!
# What a run does

The acts of a run are the requests that it makes of the coordinator, with the answers, and its
work, with the result, one after the other (`Orchestrator.acts`). They are read off the record that
a client and a work keep when they are made to write down what is asked of them. What they write of
it may be chosen freely (`Surroundings.recording`, `Work.recording`), and keeping the record changes
nothing else (`enlist_recording`, `launch_recording`, `conclude_recording`). The first run of an
orchestrator acts by the `Protocol` (`acts_starting`), every later one does nothing (`runJob_used`,
`acts_used`).
-/

set_option autoImplicit false

namespace Saga

/-- One thing that a run does, with what came of it. -/
inductive Act (ε α : Type) where
  | start (client : String) (timeout : Duration) (parent : Option ActionId)
      (answer : Except RequestError ActionId)
  | join (id : ActionId) (timeout : Duration) (header : String) (recovery data : Option String)
      (answer : Except RequestError String)
  | work (id : ActionId) (result : Except ε α)
  | close (id : ActionId) (answer : Except RequestError ActionStatus)
  | cancel (id : ActionId) (answer : Except RequestError ActionStatus)

/-- The request to join the participant `d`. -/
def Act.joinOf {ε α ρ : Type} (config : Config) (id : ActionId) (d : Descriptor ρ)
    (answer : Except RequestError String) : Act ε α :=
  .join id config.timeout (Links.ofDescriptor d config.baseUrl).toHeader config.recoveryUrl none
    answer

/-! ## The protocol -/

section
variable {ρ ε α : Type} (registry : Registry ρ) (config : Config)

/-- The joins for a list of owners, one for each up to the first that fails. -/
inductive Joins (id : ActionId) :
    List String → List (Act ε α) → Except (RunError ε) Unit → Prop
  | nil : Joins id [] [] (.ok ())
  | unknown {owner : String} (owners : List String) {e : CallError} :
    registry.lookup owner = .error e →
      Joins id (owner :: owners) [] (.error (.enlist owner (.unknownOwner e)))
  | refused {owner : String} (owners : List String) {d : Descriptor ρ} (e : RequestError) :
    registry.lookup owner = .ok d →
      Joins id (owner :: owners) [.joinOf config id d (.error e)]
        (.error (.enlist owner (.refused e)))
  | joined {owner : String} {owners : List String} {d : Descriptor ρ} (url : String)
      {acts : List (Act ε α)} {result : Except (RunError ε) Unit} :
    registry.lookup owner = .ok d → Joins id owners acts result →
      Joins id (owner :: owners) (.joinOf config id d (.ok url) :: acts) result

/-- The acts before the work, and the action for it or the result of a run that is over. -/
inductive Launches (parent : Option ActionId) (owners : List String) :
    List (Act ε α) → Except (RunError ε) ActionId → Prop
  | notStarted (e : RequestError) :
    Launches parent owners [.start config.clientId config.timeout parent (.error e)]
      (.error (.start e))
  | notEnlisted (id : ActionId) {joins : List (Act ε α)} {e : RunError ε}
      (answer : Except RequestError ActionStatus) :
    Joins registry config id owners joins (.error e) →
      Launches parent owners
        (.start config.clientId config.timeout parent (.ok id) :: joins ++ [.cancel id answer])
        (.error e)
  | launched (id : ActionId) {joins : List (Act ε α)} :
    Joins registry config id owners joins (.ok ()) →
      Launches parent owners (.start config.clientId config.timeout parent (.ok id) :: joins)
        (.ok id)

/-- What follows on the result of the work: one ending, and the result of the run. -/
inductive Settles (id : ActionId) : Except ε α → List (Act ε α) → Except (RunError ε) α → Prop
  | closed (value : α) (status : ActionStatus) :
    Settles id (.ok value) [.close id (.ok status)] (.ok value)
  | notClosed (value : α) (e : RequestError) :
    Settles id (.ok value) [.close id (.error e)] (.error (.close id e))
  | cancelled (e : ε) (answer : Except RequestError ActionStatus) :
    Settles id (.error e) [.cancel id answer] (.error (.work e))

/-- The acts of a whole run whose action is to have the parent `parent`, and its result. -/
inductive Protocol (parent : Option ActionId) (owners : List String) :
    List (Act ε α) → Except (RunError ε) α → Prop
  | stopped {acts : List (Act ε α)} {e : RunError ε} :
    Launches registry config parent owners acts (.error e) → Protocol parent owners acts (.error e)
  | worked {id : ActionId} {acts ending : List (Act ε α)} {work : Except ε α}
      {result : Except (RunError ε) α} :
    Launches registry config parent owners acts (.ok id) → Settles id work ending result →
      Protocol parent owners (acts ++ .work id work :: ending) result

end

/-! ## The record -/

variable {σ τ ρ ε α β γ ι : Type}

section
variable (write : Act ε α → List ι)

/-- The client, made to write something down of each request. -/
def Client.recording (c : Client σ) : Client (Recorded ι σ) where
  start client timeout parent :=
    Recorded.act (c.start client timeout parent) fun answer =>
      write (.start client timeout parent answer)
  join id timeout header recovery data :=
    Recorded.act (c.join id timeout header recovery data) fun answer =>
      write (.join id timeout header recovery data answer)
  close id := Recorded.act (c.close id) fun answer => write (.close id answer)
  cancel id := Recorded.act (c.cancel id) fun answer => write (.cancel id answer)

/-- The surroundings with a client that writes something down of each request. -/
def Surroundings.recording (env : Surroundings σ) : Surroundings (Recorded ι σ) where
  client := env.client.recording write
  observer := ⟨fun station w => { w with state := env.observer.notify station w.state }⟩

end

/-- A piece of work, made to write something down of each call: of the action, the chain that it
finds, its result and the chain that it leaves. -/
def Work.recording (write : ActionId → Chain → Except ε α → Chain → List ι) (work : Work σ ε α) :
    Work (Recorded ι σ) ε α := fun id chain w =>
  let (result, chain', s) := work id chain w.state
  (result, chain', ⟨w.log ++ write id chain result chain', s⟩)

/-- What a run gives, with the state changed by `f`. -/
def mapState (f : σ → τ) (x : β × Orchestrator × γ × σ) : β × Orchestrator × γ × τ :=
  (x.1, x.2.1, x.2.2.1, f x.2.2.2)

namespace Surroundings

variable (write : Act ε α → List ι) (env : Surroundings σ) (w : Recorded ι σ)

@[simp] theorem recording_start (client : String) (timeout : Duration) (parent : Option ActionId) :
    (env.recording write).client.start client timeout parent w =
      let (answer, s) := env.client.start client timeout parent w.state
      (answer, ⟨w.log ++ write (.start client timeout parent answer), s⟩) := rfl

@[simp] theorem recording_join (id : ActionId) (timeout : Duration) (header : String)
    (recovery data : Option String) :
    (env.recording write).client.join id timeout header recovery data w =
      let (answer, s) := env.client.join id timeout header recovery data w.state
      (answer, ⟨w.log ++ write (.join id timeout header recovery data answer), s⟩) := rfl

@[simp] theorem recording_close (id : ActionId) :
    (env.recording write).client.close id w =
      let (answer, s) := env.client.close id w.state
      (answer, ⟨w.log ++ write (.close id answer), s⟩) := rfl

@[simp] theorem recording_cancel (id : ActionId) :
    (env.recording write).client.cancel id w =
      let (answer, s) := env.client.cancel id w.state
      (answer, ⟨w.log ++ write (.cancel id answer), s⟩) := rfl

@[simp] theorem recording_notify (station : Lifecycle) :
    (env.recording write).observer.notify station w =
      { w with state := env.observer.notify station w.state } := rfl

end Surroundings

namespace Orchestrator

variable (env : Surroundings σ) (text : ε → String) (registry : Registry ρ) (o : Orchestrator)
  (write : Act ε α → List ι)

theorem enlist_recording (config : Config) (id : ActionId) (owners : List String) (s : σ) :
    ∃ acts : List (Act ε α),
      Joins registry config id owners acts (enlist env registry config id owners s).1 ∧
      ∀ before, enlist (env.recording write) registry config id owners ⟨before, s⟩ =
        ((enlist env registry config id owners s : Except (RunError ε) Unit × σ).1,
          ⟨before ++ acts.flatMap write, (enlist (ε := ε) env registry config id owners s).2⟩) := by
  induction owners generalizing s with
  | nil => exact ⟨[], .nil, fun before => by simp [enlist]⟩
  | cons owner owners ih =>
    cases hl : registry.lookup owner with
    | error e =>
      refine ⟨[], ?_, fun before => by simp [enlist, hl]⟩
      simp only [enlist, hl]
      exact .unknown owners hl
    | ok d =>
      rcases hj : env.client.join id config.timeout (Links.ofDescriptor d config.baseUrl).toHeader
        config.recoveryUrl none s with ⟨e | url, s'⟩
      · refine ⟨[.joinOf config id d (.error e)], ?_, fun before => ?_⟩
        · simp only [enlist, hl, hj]
          exact .refused owners e hl
        · simp [enlist, hl, hj, Act.joinOf]
      · obtain ⟨acts, h, hn⟩ := ih (env.observer.notify (.enlisted id owner url) s')
        refine ⟨.joinOf config id d (.ok url) :: acts, ?_, fun before => ?_⟩
        · simp only [enlist, hl, hj]
          exact .joined url hl h
        · simp [enlist, hl, hj, hn, Act.joinOf]

theorem conclude_recording (id : ActionId) (result : Except ε α) (chain : Chain) (s : σ) :
    ∃ acts, Settles id result acts (conclude env text o id result chain s).1 ∧
      ∀ before, conclude (env.recording write) text o id result chain ⟨before, s⟩ =
        mapState (Recorded.mk (before ++ acts.flatMap write))
          (conclude env text o id result chain s) := by
  cases result with
  | ok value =>
    rcases hc : env.client.close id s with ⟨e | status, s'⟩
    · refine ⟨[.close id (.error e)], ?_, fun before => by
        simp [conclude, judge, close, hc, mapState]⟩
      simp only [conclude, judge, close, hc]
      exact .notClosed value e
    · refine ⟨[.close id (.ok status)], ?_, fun before => by
        simp [conclude, judge, close, hc, mapState]⟩
      simp only [conclude, judge, close, hc]
      exact .closed value status
  | error e =>
    rcases hc : env.client.cancel id (env.observer.notify (.workFailed id (text e)) s)
      with ⟨answer, s'⟩
    refine ⟨[.cancel id answer], .cancelled e answer, fun before => ?_⟩
    cases answer <;> simp [conclude, judge, cancel, hc, mapState]

variable [Journal σ] (parent : Option ActionId) (owners : List String)

theorem launch_recording (chain : Chain) (s : σ) (h : o.state = .starting) :
    ∃ acts, Launches registry o.config (parent.or chain.peek) owners acts
        (launch (ε := ε) env registry o parent owners chain s).1 ∧
      ∀ before, launch (ε := ε) (env.recording write) registry o parent owners chain ⟨before, s⟩ =
        mapState (Recorded.mk (before ++ acts.flatMap write))
          (launch env registry o parent owners chain s) := by
  rcases hs : env.client.start o.config.clientId o.config.timeout (parent.or chain.peek) s
    with ⟨e | id, s₁⟩
  · -- the action is not started
    refine ⟨[.start o.config.clientId o.config.timeout (parent.or chain.peek) (.error e)], ?_,
      fun before => ?_⟩
    · simp only [launch, start, h, hs]
      exact .notStarted e
    · simp [launch, start, h, hs, mapState]
  · obtain ⟨joins, hj, hn⟩ := enlist_recording (ε := ε) env registry write o.config id owners
      (env.observer.notify (.started id (parent.or chain.peek)) s₁)
    rcases he : enlist (ε := ε) env registry o.config id owners
      (env.observer.notify (.started id (parent.or chain.peek)) s₁) with ⟨e | _, s₂⟩ <;>
      simp only [he] at hj hn
    · -- somebody is not enlisted
      rcases hc : env.client.cancel id s₂ with ⟨answer, s₃⟩
      refine ⟨.start o.config.clientId o.config.timeout (parent.or chain.peek) (.ok id) :: joins ++
        [.cancel id answer], ?_, fun before => ?_⟩
      · simp only [launch, start, enlistAll, h, hs, he]
        exact .notEnlisted id answer hj
      · cases answer <;> simp [launch, start, enlistAll, cancel, h, hs, he, hn, hc, mapState]
    · -- the work is to run
      refine ⟨.start o.config.clientId o.config.timeout (parent.or chain.peek) (.ok id) :: joins,
        ?_, fun before => ?_⟩
      · simp only [launch, start, enlistAll, h, hs, he, ne_eq, not_true_eq_false, if_false]
        exact .launched id hj
      · simp [launch, start, enlistAll, h, hs, he, hn, mapState]

end Orchestrator

/-! ## Runs -/

/-- What is asked of an orchestrator: participants, work, and the scopes it is asked in. -/
structure Job (σ ρ ε α : Type) where
  registry : Registry ρ
  parent : Option ActionId
  owners : List String
  work : Work σ ε α
  scopes : Scopes

/-- The job with work that writes something down of each call. -/
def Job.recording (write : ActionId → Chain → Except ε α → Chain → List ι) (job : Job σ ρ ε α) :
    Job (Recorded ι σ) ρ ε α :=
  ⟨job.registry, job.parent, job.owners, job.work.recording write, job.scopes⟩

namespace Orchestrator

variable [Journal σ] (env : Surroundings σ) (text : ε → String) (o : Orchestrator)
  (job : Job σ ρ ε α)

/-- The run for a job. -/
def runJob (s : σ) : Except (RunError ε) α × Orchestrator × Scopes × σ :=
  run env text job.registry o job.parent job.owners job.work job.scopes s

theorem runJob_eq (s : σ) :
    o.runJob env text job s =
      let (result, o, chain, s) :=
        runIn env text job.registry o job.parent job.owners job.work job.scopes.chain s
      (result, o, (job.scopes.onChain fun _ => ((), chain)).2, s) := by
  unfold runJob
  cases job.scopes <;> rfl

/-- An orchestrator that has run before does nothing. -/
theorem runJob_used (s : σ) (h : o.state ≠ .starting) :
    o.runJob env text job s = (.error .ended, o, job.scopes, s) := by
  unfold runJob
  cases job.scopes <;> simp [run, runIn, launch, h]

/-- What the run for a job does. -/
def acts (s : σ) : List (Act ε α) :=
  (o.runJob (env.recording fun act : Act ε α => [act]) text
    (job.recording fun id _ result _ => [.work id result]) ⟨[], s⟩).2.2.2.log

theorem acts_used (s : σ) (h : o.state ≠ .starting) : o.acts env text job s = [] := by
  rw [acts, runJob_used _ _ _ _ _ h]

theorem runIn_acts (registry : Registry ρ) (parent : Option ActionId) (owners : List String)
    (work : Work σ ε α) (chain : Chain) (s : σ) (h : o.state = .starting) :
    ∃ acts, Protocol registry o.config (parent.or chain.peek) owners acts
        (runIn env text registry o parent owners work chain s).1 ∧
      ∀ before,
        runIn (env.recording fun act : Act ε α => [act]) text registry o parent owners
            (work.recording fun id _ result _ => [.work id result]) chain ⟨before, s⟩ =
          mapState (Recorded.mk (before ++ acts))
            (runIn env text registry o parent owners work chain s) := by
  obtain ⟨acts, hl, hn⟩ := launch_recording (ε := ε) env registry o (fun act : Act ε α => [act])
    parent owners chain s h
  rcases hlaunch : launch (ε := ε) env registry o parent owners chain s with
    ⟨e | id, o', chain', s'⟩
  · rw [hlaunch] at hl
    refine ⟨acts, ?_, fun before => by simp [runIn, hn, hlaunch, mapState]⟩
    simp only [runIn, hlaunch]
    exact .stopped hl
  · rw [hlaunch] at hl
    rcases hw : work id chain' s' with ⟨result, chain'', s''⟩
    obtain ⟨ending, hr, hc⟩ := conclude_recording env text o' (fun act : Act ε α => [act]) id result
      chain'' s''
    refine ⟨acts ++ .work id result :: ending, ?_, fun before => ?_⟩
    · simp only [runIn, hlaunch, hw]
      exact .worked hl hr
    · simp [runIn, hn, hlaunch, mapState, Work.recording, hw, hc]

/-- The first run of an orchestrator keeps to the protocol. -/
theorem acts_starting (s : σ) (h : o.state = .starting) :
    Protocol job.registry o.config (job.parent.or job.scopes.peek) job.owners
      (o.acts env text job s) (o.runJob env text job s).1 := by
  obtain ⟨acts', hp, hn⟩ :=
    runIn_acts env text o job.registry job.parent job.owners job.work job.scopes.chain s h
  rw [acts, runJob_eq, runJob_eq]
  simp only [Job.recording, hn]
  exact hp

/-- Keeping a record changes nothing else. -/
theorem runJob_recording_acts (w : Recorded (Act ε α) σ) :
    o.runJob (env.recording fun act : Act ε α => [act]) text
        (job.recording fun id _ result _ => [.work id result]) w =
      mapState (Recorded.mk (w.log ++ o.acts env text job w.state))
        (o.runJob env text job w.state) := by
  by_cases h : o.state = .starting
  · obtain ⟨acts', -, hn⟩ :=
      runIn_acts env text o job.registry job.parent job.owners job.work job.scopes.chain w.state h
    simp only [acts, runJob_eq, Job.recording, hn]
    rfl
  · rw [acts_used _ _ _ _ _ h, runJob_used _ _ _ _ _ h, runJob_used _ _ _ _ _ h]
    simp [mapState, Job.recording]

end Orchestrator

end Saga
