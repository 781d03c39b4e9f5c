import Saga.Coordinator.Service
import Saga.Proofs.Coordinator.Asking
import Saga.Proofs.Orchestrator.Acts

/-!
# What a run asks of the engine

An engine with a record beside it serves calls as before and writes them down, with the replies. Put
in the place of the engine of a system (`System.noting`), it tells which calls a request to end an
action makes (`System.asks`) and which ones a whole run makes (`Orchestrator.engineCalls`), as the
coordinator itself makes them. Keeping the record changes nothing else (`System.finish_noting`,
`Orchestrator.runJob_noting`). The calls of a run are those of its one request to end the action
(`Orchestrator.AsksOf`).
-/

set_option autoImplicit false

namespace Saga

variable {E σ ρ ε α : Type}

/-- An engine that writes down every call that it serves. -/
instance [EndingEngine E σ] : EndingEngine (Asked E) σ where
  server call x :=
    let (reply, e, s) := EndingEngine.server call (x.1.state, x.2)
    (reply, ⟨x.1.log ++ [(call, reply)], e⟩, s)

/-! ## Requests to end an action -/

namespace System

/-- The system with the record `log` at its engine. -/
def noting (log : List (Call × Reply)) (sys : System E) : System (Asked E) :=
  ⟨⟨log, sys.engine⟩, sys.coordinator, sys.wired⟩

/-- The system without the record of its engine. -/
def bare (sys : System (Asked E)) : System E :=
  ⟨sys.engine.state, sys.coordinator, sys.wired⟩

variable [EndingEngine E σ] [Journal σ]

/-- An engine with a record writes down what a server with a record does. -/
theorem run_noting (p : Pass) (enlisted : List Enlistment) (log : List (Call × Reply)) (e : E)
    (s : σ) :
    p.run EndingEngine.server enlisted ((⟨log, e⟩ : Asked E), s) =
      let (status, w) := p.run (EndingEngine.server (E := E)).noted enlisted ⟨log, e, s⟩
      (status, ⟨w.log, w.state.1⟩, w.state.2) :=
  p.run_map (EndingEngine.server (E := E)).noted enlisted ⟨log, e, s⟩
    (fun w => ((⟨w.log, w.state.1⟩ : Asked E), w.state.2)) (fun _ _ => rfl) (fun _ _ => rfl)

variable [Located σ] (sys : System E) (now : Nat) (ending : Ending) (id : ActionId) (s : σ)

/-- The calls that a request to end an action makes of the engine, with the replies. -/
def asks : List (Call × Reply) := ((sys.noting []).finish now ending id s).2.1.engine.log

/-- A request that gets the action to end asks what the pass over its participants asks. -/
theorem asks_of_beginEnding (hw : sys.wired = true) {plan : Coordinator.EndingPlan}
    {c : Coordinator} (h : (sys.coordinator.count ending).beginEnding ending id = (.ok plan, c)) :
    sys.asks now ending id s =
      (Pass.run ⟨ending, id, plan.parent⟩ (EndingEngine.server (E := E)).noted plan.enlisted
        ⟨[], sys.engine, Located.withScopes [] s⟩).2.log := by
  simp [asks, noting, finish, runDetached, h, hw, run_noting]

/-- Keeping the record changes nothing else. -/
theorem finish_noting (log : List (Call × Reply)) :
    (sys.noting log).finish now ending id s =
      let (result, sys', s') := sys.finish now ending id s
      (result, sys'.noting (log ++ sys.asks now ending id s), s') := by
  rcases h : (sys.coordinator.count ending).beginEnding ending id with ⟨e | plan, c⟩
  · simp [asks, noting, finish, h]
  · cases hw : sys.wired with
    | false => simp [asks, noting, finish, h, hw]
    | true =>
      obtain ⟨asked, -, hn⟩ := Pass.run_noted ⟨ending, id, plan.parent⟩ EndingEngine.server
        plan.enlisted (sys.engine, Located.withScopes [] s)
      simp [asks, noting, finish, runDetached, h, hw, run_noting, hn]

end System

/-- Puts the record `log` at the engine of the system beside the rest of the state. -/
def withRecord (log : List (Call × Reply)) (x : System E × σ) : System (Asked E) × σ :=
  (x.1.noting log, x.2)

/-! ## Runs in one process -/

/-- An observer that does not see the record of the engine. -/
def Observer.noting (observer : Observer (System E × σ)) : Observer (System (Asked E) × σ) where
  notify station x := withRecord x.1.engine.log (observer.notify station (x.1.bare, x.2))

/-- A piece of work that does not see the record of the engine. -/
def Work.noting (work : Work (System E × σ) ε α) : Work (System (Asked E) × σ) ε α :=
  fun id chain x =>
    let (result, chain, y) := work id chain (x.1.bare, x.2)
    (result, chain, withRecord x.1.engine.log y)

/-- The job with work that does not see the record of the engine. -/
def Job.noting (job : Job (System E × σ) ρ ε α) : Job (System (Asked E) × σ) ρ ε α :=
  ⟨job.registry, job.parent, job.owners, job.work.noting, job.scopes⟩

/-- The ending that follows on a result of work. -/
def Ending.ofResult : Except ε α → Ending
  | .ok _ => .close
  | .error _ => .cancel

namespace System

variable [EndingEngine E σ] [Journal σ] [Located σ] (now : Nat) (log : List (Call × Reply))
  (x : System E × σ)

@[simp] theorem client_start_withRecord (clientId : String) (timeout : Duration)
    (parent : Option ActionId) :
    (client now).start clientId timeout parent (withRecord log x) =
      let (answer, y) := (client now).start clientId timeout parent x
      (answer, withRecord log y) := rfl

@[simp] theorem client_join_withRecord (id : ActionId) (timeout : Duration) (header : String)
    (recovery data : Option String) :
    (client now).join id timeout header recovery data (withRecord log x) =
      let (answer, y) := (client now).join id timeout header recovery data x
      (answer, withRecord log y) := rfl

@[simp] theorem client_close_withRecord (id : ActionId) :
    (client now).close id (withRecord log x) =
      let (answer, y) := (client now).close id x
      (answer, withRecord (log ++ x.1.asks now .close id x.2) y) :=
  finish_noting x.1 now .close id x.2 log

@[simp] theorem client_cancel_withRecord (id : ActionId) :
    (client now).cancel id (withRecord log x) =
      let (answer, y) := (client now).cancel id x
      (answer, withRecord (log ++ x.1.asks now .cancel id x.2) y) :=
  finish_noting x.1 now .cancel id x.2 log

end System

@[simp] theorem Observer.noting_withRecord (observer : Observer (System E × σ))
    (station : Lifecycle) (log : List (Call × Reply)) (x : System E × σ) :
    observer.noting.notify station (withRecord log x) =
      withRecord log (observer.notify station x) := rfl

@[simp] theorem Work.noting_withRecord (work : Work (System E × σ) ε α) (id : ActionId)
    (chain : Chain) (log : List (Call × Reply)) (x : System E × σ) :
    work.noting id chain (withRecord log x) =
      let (result, chain, y) := work id chain x
      (result, chain, withRecord log y) := rfl

@[simp] theorem System.note_withRecord [Journal σ] (event : Event) (log : List (Call × Reply))
    (x : System E × σ) :
    Journal.note event (withRecord log x) = withRecord log (Journal.note event x) := rfl

namespace Orchestrator

variable [EndingEngine E σ] [Journal σ] [Located σ] (now : Nat)
  (observer : Observer (System E × σ)) (text : ε → String) (registry : Registry ρ)
  (o : Orchestrator)

/-- The surroundings of a run in one process. -/
abbrev inProcess : Surroundings (System E × σ) := ⟨System.client now, observer⟩

theorem enlist_noting (config : Config) (id : ActionId) (owners : List String)
    (log : List (Call × Reply)) (x : System E × σ) :
    enlist (ε := ε) (inProcess now observer.noting) registry config id owners (withRecord log x) =
      let (result, y) := enlist (inProcess now observer) registry config id owners x
      (result, withRecord log y) := by
  induction owners generalizing x with
  | nil => rfl
  | cons owner owners ih =>
    cases hl : registry.lookup owner with
    | error e => simp [enlist, hl]
    | ok d =>
      rcases hj : (System.client now).join id config.timeout
        (Links.ofDescriptor d config.baseUrl).toHeader config.recoveryUrl none x with ⟨e | url, y⟩
      · simp [enlist, hl, hj]
      · simp [enlist, hl, hj, ih]

/-- What follows on the work is one request to end the action. -/
theorem conclude_noting (id : ActionId) (result : Except ε α) (chain : Chain)
    (x : System E × σ) :
    ∃ y, (y = x ∨ ∃ e, result = .error e ∧ y = observer.notify (.workFailed id (text e)) x) ∧
      ∀ log, conclude (inProcess now observer.noting) text o id result chain (withRecord log x) =
        mapState (withRecord (log ++ y.1.asks now (.ofResult result) id y.2))
          (conclude (inProcess now observer) text o id result chain x) := by
  cases result with
  | ok value =>
    refine ⟨x, .inl rfl, fun log => ?_⟩
    rcases hc : (System.client now).close id x with ⟨e | status, z⟩ <;>
      simp [conclude, judge, close, hc, mapState, Ending.ofResult]
  | error e =>
    refine ⟨observer.notify (.workFailed id (text e)) x, .inr ⟨e, rfl, rfl⟩, fun log => ?_⟩
    rcases hc : (System.client now).cancel id (observer.notify (.workFailed id (text e)) x)
      with ⟨e | status, z⟩ <;>
      simp [conclude, judge, cancel, hc, mapState, Ending.ofResult]

variable (parent : Option ActionId) (owners : List String) (chain : Chain)

/-- A launch that gets to the work makes no calls; one that fails to enlist somebody makes those of
the request to cancel. -/
theorem launch_noting (x : System E × σ) :
    ∃ calls,
      (∀ log, launch (ε := ε) (inProcess now observer.noting) registry o parent owners chain
          (withRecord log x) =
        mapState (withRecord (log ++ calls))
          (launch (inProcess now observer) registry o parent owners chain x)) ∧
      (∀ id,
        (launch (ε := ε) (inProcess now observer) registry o parent owners chain x).1 = .ok id →
          calls = []) ∧
      ∀ id y z e, o.state = .starting →
        (System.client now).start o.config.clientId o.config.timeout (parent.or chain.peek) x =
          (.ok id, y) →
        enlist (ε := ε) (inProcess now observer) registry o.config id owners
          (observer.notify (.started id (parent.or chain.peek)) y) = (.error e, z) →
        calls = z.1.asks now .cancel id z.2 := by
  by_cases h : o.state = .starting
  · rcases hs : (System.client now).start o.config.clientId o.config.timeout
      (parent.or chain.peek) x with ⟨e | id, y⟩
    · refine ⟨[], fun log => ?_, fun id hid => rfl, fun id y z e' _ hs' => by cases hs'⟩
      simp [launch, start, h, hs, mapState]
    · have hn := fun log => enlist_noting (ε := ε) now observer registry o.config id owners log
        (observer.notify (.started id (parent.or chain.peek)) y)
      rcases he : enlist (ε := ε) (inProcess now observer) registry o.config id owners
        (observer.notify (.started id (parent.or chain.peek)) y) with ⟨e | _, z⟩ <;>
        simp only [he] at hn
      · refine ⟨z.1.asks now .cancel id z.2, fun log => ?_, fun id' hid => ?_,
          fun id' y' z' e' _ hs' he' => ?_⟩
        · rcases hc : (System.client now).cancel id z with ⟨answer, u⟩
          cases answer <;> simp [launch, start, enlistAll, cancel, h, hs, hn, he, hc, mapState]
        · simp [launch, start, enlistAll, h, hs, he] at hid
        · cases hs'
          rw [he] at he'
          cases he'
          rfl
      · refine ⟨[], fun log => ?_, fun id' hid => rfl, fun id' y' z' e' _ hs' he' => ?_⟩
        · simp [launch, start, enlistAll, h, hs, hn, he, mapState]
        · cases hs'
          rw [he] at he'
          cases he'
  · refine ⟨[], fun log => ?_, fun id hid => rfl, fun id y z e hst => absurd hst h⟩
    simp [launch, h, mapState]

variable (work : Work (System E × σ) ε α)

/-- The calls are those that the one ending of a run asks: after the work, in the state that the
work leaves or, if it failed, that the observer makes of this, and after an enlistment that failed,
in the state it leaves. -/
structure AsksOf (x : System E × σ) (calls : List (Call × Reply)) : Prop where
  worked : ∀ id o' chain' y, launch (ε := ε) (inProcess now observer) registry o parent owners chain
      x = (.ok id, o', chain', y) →
    ∃ z, (z = (work id chain' y).2.2 ∨ ∃ e, (work id chain' y).1 = .error e ∧
        z = observer.notify (.workFailed id (text e)) (work id chain' y).2.2) ∧
      calls = z.1.asks now (.ofResult (work id chain' y).1) id z.2
  notEnlisted : ∀ id y z e, o.state = .starting →
    (System.client now).start o.config.clientId o.config.timeout (parent.or chain.peek) x =
      (.ok id, y) →
    enlist (ε := ε) (inProcess now observer) registry o.config id owners
      (observer.notify (.started id (parent.or chain.peek)) y) = (.error e, z) →
    calls = z.1.asks now .cancel id z.2

/-- Keeping the record changes nothing, and what is on it is what the one ending of the run asks. -/
theorem runIn_noting (x : System E × σ) :
    ∃ calls, AsksOf now observer text registry o parent owners chain work x calls ∧
      ∀ log, runIn (inProcess now observer.noting) text registry o parent owners work.noting chain
          (withRecord log x) =
        mapState (withRecord (log ++ calls))
          (runIn (inProcess now observer) text registry o parent owners work chain x) := by
  obtain ⟨calls, hl, hok, hfail⟩ :=
    launch_noting (ε := ε) now observer registry o parent owners chain x
  rcases hx : launch (ε := ε) (inProcess now observer) registry o parent owners chain x
    with ⟨e | id, o', chain', y⟩ <;> simp only [hx] at hl
  · refine ⟨calls, ⟨fun id o' chain' y h => ?_, hfail⟩, fun log => ?_⟩
    · rw [hx] at h
      cases h
    · simp [runIn, hl, hx, mapState]
  · obtain rfl : calls = [] := hok id (by rw [hx])
    rcases hw : work id chain' y with ⟨result, chain'', y'⟩
    obtain ⟨z, hz, hc⟩ := conclude_noting now observer text o' id result chain'' y'
    refine ⟨z.1.asks now (.ofResult result) id z.2, ⟨fun id' o₁ chain₁ y₁ h => ?_,
      fun id' y₁ z₁ e hst hs he => ?_⟩, fun log => ?_⟩
    · rw [hx] at h
      cases h
      rw [hw]
      exact ⟨z, hz, rfl⟩
    · have hlaunch : (launch (ε := ε) (inProcess now observer) registry o parent owners chain
          x).1 = .error e := by
        simp [launch, start, enlistAll, hst, hs, he]
      rw [hx] at hlaunch
      cases hlaunch
    · simp [runIn, hl, hx, mapState, hw, hc]

variable (job : Job (System E × σ) ρ ε α)

/-- The calls that the run for a job makes of the engine, with the replies. -/
def engineCalls (x : System E × σ) : List (Call × Reply) :=
  (o.runJob (inProcess now observer.noting) text job.noting
    (withRecord [] x)).2.2.2.1.engine.log

theorem engineCalls_spec (x : System E × σ) :
    AsksOf now observer text job.registry o job.parent job.owners job.scopes.chain job.work x
      (o.engineCalls now observer text job x) := by
  obtain ⟨calls, hcalls, hr⟩ := runIn_noting now observer text job.registry o job.parent
    job.owners job.scopes.chain job.work x
  have he : o.engineCalls now observer text job x = calls := by
    simp only [engineCalls, runJob_eq, Job.noting, hr]
    rfl
  rwa [he]

/-- Keeping the record changes nothing else. -/
theorem runJob_noting (x : System E × σ) :
    o.runJob (inProcess now observer.noting) text job.noting (withRecord [] x) =
      mapState (withRecord (o.engineCalls now observer text job x))
        (o.runJob (inProcess now observer) text job x) := by
  obtain ⟨calls, -, hr⟩ := runIn_noting now observer text job.registry o job.parent
    job.owners job.scopes.chain job.work x
  simp only [engineCalls, runJob_eq, Job.noting, hr]
  rfl

end Orchestrator

end Saga
