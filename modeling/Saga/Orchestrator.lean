import Saga.Config
import Saga.Context.Chain
import Saga.Coordinator
import Saga.Registry

/-!
# Orchestrated work

An orchestrator drives one unit of work through one action: it starts the action, enlists the
participants, runs the work, and closes the action, or cancels it if something failed. `launch`
puts together the stages before the work and `conclude` those after it; `run` puts the work
between them. The action is active on the caller's chain from its start to the end of the run.
-/

set_option autoImplicit false

namespace Saga

/-- The requests to a coordinator, each acting on a state `σ`. -/
structure Client (σ : Type) where
  start : String → Duration → Option ActionId → σ → Except RequestError ActionId × σ
  /-- The link header, the recovery URL and the data come last. -/
  join : ActionId → Duration → String → Option String → Option String → σ →
    Except RequestError String × σ
  close : ActionId → σ → Except RequestError ActionStatus × σ
  cancel : ActionId → σ → Except RequestError ActionStatus × σ

/-- One who is told the stations of a run. -/
structure Observer (σ : Type) where
  notify : Lifecycle → σ → σ

namespace Observer

variable {σ : Type}

/-- Is told and does nothing. -/
def silent : Observer σ := ⟨fun _ s => s⟩

/-- Records every station as an event. -/
def journal [Journal σ] : Observer σ := ⟨fun station s => Journal.note (.lifecycle station) s⟩

end Observer

/-- How far an orchestrator has come. -/
inductive RunPhase where
  | starting
  | enlisting
  | running
  | closing
  | cancelling
  | ended
  deriving DecidableEq, Repr

def RunPhase.name : RunPhase → String
  | starting => "Starting"
  | enlisting => "Enlisting"
  | running => "Running"
  | closing => "Closing"
  | cancelling => "Cancelling"
  | ended => "Ended"

/-- What an orchestrator works with. -/
structure Surroundings (σ : Type) where
  client : Client σ
  observer : Observer σ

/-- A unit of work: from the action that it runs in, the chain and the state to its result and what
becomes of both. -/
abbrev Work (σ ε α : Type) := ActionId → Chain → σ → Except ε α × Chain × σ

/-- The driver of one unit of work. -/
structure Orchestrator where
  config : Config
  state : RunPhase
  /-- The action, once it was started. -/
  action : Option ActionId
  deriving DecidableEq, Repr

namespace Orchestrator

variable {σ ρ ε α : Type}

/-- An orchestrator that has not run yet. -/
def ofConfig (config : Config) : Orchestrator := ⟨config, .starting, none⟩

instance : Inhabited Orchestrator := ⟨ofConfig .standard⟩

/-- Enlists the owners one after the other, up to the first that fails. -/
def enlist (env : Surroundings σ) (registry : Registry ρ) (config : Config) (id : ActionId) :
    List String → σ → Except (RunError ε) Unit × σ
  | [], s => (.ok (), s)
  | owner :: owners, s =>
    match registry.lookup owner with
    | .error e => (.error (.enlist owner (.unknownOwner e)), s)
    | .ok d =>
      let header := (Links.ofDescriptor d config.baseUrl).toHeader
      match env.client.join id config.timeout header config.recoveryUrl none s with
      | (.error e, s) => (.error (.enlist owner (.refused e)), s)
      | (.ok url, s) =>
        enlist env registry config id owners (env.observer.notify (.enlisted id owner url) s)

/-! ## The stages of a run

Each leaves the orchestrator in the state of the stage that comes next. -/

def start [Journal σ] (env : Surroundings σ) (o : Orchestrator) (parent : Option ActionId)
    (chain : Chain) (s : σ) : Except (RunError ε) ActionId × Orchestrator × Chain × σ :=
  let parent := parent.or chain.peek
  match env.client.start o.config.clientId o.config.timeout parent s with
  | (.error e, s) =>
    (.error (.start e), { o with state := .ended }, chain,
      Journal.note (.startRefused o.config.clientId e) s)
  | (.ok id, s) =>
    (.ok id, { o with action := some id, state := .enlisting }, chain.push id,
      env.observer.notify (.started id parent) s)

/-- Enlists the owners. -/
def enlistAll (env : Surroundings σ) (registry : Registry ρ) (o : Orchestrator) (id : ActionId)
    (owners : List String) (s : σ) : Except (RunError ε) Unit × Orchestrator × σ :=
  match enlist env registry o.config id owners s with
  | (.ok (), s) => (.ok (), { o with state := .running }, s)
  | (.error e, s) => (.error e, { o with state := .cancelling }, s)

/-- Looks at what came of the work. -/
def judge (env : Surroundings σ) (text : ε → String) (o : Orchestrator) (id : ActionId)
    (work : Except ε α) (s : σ) : Orchestrator × σ :=
  match work with
  | .ok _ => ({ o with state := .closing }, s)
  | .error e => ({ o with state := .cancelling }, env.observer.notify (.workFailed id (text e)) s)

/-- Ends the run: the action is active on the chain no more. -/
def finish (o : Orchestrator) (id : ActionId) (chain : Chain) : Orchestrator × Chain :=
  ({ o with state := .ended }, (chain.remove id).2)

/-- Closes the action. -/
def close (env : Surroundings σ) (o : Orchestrator) (id : ActionId) (value : α) (chain : Chain)
    (s : σ) : Except (RunError ε) α × Orchestrator × Chain × σ :=
  let (result, s) : Except (RunError ε) α × σ :=
    match env.client.close id s with
    | (.ok status, s) => (.ok value, env.observer.notify (.closed id status) s)
    | (.error e, s) => (.error (.close id e), env.observer.notify (.endFailed id e) s)
  let (o, chain) := o.finish id chain
  (result, o, chain, s)

/-- Cancels the action. -/
def cancel (env : Surroundings σ) (o : Orchestrator) (id : ActionId) (chain : Chain) (s : σ) :
    Orchestrator × Chain × σ :=
  let s :=
    match env.client.cancel id s with
    | (.ok status, s) => env.observer.notify (.cancelled id status) s
    | (.error e, s) => env.observer.notify (.endFailed id e) s
  let (o, chain) := o.finish id chain
  (o, chain, s)

/-! ## Runs -/

/-- Everything before the work: starts the action and enlists the owners. Gives the action for the
work to run in, or the error with which the run is over. -/
def launch [Journal σ] (env : Surroundings σ) (registry : Registry ρ) (o : Orchestrator)
    (parent : Option ActionId) (owners : List String) (chain : Chain) (s : σ) :
    Except (RunError ε) ActionId × Orchestrator × Chain × σ :=
  if o.state ≠ .starting then (.error .ended, o, chain, s)
  else
    match o.start env parent chain s with
    | (.error e, o, chain, s) => (.error e, o, chain, s)
    | (.ok id, o, chain, s) =>
      match o.enlistAll env registry id owners s with
      | (.ok (), o, s) => (.ok id, o, chain, s)
      | (.error e, o, s) =>
        let (o, chain, s) := o.cancel env id chain s
        (.error e, o, chain, s)

/-- Everything after the work: closes the action, or cancels it if the work failed. -/
def conclude (env : Surroundings σ) (text : ε → String) (o : Orchestrator) (id : ActionId)
    (work : Except ε α) (chain : Chain) (s : σ) :
    Except (RunError ε) α × Orchestrator × Chain × σ :=
  let (o, s) := o.judge env text id work s
  match work with
  | .ok value => o.close env id value chain s
  | .error e =>
    let (o, chain, s) := o.cancel env id chain s
    (.error (.work e), o, chain, s)

/-- A whole run in a chain. -/
def runIn [Journal σ] (env : Surroundings σ) (text : ε → String) (registry : Registry ρ)
    (o : Orchestrator) (parent : Option ActionId) (owners : List String)
    (work : Work σ ε α) (chain : Chain) (s : σ) :
    Except (RunError ε) α × Orchestrator × Chain × σ :=
  match launch env registry o parent owners chain s with
  | (.error e, o, chain, s) => (.error e, o, chain, s)
  | (.ok id, o, chain, s) =>
    let (result, chain, s) := work id chain s
    conclude env text o id result chain s

/-- A whole run, in the caller's chain, or in a chain of its own if the caller has none. -/
def run [Journal σ] (env : Surroundings σ) (text : ε → String) (registry : Registry ρ)
    (o : Orchestrator) (parent : Option ActionId) (owners : List String)
    (work : Work σ ε α) (scopes : Scopes) (s : σ) :
    Except (RunError ε) α × Orchestrator × Scopes × σ :=
  match scopes with
  | [] =>
    let (result, o, _, s) := runIn env text registry o parent owners work none s
    (result, o, [], s)
  | chain :: scopes =>
    let (result, o, chain, s) := runIn env text registry o parent owners work chain s
    (result, o, chain :: scopes, s)

end Orchestrator

end Saga
