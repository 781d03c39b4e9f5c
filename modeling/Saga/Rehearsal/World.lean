import Saga.Coordinator.Service
import Saga.Rehearsal.Step
import Saga.Rehearsal.Thread

/-!
# The world of a rehearsal

A world holds one registry, one engine, one coordinator, named orchestrators, one set of headers
and the scopes of whoever acts. What happens is written to its trace; between two steps deferred
answers arrive (`World.conclude`).
-/

set_option autoImplicit false

namespace Saga.Rehearsal

/-- Everything a rehearsal acts on. -/
structure World (V : Type) where
  stage : Stage (Result V)
  system : System (Engine (Stage (Result V)))
  headers : Headers
  orchestrators : Table String (Orchestrator × Watch)
  routes : Table Method Routing

namespace World

variable {V : Type}

instance : Journal (World V) := ⟨fun event w => { w with stage := Journal.note event w.stage }⟩

instance : Located (World V) :=
  ⟨fun w => w.stage.scopes, fun scopes w => { w with stage.scopes := scopes }⟩

def empty (base : String) (wired logging : Bool) : World V where
  stage := .empty logging
  system := ⟨.ofRegistry .empty, .ofBaseUrl base, wired⟩
  headers := .empty
  orchestrators := ∅
  routes := ∅

def write (w : World V) (entry : Entry (Result V)) : World V :=
  { w with stage := w.stage.write entry }

def scopes (w : World V) : Scopes := w.stage.scopes

def setScopes (w : World V) (scopes : Scopes) : World V := { w with stage.scopes := scopes }

/-- The deferred answers that are there arrive. -/
def settle (w : World V) : World V :=
  let (engine, stage) := w.system.engine.settle w.stage
  { w with stage := stage, system.engine := engine }

/-- The end of a step: deferred answers arrive, then its result is written. -/
def conclude (path : Path) (result : Result V) (w : World V) : World V :=
  w.settle.write (.result path result)

/-! ## Registry and engine -/

/-- Checks the roles and registers their participants. -/
def discover (roles : List Role) (w : World V) : Except ContractError Nat × World V :=
  let (batch, stage) := Role.declareAll roles w.stage
  let (result, registry, stage) := w.system.engine.registry.discover batch stage
  (result, { w with stage := stage, system.engine.registry := registry })

/-- Checks the roles, then registers each; gives what was replaced. -/
def register (roles : List Role) (w : World V) : Result V × World V :=
  let (batch, stage) := Role.declareAll roles w.stage
  match Saga.discover batch stage with
  | (.error e, stage) => (.contractError e, { w with stage := stage })
  | (.ok ds, stage) =>
    let (olds, registry, stage) := w.system.engine.registry.registerAll ds stage
    (.replaced (olds.map fun old => old.map Summary.ofDescriptor),
      { w with stage := stage, system.engine.registry := registry })

/-- One call to the engine. -/
def call (call : Call) (w : World V) : Reply × World V :=
  let (reply, engine, stage) := w.system.engine.serve call w.stage
  (reply, { w with stage := stage, system.engine := engine })

/-- The same call a number of times, outside every chain. -/
def calls (call : Call) : Nat → World V → List Reply × World V
  | 0, w => ([], w)
  | n + 1, w =>
    let scopes := w.scopes
    let (reply, w) := (w.setScopes []).call call
    let (replies, w) := (w.setScopes scopes).calls call n
    (reply :: replies, w)

/-- A reply in one word. -/
def replyWord : Reply → String
  | .answered (.status status) => s!"status:{status.name}"
  | .answered .accepted => "accepted"
  | .answered .done => "done"
  | .answered (.response r) => s!"response:{r.status}"
  | .refused e => s!"error:{e.kind}"
  | .brokeDown _ => "panic"

/-- Hands an answer in through a handle, which is dropped if there turns out to be none. -/
def resolve (ticket : Option Ticket) (value : Cue) (w : World V) : Result V × World V :=
  match w.stage.tickets.find? ticket with
  | none => (.word "used", w)
  | some n =>
    let (outcome, tickets) := value.play (w.stage.tickets.use n)
    let w := { w with stage.tickets := tickets }
    match outcome with
    | .brokeDown text =>
      (.brokeDown text, { w with system.engine := w.system.engine.fulfil n .abandoned })
    | .answered a =>
      (.flag (w.system.engine.awaits n), { w with system.engine := w.system.engine.fulfil n a })

/-- Drops a handle unused. -/
def abandon (ticket : Option Ticket) (w : World V) : Result V × World V :=
  match w.stage.tickets.find? ticket with
  | none => (.word "used", w)
  | some n =>
    (.word "dropped", { w with
      stage.tickets := w.stage.tickets.use n
      system.engine := w.system.engine.fulfil n .abandoned })

/-! ## Coordinator and orchestrators -/

/-- Lets `f` act on the system and the stage. -/
def onSystem {α : Type} (f : System (Engine (Stage (Result V))) × Stage (Result V) →
    α × System (Engine (Stage (Result V))) × Stage (Result V)) (w : World V) : α × World V :=
  let (a, system, stage) := f (w.system, w.stage)
  (a, { w with stage := stage, system := system })

def coordinator : Client (World V) where
  start clientId timeout parent := onSystem ((System.client 0).start clientId timeout parent)
  join id timeout header recovery data :=
    onSystem ((System.client 0).join id timeout header recovery data)
  close id := onSystem ((System.client 0).close id)
  cancel id := onSystem ((System.client 0).cancel id)

/-- Ends an action. -/
def finish (ending : Ending) (id : ActionId) (w : World V) :
    Except RequestError ActionStatus × World V :=
  match ending with
  | .close => coordinator.close id w
  | .cancel => coordinator.cancel id w

/-- What the client does with a request. -/
def route (w : World V) (method : Method) : Routing := (w.routes.get? method).getD .forward

/-- The client of the orchestrators: it writes each request to the trace. -/
def client : Client (World V) where
  start clientId timeout parent w :=
    let w := w.write (.asked (.start clientId timeout.millis parent))
    match w.route .start with
    | .fail e => (.error e, w)
    | .startAs id => (.ok id, w)
    | .forward => coordinator.start clientId timeout parent w
  join id timeout header recovery data w :=
    let w := w.write (.asked (.join id timeout.millis header recovery data))
    match w.route .join with
    | .fail e => (.error e, w)
    | .startAs _ | .forward => coordinator.join id timeout header recovery data w
  close id w :=
    let w := w.write (.asked (.close id))
    match w.route .close with
    | .fail e => (.error e, w)
    | .startAs _ | .forward => coordinator.close id w
  cancel id w :=
    let w := w.write (.asked (.cancel id))
    match w.route .cancel with
    | .fail e => (.error e, w)
    | .startAs _ | .forward => coordinator.cancel id w

/-- The observer for a kind of watch. -/
def observer : Watch → Observer (World V)
  | .recording => ⟨fun station w => w.write (.told station)⟩
  | .journal => .journal
  | .silent => .silent

/-- The end of an orchestrator's run: it goes back to its place. -/
def endRun (path : Path) (spec : RunSpec V) (watch : Watch) (outside : Bool)
    (result : Except (RunError String) V) (o : Orchestrator) (chain : Chain)
    (w : World V) : World V :=
  let w := w.setScopes (if outside then [] else chain :: w.scopes.tail)
  conclude path (.run o result)
    { w with orchestrators := w.orchestrators.insert spec.orchestrator (o, watch) }

/-- A run of an orchestrator, with the computation of its work. -/
def runOrchestrator (path : Path) (spec : RunSpec V) (work : World V → Thread (World V))
    (w : World V) : Thread (World V) :=
  let (o, watch) :=
    (w.orchestrators.get? spec.orchestrator).getD (.ofConfig spec.config, spec.watch)
  let w := { w with orchestrators := w.orchestrators.erase spec.orchestrator }
  let env : Surroundings (World V) := ⟨client, observer watch⟩
  let outside := !w.scopes.inChain
  let w := if outside then w.setScopes [none] else w
  match o.launch env w.system.engine.registry spec.parent spec.owners w.scopes.chain w with
  | (.error e, o, chain, w) => .done (endRun path spec watch outside (.error e) o chain w)
  | (.ok id, o, chain, w) =>
    let w := w.setScopes (chain :: w.scopes.tail)
    let w := w.write (.working path id w.scopes.active)
    (work w).andThen fun w =>
      let outcome : Except String V :=
        match spec.fail with
        | some text => .error text
        | none => .ok spec.value
      let (result, o, chain, w) := o.conclude env (fun text => text) id outcome w.scopes.chain w
      .done (endRun path spec watch outside result o chain w)

end World

end Saga.Rehearsal
