import Saga.Context.Chain
import Saga.Coordinator
import Saga.Engine

/-!
# Ending an action

A coordinator that is wired to an engine ends an action by asking every enlisted participant, in
the order in which they joined, and folds the answers into one status (`Pass.run`, for whoever
serves the calls). The participants are asked outside every call chain. A callback that breaks
down breaks the pass off, and the action counts as failed. A coordinator without an engine only
keeps the status.
-/

set_option autoImplicit false

namespace Saga

/-- One round of asking the participants of an action. -/
structure Pass where
  ending : Ending
  id : ActionId
  parent : Option ActionId
  deriving DecidableEq, Repr

/-- One who serves ending calls, acting on a state `τ`. -/
abbrev Server (τ : Type) := Call → τ → Reply × τ

/-- `E` serves ending calls as an engine does, together with the state `σ`. -/
class EndingEngine (E : Type) (σ : outParam Type) where
  server : Server (E × σ)

/-- An engine serves calls, together with the state that its callbacks act on. -/
def Engine.server {σ : Type} [Journal σ] : Server (Engine σ × σ) := fun call x => x.1.serve call x.2

instance {σ : Type} [Journal σ] : EndingEngine (Engine σ) σ := ⟨Engine.server⟩

@[simp] theorem Engine.endingEngine_server {σ : Type} [Journal σ] :
    EndingEngine.server (E := Engine σ) = Engine.server := rfl

/-- Events go to the journal of the state beside an engine or a system. -/
instance {E σ : Type} [Journal σ] : Journal (E × σ) :=
  ⟨fun event x => (x.1, Journal.note event x.2)⟩

namespace Pass

variable {τ : Type} [Journal τ]

/-- The status after one more answer. -/
def tally (ending : Ending) (status : ActionStatus) (t : Termination) : ActionStatus :=
  if t.inProgress then (if status = ending.done then ending.transient else status)
  else if t.isFailure then ending.failed
  else status

/-- Asks one participant; gives the new status, or nothing if the callback broke down. -/
def ask (p : Pass) (serve : Server τ) (enlistment : Enlistment) (status : ActionStatus) (t : τ) :
    Option ActionStatus × τ :=
  match enlistment.links.get? p.ending.operation with
  | none => (some status, t)
  | some url =>
    match Links.ofUrl? url with
    | none => (some p.ending.failed, Journal.note (.linkUnresolved p.id url p.ending.operation) t)
    | some (owner, _) =>
      match serve ⟨owner, p.ending.operation, p.id, p.parent⟩ t with
      | (.brokeDown _, t) => (none, t)
      | (.answered a, t) =>
        (some (tally p.ending status a),
          Journal.note (.participantAnswered p.id owner p.ending.operation) t)
      | (.refused error, t) =>
        (some p.ending.failed,
          Journal.note (.participantNotEnded p.id owner error)
            (Journal.note (.participantAnswered p.id owner p.ending.operation) t))

/-- Asks the participants of a list, from a status on. -/
def askAll (p : Pass) (serve : Server τ) :
    List Enlistment → ActionStatus → τ → Option ActionStatus × τ
  | [], status, t => (some status, t)
  | enlistment :: enlisted, status, t =>
    match p.ask serve enlistment status t with
    | (none, t) => (none, t)
    | (some status, t) => askAll p serve enlisted status t

/-- Asks all participants and gives the status to record. -/
def run (p : Pass) (serve : Server τ) (enlisted : List Enlistment) (t : τ) : ActionStatus × τ :=
  match p.askAll serve enlisted p.ending.done t with
  | (some status, t) => (status, t)
  | (none, t) => (p.ending.failed, Journal.note (.endingBrokeDown p.id) t)

end Pass

/-- A coordinator with an engine beside it. -/
structure System (E : Type) where
  engine : E
  coordinator : Coordinator
  /-- Does the coordinator drive the engine? -/
  wired : Bool

namespace System

variable {E σ : Type} [EndingEngine E σ] [Journal σ] [Located σ]

/-- Runs a pass outside every call chain. -/
def runDetached (p : Pass) (e : E) (enlisted : List Enlistment) (s : σ) : ActionStatus × E × σ :=
  let scopes := Located.scopes s
  let (status, e, s) := p.run EndingEngine.server enlisted (e, Located.withScopes [] s)
  (status, e, Located.withScopes scopes s)

/-- Ends an action, at the time `now`. -/
def finish (sys : System E) (now : Nat) (ending : Ending) (id : ActionId) (s : σ) :
    Except RequestError ActionStatus × System E × σ :=
  match (sys.coordinator.count ending).beginEnding ending id with
  | (.error error, c) => (.error error, { sys with coordinator := c }, s)
  | (.ok plan, c) =>
    if sys.wired then
      let (status, e, s) := runDetached ⟨ending, id, plan.parent⟩ sys.engine plan.enlisted s
      (.ok status, { sys with engine := e, coordinator := c.record now id status }, s)
    else (.ok ending.done, { sys with coordinator := c.record now id ending.done }, s)

end System

end Saga
