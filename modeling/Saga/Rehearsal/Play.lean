import Saga.Rehearsal.World

/-!
# Playing a rehearsal

Steps are played one after the other (`World.play`); each leaves its result in the trace, after
those of the steps inside it. A step that is suspended holds up the chain around it, and what is
left of it goes on when that chain has its turn again.
-/

set_option autoImplicit false

namespace Saga.Rehearsal.World

variable {V : Type}

/-! ## Single steps -/

/-- A step without steps inside it, and without suspension. -/
def act (w : World V) : Step V → Result V × World V
  | .discover roles =>
    match w.discover roles with
    | (.ok n, w) => (.number n, w)
    | (.error e, w) => (.contractError e, w)
  | .register roles => w.register roles
  | .lookup owner =>
    match w.system.engine.registry.lookup owner with
    | .ok d => (.descriptor (.ofDescriptor d), w)
    | .error e => (.callError e, w)
  | .owners => (.owners w.system.engine.registry.owners, w)
  | .call call =>
    let (reply, w) := w.call call
    (.reply reply, w)
  | .parallel threads call =>
    let (replies, w) := w.calls call threads
    (.replies ((replies.map replyWord).mergeSort fun a b => decide (a ≤ b)), w)
  | .resolve ticket value => w.resolve ticket value
  | .abandon ticket => w.abandon ticket
  | .pending key =>
    (.pending (w.system.engine.stateOf? key) w.system.engine.pendingSize, w)
  | .stats => (.counters w.system.engine.desk.counters, w)
  | .start clientId parent =>
    match coordinator.start clientId .zero parent w with
    | (.ok id, w) => (.id (some id), w)
    | (.error e, w) => (.requestError e, w)
  | .join id header recovery data =>
    match coordinator.join id .zero header recovery data w with
    | (.ok url, w) => (.word url, w)
    | (.error e, w) => (.requestError e, w)
  | .finish ending id =>
    match w.finish ending id with
    | (.ok status, w) => (.status status, w)
    | (.error e, w) => (.requestError e, w)
  | .get id => (.action (w.system.coordinator.get? id), w)
  | .enlisted id => (.enlisted (w.system.coordinator.enlisted id), w)
  | .counts =>
    let c := w.system.coordinator
    (.counts c.starts c.joins c.closes c.cancels, w)
  | .failStart on => (.nothing, { w with system.coordinator.failStart := on })
  | .failJoin on => (.nothing, { w with system.coordinator.failJoin := on })
  | .orchestrator name => (.orchestrator ((w.orchestrators.get? name).map Prod.fst), w)
  | .inject method routing => (.nothing, { w with routes := w.routes.insert method routing })
  | .inChain => (.flag w.scopes.inChain, w)
  | .push id =>
    match w.scopes.push id with
    | (.ok (), scopes) => (.ids scopes.active, w.setScopes scopes)
    | (.error e, scopes) => (.scopeError e, w.setScopes scopes)
  | .pop =>
    match w.scopes.pop with
    | (.ok id, scopes) => (.popped id, w.setScopes scopes)
    | (.error e, scopes) => (.scopeError e, w.setScopes scopes)
  | .remove id =>
    let (removed, scopes) := w.scopes.remove id
    (.flag removed, w.setScopes scopes)
  | .reset => (.nothing, w.setScopes w.scopes.reset)
  | .peek => (.id w.scopes.peek, w)
  | .active => (.ids w.scopes.active, w)
  | .store key value =>
    let (stored, scopes) := w.scopes.store key value
    (.flag stored, w.setScopes scopes)
  | .load key kind => (.scratch (w.scopes.load kind key), w)
  | .exchange key value =>
    match w.scopes.load value.kind key with
    | none => (.nothing, w)
    | some old =>
      let (stored, scopes) := w.scopes.store key value
      (.swapped old stored scopes.peek, w.setScopes scopes)
  | .headers headers => (.headers headers, { w with headers := headers })
  | .receive =>
    let (result, scopes, w) := w.scopes.receive w.headers w
    (.inbound result scopes.active, w.setScopes scopes)
  | .stamp =>
    let (result, headers) := w.scopes.stamp w.headers
    (.outbound result headers, { w with headers := headers })
  | .clear =>
    let (headers, scopes) := w.scopes.clear w.headers
    (.headers headers, { w.setScopes scopes with headers := headers })
  | .run .. | .scope .. | .chains .. | .suspend | .unknown => (.nothing, w)

/-! ## Steps inside steps -/

mutual
/-- The number of suspensions in a step. -/
def suspensions : Step V → Nat
  | .run _ work => suspensionsAll work
  | .scope _ steps => suspensionsAll steps
  | .suspend => 1
  | _ => 0
/-- The number of suspensions in a list of steps. -/
def suspensionsAll : List (Step V) → Nat
  | [] => 0
  | step :: steps => suspensions step + suspensionsAll steps
end

mutual
/-- Plays a step at its place. -/
def playStep (path : Path) : Step V → World V → Thread (World V)
  | .run spec work, w => runOrchestrator path spec (playAll path 0 work) w
  | .scope kind steps, w =>
    match kind, w.scopes.inChain with
    | .ensured, true => (playAll path 0 steps w).andThen fun w => .done (conclude path .nothing w)
    | .blocking, _ =>
      let w := (playAll path 0 steps (w.setScopes w.scopes.enter)).finish
      .done (conclude path .nothing (w.setScopes w.scopes.leave))
    | _, _ =>
      (playAll path 0 steps (w.setScopes w.scopes.enter)).andThen fun w =>
        .done (conclude path .nothing (w.setScopes w.scopes.leave))
  | .chains chains schedule, w =>
    let turns := (chains.map suspensionsAll).foldl (· + ·) 1
    .done (conclude path .nothing (Lane.run turns schedule (playChains path 0 chains) w))
  | .suspend, w => (Thread.suspend w).andThen fun w => .done (conclude path .nothing w)
  | step, w =>
    let (result, w) := w.act step
    .done (conclude path result w)
/-- Plays steps one after the other; the first has the number `i` among those around it. -/
def playAll (path : Path) (i : Nat) : List (Step V) → World V → Thread (World V)
  | [], w => .done w
  | step :: steps, w => (playStep (i :: path) step w).andThen (playAll path (i + 1) steps)
/-- The starts of chains; the first has the number `i`. -/
def playChains (path : Path) (i : Nat) : List (List (Step V)) → List (World V → Thread (World V))
  | [] => []
  | steps :: chains => playAll (i :: path) 0 steps :: playChains path (i + 1) chains
end

/-- A rehearsal from the start: participants are discovered first, if there are any. -/
def play (base : String) (wired logging : Bool) (roles : Option (List Role))
    (steps : List (Step V)) : List (Entry (Result V)) :=
  let w : World V := .empty base wired logging
  let w :=
    match roles with
    | none => w
    | some roles =>
      let (result, w) := w.discover roles
      w.write (.discovered result)
  (playAll [] 0 steps w).finish.stage.trace.reverse

end Saga.Rehearsal.World
