import Saga.Coordinator.Ending
import Saga.Proofs.Record

/-!
# Who is asked when an action ends

`Pass.calls` are the calls that a pass is there to make: one for each participant whose link for
the operation names an owner, in the order in which they joined. The calls that it does make are
read off the record of a server that writes down what it is asked (`Server.noted`). They are the
first of those, up to a callback that breaks down (`Pass.run_noted`), and so they are all of them
unless a callback breaks down before the last (`Asks.all_iff`). `System.finish_asks` says this of
the requests that end an action.
-/

set_option autoImplicit false

namespace Saga

/-- Did the callback break down? -/
def Reply.broke : Reply → Bool
  | .brokeDown _ => true
  | .answered _ | .refused _ => false

/-- `asked` are the first of `calls` with the replies to them, up to the first that broke down. -/
inductive Asks : List Call → List (Call × Reply) → Prop
  | nil : Asks [] []
  | brokeDown (call : Call) (calls : List Call) {reply : Reply} :
    reply.broke = true → Asks (call :: calls) [(call, reply)]
  | cons (call : Call) {calls : List Call} {reply : Reply} {asked : List (Call × Reply)} :
    reply.broke = false → Asks calls asked → Asks (call :: calls) ((call, reply) :: asked)

namespace Asks

variable {calls : List Call} {asked : List (Call × Reply)}

theorem fst_prefix (h : Asks calls asked) : asked.map Prod.fst <+: calls := by
  induction h with
  | nil => exact List.prefix_rfl
  | brokeDown call calls _ => exact ⟨calls, rfl⟩
  | cons call _ _ ih => exact (List.prefix_cons_inj call).2 ih

/-- All are asked, unless one breaks down before the last. -/
theorem all_iff (h : Asks calls asked) :
    asked.map Prod.fst = calls ↔
      ∀ i reply, i + 1 < calls.length → (asked.map Prod.snd)[i]? = some reply →
        reply.broke = false := by
  induction h with
  | nil => simp
  | @brokeDown call calls reply hb =>
    cases calls with
    | nil => simp
    | cons next calls =>
      refine ⟨by simp, fun h => ?_⟩
      have := h 0 reply (by simp) rfl
      rw [hb] at this
      cases this
  | @cons call calls reply asked hb _ ih =>
    rw [List.map_cons, List.map_cons, List.cons.injEq, ih]
    refine ⟨fun ⟨_, h⟩ i r hi hr => ?_, fun h => ⟨rfl, fun i r hi hr => ?_⟩⟩
    · cases i with
      | zero => simpa using Option.some.inj hr ▸ hb
      | succ i => exact h i r (by simpa using hi) (by simpa using hr)
    · exact h (i + 1) r (by simpa using hi) (by simpa using hr)

end Asks

/-! ## The record -/

/-- A state with a record of the calls that were served. -/
abbrev Asked (τ : Type) := Recorded (Call × Reply) τ

variable {τ : Type}

/-- The server, made to write down what it is asked. -/
def Server.noted (serve : Server τ) : Server (Asked τ) := fun call =>
  Recorded.act (serve call) fun reply => [(call, reply)]

namespace Pass

variable [Journal τ] (p : Pass) (serve : Server τ)

/-- The call of a participant, if its link for the operation names an owner. -/
def call? (enlistment : Enlistment) : Option Call :=
  ((enlistment.links.get? p.ending.operation).bind Links.ofUrl?).map fun x =>
    ⟨x.1, p.ending.operation, p.id, p.parent⟩

/-- The calls that the pass is there to make. -/
def calls (enlisted : List Enlistment) : List Call := enlisted.filterMap p.call?

variable (enlistment : Enlistment) (enlisted : List Enlistment) (status : ActionStatus) (t : τ)

theorem ask_unresolved (h : p.call? enlistment = none) :
    ∃ st, (p.ask serve enlistment status t).1 = some st ∧
      ∀ before, p.ask serve.noted enlistment status ⟨before, t⟩ =
        ((p.ask serve enlistment status t).1, ⟨before, (p.ask serve enlistment status t).2⟩) := by
  unfold call? at h
  unfold ask
  cases hl : enlistment.links.get? p.ending.operation with
  | none => exact ⟨status, rfl, fun _ => rfl⟩
  | some url =>
    cases hu : Links.ofUrl? url with
    | none => simp [hu]
    | some x => simp [hl, hu] at h

theorem ask_resolved {call : Call} (h : p.call? enlistment = some call) :
    ((p.ask serve enlistment status t).1.isNone = (serve call t).1.broke) ∧
      ∀ before, p.ask serve.noted enlistment status ⟨before, t⟩ =
        ((p.ask serve enlistment status t).1,
          ⟨before ++ [(call, (serve call t).1)], (p.ask serve enlistment status t).2⟩) := by
  unfold call? at h
  unfold ask
  cases hl : enlistment.links.get? p.ending.operation with
  | none => simp [hl] at h
  | some url =>
    cases hu : Links.ofUrl? url with
    | none => simp [hl, hu] at h
    | some x =>
      obtain rfl : _ = call := by simpa [hl, hu] using h
      rcases hs : serve ⟨x.1, p.ending.operation, p.id, p.parent⟩ t with ⟨_ | _ | _, t'⟩ <;>
        simp [Reply.broke, Server.noted, hu, hs]

theorem askAll_noted :
    ∃ asked, Asks (p.calls enlisted) asked ∧
      ∀ before, p.askAll serve.noted enlisted status ⟨before, t⟩ =
        ((p.askAll serve enlisted status t).1,
          ⟨before ++ asked, (p.askAll serve enlisted status t).2⟩) := by
  induction enlisted generalizing status t with
  | nil => exact ⟨[], .nil, fun before => by simp [askAll]⟩
  | cons enlistment enlisted ih =>
    cases hc : p.call? enlistment with
    | none =>
      obtain ⟨st, hst, hn⟩ := p.ask_unresolved serve enlistment status t hc
      rcases ha : p.ask serve enlistment status t with ⟨_ | st', t'⟩
      · simp [ha] at hst
      · obtain ⟨asked, h, hask⟩ := ih st' t'
        refine ⟨asked, by simpa [calls, hc] using h, fun before => ?_⟩
        simp [askAll, hn, ha, hask]
    | some call =>
      obtain ⟨hb, hn⟩ := p.ask_resolved serve enlistment status t hc
      rcases ha : p.ask serve enlistment status t with ⟨_ | st', t'⟩
      · refine ⟨[(call, (serve call t).1)], ?_, fun before => by simp [askAll, hn, ha]⟩
        rw [calls, List.filterMap_cons_some hc]
        exact .brokeDown call _ (by rw [← hb, ha]; rfl)
      · obtain ⟨asked, h, hask⟩ := ih st' t'
        refine ⟨(call, (serve call t).1) :: asked, ?_, fun before => by
          simp [askAll, hn, ha, hask]⟩
        rw [calls, List.filterMap_cons_some hc]
        exact .cons call (by rw [← hb, ha]; rfl) h

/-- A pass asks the first of those it is there to ask, up to one that breaks down, and keeping the
record changes nothing. -/
theorem run_noted :
    ∃ asked, Asks (p.calls enlisted) asked ∧
      ∀ before, p.run serve.noted enlisted ⟨before, t⟩ =
        ((p.run serve enlisted t).1, ⟨before ++ asked, (p.run serve enlisted t).2⟩) := by
  obtain ⟨asked, h, hn⟩ := p.askAll_noted serve enlisted p.ending.done t
  refine ⟨asked, h, fun before => ?_⟩
  rcases ha : p.askAll serve enlisted p.ending.done t with ⟨_ | st, t'⟩ <;> simp [run, hn, ha]

/-! ## Two ways to hold a state -/

section
variable {υ : Type} [Journal υ] {serve' : Server υ} (f : τ → υ)
  (hs : ∀ call t, serve' call (f t) = ((serve call t).1, f (serve call t).2))
  (hn : ∀ event t, Journal.note event (f t) = f (Journal.note event t))
include hs hn

theorem ask_map : p.ask serve' enlistment status (f t) =
    ((p.ask serve enlistment status t).1, f (p.ask serve enlistment status t).2) := by
  unfold ask
  cases enlistment.links.get? p.ending.operation with
  | none => rfl
  | some url =>
    cases hu : Links.ofUrl? url with
    | none => simp [hu, hn]
    | some x =>
      rcases hr : serve ⟨x.1, p.ending.operation, p.id, p.parent⟩ t with ⟨_ | _ | _, t'⟩ <;>
        simp [hu, hs, hr, hn]

theorem askAll_map : p.askAll serve' enlisted status (f t) =
    ((p.askAll serve enlisted status t).1, f (p.askAll serve enlisted status t).2) := by
  induction enlisted generalizing status t with
  | nil => rfl
  | cons enlistment enlisted ih =>
    rcases ha : p.ask serve enlistment status t with ⟨_ | st, t'⟩ <;>
      simp [askAll, ask_map _ _ _ _ _ f hs hn, ha, ih]

/-- A pass does not see how its server holds its state. -/
theorem run_map : p.run serve' enlisted (f t) =
    ((p.run serve enlisted t).1, f (p.run serve enlisted t).2) := by
  rcases ha : p.askAll serve enlisted p.ending.done t with ⟨_ | st, t'⟩ <;>
    simp [run, askAll_map _ _ _ _ _ f hs hn, ha, hn]

end

end Pass

/-! ## The requests that end an action -/

namespace System

variable {σ : Type} [Journal σ] [Located σ] {sys : System (Engine σ)} {ending : Ending}
  {id : ActionId}
  {plan : Coordinator.EndingPlan} {c : Coordinator}

/-- **Who is asked when an action ends.** A request that gets the action to end makes the calls of
its participants in the order in which they joined, up to the first whose callback breaks down.
Nothing else keeps it from making them all. -/
theorem finish_asks (now : Nat) (s : σ) (hw : sys.wired = true)
    (h : (sys.coordinator.count ending).beginEnding ending id = (.ok plan, c)) :
    let p : Pass := ⟨ending, id, plan.parent⟩
    ∃ asked status e s',
      p.run Engine.server.noted plan.enlisted ⟨[], sys.engine, Located.withScopes [] s⟩ =
        (status, ⟨asked, e, s'⟩) ∧
      sys.finish now ending id s =
        (.ok status, { sys with engine := e, coordinator := c.record now id status },
          Located.withScopes (Located.scopes s) s') ∧
      asked.map Prod.fst <+: p.calls plan.enlisted ∧
      (asked.map Prod.fst = p.calls plan.enlisted ↔
        ∀ i reply, i + 1 < (p.calls plan.enlisted).length →
          (asked.map Prod.snd)[i]? = some reply → reply.broke = false) := by
  intro p
  obtain ⟨asked, ha, hn⟩ :=
    p.run_noted Engine.server plan.enlisted (sys.engine, Located.withScopes [] s)
  refine ⟨asked, _, _, _, hn [], ?_, ha.fst_prefix, ha.all_iff⟩
  simp only [finish, h, hw, if_true]
  rfl

end System

/-! ## One who breaks down before another is asked -/

/-- A state that is nothing but a journal and scopes. -/
structure Scene where
  events : List Event
  scopes : Scopes

instance : Journal Scene := ⟨fun event s => { s with events := s.events ++ [event] }⟩

instance : Located Scene := ⟨Scene.scopes, fun scopes s => { s with scopes := scopes }⟩

namespace Scene

/-- A participant that answers every request to complete in one way. -/
def answering (owner : String) (o : Outcome) : Descriptor Scene :=
  ⟨owner, .shared, Slots.empty.insert .complete ⟨.ofAction .unit, fun _ s => (o, s)⟩⟩

/-- One participant that breaks down, and one that does not. -/
def registry : Registry Scene :=
  (Registry.empty.put (answering "first" (.brokeDown "out of order"))).put
    (answering "second" (.answered .unit))

/-- The action in which both enlisted. -/
def action : ActionId := ⟨"http://coord/lra-coordinator/1"⟩

/-- The records of a coordinator after both have joined the action. -/
def joined : Coordinator :=
  let c := ((Coordinator.ofBaseUrl "http://coord").start 0 "client" none).2
  let c := (c.join action "<http://coord/lra-participant/first/complete>; rel=complete" none none).2
  (c.join action "<http://coord/lra-participant/second/complete>; rel=complete" none none).2

/-- A coordinator that drives an engine which knows both. -/
def system : System (Engine Scene) := ⟨.ofRegistry registry, joined, true⟩

/-- Nothing has happened, outside every call chain. -/
def quiet : Scene := ⟨[], []⟩

/-- What ending the action needs. -/
def plan : Coordinator.EndingPlan where
  parent := none
  enlisted :=
    [⟨Slots.empty.insert .complete "http://coord/lra-participant/first/complete",
        "http://coord/recovery/1", none⟩,
      ⟨Slots.empty.insert .complete "http://coord/lra-participant/second/complete",
        "http://coord/recovery/2", none⟩]

/-- The request for one of them. -/
def callOf (owner : String) : Call := ⟨owner, .complete, action, none⟩

theorem beginEnding_eq : (system.coordinator.count .close).beginEnding .close action =
    (.ok plan, ((system.coordinator.count .close).beginEnding .close action).2) := by
  have hp : ((system.coordinator.count .close).beginEnding .close action).1.toOption =
      some plan := by decide +kernel
  refine Prod.ext ?_ rfl
  cases h : ((system.coordinator.count .close).beginEnding .close action).1 with
  | error e => simp [h, Except.toOption] at hp
  | ok x => exact congrArg _ (by simpa [h, Except.toOption] using hp)

/-- When the first breaks down, the second is not asked. -/
theorem second_not_asked :
    (Pass.calls ⟨.close, action, none⟩ plan.enlisted = [callOf "first", callOf "second"]) ∧
    ∃ asked e s', Pass.run ⟨.close, action, none⟩ Engine.server.noted plan.enlisted
        ⟨[], system.engine, quiet⟩ = (.failedToClose, ⟨asked, e, s'⟩) ∧
      (system.finish 0 .close action quiet).1 = .ok .failedToClose ∧
      asked.map Prod.fst = [callOf "first"] := by
  obtain ⟨asked, status, e, s', hr, hf, -, -⟩ := System.finish_asks 0 quiet rfl beginEnding_eq
  replace hr : Pass.run ⟨.close, action, none⟩ Engine.server.noted plan.enlisted
      ⟨[], system.engine, quiet⟩ = (status, ⟨asked, e, s'⟩) := hr
  have hrun : (Pass.run ⟨.close, action, none⟩ Engine.server.noted plan.enlisted
        ⟨[], system.engine, quiet⟩).1 = .failedToClose ∧
      (Pass.run ⟨.close, action, none⟩ Engine.server.noted plan.enlisted
        ⟨[], system.engine, quiet⟩).2.log.map Prod.fst = [callOf "first"] := by decide +kernel
  obtain ⟨rfl, hc⟩ : status = .failedToClose ∧ asked.map Prod.fst = [callOf "first"] := by
    rw [hr] at hrun
    exact hrun
  exact ⟨by decide +kernel, asked, e, s', hr, by rw [hf], hc⟩

end Scene

end Saga
