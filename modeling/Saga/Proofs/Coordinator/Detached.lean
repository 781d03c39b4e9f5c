import Saga.Coordinator.Ending
import Saga.Proofs.Context.Isolation
import Saga.Proofs.Coordinator.Calm

/-!
# Callbacks run outside every chain

To find out whether a callback is ever called in a chain, let every callback do something else
there (`Callback.confined`): if nothing is different then, whatever it is that they do, none is. The
engine calls callbacks in the scopes that it finds (`Engine.serve_confined`), and a request that ends
an action has it find none, whatever chain the request comes from (`System.finish_confined`). With
what `Scopes.Turns.sound_apart` says of the chains themselves this is `System.chains_isolated`.
-/

set_option autoImplicit false

namespace Saga

/-- The scopes that are installed are what is installed last, and events leave them alone. -/
class Located.Lawful (σ : Type) [Journal σ] [Located σ] : Prop where
  scopes_withScopes : ∀ (scopes : Scopes) (s : σ),
    Located.scopes (Located.withScopes scopes s) = scopes
  scopes_note : ∀ (event : Event) (s : σ),
    Located.scopes (Journal.note event s) = Located.scopes s

attribute [simp] Located.Lawful.scopes_withScopes Located.Lawful.scopes_note

variable {σ : Type} [Located σ]

/-- The callback, made to do something else when it is called in a chain. -/
def Callback.confined (elsewhere : Handler σ) (c : Callback σ) : Callback σ where
  signature := c.signature
  handler := fun args s =>
    if (Located.scopes s).inChain then elsewhere args s else c.handler args s

/-- The descriptor with all its callbacks confined. -/
def Descriptor.confined (elsewhere : Handler σ) (d : Descriptor σ) : Descriptor σ where
  owner := d.owner
  mode := d.mode
  callbacks :=
    { complete := d.callbacks.complete.map (Callback.confined elsewhere)
      compensate := d.callbacks.compensate.map (Callback.confined elsewhere)
      status := d.callbacks.status.map (Callback.confined elsewhere)
      forget := d.callbacks.forget.map (Callback.confined elsewhere) }

/-- The engine with all callbacks of its participants confined. -/
def Engine.confined (elsewhere : Handler σ) (e : Engine σ) : Engine σ :=
  { e with registry := ⟨e.registry.participants.mapValues (Descriptor.confined elsewhere)⟩ }

/-- The system with all callbacks of its participants confined. -/
def System.confined (elsewhere : Handler σ) (sys : System (Engine σ)) : System (Engine σ) :=
  { sys with engine := sys.engine.confined elsewhere }

/-- A callback that is called outside every chain has left the scopes that it opened when it is
done. -/
def Registry.Returns (r : Registry σ) : Prop :=
  ∀ owner d op c, r.lookup owner = .ok d → d.callback? op = some c → ∀ args s,
    Located.scopes s = [] → Located.scopes (c.handler args s).2 = []

variable {elsewhere : Handler σ}

theorem Descriptor.callback?_confined (d : Descriptor σ) (op : Operation) :
    (d.confined elsewhere).callback? op = (d.callback? op).map (Callback.confined elsewhere) := by
  cases op <;> rfl

theorem Engine.lookup_confined (e : Engine σ) (owner : String) :
    (e.confined elsewhere).registry.lookup owner =
      (e.registry.lookup owner).map (Descriptor.confined elsewhere) := by
  simp only [confined, Registry.lookup, Table.get?_mapValues]
  cases e.registry.participants.get? owner <;> rfl

/-- Outside every chain a confined callback is what it was. -/
theorem Callback.handler_confined (c : Callback σ) (args : Arguments) {s : σ}
    (h : Located.scopes s = []) : (c.confined elsewhere).handler args s = c.handler args s := by
  simp [confined, h, Scopes.inChain]

variable [Journal σ] [Located.Lawful σ]

/-! ## The desk -/

namespace Desk

variable (k : Desk) (d : Descriptor σ) (c : Callback σ) (call : Call) {s : σ}

@[simp] theorem scopes_normalize (owner : String) (op : Operation) (id : ActionId) (a : Answer)
    (s : σ) : Located.scopes (k.normalize owner op id a s).2.2 = Located.scopes s := by
  cases a <;> simp [normalize]

@[simp] theorem scopes_mismatch (owner : String) (op : Operation) (declared : ReturnType)
    (a : Answer) (s : σ) :
    Located.scopes (mismatch owner op declared a s).2 = Located.scopes s := by
  simp [mismatch]

@[simp] theorem scopes_normalizeArrived (origin : Operation) (a : Answer) (s : σ) :
    Located.scopes (k.normalizeArrived d origin call a s).2.2 = Located.scopes s := by
  cases a <;> simp only [normalizeArrived] <;> first
    | exact scopes_normalize ..
    | rfl
    | (split
       · exact scopes_normalize ..
       · split
         · exact scopes_normalize ..
         · exact scopes_mismatch ..)

/-- Calling a callback outside every chain ends outside every chain. -/
theorem scopes_invoke (hc : ∀ args s, Located.scopes s = [] →
      Located.scopes (c.handler args s).2 = []) (h : Located.scopes s = []) :
    Located.scopes (k.invoke d c call s).2.2 = [] := by
  have ho : Located.scopes (c.invoke call.id call.parent (announce d c call s)).2 = [] :=
    hc _ _ (by simp [announce, h])
  rcases hi : c.invoke call.id call.parent (announce d c call s) with ⟨o, s'⟩
  rw [hi] at ho
  simp only [announce] at hi
  simp only [invoke, hi]
  cases o with
  | brokeDown text => exact ho
  | answered a =>
    -- whatever becomes of the answer, nothing but events follows
    by_cases ha : c.signature.returns.accepts a = true <;> cases a <;> simp [ha, ho]

omit [Located.Lawful σ] in
theorem normalizeArrived_confined (origin : Operation) (a : Answer) (s : σ) :
    k.normalizeArrived (d.confined elsewhere) origin call a s =
      k.normalizeArrived d origin call a s := by
  unfold normalizeArrived
  rw [Descriptor.callback?_confined]
  cases d.callback? origin <;> rfl

/-- A callback that is called outside every chain may be confined. -/
theorem invoke_confined (h : Located.scopes s = []) :
    k.invoke (d.confined elsewhere) (c.confined elsewhere) call s = k.invoke d c call s := by
  have hn : (c.confined elsewhere).invoke call.id call.parent (announce (d.confined elsewhere)
      (c.confined elsewhere) call s) = c.invoke call.id call.parent (announce d c call s) :=
    c.handler_confined _ (by simp [announce, h])
  simp only [announce] at hn
  simp only [invoke, hn]
  rfl

/-- Serving a call outside every chain ends outside every chain. -/
theorem scopes_serve (hc : ∀ args s, Located.scopes s = [] →
      Located.scopes (c.handler args s).2 = []) (h : Located.scopes s = []) :
    Located.scopes (k.serve d c call s).2.2 = [] := by
  cases hp : k.pending.get? call.key with
  | none =>
    rw [serve_none _ _ _ _ _ hp]
    exact k.scopes_invoke d c call hc h
  | some p =>
    cases ht : p.cell.take.1 with
    | none => simp [serve_outstanding _ _ _ _ _ hp ht, h]
    | some a =>
      cases ha : a.inProgress with
      | true =>
        rw [serve_inProgress _ _ _ _ _ hp ht ha]
        exact scopes_invoke _ d c call hc (by simp [h])
      | false => simp [serve_arrived _ _ _ _ _ hp ht ha, h]

theorem serve_confined (h : Located.scopes s = []) :
    k.serve (d.confined elsewhere) (c.confined elsewhere) call s = k.serve d c call s := by
  cases hp : k.pending.get? call.key with
  | none => rw [serve_none _ _ _ _ _ hp, serve_none _ _ _ _ _ hp, k.invoke_confined d c call h]
  | some p =>
    cases ht : p.cell.take.1 with
    | none => rw [serve_outstanding _ _ _ _ _ hp ht, serve_outstanding _ _ _ _ _ hp ht]
    | some a =>
      cases ha : a.inProgress with
      | true =>
        rw [serve_inProgress _ _ _ _ _ hp ht ha, serve_inProgress _ _ _ _ _ hp ht ha]
        exact invoke_confined _ d c call (by simp [h])
      | false =>
        rw [serve_arrived _ _ _ _ _ hp ht ha, serve_arrived _ _ _ _ _ hp ht ha]
        exact normalizeArrived_confined ..

end Desk

/-! ## The engine -/

namespace Engine

variable {e : Engine σ} (call : Call) {s : σ}

theorem scopes_serve (hr : e.registry.Returns) (h : Located.scopes s = []) :
    Located.scopes (e.serve call s).2.2 = [] := by
  cases hl : e.registry.lookup call.owner with
  | error error =>
    rw [serve_unknown hl]
    exact h
  | ok d =>
    cases hc : d.callback? call.operation with
    | none => simp [serve_unbound hl hc, h]
    | some c =>
      rw [serve_bound hl hc]
      exact e.desk.scopes_serve d c call (hr _ d _ c hl hc) h

/-- A call that is served outside every chain calls no callback in a chain. -/
theorem serve_confined (h : Located.scopes s = []) :
    (e.confined elsewhere).serve call s =
      ((e.serve call s).1, (e.serve call s).2.1.confined elsewhere, (e.serve call s).2.2) := by
  cases hl : e.registry.lookup call.owner with
  | error error =>
    have hl' : (e.confined elsewhere).registry.lookup call.owner = .error error := by
      rw [lookup_confined, hl]
      rfl
    rw [serve_unknown hl', serve_unknown hl]
  | ok d =>
    have hl' : (e.confined elsewhere).registry.lookup call.owner = .ok (d.confined elsewhere) := by
      rw [lookup_confined, hl]
      rfl
    cases hc : d.callback? call.operation with
    | none =>
      have hc' : (d.confined elsewhere).callback? call.operation = none := by
        rw [Descriptor.callback?_confined, hc]
        rfl
      rw [serve_unbound hl' hc', serve_unbound hl hc]
      rfl
    | some c =>
      have hc' : (d.confined elsewhere).callback? call.operation = some (c.confined elsewhere) := by
        rw [Descriptor.callback?_confined, hc]
        rfl
      rw [serve_bound hl' hc', serve_bound hl hc]
      rw [show (e.confined elsewhere).desk = e.desk from rfl, e.desk.serve_confined d c call h]
      rfl

end Engine

/-! ## Passes -/

namespace Pass

variable (p : Pass)

/-- An engine with a state in which it calls no callback in a chain. -/
structure Outside (w : Engine σ × σ) : Prop where
  returns : w.1.registry.Returns
  scopes : Located.scopes w.2 = []

/-- What comes of asking, with all callbacks confined. -/
def confine {β : Type} (elsewhere : Handler σ) (x : β × Engine σ × σ) : β × Engine σ × σ :=
  (x.1, x.2.1.confined elsewhere, x.2.2)

theorem Outside.serve {w : Engine σ × σ} (h : Outside w) (call : Call) :
    Outside (Engine.server call w).2 where
  returns := Engine.serve_registry w.1 call w.2 ▸ h.returns
  scopes := Engine.scopes_serve call h.returns h.scopes

theorem Outside.note {w : Engine σ × σ} (h : Outside w) (event : Event) :
    Outside (Journal.note event w) where
  returns := h.returns
  scopes := (Located.Lawful.scopes_note event w.2).trans h.scopes

variable (elsewhere)

theorem Outside.ask {w : Engine σ × σ} (h : Outside w) (x : Enlistment) (st : ActionStatus) :
    Outside (p.ask Engine.server x st w).2 ∧
      p.ask Engine.server x st (w.1.confined elsewhere, w.2) =
        confine elsewhere (p.ask Engine.server x st w) := by
  unfold Pass.ask
  cases hl : x.links.get? p.ending.operation with
  | none => exact ⟨h, rfl⟩
  | some url =>
    cases hu : Links.ofUrl? url with
    | none =>
      simp only [hu]
      exact ⟨h.note _, rfl⟩
    | some named =>
      have hs := h.serve ⟨named.1, p.ending.operation, p.id, p.parent⟩
      have hc : Engine.server ⟨named.1, p.ending.operation, p.id, p.parent⟩
          (w.1.confined elsewhere, w.2) = confine elsewhere (Engine.server _ w) :=
        Engine.serve_confined _ h.scopes
      simp only [hu, hc]
      rcases hx : Engine.server ⟨named.1, p.ending.operation, p.id, p.parent⟩ w
        with ⟨_ | _ | _, w'⟩ <;> rw [hx] at hs
      · exact ⟨hs.note _, rfl⟩
      · exact ⟨(hs.note _).note _, rfl⟩
      · exact ⟨hs, rfl⟩

theorem Outside.askAll {w : Engine σ × σ} (h : Outside w) (enlisted : List Enlistment)
    (st : ActionStatus) :
    Outside (p.askAll Engine.server enlisted st w).2 ∧
      p.askAll Engine.server enlisted st (w.1.confined elsewhere, w.2) =
        confine elsewhere (p.askAll Engine.server enlisted st w) := by
  induction enlisted generalizing st w with
  | nil => exact ⟨h, rfl⟩
  | cons x enlisted ih =>
    obtain ⟨ho, hc⟩ := h.ask elsewhere p x st
    simp only [Pass.askAll, hc]
    rcases ha : p.ask Engine.server x st w with ⟨_ | st', w'⟩ <;> rw [ha] at ho
    · exact ⟨ho, rfl⟩
    · exact ih ho st'

theorem Outside.run {w : Engine σ × σ} (h : Outside w) (enlisted : List Enlistment) :
    p.run Engine.server enlisted (w.1.confined elsewhere, w.2) =
      confine elsewhere (p.run Engine.server enlisted w) := by
  obtain ⟨-, hc⟩ := h.askAll elsewhere p enlisted p.ending.done
  simp only [Pass.run, hc]
  rcases p.askAll Engine.server enlisted p.ending.done w with ⟨_ | st, w'⟩ <;> rfl

end Pass

/-! ## Requests that end an action -/

namespace System

variable {sys : System (Engine σ)}

/-- A request that ends an action calls no callback in a chain, whatever chain it comes from, and
that chain is the same afterwards. -/
theorem finish_confined (hr : sys.engine.registry.Returns) (now : Nat) (ending : Ending)
    (id : ActionId) (s : σ) :
    ((sys.confined elsewhere).finish now ending id s =
      ((sys.finish now ending id s).1, (sys.finish now ending id s).2.1.confined elsewhere,
        (sys.finish now ending id s).2.2)) ∧
    Located.scopes (sys.finish now ending id s).2.2 = Located.scopes s := by
  have hc : (sys.confined elsewhere).coordinator = sys.coordinator := rfl
  have hw : (sys.confined elsewhere).wired = sys.wired := rfl
  have he : (sys.confined elsewhere).engine = sys.engine.confined elsewhere := rfl
  unfold finish
  rw [hc, hw]
  rcases (sys.coordinator.count ending).beginEnding ending id with ⟨e | plan, c⟩
  · exact ⟨rfl, rfl⟩
  · cases sys.wired with
    | false => exact ⟨rfl, rfl⟩
    | true =>
      have ho : Pass.Outside (sys.engine, Located.withScopes [] s) := ⟨hr, by simp⟩
      have hp := ho.run elsewhere ⟨ending, id, plan.parent⟩ plan.enlisted
      simp only [runDetached, Engine.endingEngine_server, he, hp, if_true]
      exact ⟨rfl, by simp⟩

open Scopes in
/-- **Chains are apart.** However the turns of chains alternate, and however their scopes nest, each
caller is answered what it would be answered if it were alone, and what a scope keeps is what its
own requests make of a chain without a frame. When a scope ends, by return or by unwinding, the
chain that it was opened in is what its own requests since then make of it, and so exactly what it
was if it made none. The callbacks that a request to end an action has called are called in no
chain, whatever chain it comes from: what they would do in one does not matter. -/
theorem chains_isolated {α κ τ : Type} [DecidableEq κ] [HasKind α κ] [Journal τ]
    (r : Turns α κ τ) (hr : sys.engine.registry.Returns) :
    (∀ n caller (j : τ), (performAll ((r.before n).requests caller) (home caller) j).1 =
      (r.before n).replies caller) ∧
    (∀ n m c (j : τ), (r.before n).slot m = some c →
      (performAll ((r.before n).requests (some m)) (home (some m)) j).2.1 = [c]) ∧
    (∀ i k m c exit, r.moves[i]? = some (.enter (some m)) → (r.before i).slot m = some c → i < k →
      r.moves[k]? = some (.leave (r.before i).opened exit) →
      (r.before k).MayEnd (r.before i).opened →
      ∃ own c', (r.before (k + 1)).requests (some m) = (r.before i).requests (some m) ++ own ∧
        (r.before (k + 1)).slot m = some c' ∧ ∀ j : τ, (performAll own [c] j).2.1 = [c']) ∧
    ∀ elsewhere now ending id s,
      (sys.confined elsewhere).finish now ending id s =
        ((sys.finish now ending id s).1, (sys.finish now ending id s).2.1.confined elsewhere,
          (sys.finish now ending id s).2.2) ∧
      Located.scopes (sys.finish now ending id s).2.2 = Located.scopes s := by
  refine ⟨fun n caller j => ?_, fun n m c j hc => ?_,
    fun i k m c exit hi hc hik hk hend => r.enclosing_kept hi hc hik hk hend,
    fun elsewhere now ending id s => finish_confined hr now ending id s⟩
  · obtain ⟨-, ha⟩ := r.sound_apart n
    cases caller with
    | none =>
      obtain ⟨j', hp⟩ := ha.outside j
      rw [hp]
    | some m =>
      obtain ⟨c, j', hp, -⟩ := ha.inside m j
      rw [hp]
  · obtain ⟨c', j', hp, hc'⟩ := (r.sound_apart n).2.inside m j
    rw [hp, hc' c hc]

end System

/-! ## One scope in another, and a third beside them -/

namespace Scene

open Scopes

instance : Located.Lawful Scene := ⟨fun _ _ => rfl, fun _ _ => rfl⟩

theorem registry_returns : system.engine.registry.Returns := by
  intro owner d op c hl hc args s hs
  obtain ⟨name, o, rfl⟩ : ∃ name o, d = answering name o := by
    simp only [system, Engine.ofRegistry, registry, Registry.lookup_put] at hl
    split at hl
    · cases hl
      exact ⟨_, _, rfl⟩
    · split at hl
      · cases hl
        exact ⟨_, _, rfl⟩
      · cases hl
  cases op <;> cases hc
  exact hs

/-- Chain 1 is opened in chain 0 and unwinds, while chain 2 is opened outside both. -/
def turns : Turns Scratch ScratchKind Scene where
  journal := quiet
  moves :=
    [.enter none, .ask (some 0) (.push ⟨"outer"⟩), .ask (some 0) (.store "tries" (.integer 3)),
      .enter (some 0), .ask (some 1) (.push ⟨"inner"⟩), .enter none,
      .ask (some 2) (.push ⟨"other"⟩), .ask (some 1) (.store "tries" (.integer 7)),
      .ask (some 2) .active, .leave 1 .unwound, .ask (some 0) (.load .integer "tries")]

theorem outer_unchanged :
    system.engine.registry.Returns ∧
    turns.moves[3]? = some (.enter (some 0)) ∧ turns.moves[9]? = some (.leave 1 .unwound) ∧
    (turns.before 9).MayEnd 1 ∧
    (∃ c own c', (turns.before 3).slot 0 = some c ∧
      (turns.before 10).requests (some 0) = (turns.before 3).requests (some 0) ++ own ∧
      (turns.before 10).slot 0 = some c' ∧ ∀ j : Scene, (performAll own [c] j).2.1 = [c']) ∧
    (turns.before 11).replies (some 0) =
      [.pushed (.ok ()), .stored true, .loaded (some (.integer 3))] ∧
    ∀ elsewhere, ((system.confined elsewhere).finish 0 .close action ⟨[], [none]⟩).1 =
      .ok .failedToClose := by
  obtain ⟨hreplies, -, hkept, hdetached⟩ := System.chains_isolated turns registry_returns
  have hend : (turns.before 9).MayEnd 1 := by decide +kernel
  obtain ⟨c, hc⟩ : ∃ c, (turns.before 3).slot 0 = some c := ⟨_, rfl⟩
  obtain ⟨own, c', h⟩ := hkept 3 9 0 c .unwound rfl hc (by decide) rfl hend
  refine ⟨registry_returns, rfl, rfl, hend, ⟨c, own, c', hc, h⟩,
    (hreplies 11 (some 0) quiet).symm.trans rfl, fun elsewhere => ?_⟩
  rw [(hdetached elsewhere 0 .close action ⟨[], [none]⟩).1]
  rfl

end Scene

end Saga
