import Saga.Coordinator.Service
import Saga.Proofs.Context.Chains
import Saga.Proofs.Coordinator.Asking
import Saga.Proofs.Coordinator.Later
import Saga.Proofs.Orchestrator.CallerChain

/-!
# Runs inside runs

An `Errand` is a tree of runs on one coordinator: what a computation does that has orchestrators run
one after the other, each with an errand of its own as its work, and that does nothing else to its
chain. `Errand.go` carries it out with `Orchestrator.run`, and `Errand.tell` gives an account of
every moment of it, with the actions of the runs around that moment. A run has its action on the
chain while its work runs (`Leg.launch_cases`), and takes it off again however it ends
(`Leg.run_of_error`, `Leg.run_of_ok`). So the chain always shows the actions of the runs around, and
these are the parents that the coordinator records (`Errand.mirrors_context`).
-/

set_option autoImplicit false

namespace Saga

/-- The state of a process: the system, and whatever there is beside it. -/
abbrev Process (σ : Type) := System (Engine σ) × σ

variable {σ ρ ε α β : Type}

/-- The system's client, where each request is made at the time that the clock shows then. -/
def System.clientBy [Journal σ] [Located σ] (clock : Process σ → Nat) : Client (Process σ) where
  start clientId timeout parent x := (client (clock x)).start clientId timeout parent x
  join id timeout header recovery data x :=
    (client (clock x)).join id timeout header recovery data x
  close id x := (client (clock x)).close id x
  cancel id x := (client (clock x)).cancel id x

/-! ## Errands -/

/-- Anything that is done with a look at the active actions, but not to the chain. -/
structure Deed (σ β : Type) where
  act : List ActionId → Process σ → β × Process σ
  later : ∀ ids (x : Process σ), x.1.coordinator.Ready →
    x.1.coordinator.Later (act ids x).2.1.coordinator

/-- What a run without explicit parent takes, but for its work. -/
structure Leg (σ ρ ε : Type) where
  orchestrator : Orchestrator
  observer : Observer (Process σ)
  text : ε → String
  registry : Registry ρ
  owners : List String
  clock : Process σ → Nat
  later : ∀ station (x : Process σ), x.1.coordinator.Ready →
    x.1.coordinator.Later (observer.notify station x).1.coordinator

/-- Deeds and runs, one after the other, where each run has an errand for its work. What comes next
may depend on what came of them. -/
inductive Errand (σ ρ : Type) : Type → Type → Type 1
  | done {ε α : Type} (result : Except ε α) : Errand σ ρ ε α
  | act {ε α β : Type} (deed : Deed σ β) (next : β → Errand σ ρ ε α) : Errand σ ρ ε α
  | run {ε α ε' α' : Type} (leg : Leg σ ρ ε') (inner : ActionId → Errand σ ρ ε' α')
    (next : Except (RunError ε') α' → Orchestrator → Errand σ ρ ε α) : Errand σ ρ ε α

variable [Journal σ] [Located σ]

namespace Leg

variable (leg : Leg σ ρ ε)

def env : Surroundings (Process σ) := ⟨System.clientBy leg.clock, leg.observer⟩

/-- Everything before the work. -/
def launch (chain : Chain) (x : Process σ) :
    Except (RunError ε) ActionId × Orchestrator × Chain × Process σ :=
  leg.orchestrator.launch leg.env leg.registry none leg.owners chain x

/-- A whole run. -/
def run (work : Work (Process σ) ε α) (s : Scopes) (x : Process σ) :
    Except (RunError ε) α × Orchestrator × Scopes × Process σ :=
  leg.orchestrator.run leg.env leg.text leg.registry none leg.owners work s x

end Leg

/-- What a computation does in a scope of its own, as the work of a run. -/
def Work.inScope (f : ActionId → Scopes → Process σ → Except ε α × Scopes × Process σ) :
    Work (Process σ) ε α := fun id chain x =>
  let (result, s, x) := f id [chain] x
  (result, s.chain, x)

namespace Errand

/-- Carries out an errand. -/
def go {ε α : Type} : Errand σ ρ ε α → Scopes → Process σ → Except ε α × Scopes × Process σ
  | done result, s, x => (result, s, x)
  | act deed next, s, x =>
    let (b, x) := deed.act s.active x
    (next b).go s x
  | run leg inner next, s, x =>
    let (result, o, s, x) := leg.run (Work.inScope fun id => (inner id).go) s x
    (next result o).go s x

/-- The errand as the work of a run. -/
def work (inner : ActionId → Errand σ ρ ε α) : Work (Process σ) ε α :=
  .inScope fun id => (inner id).go

end Errand

/-- One moment of an errand: the runs around it by their actions, outermost first, and the actions
started so far, each with those of the runs around it. -/
structure Moment (σ : Type) where
  around : List ActionId
  started : List (ActionId × List ActionId)
  scopes : Scopes
  state : Process σ

/-- The moments of an errand, and the actions started. -/
structure Account (σ : Type) where
  moments : List (Moment σ)
  started : List (ActionId × List ActionId)

namespace Account

def empty : Account σ := ⟨[], []⟩

def look (a : Account σ) (around : List ActionId) (s : Scopes) (x : Process σ) : Account σ :=
  { a with moments := a.moments ++ [⟨around, a.started, s, x⟩] }

/-- Adds the action that the first run of an orchestrator has started. -/
def start (a : Account σ) (around : List ActionId) (first : Bool) (o : Orchestrator) : Account σ :=
  match o.action with
  | some id => if first then { a with started := a.started ++ [(id, around)] } else a
  | none => a

omit [Journal σ] [Located σ] in
theorem start_used (a : Account σ) (around : List ActionId) (o : Orchestrator) :
    a.start around false o = a := by
  unfold start
  split <;> rfl

end Account

/-- Gives an account of an errand in the runs `around`: of every moment before a deed or a run, of
those in the works, and of the end. -/
def Errand.tell {ε α : Type} :
    Errand σ ρ ε α → List ActionId → Scopes → Process σ → Account σ → Account σ
  | done _, around, s, x, a => a.look around s x
  | act deed next, around, s, x, a =>
    let (b, y) := deed.act s.active x
    (next b).tell around s y (a.look around s x)
  | run leg inner next, around, s, x, a =>
    let (launched, o, chain, y) := leg.launch s.chain x
    let a := (a.look around s x).start around (leg.orchestrator.state = .starting) o
    let a :=
      match launched with
      | .ok id => (inner id).tell (around ++ [id]) [chain] y a
      | .error _ => a
    let (result, o, s, x) := leg.run (Errand.work inner) s x
    (next result o).tell around s x a

/-! ## What a run does to the chain and to the records -/

/-- The coordinator is later. -/
abbrev Process.Later (x y : Process σ) : Prop := x.1.coordinator.Later y.1.coordinator

namespace Leg

variable (leg : Leg σ ρ ε)

theorem enlist_later (config : Config) (id : ActionId) (owners : List String) {x : Process σ}
    (hx : x.1.coordinator.Ready) :
    x.Later (Orchestrator.enlist (ε := ε) leg.env leg.registry config id owners x).2 := by
  induction owners generalizing x with
  | nil => exact .refl _
  | cons owner owners ih =>
    cases hl : leg.registry.lookup owner with
    | error e =>
      simp only [Orchestrator.enlist, hl]
      exact .refl _
    | ok d =>
      have hj := x.1.coordinator.later_join id (Links.ofDescriptor d config.baseUrl).toHeader
        config.recoveryUrl none
      simp only [Orchestrator.enlist, hl, env, System.clientBy, System.client, System.join]
      rcases h : x.1.coordinator.join id (Links.ofDescriptor d config.baseUrl).toHeader
        config.recoveryUrl none with ⟨e | url, c⟩ <;> rw [h] at hj
      · exact hj
      · have ht := hj.trans (leg.later (.enlisted id owner url) ({ x.1 with coordinator := c }, x.2)
          (hx.later hj))
        exact ht.trans (ih (hx.later ht))

/-- Cancelling ends the action on the chain. -/
theorem cancel_spec (o : Orchestrator) (id : ActionId) (chain : Chain) {x : Process σ}
    (hx : x.1.coordinator.Ready) :
    (o.cancel leg.env id chain x).1.action = o.action ∧
      (o.cancel leg.env id chain x).2.1 = (chain.remove id).2 ∧
      x.Later (o.cancel leg.env id chain x).2.2 := by
  have hf := x.1.later_finish (leg.clock x) .cancel id x.2
  refine ⟨rfl, rfl, ?_⟩
  simp only [Orchestrator.cancel, env, System.clientBy, System.client]
  rcases h : x.1.finish (leg.clock x) .cancel id x.2 with ⟨e | st, sys, s⟩ <;> rw [h] at hf
  · exact hf.trans (leg.later (.endFailed id e) (sys, s) (hx.later hf))
  · exact hf.trans (leg.later (.cancelled id st) (sys, s) (hx.later hf))

theorem close_later (o : Orchestrator) (id : ActionId) (value : α) (chain : Chain) {x : Process σ}
    (hx : x.1.coordinator.Ready) :
    x.Later (o.close (ε := ε) leg.env id value chain x).2.2.2 := by
  have hf := x.1.later_finish (leg.clock x) .close id x.2
  simp only [Orchestrator.close, Orchestrator.finish, env, System.clientBy, System.client]
  rcases h : x.1.finish (leg.clock x) .close id x.2 with ⟨e | st, sys, s⟩ <;> rw [h] at hf
  · exact hf.trans (leg.later (.endFailed id e) (sys, s) (hx.later hf))
  · exact hf.trans (leg.later (.closed id st) (sys, s) (hx.later hf))

theorem conclude_later (o : Orchestrator) (id : ActionId) (result : Except ε α) (chain : Chain)
    {x : Process σ} (hx : x.1.coordinator.Ready) :
    x.Later (o.conclude leg.env leg.text id result chain x).2.2.2 := by
  cases result with
  | ok value => exact leg.close_later { o with state := .closing } id value chain hx
  | error e =>
    have hn := leg.later (.workFailed id (leg.text e)) x hx
    obtain ⟨-, -, hl⟩ := leg.cancel_spec { o with state := .cancelling } id chain (hx.later hn)
    exact hn.trans hl

variable {chain : Chain} {x : Process σ}

/-- The first stage: an action is started under the innermost one of the chain. -/
theorem start_spec (hx : x.1.coordinator.Ready)
    (hk : ∀ id ∈ chain.active, (x.1.coordinator.actions.get? id).isSome) :
    ∃ id y, leg.orchestrator.start (ε := ε) leg.env none chain x =
        (.ok id, { leg.orchestrator with action := some id, state := .enlisting },
          chain.push id, y) ∧
      id ∉ chain.active ∧ x.Later y ∧ y.1.coordinator.Places id chain.active.getLast? := by
  have hparent : ∀ p ∈ chain.active.getLast?, (x.1.coordinator.actions.get? p).isSome :=
    fun p hp => hk p (List.mem_of_getLast? hp)
  obtain ⟨id, c, hstart, hnew, hl, hp⟩ := hx.start (leg.clock x)
    leg.orchestrator.config.clientId hparent
  have hn := leg.later (.started id chain.active.getLast?) ({ x.1 with coordinator := c }, x.2)
    (hx.later hl)
  refine ⟨id, _, ?_, fun h => ?_, hl.trans hn, hn.places _ _ hp⟩
  · simp only [Orchestrator.start, Option.none_or, Chain.peek_eq, env, System.clientBy,
      System.client, System.start, hstart]
  · have hsome := hk id h
    rw [hnew] at hsome
    cases hsome

/-- A used orchestrator does nothing. Another starts an action under the innermost one of the chain,
and its own is on the chain if the work is to run. -/
theorem launch_cases (hc : chain.Neat) (hx : x.1.coordinator.Ready)
    (hk : ∀ id ∈ chain.active, (x.1.coordinator.actions.get? id).isSome) :
    leg.orchestrator.state ≠ .starting ∧
      leg.launch chain x = (.error .ended, leg.orchestrator, chain, x) ∨
    ∃ id o y, leg.orchestrator.state = .starting ∧ o.action = some id ∧ id ∉ chain.active ∧
      x.Later y ∧ y.1.coordinator.Places id chain.active.getLast? ∧
      ((∃ e, leg.launch chain x = (.error e, o, chain, y)) ∨
        leg.launch chain x = (.ok id, o, chain.push id, y)) := by
  by_cases hs : leg.orchestrator.state = .starting
  · obtain ⟨id, y, hstart, hid, hl, hp⟩ := leg.start_spec hx hk
    have hen := leg.enlist_later leg.orchestrator.config id leg.owners (hx.later hl)
    rcases he : Orchestrator.enlist (ε := ε) leg.env leg.registry leg.orchestrator.config id
      leg.owners y with ⟨e | _, z⟩ <;> rw [he] at hen
    · -- somebody could not be enlisted, and the action is cancelled
      obtain ⟨ho, hchain, hcl⟩ := leg.cancel_spec
        { leg.orchestrator with action := some id, state := .cancelling } id (chain.push id)
        ((hx.later hl).later hen)
      rw [hc.remove_push hid] at hchain
      rcases hcan : Orchestrator.cancel leg.env
        { leg.orchestrator with action := some id, state := .cancelling } id (chain.push id) z
        with ⟨o, chain', w⟩
      rw [hcan] at ho hchain hcl
      obtain rfl : chain' = chain := hchain
      have hyw := hen.trans hcl
      refine .inr ⟨id, o, w, hs, ho, hid, hl.trans hyw, hyw.places _ _ hp, .inl ⟨e, ?_⟩⟩
      simp [launch, Orchestrator.launch, Orchestrator.enlistAll, hs, hstart, he, hcan]
    · refine .inr ⟨id, { leg.orchestrator with action := some id, state := .running }, z, hs, rfl,
        hid, hl.trans hen, hen.places _ _ hp, .inr ?_⟩
      simp [launch, Orchestrator.launch, Orchestrator.enlistAll, hs, hstart, he]
  · refine .inl ⟨hs, ?_⟩
    simp [launch, Orchestrator.launch, hs]

variable {leg} (work : Work (Process σ) ε α) (rest : Scopes) {id : ActionId} {o : Orchestrator}
  {chain' : Chain} {y : Process σ}

theorem run_of_error {e : RunError ε} (h : leg.launch chain x = (.error e, o, chain', y)) :
    leg.run work (chain :: rest) x = (.error e, o, chain' :: rest, y) := by
  unfold launch at h
  simp only [run, Orchestrator.run, Orchestrator.runIn, h]

variable {work}

/-- Between the work and the end of a run its action is ended on the chain. -/
theorem run_of_ok {result : Except ε α} {chain'' : Chain} {z : Process σ}
    (h : leg.launch chain x = (.ok id, o, chain', y)) (hw : work id chain' y = (result, chain'', z))
    (hz : z.1.coordinator.Ready) :
    (leg.run work (chain :: rest) x).2.2.1 = (chain''.remove id).2 :: rest ∧
      z.Later (leg.run work (chain :: rest) x).2.2.2 := by
  have hc := Orchestrator.conclude_chain leg.env leg.text o id result chain'' z
  have hl := leg.conclude_later o id result chain'' hz
  unfold launch at h
  simp only [run, Orchestrator.run, Orchestrator.runIn, h, hw]
  exact ⟨congrArg (· :: rest) hc, hl⟩

end Leg

/-! ## Whole errands -/

/-- The chain shows the actions of the runs around, and everything that was started is recorded
under the innermost of those that were around it. -/
def Moment.Mirrored (m : Moment σ) : Prop :=
  m.scopes.active = m.around ∧
    ∀ begun ∈ m.started, m.state.1.coordinator.Places begun.1 begun.2.getLast?

/-- An errand stands in a chain, with an account so far. -/
structure Stands (c : Chain) (x : Process σ) (a : Account σ) : Prop where
  neat : c.Neat
  ready : x.1.coordinator.Ready
  known : ∀ id ∈ c.active, (x.1.coordinator.actions.get? id).isSome
  moments : ∀ m ∈ a.moments, m.Mirrored
  started : ∀ begun ∈ a.started, x.1.coordinator.Places begun.1 begun.2.getLast?

namespace Stands

omit [Journal σ] [Located σ]

variable {c c' : Chain} {x y : Process σ} {a a' : Account σ}

theorem later (h : Stands c x a) (hl : x.Later y) : Stands c y a where
  neat := h.neat
  ready := h.ready.later hl
  known id hid := hl.known id (h.known id hid)
  moments := h.moments
  started begun hb := hl.places _ _ (h.started begun hb)

theorem look (h : Stands c x a) (rest : Scopes) : Stands c x (a.look c.active (c :: rest) x) where
  neat := h.neat
  ready := h.ready
  known := h.known
  moments m hm := by
    rcases List.mem_append.1 hm with hm | hm
    · exact h.moments m hm
    · rw [List.mem_singleton] at hm
      subst hm
      exact ⟨rfl, h.started⟩
  started := h.started

theorem start (h : Stands c x a) {o : Orchestrator} {id : ActionId} (ho : o.action = some id)
    (hp : x.1.coordinator.Places id c.active.getLast?) :
    Stands c x (a.start c.active true o) := by
  have ha : a.start c.active true o = { a with started := a.started ++ [(id, c.active)] } := by
    simp [Account.start, ho]
  rw [ha]
  refine ⟨h.neat, h.ready, h.known, h.moments, fun begun hb => ?_⟩
  rcases List.mem_append.1 hb with hb | hb
  · exact h.started begun hb
  · rw [List.mem_singleton] at hb
    subst hb
    exact hp

/-- In the work of a run the chain has the action of the run in addition. -/
theorem push (h : Stands c x a) {id : ActionId} (hid : id ∉ c.active)
    (hk : (x.1.coordinator.actions.get? id).isSome) :
    (c.push id).active = c.active ++ [id] ∧ Stands (c.push id) x a := by
  have ha : (c.push id).active = c.active ++ [id] := by rw [Chain.active_push, if_neg hid]
  refine ⟨ha, h.neat.push id, h.ready, fun id' hid' => ?_, h.moments, h.started⟩
  rw [ha] at hid'
  rcases List.mem_append.1 hid' with hid' | hid'
  · exact h.known id' hid'
  · rw [List.mem_singleton] at hid'
    exact hid' ▸ hk

/-- After the work of a run the errand stands in the chain again in which the run began. -/
theorem back (h : Stands c x a) (h' : Stands c' y a') (hl : x.Later y) : Stands c y a' where
  neat := h.neat
  ready := h'.ready
  known := (h.later hl).known
  moments := h'.moments
  started := h'.started

end Stands

namespace Errand

variable {leg : Leg σ ρ ε} {inner : ActionId → Errand σ ρ ε α} {ε' α' : Type}
  {next : Except (RunError ε) α → Orchestrator → Errand σ ρ ε' α'} {s s' : Scopes}
  {x y z : Process σ} {result : Except (RunError ε) α} {o o' : Orchestrator}

theorem go_run (hr : leg.run (work inner) s x = (result, o, s', y)) :
    (run leg inner next).go s x = (next result o).go s' y := by
  have h : (run leg inner next).go s x =
      let (result, o, s, x) := leg.run (work inner) s x
      (next result o).go s x := rfl
  rw [h, hr]

theorem tell_run {launched : Except (RunError ε) ActionId} {chain : Chain} {around : List ActionId}
    {a : Account σ} (hl : leg.launch s.chain x = (launched, o, chain, y))
    (hr : leg.run (work inner) s x = (result, o', s', z)) :
    (run leg inner next).tell around s x a =
      let a := (a.look around s x).start around (leg.orchestrator.state = .starting) o
      (next result o').tell around s' z
        (match launched with
        | .ok id => (inner id).tell (around ++ [id]) [chain] y a
        | .error _ => a) := by
  simp only [tell, hl, hr]
  cases launched <;> rfl

/-- An errand leaves the chain as it finds it. -/
theorem stands (e : Errand σ ρ ε α) {c : Chain} {x : Process σ} {a : Account σ}
    (rest : Scopes) (h : Stands c x a) :
    (e.go (c :: rest) x).2.1 = c :: rest ∧ x.Later (e.go (c :: rest) x).2.2 ∧
      Stands c (e.go (c :: rest) x).2.2 (e.tell c.active (c :: rest) x a) := by
  induction e generalizing c x a rest with
  | done result => exact ⟨rfl, .refl _, h.look rest⟩
  | act deed next ih =>
    have hl := deed.later c.active x h.ready
    obtain ⟨hs, hl', hst⟩ := ih (deed.act c.active x).1 rest ((h.look rest).later hl)
    exact ⟨hs, hl.trans hl', hst⟩
  | @run ε α ε' α' leg inner next ihInner ihNext =>
    have h₀ := h.look rest
    obtain ⟨hs, hlaunch⟩ | ⟨id, o, y, hs, ho, hid, hl, hp, hlaunch⟩ :=
      leg.launch_cases h.neat h.ready h.known
    · -- the orchestrator has run before
      have hrun := Leg.run_of_error (work inner) rest hlaunch
      rw [go_run hrun, tell_run hlaunch hrun]
      simp only [hs, decide_false, Account.start_used]
      exact ihNext _ _ rest h₀
    · have h₁ := (h₀.later hl).start ho hp
      obtain ⟨e, hlaunch⟩ | hlaunch := hlaunch
      · -- somebody could not be enlisted
        have hrun := Leg.run_of_error (work inner) rest hlaunch
        rw [go_run hrun, tell_run hlaunch hrun]
        simp only [hs, decide_true]
        obtain ⟨hs', hl', hst⟩ := ihNext (.error e) o rest h₁
        exact ⟨hs', hl.trans hl', hst⟩
      · -- the work runs, in the chain with the action
        obtain ⟨hact, h₂⟩ := h₁.push hid hp.known
        obtain ⟨hs₂, hl₂, h₃⟩ := ihInner id [] h₂
        rw [hact] at h₃
        rcases hg : (inner id).go [c.push id] y with ⟨result, s₂, z⟩
        rw [hg] at hs₂ hl₂ h₃
        have hw : work inner id (c.push id) y = (result, c.push id, z) := by
          simp only [work, Work.inScope, hg]
          exact congrArg (fun s : Scopes => (result, s.chain, z)) hs₂
        obtain ⟨hs₃, hl₃⟩ := Leg.run_of_ok rest hlaunch hw h₃.ready
        rw [h.neat.remove_push hid] at hs₃
        rcases hrun : leg.run (work inner) (c :: rest) x with ⟨result', o', s', w⟩
        rw [hrun] at hs₃ hl₃
        obtain rfl : s' = c :: rest := hs₃
        rw [go_run hrun, tell_run hlaunch hrun]
        simp only [hs, decide_true]
        have hxw : x.Later w := (hl.trans hl₂).trans hl₃
        obtain ⟨hs', hl', hst⟩ := ihNext result' o' rest (h.back (h₃.later hl₃) hxw)
        exact ⟨hs', hxw.trans hl', hst⟩

/-- The account ends with what carrying out the errand comes to. -/
theorem tell_getLast? (e : Errand σ ρ ε α) (around : List ActionId) (s : Scopes) (x : Process σ)
    (a : Account σ) : ∃ started, (e.tell around s x a).moments.getLast? =
      some ⟨around, started, (e.go s x).2.1, (e.go s x).2.2⟩ := by
  induction e generalizing s x a with
  | done result => exact ⟨a.started, List.getLast?_concat ..⟩
  | act deed next ih => exact ih _ s _ _
  | run leg inner next _ ih =>
    rcases hl : leg.launch s.chain x with ⟨launched, o, chain, y⟩
    rcases hr : leg.run (work inner) s x with ⟨result, o', s', z⟩
    rw [go_run hr, tell_run hl hr]
    exact ih result o' s' z _

/-- **Runs nest as the context does.** Let starts be enabled at a coordinator, whatever was asked of
it before. In a new chain, at every moment of an errand, the active actions are those of the runs
around it, outermost first: in the works, and after each run, whatever it came to. Every action that
was started is recorded under the action of the run directly around it, and as a top level action
exactly if there is none. The errand leaves the chain as it was. -/
theorem mirrors_context (e : Errand σ ρ ε α) (scopes : Scopes) {x : Process σ} {r : Floor.Run}
    {n : Nat} (hx : x.1.coordinator = (r.before n).coordinator)
    (hs : x.1.coordinator.failStart = false) :
    let a := e.tell [] scopes.enter x .empty
    (∀ m ∈ a.moments, m.scopes.active = m.around ∧
      ∀ begun ∈ m.started, ∃ entry, m.state.1.coordinator.get? begun.1 = some entry ∧
        entry.parent = begun.2.getLast? ∧ entry.isTopLevel = begun.2.isEmpty) ∧
    (∃ started, a.moments.getLast? =
      some ⟨[], started, (e.go scopes.enter x).2.1, (e.go scopes.enter x).2.2⟩) ∧
    (e.go scopes.enter x).2.1 = scopes.enter := by
  intro a
  have hready : x.1.coordinator.Ready := by
    rw [hx] at hs ⊢
    exact .of_run r n hs
  have h : Stands none x (Account.empty : Account σ) := ⟨.none, hready, nofun, nofun, nofun⟩
  obtain ⟨hgo, -, hst⟩ := e.stands scopes h
  refine ⟨fun m hm => ?_, e.tell_getLast? [] scopes.enter x .empty, hgo⟩
  obtain ⟨hactive, hstarted⟩ := hst.moments m hm
  refine ⟨hactive, fun begun hb => ?_⟩
  obtain ⟨r, hr, hp, ht⟩ := hstarted begun hb
  refine ⟨r, hr, hp, ht.trans ?_⟩
  cases begun.2 <;> simp

end Errand

/-! ## Three runs deep -/

namespace Scene

/-- A run without participants. -/
def leg : Leg Scene Scene String where
  orchestrator := default
  observer := .silent
  text := id
  registry := .empty
  owners := []
  clock := fun _ => 0
  later := fun _ x _ => .refl x.1.coordinator

/-- A run with two more in its work, the first of which has one in its work that fails. -/
def deepErrand : Errand Scene Scene String Unit :=
  .run leg (fun _ =>
    .run leg (fun _ =>
      .run leg (fun _ => .done (.error "no luck" : Except String Unit)) fun _ _ => .done (.ok ()))
      fun _ _ => .run leg (fun _ => .done (.ok ())) fun _ _ => .done (.ok ()))
    fun _ _ => .done (.ok ())

/-- The action with a number. -/
def numbered (n : Nat) : ActionId := (Coordinator.ofBaseUrl "http://coord").idOf n

def newProcess : Process Scene := (⟨.ofRegistry .empty, .ofBaseUrl "http://coord", true⟩, quiet)

theorem deepErrand_mirrors :
    newProcess.1.coordinator = ((⟨"http://coord", []⟩ : Floor.Run).before 0).coordinator ∧
    newProcess.1.coordinator.failStart = false ∧
    (deepErrand.tell [] (Scopes.enter []) newProcess .empty).moments.map (·.scopes.active) =
      [[], [1], [1, 2], [1, 2, 3], [1, 2], [1], [1, 4], [1], []].map (List.map numbered) ∧
    (deepErrand.go (Scopes.enter []) newProcess).2.1 = Scopes.enter [] := by
  have hx : newProcess.1.coordinator = ((⟨"http://coord", []⟩ : Floor.Run).before 0).coordinator :=
    rfl
  obtain ⟨hm, -, hgo⟩ := deepErrand.mirrors_context [] hx rfl
  have haround : (deepErrand.tell [] (Scopes.enter []) newProcess .empty).moments.map
      Moment.around =
        [[], [1], [1, 2], [1, 2, 3], [1, 2], [1], [1, 4], [1], []].map (List.map numbered) := by
    decide +kernel
  refine ⟨hx, rfl, ?_, hgo⟩
  rw [← haround]
  exact List.map_congr_left fun m h => (hm m h).1

end Scene

end Saga
