import Mathlib.Data.List.Chain
import Saga.Proofs.Orchestrator.Acts

/-!
# The course of a run

A run goes from station to station: `Course.step` is the one stage that leads from a station to the
next, and at each the orchestrator is in the state of that station (`Course.Placed`). A run is what
these steps come to (`Course.comesTo_runIn`), so its states follow one another along
`RunPhase.Moves` (`Course.Leads.moves`).
-/

set_option autoImplicit false

namespace Saga

/-- Where a run stands, with what it needs to go on. -/
inductive Station (ε α : Type) where
  | starting
  | enlisting (id : ActionId)
  | running (id : ActionId)
  | closing (id : ActionId) (value : α)
  | cancelling (id : ActionId) (error : RunError ε)
  | ended (result : Except (RunError ε) α)

/-- The state of an orchestrator at a station. -/
def Station.phase {ε α : Type} : Station ε α → RunPhase
  | starting => .starting
  | enlisting _ => .enlisting
  | running _ => .running
  | closing _ _ => .closing
  | cancelling _ _ => .cancelling
  | ended _ => .ended

/-- The states that may follow one another. -/
inductive RunPhase.Moves : RunPhase → RunPhase → Prop
  | started : Moves starting enlisting
  | refused : Moves starting ended
  | enlisted : Moves enlisting running
  | notEnlisted : Moves enlisting cancelling
  | worked : Moves running closing
  | workFailed : Moves running cancelling
  | closed : Moves closing ended
  | cancelled : Moves cancelling ended

variable {σ ρ ε α : Type}

/-- A run on its way. -/
structure Course (σ ε α : Type) where
  station : Station ε α
  orchestrator : Orchestrator
  chain : Chain
  state : σ

namespace Course

/-- The orchestrator is in the state of the station. -/
def Placed (c : Course σ ε α) : Prop := c.orchestrator.state = c.station.phase

variable [Journal σ] (env : Surroundings σ) (text : ε → String) (job : Job σ ρ ε α)

/-- The way from one station to the next. -/
def step (c : Course σ ε α) : Course σ ε α :=
  match c.station with
  | .starting =>
    match c.orchestrator.start env job.parent c.chain c.state with
    | (.error e, o, chain, s) => ⟨.ended (.error e), o, chain, s⟩
    | (.ok id, o, chain, s) => ⟨.enlisting id, o, chain, s⟩
  | .enlisting id =>
    match c.orchestrator.enlistAll env job.registry id job.owners c.state with
    | (.error e, o, s) => ⟨.cancelling id e, o, c.chain, s⟩
    | (.ok (), o, s) => ⟨.running id, o, c.chain, s⟩
  | .running id =>
    let (result, chain, s) := job.work id c.chain c.state
    let (o, s) := c.orchestrator.judge env text id result s
    match result with
    | .ok value => ⟨.closing id value, o, chain, s⟩
    | .error e => ⟨.cancelling id (.work e), o, chain, s⟩
  | .closing id value =>
    let (result, o, chain, s) := c.orchestrator.close env id value c.chain c.state
    ⟨.ended result, o, chain, s⟩
  | .cancelling id e =>
    let (o, chain, s) := c.orchestrator.cancel env id c.chain c.state
    ⟨.ended (.error e), o, chain, s⟩
  | .ended _ => c

/-- The states of the orchestrator from `c` on, up to the end of the run with `result`. -/
inductive Leads : Course σ ε α → List RunPhase → Except (RunError ε) α → Course σ ε α → Prop
  | ended {c : Course σ ε α} {result : Except (RunError ε) α} :
    c.station = .ended result → Leads c [c.orchestrator.state] result c
  | step {c c' : Course σ ε α} {phases : List RunPhase} {result : Except (RunError ε) α} :
    c.station.phase ≠ .ended → Leads (c.step env text job) phases result c' →
      Leads c (c.orchestrator.state :: phases) result c'

variable {env text job} {c c' : Course σ ε α}

/-- Every step leads to a state that may follow. -/
theorem step_moves (hc : c.station.phase ≠ .ended) :
    (c.step env text job).Placed ∧ c.station.phase.Moves (c.step env text job).station.phase := by
  obtain ⟨station, o, chain, s⟩ := c
  cases station with
  | starting =>
    rcases h : env.client.start o.config.clientId o.config.timeout (job.parent.or chain.peek) s
      with ⟨e | id, s'⟩ <;> simp only [step, Orchestrator.start, h]
    · exact ⟨rfl, .refused⟩
    · exact ⟨rfl, .started⟩
  | enlisting id =>
    rcases h : Orchestrator.enlist (ε := ε) env job.registry o.config id job.owners s
      with ⟨e | _, s'⟩ <;> simp only [step, Orchestrator.enlistAll, h]
    · exact ⟨rfl, .notEnlisted⟩
    · exact ⟨rfl, .enlisted⟩
  | running id =>
    rcases h : job.work id chain s with ⟨e | value, chain', s'⟩ <;>
      simp only [step, Orchestrator.judge, h]
    · exact ⟨rfl, .workFailed⟩
    · exact ⟨rfl, .worked⟩
  | closing id value => exact ⟨rfl, .closed⟩
  | cancelling id e => exact ⟨rfl, .cancelled⟩
  | ended result => exact absurd rfl hc

theorem Leads.moves {phases : List RunPhase} {result : Except (RunError ε) α}
    (h : Leads env text job c phases result c') (hp : c.Placed) :
    phases.head? = some c.station.phase ∧ phases.IsChain RunPhase.Moves ∧
      phases.getLast? = some .ended ∧ c'.orchestrator.state = .ended := by
  unfold Placed at hp
  induction h with
  | ended hs =>
    rw [hs] at hp ⊢
    exact ⟨by rw [hp]; rfl, .singleton _, by rw [hp]; rfl, hp⟩
  | step hc h ih =>
    obtain ⟨hp', hm⟩ := step_moves hc
    obtain ⟨hh, hi, hl, ho⟩ := ih hp'
    rw [hp]
    refine ⟨rfl, hi.cons fun p hpp => ?_, ?_, ho⟩
    · rw [hh] at hpp
      exact Option.some.inj hpp ▸ hm
    · rw [List.getLast?_cons, hl]
      rfl

/-! ## Runs as courses -/

/-- From `c` on the run comes to `x`. -/
def ComesTo (env : Surroundings σ) (text : ε → String) (job : Job σ ρ ε α) (c : Course σ ε α)
    (x : Except (RunError ε) α × Orchestrator × Chain × σ) : Prop :=
  ∃ phases c', Leads env text job c phases x.1 c' ∧ c'.orchestrator = x.2.1 ∧ c'.chain = x.2.2.1 ∧
    c'.state = x.2.2.2

theorem ComesTo.step {x : Except (RunError ε) α × Orchestrator × Chain × σ}
    (hc : c.station.phase ≠ .ended) (h : ComesTo env text job (c.step env text job) x) :
    ComesTo env text job c x := by
  obtain ⟨phases, c', h, hx⟩ := h
  exact ⟨_, c', .step hc h, hx⟩

variable {id : ActionId} {o : Orchestrator} {chain : Chain} {s : σ}

theorem comesTo_ended (result : Except (RunError ε) α) :
    ComesTo env text job ⟨.ended result, o, chain, s⟩ (result, o, chain, s) :=
  ⟨_, _, .ended rfl, rfl, rfl, rfl⟩

theorem comesTo_closing (value : α) :
    ComesTo env text job ⟨.closing id value, o, chain, s⟩ (o.close env id value chain s) :=
  .step (by simp [Station.phase]) (comesTo_ended _)

theorem comesTo_cancelling (e : RunError ε) :
    ComesTo env text job ⟨.cancelling id e, o, chain, s⟩
      (.error e, o.cancel env id chain s) :=
  .step (by simp [Station.phase]) (comesTo_ended _)

theorem comesTo_running :
    ComesTo env text job ⟨.running id, o, chain, s⟩
      (let (result, chain, s) := job.work id chain s
      o.conclude env text id result chain s) := by
  refine .step (by simp [Station.phase]) ?_
  rcases hw : job.work id chain s with ⟨e | value, chain', s'⟩ <;> simp only [step, hw]
  · exact comesTo_cancelling _
  · exact comesTo_closing _

/-- A run is what the steps from its first station on come to. -/
theorem comesTo_runIn (h : o.state = .starting) :
    ComesTo env text job ⟨.starting, o, chain, s⟩
      (o.runIn env text job.registry job.parent job.owners job.work chain s) := by
  simp only [Orchestrator.runIn, Orchestrator.launch, h, ne_eq, not_true_eq_false, if_false]
  refine .step (by simp [Station.phase]) ?_
  rcases hs : o.start (ε := ε) env job.parent chain s with ⟨e | id, o₁, chain₁, s₁⟩ <;>
    simp only [step, hs]
  · exact comesTo_ended _
  refine .step (by simp [Station.phase]) ?_
  rcases he : o₁.enlistAll (ε := ε) env job.registry id job.owners s₁ with ⟨e | _, o₂, s₂⟩ <;>
    simp only [step, he]
  · exact comesTo_cancelling _
  · exact comesTo_running

end Course

/-! ## One run after the other -/

/-- A request for a run, with the state of the moment. -/
structure Attempt (σ ρ : Type) where
  {ε : Type}
  {α : Type}
  text : ε → String
  job : Job σ ρ ε α
  state : σ

namespace Orchestrator

variable [Journal σ] (env : Surroundings σ)

/-- What comes of an attempt. -/
def attempt (o : Orchestrator) (a : Attempt σ ρ) :
    Except (RunError a.ε) a.α × Orchestrator × Scopes × σ :=
  o.runJob env a.text a.job a.state

/-- The orchestrator after one attempt after the other. -/
def after (o : Orchestrator) (attempts : List (Attempt σ ρ)) : Orchestrator :=
  attempts.foldl (fun o a => (o.attempt env a).2.1) o

theorem attempt_used {o : Orchestrator} (h : o.state ≠ .starting) (a : Attempt σ ρ) :
    o.attempt env a = (.error .ended, o, a.job.scopes, a.state) ∧
      o.acts env a.text a.job a.state = [] :=
  ⟨runJob_used env a.text o a.job a.state h, acts_used env a.text o a.job a.state h⟩

theorem after_used {o : Orchestrator} (h : o.state ≠ .starting) (attempts : List (Attempt σ ρ)) :
    o.after env attempts = o := by
  induction attempts with
  | nil => rfl
  | cons a attempts ih => rw [after, List.foldl_cons, (attempt_used env h a).1]; exact ih

/-- **The protocol of an orchestrator.** Its first run keeps to the `Protocol`, goes from state to
state along `RunPhase.Moves` and leaves it ended; whatever was attempted since, one more attempt
gives `RunError.ended`, does nothing and changes nothing. -/
theorem keeps_protocol (config : Config) (first : Attempt σ ρ) (later : List (Attempt σ ρ)) :
    let o := ofConfig config
    let x := o.attempt env first
    Protocol first.job.registry config (first.job.parent.or first.job.scopes.peek)
      first.job.owners (o.acts env first.text first.job first.state) x.1 ∧
    (∃ phases c, Course.Leads env first.text first.job
        ⟨.starting, o, first.job.scopes.chain, first.state⟩ phases x.1 c ∧
      c.orchestrator = x.2.1 ∧ c.state = x.2.2.2 ∧ x.2.1.state = .ended ∧
      phases.head? = some .starting ∧ phases.IsChain RunPhase.Moves ∧
      phases.getLast? = some .ended) ∧
    ∀ a : Attempt σ ρ,
      (x.2.1.after env later).attempt env a = (.error .ended, x.2.1, a.job.scopes, a.state) ∧
      (x.2.1.after env later).acts env a.text a.job a.state = [] := by
  intro o x
  have hc : Course.ComesTo env first.text first.job
      ⟨.starting, o, first.job.scopes.chain, first.state⟩
      (o.runIn env first.text first.job.registry first.job.parent first.job.owners first.job.work
        first.job.scopes.chain first.state) := Course.comesTo_runIn rfl
  obtain ⟨phases, c, hl, ho, -, hs⟩ := hc
  have hx := runJob_eq env first.text o first.job first.state
  obtain ⟨hh, hm, hlast, hend⟩ := hl.moves rfl
  have hxo : c.orchestrator = x.2.1 := by rw [ho]; exact congrArg (·.2.1) hx.symm
  have hused : x.2.1.state ≠ .starting := by rw [← hxo, hend]; simp
  refine ⟨acts_starting env first.text o first.job first.state rfl, ⟨phases, c, ?_, hxo, ?_,
    hxo ▸ hend, hh, hm, hlast⟩, fun a => ?_⟩
  · exact (congrArg (·.1) hx).symm ▸ hl
  · rw [hs]
    exact congrArg (·.2.2.2) hx.symm
  · rw [after_used env hused]
    exact attempt_used env hused a

end Orchestrator

end Saga
