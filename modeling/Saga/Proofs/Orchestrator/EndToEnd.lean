import Mathlib.Data.List.Forall2
import Saga.Proofs.Coordinator.Calm
import Saga.Proofs.Coordinator.Floor
import Saga.Proofs.Links.Header
import Saga.Proofs.Orchestrator.EngineCalls

/-!
# From the names of owners to the calls of their callbacks

A run in one process: the orchestrator looks an owner up, advertises links, and the coordinator that
reads them asks the engine with the same registry. Up to the end of the action the coordinator has
those enlisted who were joined, with the links that they advertise (`System.Enrolled`). Starting
establishes this (`Enrolled.of_start`), each join adds one (`Enrolled.join`), and the observer and
the work keep it (`Enrolled.spares`); what the ending asks is then read off the links
(`Enrolled.asks`). So everybody named in the run who has a callback is asked once for each time that
he is named, and in this order (`Orchestrator.asks_through_links`).
-/

set_option autoImplicit false

namespace Saga

variable {σ ε α : Type}

namespace Registry

def Knows (r : Registry σ) (owner : String) : Prop := ∃ d, r.lookup owner = .ok d

/-- The calls for an operation of those owners who have a callback for it. -/
def callsFor (r : Registry σ) (op : Operation) (id : ActionId) (parent : Option ActionId)
    (owners : List String) : List Call :=
  (owners.filter (r.binds op)).map fun owner => ⟨owner, op, id, parent⟩

/-- The links are those that the owner advertises. -/
def Advertises (r : Registry σ) (base owner : String) (x : Enlistment) : Prop :=
  owner ≠ "" ∧ ∃ d, r.lookup owner = .ok d ∧ x.links = Links.ofDescriptor d base

variable {r : Registry σ} {base owner : String} {x : Enlistment} {p : Pass}

/-- The link for an operation leads back to the owner, if he has a callback for it. -/
theorem Advertises.call? (h : r.Advertises base owner x) (hr : r.Built) :
    p.call? x =
      if r.binds p.ending.operation owner then some ⟨owner, p.ending.operation, p.id, p.parent⟩
      else none := by
  obtain ⟨hne, d, hl, hx⟩ := h
  obtain ⟨ho, -⟩ := hr.of_lookup hl
  rw [binds_of_lookup hl, Pass.call?, hx, Links.get?_ofDescriptor, ho]
  split
  · simp [Links.ofUrl?_urlOf base p.ending.operation hne]
  · rfl

theorem calls_of_advertises {owners : List String} {xs : List Enlistment}
    (h : List.Forall₂ (r.Advertises base) owners xs) (hr : r.Built) :
    p.calls xs = r.callsFor p.ending.operation p.id p.parent owners := by
  induction h with
  | nil => rfl
  | @cons owner x owners xs hx _ ih =>
    have hc := hx.call? hr (p := p)
    rw [Pass.calls, callsFor]
    cases hb : r.binds p.ending.operation owner with
    | true =>
      rw [hb, if_pos rfl] at hc
      rw [List.filterMap_cons_some hc, List.filter_cons_of_pos hb, List.map_cons]
      exact congrArg _ ih
    | false =>
      rw [hb, if_neg Bool.false_ne_true] at hc
      rw [List.filterMap_cons_none hc, List.filter_cons_of_neg (by simp [hb])]
      exact ih

end Registry

/-! ## The coordinator's side -/

namespace Coordinator

variable {c c' : Coordinator} {id : ActionId} {e : ActionEntry}

theorem get?_start {now : Nat} {clientId : String} {parent : Option ActionId}
    (h : c.start now clientId parent = (.ok id, c')) :
    c'.failJoin = c.failJoin ∧ ∃ r : ActionRecord, c'.actions.get? id = some ⟨r, []⟩ ∧
      r.status = .active ∧ r.parent = parent := by
  simp only [start] at h
  split at h
  · cases h
  · split at h
    · cases h
    · cases h
      exact ⟨rfl, _, by rw [Table.get?_insert, if_pos rfl], rfl, rfl⟩

theorem beginEnding_active (he : c.actions.get? id = some e) (ha : e.record.status = .active)
    (ending : Ending) :
    ((c.count ending).beginEnding ending id).1 = .ok ⟨e.record.parent, e.enlisted⟩ := by
  have hc : (c.count ending).actions.get? id = some e := by cases ending <;> exact he
  simp [beginEnding, hc, ha]

end Coordinator

namespace System

/-- What happens leaves the action and what ending it takes as they are. -/
structure Spares (id : ActionId) (sys sys' : System (Engine σ)) : Prop where
  wired : sys'.wired = sys.wired
  registry : sys'.engine.registry = sys.engine.registry
  joins : sys'.coordinator.failJoin = sys.coordinator.failJoin
  entry : sys'.coordinator.actions.get? id = sys.coordinator.actions.get? id

/-- The system is ready for runs with participants of the registry. -/
structure Serves (sys : System (Engine σ)) (registry : Registry σ) : Prop where
  wired : sys.wired = true
  catalogue : sys.engine.registry = registry
  joins : sys.coordinator.failJoin = false

/-- The action is active, and these owners are enlisted with the links that they advertise. -/
structure Enrolled (registry : Registry σ) (base : String) (id : ActionId)
    (parent : Option ActionId) (owners : List String) (sys : System (Engine σ)) : Prop
    extends Serves sys registry where
  entry : ∃ e, sys.coordinator.actions.get? id = some e ∧ e.record.status = .active ∧
    e.record.parent = parent ∧ List.Forall₂ (registry.Advertises base) owners e.enlisted

variable {registry : Registry σ} {base : String} {id : ActionId} {parent : Option ActionId}
  {owners : List String} {sys sys' : System (Engine σ)}

theorem Enrolled.of_start (h : sys.Serves registry) {now : Nat} {clientId : String}
    (hs : sys.start now clientId parent = (.ok id, sys')) :
    sys'.Enrolled registry base id parent [] := by
  rcases hc : sys.coordinator.start now clientId parent with ⟨x, c⟩
  simp only [start, hc] at hs
  cases hs
  obtain ⟨hj, r, hr, ha, hp⟩ := Coordinator.get?_start hc
  exact ⟨⟨h.wired, h.catalogue, hj.trans h.joins⟩, _, hr, ha, hp, .nil⟩

theorem Enrolled.spares (h : sys.Enrolled registry base id parent owners)
    (hs : Spares id sys sys') : sys'.Enrolled registry base id parent owners := by
  obtain ⟨e, he, hrest⟩ := h.entry
  exact ⟨⟨hs.wired.trans h.wired, hs.registry.trans h.catalogue, hs.joins.trans h.joins⟩,
    e, hs.entry.trans he, hrest⟩

theorem Enrolled.join (h : sys.Enrolled registry base id parent owners) (hr : registry.Built)
    (hb : ',' ∉ base.toList ∧ ';' ∉ base.toList) {owner : String} {d : Descriptor σ}
    (hne : owner ≠ "") (hl : registry.lookup owner = .ok d) (recovery : Option String) :
    ∃ url sys', sys.join id (Links.ofDescriptor d base).toHeader recovery none = (.ok url, sys') ∧
      sys'.Enrolled registry base id parent (owners ++ [owner]) := by
  obtain ⟨e, he, ha, hp, hall⟩ := h.entry
  obtain ⟨-, op, hop⟩ := hr.of_lookup hl
  have hlinks : Links.ofHeader (Links.ofDescriptor d base).toHeader = Links.ofDescriptor d base :=
    Links.ofHeader_ofDescriptor d hb
  have hbound : (Links.ofHeader (Links.ofDescriptor d base).toHeader).bound.isEmpty = false := by
    have hm : op ∈ (Links.ofDescriptor d base).bound := by
      simp [Slots.bound, Operation.mem_all, Links.get?_ofDescriptor, hop]
    rw [hlinks]
    cases hbs : (Links.ofDescriptor d base).bound with
    | nil => rw [hbs] at hm; cases hm
    | cons => rfl
  obtain ⟨url, hx, hj, hget⟩ := Coordinator.get?_join h.joins he ha hbound recovery none
  refine ⟨url, { sys with coordinator := (sys.coordinator.join id _ recovery none).2 }, ?_,
    ⟨h.wired, h.catalogue, hj⟩, _, hget, ha, hp, ?_⟩
  · simp only [System.join, ← hx]
  · exact List.rel_append hall (.cons ⟨hne, d, hl, hlinks⟩ .nil)

variable [Journal σ] [Located σ]

/-- Ending the action asks those who have a callback. -/
theorem Enrolled.asks (h : sys.Enrolled registry base id parent owners) (hr : registry.Built)
    (hc : registry.Calm) (now : Nat) (ending : Ending) (s : σ) :
    (sys.asks now ending id s).map Prod.fst =
      registry.callsFor ending.operation id parent owners := by
  obtain ⟨e, he, ha, rfl, hall⟩ := h.entry
  have hb := Coordinator.beginEnding_active he ha ending
  rcases hx : (sys.coordinator.count ending).beginEnding ending id with ⟨x, c⟩
  rw [hx] at hb
  obtain rfl : x = .ok ⟨e.record.parent, e.enlisted⟩ := hb
  rw [asks_of_beginEnding sys now ending id s h.wired hx, Engine.endingEngine_server,
    Pass.run_calm _ _ (by rw [h.catalogue]; exact hc), Registry.calls_of_advertises hall hr]

end System

/-! ## The orchestrator's side -/

namespace Orchestrator

variable [Journal σ] [Located σ] (now : Nat) {observer : Observer (System (Engine σ) × σ)}
  (text : ε → String) {o : Orchestrator} {job : Job (System (Engine σ) × σ) σ ε α}
  {sys : System (Engine σ)}

/-- A first run with participants that do not break down, on a system that serves them. Owners have
names, the base holds no separator of links, and neither the observer nor the work touches the
action or the wiring. -/
structure Staged (observer : Observer (System (Engine σ) × σ)) (o : Orchestrator)
    (job : Job (System (Engine σ) × σ) σ ε α) (sys : System (Engine σ)) : Prop where
  starting : o.state = .starting
  base : ',' ∉ o.config.baseUrl.toList ∧ ';' ∉ o.config.baseUrl.toList
  named : ∀ owner ∈ job.owners, owner ≠ ""
  built : job.registry.Built
  calm : job.registry.Calm
  serves : sys.Serves job.registry
  watches : ∀ id station x, System.Spares id x.1 (observer.notify station x).1
  works : ∀ id chain x, System.Spares id x.1 (job.work id chain x).2.2.1

/-- Those of a list who are known are enlisted before the rest is looked at. -/
theorem Staged.enlist_append (h : o.Staged observer job sys) {id : ActionId}
    {parent : Option ActionId} (before rest : List String) (hk : ∀ x ∈ before, job.registry.Knows x)
    (hne : ∀ x ∈ before, x ≠ "") {done : List String} {x : System (Engine σ) × σ}
    (he : x.1.Enrolled job.registry o.config.baseUrl id parent done) :
    ∃ y : System (Engine σ) × σ,
      y.1.Enrolled job.registry o.config.baseUrl id parent (done ++ before) ∧
      enlist (ε := ε) (inProcess now observer) job.registry o.config id (before ++ rest) x =
        enlist (inProcess now observer) job.registry o.config id rest y := by
  induction before generalizing done x with
  | nil => exact ⟨x, by rwa [List.append_nil], rfl⟩
  | cons owner before ih =>
    obtain ⟨d, hl⟩ := hk owner List.mem_cons_self
    obtain ⟨url, sys', hj, he'⟩ := he.join h.built h.base (hne owner List.mem_cons_self) hl
      o.config.recoveryUrl
    obtain ⟨y, hy, hrest⟩ := ih (fun x hx => hk x (List.mem_cons_of_mem _ hx))
      (fun x hx => hne x (List.mem_cons_of_mem _ hx))
      (he'.spares (h.watches id (.enlisted id owner url) (sys', x.2)))
    refine ⟨y, by rwa [List.append_assoc] at hy, ?_⟩
    rw [← hrest, List.cons_append, enlist]
    simp only [hl, System.client, hj]

/-- After the start nobody is enlisted yet. -/
theorem Staged.enrolled_start (h : o.Staged observer job sys) {s : σ} {id : ActionId}
    {sys' : System (Engine σ)}
    (hs : sys.start now o.config.clientId (job.parent.or job.scopes.peek) = (.ok id, sys')) :
    (System.client now).start o.config.clientId o.config.timeout (job.parent.or job.scopes.peek)
        (sys, s) = (.ok id, sys', s) ∧
      (observer.notify (.started id (job.parent.or job.scopes.peek)) (sys', s)).1.Enrolled
        job.registry o.config.baseUrl id (job.parent.or job.scopes.peek) [] := by
  have he : sys'.Enrolled job.registry o.config.baseUrl id (job.parent.or job.scopes.peek) [] :=
    .of_start h.serves hs
  exact ⟨by simp only [System.client, hs], he.spares (h.watches id _ (sys', s))⟩

/-- When everybody named is known, the run gets to the work, and they are all enlisted. -/
theorem Staged.launched (h : o.Staged observer job sys) {s : σ} {id : ActionId}
    {sys' : System (Engine σ)}
    (hs : sys.start now o.config.clientId (job.parent.or job.scopes.peek) = (.ok id, sys'))
    (hall : ∀ owner ∈ job.owners, job.registry.Knows owner) :
    ∃ y : System (Engine σ) × σ,
      y.1.Enrolled job.registry o.config.baseUrl id (job.parent.or job.scopes.peek) job.owners ∧
      launch (ε := ε) (inProcess now observer) job.registry o job.parent job.owners
          job.scopes.chain (sys, s) =
        (.ok id, { o with action := some id, state := .running }, job.scopes.chain.push id, y) := by
  obtain ⟨hstart, he⟩ := h.enrolled_start now hs (s := s)
  obtain ⟨y, hy, henl⟩ := h.enlist_append (ε := ε) now job.owners [] hall h.named he
  rw [List.append_nil] at henl
  have hstart' : (System.client now).start o.config.clientId o.config.timeout
      (job.parent.or job.scopes.chain.peek) (sys, s) = (.ok id, sys', s) := hstart
  have henl' : enlist (ε := ε) (inProcess now observer) job.registry o.config id job.owners
      (observer.notify (.started id (job.parent.or job.scopes.chain.peek)) (sys', s)) =
        (.ok (), y) := henl
  exact ⟨y, hy, by simp [launch, start, enlistAll, h.starting, hstart', henl']⟩

/-- At the first who is not known, those before him are enlisted and nobody else is. -/
theorem Staged.halted (h : o.Staged observer job sys) {s : σ} {id : ActionId}
    {sys' : System (Engine σ)} {before after : List String} {owner : String}
    (hs : sys.start now o.config.clientId (job.parent.or job.scopes.peek) = (.ok id, sys'))
    (hsplit : job.owners = before ++ owner :: after)
    (hk : ∀ x ∈ before, job.registry.Knows x) (hn : ¬ job.registry.Knows owner) :
    ∃ (y : System (Engine σ) × σ) (e : RunError ε),
      y.1.Enrolled job.registry o.config.baseUrl id (job.parent.or job.scopes.peek) before ∧
      enlist (inProcess now observer) job.registry o.config id job.owners
        (observer.notify (.started id (job.parent.or job.scopes.peek)) (sys', s)) =
          (.error e, y) := by
  obtain ⟨-, he⟩ := h.enrolled_start now hs (s := s)
  have hne : ∀ x ∈ before, x ≠ "" := fun x hx => h.named x (hsplit ▸ List.mem_append_left _ hx)
  obtain ⟨y, hy, henl⟩ := h.enlist_append (ε := ε) now before (owner :: after) hk hne he
  cases hl : job.registry.lookup owner with
  | ok d => exact absurd ⟨d, hl⟩ hn
  | error e =>
    refine ⟨y, .enlist owner (.unknownOwner e), hy, ?_⟩
    rw [hsplit, henl, enlist]
    simp only [hl]

/-- **From names to calls.** When everybody named is known, the calls that the run makes are one for
each who has a callback to complete or, if the work failed, to compensate. When somebody is not
known, they are one for each before him who has a callback to compensate. They are made in the order
of the names, and there are no others. -/
theorem asks_through_links (h : o.Staged observer job sys) (s : σ) {id : ActionId}
    (hs : (sys.start now o.config.clientId (job.parent.or job.scopes.peek)).1 = .ok id) :
    ((∀ owner ∈ job.owners, job.registry.Knows owner) →
      ∃ o' chain y, launch (ε := ε) (inProcess now observer) job.registry o job.parent job.owners
          job.scopes.chain (sys, s) = (.ok id, o', chain, y) ∧
        (∀ value, (job.work id chain y).1 = .ok value →
          (o.engineCalls now observer text job (sys, s)).map Prod.fst =
            job.registry.callsFor .complete id (job.parent.or job.scopes.peek) job.owners) ∧
        ∀ e, (job.work id chain y).1 = .error e →
          (o.engineCalls now observer text job (sys, s)).map Prod.fst =
            job.registry.callsFor .compensate id (job.parent.or job.scopes.peek) job.owners) ∧
    ∀ before owner after, job.owners = before ++ owner :: after →
      (∀ x ∈ before, job.registry.Knows x) → ¬ job.registry.Knows owner →
        (o.engineCalls now observer text job (sys, s)).map Prod.fst =
          job.registry.callsFor .compensate id (job.parent.or job.scopes.peek) before := by
  obtain ⟨hwork, hfail⟩ := engineCalls_spec now observer text o job (sys, s)
  rcases hx : sys.start now o.config.clientId (job.parent.or job.scopes.peek) with ⟨answer, sys'⟩
  obtain rfl : answer = .ok id := by rwa [hx] at hs
  refine ⟨fun hall => ?_, fun before owner after hsplit hk hn => ?_⟩
  · obtain ⟨y, hy, hl⟩ := h.launched (ε := ε) now hx (s := s) hall
    obtain ⟨z, hz, hcalls⟩ := hwork _ _ _ _ hl
    -- neither the work nor the observer has touched the action since
    have hez : z.1.Enrolled job.registry o.config.baseUrl id (job.parent.or job.scopes.peek)
        job.owners := by
      have hw := hy.spares (h.works id (job.scopes.chain.push id) y)
      rcases hz with rfl | ⟨e, -, rfl⟩
      · exact hw
      · exact hw.spares (h.watches ..)
    have hasks := fun ending => hez.asks h.built h.calm now ending z.2
    refine ⟨_, _, y, hl, fun value hv => ?_, fun e hv => ?_⟩
    · rw [hcalls, hv]
      exact hasks .close
    · rw [hcalls, hv]
      exact hasks .cancel
  · obtain ⟨y, e, hy, henl⟩ := h.halted (ε := ε) now hx (s := s) hsplit hk hn
    obtain ⟨hstart, -⟩ := h.enrolled_start now hx (s := s)
    rw [hfail id (sys', s) y e h.starting hstart henl]
    exact hy.asks h.built h.calm now .cancel y.2

/-! ## Names that are no part of a URL as they are -/

/-- A participant that answers every request to complete. -/
def willing (owner : String) : Descriptor Scene := Scene.answering owner (.answered .unit)

def oddNames : Registry Scene :=
  (Registry.empty.put (willing "rail/air")).put (willing "50% off, ü; <x>")

theorem oddNames_built : oddNames.Built := by
  have hd : ∀ owner, Descriptor.ofDeclaration
      ⟨owner, .shared,
        [(.complete, ⟨.ofAction .unit, fun _ (s : Scene) => (.answered .unit, s)⟩)]⟩ =
        .ok (some (willing owner)) := fun _ => rfl
  exact (Registry.Built.empty.put _ (hd _)).put _ (hd _)

theorem oddNames_calm : oddNames.Calm := by
  intro owner d op c hl hc args s text
  obtain ⟨name, rfl⟩ : ∃ name, d = willing name := by
    simp only [oddNames, Registry.lookup_put] at hl
    split at hl
    · cases hl
      exact ⟨_, rfl⟩
    · split at hl
      · cases hl
        exact ⟨_, rfl⟩
      · cases hl
  cases op <;> cases hc
  nofun

/-- They are all named, one of them twice, and the work succeeds. -/
def oddJob : Job (System (Engine Scene) × Scene) Scene String Unit where
  registry := oddNames
  parent := none
  owners := ["rail/air", "50% off, ü; <x>", "rail/air"]
  work := fun _ chain x => (.ok (), chain, x)
  scopes := []

def oddSystem : System (Engine Scene) := ⟨.ofRegistry oddNames, .ofBaseUrl "http://coord", true⟩

theorem oddJob_staged : (default : Orchestrator).Staged .silent oddJob oddSystem where
  starting := rfl
  base := by decide
  named := by decide
  built := oddNames_built
  calm := oddNames_calm
  serves := ⟨rfl, rfl, rfl⟩
  watches _ _ _ := ⟨rfl, rfl, rfl, rfl⟩
  works _ _ _ := ⟨rfl, rfl, rfl, rfl⟩

theorem oddJob_asks :
    (default : Orchestrator).Staged .silent oddJob oddSystem ∧
    ((default : Orchestrator).engineCalls 0 .silent id oddJob (oddSystem, Scene.quiet)).map
        Prod.fst =
      oddJob.owners.map fun owner =>
        ⟨owner, .complete, ⟨"http://coord/lra-coordinator/1"⟩, none⟩ := by
  have hs : (oddSystem.start 0 (default : Orchestrator).config.clientId none).1 =
      .ok ⟨"http://coord/lra-coordinator/1"⟩ := rfl
  have hk : ∀ owner ∈ oddJob.owners, oddJob.registry.Knows owner := by
    intro owner ho
    simp only [oddJob, List.mem_cons, List.not_mem_nil, or_false] at ho
    rcases ho with rfl | rfl | rfl <;> exact ⟨_, rfl⟩
  obtain ⟨_, _, _, -, hok, -⟩ := (asks_through_links 0 id oddJob_staged Scene.quiet hs).1 hk
  refine ⟨oddJob_staged, (hok () rfl).trans ?_⟩
  decide +kernel

end Orchestrator

end Saga
