import Saga.Coordinator.Service
import Saga.Proofs.Coordinator.Lineage
import Saga.Proofs.Coordinator.OneDirection

/-!
# Refused requests

`Coordinator.Refuses` lists why a start, a join or a request to end an action is refused. These are
all the errors there are, and a request that gets one is counted and does nothing else. One lemma
for each kind of request says so of the records (`start_error_iff`, `join_error_iff`,
`beginEnding_error_iff`), and from these it follows for whatever is built on them. As a refused
start uses up no number, the ids given in a run are numbered without gaps (`Floor.Run.given_eq`).
-/

set_option autoImplicit false

namespace Saga

theorem Slots.bound_isEmpty_iff {α : Type} {t : Slots α} :
    t.bound.isEmpty = true ↔ ∀ op, t.get? op = none := by
  simp [Slots.bound, Operation.mem_all]

namespace Coordinator

/-- A request that changes the records if it goes through. -/
inductive Request where
  | start (clientId : String) (parent : Option ActionId)
  | join (id : ActionId) (header : String) (recovery data : Option String)
  | finish (ending : Ending) (id : ActionId)

/-- The coordinator with one more request of its kind counted. -/
def counted (c : Coordinator) : Request → Coordinator
  | .start _ _ => { c with starts := c.starts + 1 }
  | .join _ _ _ _ => { c with joins := c.joins + 1 }
  | .finish ending _ => c.count ending

variable {c c' : Coordinator} {clientId header : String} {parent : Option ActionId} {id : ActionId}
  {recovery data : Option String} {ending : Ending} {e : RequestError}

/-- Why a request is refused. -/
inductive Refuses (c : Coordinator) : Request → RequestError → Prop
  | startsOff {clientId : String} {parent : Option ActionId} : c.failStart = true →
    Refuses c (.start clientId parent) (.unavailable "start disabled")
  | noParent {clientId : String} {p : ActionId} : c.failStart = false → c.get? p = none →
    Refuses c (.start clientId (some p)) (.notFound p)
  | joinsOff {id : ActionId} {header : String} {recovery data : Option String} :
    c.failJoin = true → Refuses c (.join id header recovery data) (.unavailable "join disabled")
  | nothingToJoin {id : ActionId} {header : String} {recovery data : Option String} :
    c.failJoin = false → c.get? id = none →
    Refuses c (.join id header recovery data) (.notFound id)
  | tooLate {id : ActionId} {header : String} {recovery data : Option String} {x : ActionRecord} :
    c.failJoin = false → c.get? id = some x → x.status ≠ .active →
    Refuses c (.join id header recovery data) (.rejected id .tooLate)
  | noLinks {id : ActionId} {header : String} {recovery data : Option String} {x : ActionRecord} :
    c.failJoin = false → c.get? id = some x → x.status = .active →
    (∀ op, (Links.ofHeader header).get? op = none) →
    Refuses c (.join id header recovery data) (.rejected id .noLinks)
  | nothingToEnd {ending : Ending} {id : ActionId} : c.get? id = none →
    Refuses c (.finish ending id) (.notFound id)
  | notActive {ending : Ending} {id : ActionId} {x : ActionRecord} : c.get? id = some x →
    x.status ≠ .active → Refuses c (.finish ending id) (.rejected id (.notActive x.status))

theorem get?_eq_none_iff : c.get? id = none ↔ c.actions.get? id = none := Option.map_eq_none_iff

theorem get?_eq_some_iff {x : ActionRecord} :
    c.get? id = some x ↔ ∃ entry, c.actions.get? id = some entry ∧ entry.record = x :=
  Option.map_eq_some_iff

/-! ## One kind of request at a time -/

theorem start_error_iff {now : Nat} : c.start now clientId parent = (.error e, c') ↔
    c.Refuses (.start clientId parent) e ∧ c' = c.counted (.start clientId parent) := by
  constructor
  · intro h
    simp only [start] at h
    split at h
    · rename_i hs
      cases h
      exact ⟨.startsOff hs, rfl⟩
    · rename_i hs
      split at h
      · rename_i p hp
        obtain ⟨rfl, hn⟩ := Option.filter_eq_some_iff.1 hp
        cases h
        refine ⟨.noParent (by simpa using hs) (get?_eq_none_iff.2 ?_), rfl⟩
        simpa [Table.contains] using hn
      · cases h
  · rintro ⟨h, rfl⟩
    cases h with
    | startsOff hs => simp [start, counted, hs]
    | @noParent clientId p hs hn =>
      have hp : c.actions.contains p = false := by simp [Table.contains, get?_eq_none_iff.1 hn]
      simp [start, counted, hs, Option.filter, hp]

theorem join_error_iff : c.join id header recovery data = (.error e, c') ↔
    c.Refuses (.join id header recovery data) e ∧
      c' = c.counted (.join id header recovery data) := by
  constructor
  · intro h
    simp only [join] at h
    split at h
    · rename_i hj
      cases h
      exact ⟨.joinsOff hj, rfl⟩
    · rename_i hj
      replace hj : c.failJoin = false := by simpa using hj
      split at h
      · rename_i hn
        cases h
        exact ⟨.nothingToJoin hj (get?_eq_none_iff.2 hn), rfl⟩
      · rename_i entry he
        have hx : c.get? id = some entry.record := get?_of_actions he
        split at h
        · rename_i ha
          cases h
          exact ⟨.tooLate hj hx ha, rfl⟩
        · rename_i ha
          split at h
          · rename_i hl
            cases h
            exact ⟨.noLinks hj hx (not_not.1 ha) (Slots.bound_isEmpty_iff.1 hl), rfl⟩
          · cases h
  · rintro ⟨h, rfl⟩
    cases h with
    | joinsOff hj => simp [join, counted, hj]
    | nothingToJoin hj hn => simp [join, counted, hj, get?_eq_none_iff.1 hn]
    | tooLate hj hx ha =>
      obtain ⟨entry, he, rfl⟩ := get?_eq_some_iff.1 hx
      simp [join, counted, hj, he, ha]
    | noLinks hj hx ha hl =>
      obtain ⟨entry, he, rfl⟩ := get?_eq_some_iff.1 hx
      have hl : (Links.ofHeader header).bound.isEmpty = true := Slots.bound_isEmpty_iff.2 hl
      simp [join, counted, hj, he, ha, hl]

theorem beginEnding_error_iff : (c.count ending).beginEnding ending id = (.error e, c') ↔
    c.Refuses (.finish ending id) e ∧ c' = c.counted (.finish ending id) := by
  have hs : (c.count ending).actions = c.actions := (count_same ending).actions
  constructor
  · intro h
    simp only [beginEnding, hs] at h
    split at h
    · rename_i hn
      cases h
      exact ⟨.nothingToEnd (get?_eq_none_iff.2 hn), rfl⟩
    · rename_i entry he
      split at h
      · rename_i ha
        cases h
        exact ⟨.notActive (get?_of_actions he) ha, rfl⟩
      · cases h
  · rintro ⟨h, rfl⟩
    cases h with
    | nothingToEnd hn => simp [beginEnding, counted, hs, get?_eq_none_iff.1 hn]
    | notActive hx ha =>
      obtain ⟨entry, he, rfl⟩ := get?_eq_some_iff.1 hx
      simp [beginEnding, counted, hs, he, ha]

end Coordinator

open Coordinator (Request)

/-! ## Clients -/

section

variable {σ : Type}

/-- Makes a request, with a time limit where it has one, to learn whether it goes through. -/
def Client.ask (client : Client σ) (limit : Duration) (s : σ) :
    Request → Except RequestError Unit × σ
  | .start clientId parent =>
    let (result, s) := client.start clientId limit parent s
    (result.map fun _ => (), s)
  | .join id header recovery data =>
    let (result, s) := client.join id limit header recovery data s
    (result.map fun _ => (), s)
  | .finish ending id =>
    let (result, s) := match ending with
      | .close => client.close id s
      | .cancel => client.cancel id s
    (result.map fun _ => (), s)

theorem Client.told_error_iff {ε α : Type} {x : Except ε α × σ} {f : α → Unit} {e : ε} {s : σ} :
    (x.1.map f, x.2) = (.error e, s) ↔ x = (.error e, s) := by
  rcases x with ⟨_ | a, s'⟩
  · rw [Except.map, Prod.mk.injEq, Prod.mk.injEq, Except.error.injEq, Except.error.injEq]
  · exact iff_of_false nofun nofun

variable {sys sys' : System (Engine σ)} {s s' : σ} {now : Nat} {limit : Duration} {q : Request}
  {e : RequestError}

/-- A request that concerns the records alone. -/
theorem System.records_error_iff {α : Type} {x : Except RequestError α × Coordinator}
    {c : Coordinator} {P : Prop} (hx : ∀ c', x = (.error e, c') ↔ P ∧ c' = c) :
    (x.1, { sys with coordinator := x.2 }, s) = (Except.error e, sys', s') ↔
      P ∧ sys' = { sys with coordinator := c } ∧ s' = s := by
  constructor
  · intro h
    rcases x with ⟨y, c'⟩
    cases h
    obtain ⟨hp, rfl⟩ := (hx c').1 rfl
    exact ⟨hp, rfl, rfl⟩
  · rintro ⟨hp, rfl, rfl⟩
    rw [(hx c).2 ⟨hp, rfl⟩]

variable [Journal σ] [Located σ]

theorem System.finish_error_iff {ending : Ending} {id : ActionId} :
    sys.finish now ending id s = (.error e, sys', s') ↔
      sys.coordinator.Refuses (.finish ending id) e ∧
        sys' = { sys with coordinator := sys.coordinator.counted (.finish ending id) } ∧
        s' = s := by
  constructor
  · intro h
    simp only [finish] at h
    split at h
    · rename_i error c hb
      obtain ⟨hr, rfl⟩ := Coordinator.beginEnding_error_iff.1 hb
      cases h
      exact ⟨hr, rfl, rfl⟩
    · split at h <;> cases h
  · rintro ⟨hr, rfl, rfl⟩
    have hb := Coordinator.beginEnding_error_iff.2 ⟨hr, rfl⟩
    simp only [finish, hb]

/-- What a client learns of a request that is refused, and what it finds afterwards. -/
theorem System.ask_error_iff :
    (System.client now).ask limit (sys, s) q = (.error e, sys', s') ↔
      sys.coordinator.Refuses q e ∧
        sys' = { sys with coordinator := sys.coordinator.counted q } ∧ s' = s := by
  cases q with
  | start clientId parent =>
    exact Client.told_error_iff.trans (records_error_iff fun c' => Coordinator.start_error_iff)
  | join id header recovery data =>
    exact Client.told_error_iff.trans (records_error_iff fun c' => Coordinator.join_error_iff)
  | finish ending id => cases ending <;> exact Client.told_error_iff.trans finish_error_iff

end

/-! ## Floors -/

namespace Floor

variable {f : Floor} {m : Move} {q : Request} {e : RequestError}

/-- The move makes the request, or is its first half, and the answer is an error. -/
inductive Refused (f : Floor) : Move → Request → RequestError → Prop
  | start {now : Nat} {clientId : String} {parent : Option ActionId} {e : RequestError} :
    (f.coordinator.start now clientId parent).1 = .error e →
    Refused f (.start now clientId parent) (.start clientId parent) e
  | join {id : ActionId} {header : String} {recovery data : Option String} {e : RequestError} :
    (f.coordinator.join id header recovery data).1 = .error e →
    Refused f (.join id header recovery data) (.join id header recovery data) e
  | enter {ending : Ending} {id : ActionId} {e : RequestError} :
    (f.enter ending id).1 = .error e → Refused f (.enter ending id) (.finish ending id) e

theorem play_refused (h : f.Refused m q e) :
    f.coordinator.Refuses q e ∧ f.play m = { f with coordinator := f.coordinator.counted q } := by
  cases h with
  | start h =>
    obtain ⟨hr, hc⟩ := Coordinator.start_error_iff.1 (Prod.ext h rfl)
    exact ⟨hr, congrArg (fun c => { f with coordinator := c }) hc⟩
  | join h =>
    obtain ⟨hr, hc⟩ := Coordinator.join_error_iff.1 (Prod.ext h rfl)
    exact ⟨hr, congrArg (fun c => { f with coordinator := c }) hc⟩
  | @enter ending id _ h =>
    rcases hb : (f.coordinator.count ending).beginEnding ending id with ⟨_ | plan, c⟩ <;>
      simp only [enter, hb] at h <;> cases h
    obtain ⟨hr, rfl⟩ := Coordinator.beginEnding_error_iff.1 hb
    exact ⟨hr, by rw [play, enter, hb]⟩

/-- The id that a move gives to a new action. -/
def given? (f : Floor) : Move → Option ActionId
  | .start now clientId parent => (f.coordinator.start now clientId parent).1.toOption
  | .join _ _ _ _ | .get _ | .enter _ _ | .leave _ _ _ | .failStart _ | .failJoin _ => none

/-- A move other than a start uses up no number. -/
theorem Alters.nextNumber_eq {c' : Coordinator} (h : f.Alters c' m)
    (hm : ∀ now clientId parent, m ≠ .start now clientId parent) :
    c'.nextNumber = f.coordinator.nextNumber := by
  cases h with
  | nothing hs => exact hs.nextNumber
  | started now clientId parent => exact absurd rfl (hm now clientId parent)
  | joined _ _ _ _ _ _ _ _ hs | recorded _ _ _ _ hs => exact hs.nextNumber

theorem Alters.baseUrl_eq {c' : Coordinator} (h : f.Alters c' m) :
    c'.baseUrl = f.coordinator.baseUrl := by
  cases h with
  | nothing hs => exact hs.baseUrl
  | started _ _ _ _ _ hs | joined _ _ _ _ _ _ _ _ hs | recorded _ _ _ _ hs => exact hs.baseUrl

/-- A number is used up exactly by a move that gives an id, which is the one with that number. -/
theorem Sound.given_cases (hf : f.Sound) (m : Move) :
    f.given? m = none ∧ (f.play m).coordinator.nextNumber = f.coordinator.nextNumber ∨
    f.given? m = some (f.coordinator.idOf f.coordinator.nextNumber) ∧
      (f.play m).coordinator.nextNumber = f.coordinator.nextNumber + 1 := by
  have ha := play_alters hf m
  cases m with
  | start now clientId parent =>
    rcases h : f.coordinator.start now clientId parent with ⟨x, c⟩
    simp only [given?, play, h]
    obtain ⟨⟨e, rfl⟩, hs⟩ | ⟨rfl, -, hs⟩ := Coordinator.start_cases h
    · exact .inl ⟨rfl, hs.nextNumber⟩
    · exact .inr ⟨rfl, hs.nextNumber⟩
  | join | get | enter | leave | failStart | failJoin =>
    refine .inl ⟨rfl, ha.nextNumber_eq ?_⟩
    intro now clientId parent h
    cases h

namespace Run

variable {r : Run} {n : Nat}

/-- The ids that were given to new actions before move `n`. -/
def given (r : Run) (n : Nat) : List ActionId :=
  (List.range n).filterMap fun k => r.moves[k]?.bind (r.before k).given?

theorem given_succ (r : Run) (n : Nat) :
    r.given (n + 1) = r.given n ++ (r.moves[n]?.bind (r.before n).given?).toList := by
  simp only [given, List.range_succ, List.filterMap_append, List.filterMap_cons,
    List.filterMap_nil]
  cases r.moves[n]?.bind (r.before n).given? <;> rfl

theorem baseUrl_eq (r : Run) (n : Nat) : (r.before n).coordinator.baseUrl = r.base :=
  r.follows.keeps (P := fun f => f.coordinator.baseUrl = r.base) (Nat.zero_le n) rfl
    fun k m _ _ _ hk => (play_alters (r.sound k) m).baseUrl_eq.trans hk

/-- As many numbers are used up as ids were given, and each id has its number. -/
theorem given_eq (r : Run) (n : Nat) :
    (r.before n).coordinator.nextNumber = (r.given n).length + 1 ∧
      r.given n =
        (List.range (r.given n).length).map fun i => ⟨s!"{r.base}/lra-coordinator/{i + 1}"⟩ := by
  induction n with
  | zero => exact ⟨rfl, rfl⟩
  | succ n ih =>
    obtain ⟨hnext, hgiven⟩ := ih
    rw [given_succ]
    cases hm : r.moves[n]? with
    | none =>
      rw [r.follows.of_none hm, Option.bind_none, Option.toList_none, List.append_nil]
      exact ⟨hnext, hgiven⟩
    | some m =>
      rw [r.follows.succ hm, Option.bind_some]
      obtain ⟨hid, hnum⟩ | ⟨hid, hnum⟩ := (r.sound n).given_cases m
      · rw [hid, hnum, Option.toList_none, List.append_nil]
        exact ⟨hnext, hgiven⟩
      · rw [hid, hnum, Option.toList_some, List.length_append, List.length_singleton,
          List.range_succ, List.map_append, ← hgiven, hnext]
        refine ⟨rfl, ?_⟩
        rw [Coordinator.idOf, baseUrl_eq]
        rfl

end Run

end Floor

/-! ## Offices -/

namespace Office

variable {σ : Type} [Journal σ] {o : Office σ} {m : Move σ} {q : Request} {e : RequestError}

/-- The move is one of the floor, and what it asks for there is refused. -/
def Refused (o : Office σ) (m : Move σ) (q : Request) (e : RequestError) : Prop :=
  ∃ move, m.onFloor? = some move ∧ o.floor.Refused move q e

theorem play_refused (h : o.Refused m q e) :
    o.coordinator.Refuses q e ∧ o.play m = { o with coordinator := o.coordinator.counted q } := by
  obtain ⟨move, hm, hr⟩ := h
  obtain ⟨hcause, hplay⟩ := Floor.play_refused hr
  obtain ⟨hfloor, us, ho⟩ := play_onFloor (o := o) hm
  -- nobody has got underway on the floor, so no round begins
  have hlen : (o.play m).floor.underway.length = o.floor.underway.length := by rw [hfloor, hplay]
  obtain rfl : us = [] := by simpa [ho, floor] using hlen
  refine ⟨hcause, ?_⟩
  rw [ho, hplay, List.map_nil, List.append_nil]
  rfl

end Office

/-- **A refused request changes nothing but its count.** A client gets an error exactly if there is
a cause for it (`Coordinator.Refuses`), and then the system is as before, the engine and the state
that callbacks act on included, but for the one counter. The same holds between any other requests,
whether or not the coordinator drives an engine; in an office no round begins, and what was asked
stays as it is. So the ids that a run gives to new actions are numbered from 1 on without gaps. -/
theorem refused_changes_nothing {σ : Type} [Journal σ] [Located σ] :
    (∀ (now : Nat) (limit : Duration) (q : Request) (sys sys' : System (Engine σ)) (s s' : σ)
        (e : RequestError),
      (System.client now).ask limit (sys, s) q = (.error e, sys', s') ↔
        sys.coordinator.Refuses q e ∧
          sys' = { sys with coordinator := sys.coordinator.counted q } ∧ s' = s) ∧
    (∀ (r : Floor.Run) (n : Nat) (m : Floor.Move) (q : Request) (e : RequestError),
      r.moves[n]? = some m → (r.before n).Refused m q e →
      (r.before n).coordinator.Refuses q e ∧
        r.before (n + 1) =
          { r.before n with coordinator := (r.before n).coordinator.counted q }) ∧
    (∀ (r : Office.Run σ) (n : Nat) (m : Office.Move σ) (q : Request) (e : RequestError),
      r.moves[n]? = some m → (r.before n).Refused m q e →
      (r.before n).coordinator.Refuses q e ∧
        r.before (n + 1) =
          { r.before n with coordinator := (r.before n).coordinator.counted q }) ∧
    ∀ (r : Floor.Run) (n : Nat),
      r.given n =
        (List.range (r.given n).length).map fun i => ⟨s!"{r.base}/lra-coordinator/{i + 1}"⟩ := by
  refine ⟨?_, ?_, ?_, ?_⟩
  · intro now limit q sys sys' s s' e
    exact System.ask_error_iff
  · intro r n m q e hn h
    rw [r.follows.succ hn]
    exact Floor.play_refused h
  · intro r n m q e hn h
    rw [r.follows.succ hn]
    exact Office.play_refused h
  · intro r n
    exact (r.given_eq n).2

end Saga
