import Saga.Coordinator.Ending
import Saga.Proofs.Texts

/-!
# Requests in any order

A `Floor` is a coordinator with the requests to end actions that have got past their first half:
they have taken their action out of `active`, and its participants are being asked. Requests come
in any order, and between the two halves of one that ends an action there may be any others
(`Floor.Move`); without others in between, the two halves are `System.finish`
(`System.finish_floor`). What a move can do is nothing, or one of the four things that
`Floor.Change` lists (`Floor.play_change`); what it makes of the records, by the move that it is,
says `Floor.Alters` (`Floor.play_alters`).
-/

set_option autoImplicit false

namespace Saga

/-! ## What the requests do to the records -/

namespace Coordinator

variable {c c' : Coordinator} {id : ActionId}

theorem idOf_inj {m n : Nat} (h : c.idOf m = c.idOf n) : m = n :=
  Text.toDigits_inj (by simpa [idOf] using congrArg (fun id : ActionId => id.text.toList) h)

/-- The records are the same. -/
structure Same (c c' : Coordinator) : Prop where
  baseUrl : c'.baseUrl = c.baseUrl
  nextNumber : c'.nextNumber = c.nextNumber
  actions : c'.actions = c.actions

/-- The entry of `id` is `e` now, the others are the same, and `n` numbers are used up. -/
structure Sets (c c' : Coordinator) (id : ActionId) (e : ActionEntry) (n : Nat) : Prop where
  baseUrl : c'.baseUrl = c.baseUrl
  nextNumber : c'.nextNumber = c.nextNumber + n
  actions : c'.actions = c.actions.insert id e

theorem idOf_congr (h : c'.baseUrl = c.baseUrl) (m : Nat) : c'.idOf m = c.idOf m := by
  rw [idOf, h, idOf]

theorem Sets.get? {e : ActionEntry} {n : Nat} (h : c.Sets c' id e n) (id' : ActionId) :
    c'.actions.get? id' = if id = id' then some e else c.actions.get? id' := by
  rw [h.actions, Table.get?_insert]

theorem count_same (ending : Ending) : c.Same (c.count ending) := by
  cases ending <;> exact ⟨rfl, rfl, rfl⟩

theorem Same.trans {c'' : Coordinator} (h : c.Same c') (h' : c'.Same c'') : c.Same c'' :=
  ⟨h'.baseUrl.trans h.baseUrl, h'.nextNumber.trans h.nextNumber, h'.actions.trans h.actions⟩

theorem Same.sets {c'' : Coordinator} {e : ActionEntry} {n : Nat} (h : c.Same c')
    (h' : c'.Sets c'' id e n) : c.Sets c'' id e n :=
  ⟨h'.baseUrl.trans h.baseUrl, h.nextNumber ▸ h'.nextNumber, h.actions ▸ h'.actions⟩

theorem start_cases {now : Nat} {clientId : String} {parent : Option ActionId}
    {x : Except RequestError ActionId} (h : c.start now clientId parent = (x, c')) :
    (∃ e, x = .error e) ∧ c.Same c' ∨
    x = .ok (c.idOf c.nextNumber) ∧ (∀ p ∈ parent, c.actions.contains p = true) ∧
      c.Sets c' (c.idOf c.nextNumber)
        ⟨⟨c.idOf c.nextNumber, clientId, .active, parent, parent.isNone, now, none⟩, []⟩ 1 := by
  simp only [start] at h
  split at h
  · cases h
    exact .inl ⟨⟨_, rfl⟩, rfl, rfl, rfl⟩
  · split at h
    · cases h
      exact .inl ⟨⟨_, rfl⟩, rfl, rfl, rfl⟩
    · rename_i hp
      cases h
      refine .inr ⟨rfl, ?_, rfl, rfl, rfl⟩
      rintro p rfl
      simpa [Option.filter] using hp

theorem join_cases {header : String} {recovery data : Option String}
    {x : Except RequestError String} (h : c.join id header recovery data = (x, c')) :
    (∃ e, x = .error e) ∧ c.Same c' ∨
    ∃ e url, url = recoveryUrl (recovery.getD c.baseUrl) (c.joins + 1) ∧ x = .ok url ∧
      c.actions.get? id = some e ∧ e.record.status = .active ∧
      c.Sets c' id { e with enlisted := e.enlisted ++ [⟨Links.ofHeader header, url, data⟩] } 0 := by
  simp only [join] at h
  split at h
  · cases h
    exact .inl ⟨⟨_, rfl⟩, rfl, rfl, rfl⟩
  · split at h
    · cases h
      exact .inl ⟨⟨_, rfl⟩, rfl, rfl, rfl⟩
    · rename_i e he
      split at h
      · cases h
        exact .inl ⟨⟨_, rfl⟩, rfl, rfl, rfl⟩
      · rename_i ha
        split at h
        · cases h
          exact .inl ⟨⟨_, rfl⟩, rfl, rfl, rfl⟩
        · cases h
          exact .inr ⟨e, _, rfl, rfl, he, by simpa using ha, rfl, rfl, rfl⟩

/-- A start goes through if starts are not refused and the parent is known. -/
theorem start_ok (hs : c.failStart = false) {parent : Option ActionId}
    (hp : ∀ p ∈ parent, c.actions.contains p = true) (now : Nat) (clientId : String) :
    (c.start now clientId parent).1 = .ok (c.idOf c.nextNumber) := by
  have hknown : parent.filter (fun p => !c.actions.contains p) = none := by
    cases parent with
    | none => rfl
    | some p => simp [hp p rfl]
  simp only [start, hs, hknown]
  rfl

/-- A join goes through if joins are not refused, the action is active, and there is some link. -/
theorem get?_join {e : ActionEntry} (hj : c.failJoin = false) (he : c.actions.get? id = some e)
    (ha : e.record.status = .active) {header : String}
    (hl : (Links.ofHeader header).bound.isEmpty = false) (recovery data : Option String) :
    ∃ url, (c.join id header recovery data).1 = .ok url ∧
      (c.join id header recovery data).2.failJoin = false ∧
      (c.join id header recovery data).2.actions.get? id =
        some { e with enlisted := e.enlisted ++ [⟨Links.ofHeader header, url, data⟩] } := by
  simp [join, hj, he, ha, hl, Table.get?_insert]

theorem beginEnding_cases {ending : Ending} {x : Except RequestError EndingPlan}
    (h : c.beginEnding ending id = (x, c')) :
    c.Same c' ∧ (c.actions.get? id = none ∧ x = .error (.notFound id) ∨
      ∃ e, c.actions.get? id = some e ∧ e.record.status ≠ .active ∧
        x = .error (.rejected id (.notActive e.record.status))) ∨
    ∃ e, c.actions.get? id = some e ∧ e.record.status = .active ∧
      x = .ok ⟨e.record.parent, e.enlisted⟩ ∧
      c.Sets c' id { e with record.status := ending.transient } 0 := by
  simp only [beginEnding] at h
  split at h
  · rename_i he
    cases h
    exact .inl ⟨⟨rfl, rfl, rfl⟩, .inl ⟨he, rfl⟩⟩
  · rename_i e he
    split at h
    · rename_i ha
      cases h
      exact .inl ⟨⟨rfl, rfl, rfl⟩, .inr ⟨e, he, ha, rfl⟩⟩
    · rename_i ha
      cases h
      exact .inr ⟨e, he, by simpa using ha, rfl, rfl, rfl, rfl⟩

end Coordinator

/-! ## The verdict of a pass -/

/-- The statuses that an ending can come to. -/
def Ending.Verdict (ending : Ending) (st : ActionStatus) : Prop :=
  st = ending.transient ∨ st = ending.done ∨ st = ending.failed

theorem Ending.Verdict.ne_active {ending : Ending} {st : ActionStatus} (h : ending.Verdict st) :
    st ≠ .active := by
  rcases h with rfl | rfl | rfl <;> cases ending <;> simp [transient, done, failed]

namespace Pass

variable {τ : Type} [Journal τ] (p : Pass) (serve : Server τ)

theorem verdict_tally {ending : Ending} {st : ActionStatus} (h : ending.Verdict st)
    (t : Termination) : ending.Verdict (tally ending st t) := by
  unfold tally
  split
  · split
    · exact .inl rfl
    · exact h
  · split
    · exact .inr (.inr rfl)
    · exact h

theorem verdict_ask (enlistment : Enlistment) {st st' : ActionStatus} (h : p.ending.Verdict st)
    (t : τ) (ha : (p.ask serve enlistment st t).1 = some st') : p.ending.Verdict st' := by
  unfold ask at ha
  split at ha
  · cases ha
    exact h
  · split at ha
    · cases ha
      exact .inr (.inr rfl)
    · split at ha
      · cases ha
      · cases ha
        exact verdict_tally h _
      · cases ha
        exact .inr (.inr rfl)

theorem verdict_askAll (enlisted : List Enlistment) {st st' : ActionStatus}
    (h : p.ending.Verdict st) (t : τ) (ha : (p.askAll serve enlisted st t).1 = some st') :
    p.ending.Verdict st' := by
  induction enlisted generalizing st t with
  | nil =>
    cases ha
    exact h
  | cons enlistment enlisted ih =>
    rcases hx : p.ask serve enlistment st t with ⟨_ | st₁, t₁⟩
    · simp [askAll, hx] at ha
    · simp only [askAll, hx] at ha
      exact ih (p.verdict_ask serve enlistment h t (by rw [hx])) t₁ ha

theorem verdict_run (enlisted : List Enlistment) (t : τ) :
    p.ending.Verdict (p.run serve enlisted t).1 := by
  unfold run
  rcases ha : p.askAll serve enlisted p.ending.done t with ⟨_ | st, t'⟩
  · exact .inr (.inr rfl)
  · exact p.verdict_askAll serve enlisted (.inr (.inl rfl)) t (by rw [ha])

end Pass

/-! ## Floors -/

/-- A request to end an action that has got past its first half. -/
structure Underway where
  ending : Ending
  id : ActionId
  plan : Coordinator.EndingPlan

/-- Somebody who serves the calls of a pass, in a state. -/
structure Backing where
  {τ : Type}
  [journal : Journal τ]
  serve : Server τ
  state : τ

instance (b : Backing) : Journal b.τ := b.journal

/-- The status that the request comes to; nobody is asked when there is nobody to serve calls. -/
def Underway.verdict (u : Underway) : Option Backing → ActionStatus
  | none => u.ending.done
  | some b => (Pass.run ⟨u.ending, u.id, u.plan.parent⟩ b.serve u.plan.enlisted b.state).1

theorem Underway.verdict_verdict (u : Underway) (b : Option Backing) :
    u.ending.Verdict (u.verdict b) := by
  cases b with
  | none => exact .inr (.inl rfl)
  | some b => exact Pass.verdict_run ⟨u.ending, u.id, u.plan.parent⟩ b.serve _ _

/-- A coordinator with the requests that are between their two halves. -/
structure Floor where
  coordinator : Coordinator
  underway : List Underway

namespace Floor

/-- The first half of a request to end an action. -/
def enter (f : Floor) (ending : Ending) (id : ActionId) :
    Except RequestError Coordinator.EndingPlan × Floor :=
  match (f.coordinator.count ending).beginEnding ending id with
  | (.error e, c) => (.error e, { f with coordinator := c })
  | (.ok plan, c) => (.ok plan, ⟨c, f.underway ++ [⟨ending, id, plan⟩]⟩)

/-- The second half of the request that is number `i` of those underway. -/
def leave (f : Floor) (i now : Nat) (b : Option Backing) : Option ActionStatus × Floor :=
  match f.underway[i]? with
  | none => (none, f)
  | some u =>
    (some (u.verdict b),
      ⟨f.coordinator.record now u.id (u.verdict b), f.underway.eraseIdx i⟩)

/-- One request, or one half of a request that ends an action. -/
inductive Move where
  | start (now : Nat) (clientId : String) (parent : Option ActionId)
  | join (id : ActionId) (header : String) (recovery data : Option String)
  | get (id : ActionId)
  | enter (ending : Ending) (id : ActionId)
  | leave (i now : Nat) (b : Option Backing)
  | failStart (on : Bool)
  | failJoin (on : Bool)

/-- The floor after a move. -/
def play (f : Floor) : Move → Floor
  | .start now clientId parent =>
    { f with coordinator := (f.coordinator.start now clientId parent).2 }
  | .join id header recovery data =>
    { f with coordinator := (f.coordinator.join id header recovery data).2 }
  | .get _ => f
  | .enter ending id => (f.enter ending id).2
  | .leave i now b => (f.leave i now b).2
  | .failStart on => { f with coordinator.failStart := on }
  | .failJoin on => { f with coordinator.failJoin := on }

/-- What a move can do. -/
inductive Change (f f' : Floor) : Prop
  | nothing : f.coordinator.Same f'.coordinator → f'.underway = f.underway → Change f f'
  | started (r : ActionRecord) : r.status = .active → r.finishedAt = none →
    f.coordinator.Sets f'.coordinator (f.coordinator.idOf f.coordinator.nextNumber) ⟨r, []⟩ 1 →
    f'.underway = f.underway → Change f f'
  | joined (id : ActionId) (e : ActionEntry) (enlistment : Enlistment) :
    f.coordinator.actions.get? id = some e → e.record.status = .active →
    f.coordinator.Sets f'.coordinator id { e with enlisted := e.enlisted ++ [enlistment] } 0 →
    f'.underway = f.underway → Change f f'
  | entered (ending : Ending) (id : ActionId) (e : ActionEntry) :
    f.coordinator.actions.get? id = some e → e.record.status = .active →
    f.coordinator.Sets f'.coordinator id { e with record.status := ending.transient } 0 →
    f'.underway = f.underway ++ [⟨ending, id, e.record.parent, e.enlisted⟩] → Change f f'
  | left (i : Nat) (u : Underway) (e : ActionEntry) (st : ActionStatus) (now : Nat) :
    f.underway[i]? = some u → f.coordinator.actions.get? u.id = some e →
    e.record.status = u.ending.transient → u.ending.Verdict st →
    f.coordinator.Sets f'.coordinator u.id { e with record := e.record.settle now st } 0 →
    f'.underway = f.underway.eraseIdx i → Change f f'

/-- The numbers to come are free, exactly the terminal actions are finished, and each request
underway has its action for itself. -/
structure Sound (f : Floor) : Prop where
  fresh : ∀ m, f.coordinator.nextNumber ≤ m →
    f.coordinator.actions.get? (f.coordinator.idOf m) = none
  finished : ∀ id e, f.coordinator.actions.get? id = some e →
    e.record.finishedAt.isSome = e.record.status.terminal
  underway : ∀ u ∈ f.underway, ∃ e, f.coordinator.actions.get? u.id = some e ∧
    e.record.status = u.ending.transient
  nodup : (f.underway.map Underway.id).Nodup

variable {f f' : Floor}

theorem enter_cases {ending : Ending} {id : ActionId}
    {x : Except RequestError Coordinator.EndingPlan} (h : f.enter ending id = (x, f')) :
    f.coordinator.Same f'.coordinator ∧ f'.underway = f.underway ∧
      (f.coordinator.actions.get? id = none ∧ x = .error (.notFound id) ∨
        ∃ e, f.coordinator.actions.get? id = some e ∧ e.record.status ≠ .active ∧
          x = .error (.rejected id (.notActive e.record.status))) ∨
    ∃ e, f.coordinator.actions.get? id = some e ∧ e.record.status = .active ∧
      x = .ok ⟨e.record.parent, e.enlisted⟩ ∧
      f.coordinator.Sets f'.coordinator id { e with record.status := ending.transient } 0 ∧
      f'.underway = f.underway ++ [⟨ending, id, e.record.parent, e.enlisted⟩] := by
  rcases hb : (f.coordinator.count ending).beginEnding ending id with ⟨y, c⟩
  have hs : f.coordinator.Same (f.coordinator.count ending) := Coordinator.count_same ending
  obtain ⟨hc, hx⟩ | ⟨e, he, ha, rfl, hc⟩ := Coordinator.beginEnding_cases hb
  · rw [hs.actions] at hx
    obtain ⟨hn, rfl⟩ | ⟨e, he, ha, rfl⟩ := hx <;> simp only [enter, hb] at h <;> cases h
    · exact .inl ⟨hs.trans hc, rfl, .inl ⟨hn, rfl⟩⟩
    · exact .inl ⟨hs.trans hc, rfl, .inr ⟨e, he, ha, rfl⟩⟩
  · simp only [enter, hb] at h
    cases h
    exact .inr ⟨e, hs.actions ▸ he, ha, rfl, hs.sets hc, rfl⟩

theorem leave_cases (hf : f.Sound) {i now : Nat} {b : Option Backing} {x : Option ActionStatus}
    (h : f.leave i now b = (x, f')) :
    f.underway[i]? = none ∧ x = none ∧ f' = f ∨
    ∃ u e, f.underway[i]? = some u ∧ x = some (u.verdict b) ∧
      f.coordinator.actions.get? u.id = some e ∧ e.record.status = u.ending.transient ∧
      f.coordinator.Sets f'.coordinator u.id
        { e with record := e.record.settle now (u.verdict b) } 0 ∧
      f'.underway = f.underway.eraseIdx i := by
  unfold leave at h
  split at h
  · rename_i hu
    cases h
    exact .inl ⟨hu, rfl, rfl⟩
  · rename_i u hu
    cases h
    obtain ⟨e, he, hst⟩ := hf.underway u (List.mem_of_getElem? hu)
    refine .inr ⟨u, e, hu, rfl, he, hst, ?_, rfl⟩
    simp only [Coordinator.record, he]
    exact ⟨rfl, rfl, rfl⟩

/-- A move does nothing, or one of the four things. -/
theorem play_change (hf : f.Sound) (m : Move) : f.Change (f.play m) := by
  cases m with
  | start now clientId parent =>
    rcases h : f.coordinator.start now clientId parent with ⟨x, c⟩
    simp only [play, h]
    obtain ⟨-, hs⟩ | ⟨-, -, hs⟩ := Coordinator.start_cases h
    · exact .nothing hs rfl
    · exact .started _ rfl rfl hs rfl
  | join id header recovery data =>
    rcases h : f.coordinator.join id header recovery data with ⟨x, c⟩
    simp only [play, h]
    obtain ⟨-, hs⟩ | ⟨e, url, -, -, he, ha, hs⟩ := Coordinator.join_cases h
    · exact .nothing hs rfl
    · exact .joined id e _ he ha hs rfl
  | get id => exact .nothing ⟨rfl, rfl, rfl⟩ rfl
  | enter ending id =>
    rcases h : f.enter ending id with ⟨x, f'⟩
    simp only [play, h]
    obtain ⟨hs, hu, -⟩ | ⟨e, he, ha, -, hs, hu⟩ := enter_cases h
    · exact .nothing hs hu
    · exact .entered ending id e he ha hs hu
  | leave i now b =>
    rcases h : f.leave i now b with ⟨x, f'⟩
    simp only [play, h]
    obtain ⟨-, -, rfl⟩ | ⟨u, e, hu, -, he, hst, hs, hr⟩ := leave_cases hf h
    · exact .nothing ⟨rfl, rfl, rfl⟩ rfl
    · exact .left i u e _ now hu he hst (u.verdict_verdict b) hs hr
  | failStart on => exact .nothing ⟨rfl, rfl, rfl⟩ rfl
  | failJoin on => exact .nothing ⟨rfl, rfl, rfl⟩ rfl

/-- What a move makes of the records: it starts an action, has a participant enlist, or changes the
record of an action but not those who enlisted. -/
inductive Alters (f : Floor) (c' : Coordinator) : Move → Prop
  | nothing {m : Move} : f.coordinator.Same c' → Alters f c' m
  | started (now : Nat) (clientId : String) (parent : Option ActionId) (id : ActionId) :
    (f.coordinator.start now clientId parent).1 = .ok id →
    f.coordinator.Sets c' id ⟨⟨id, clientId, .active, parent, parent.isNone, now, none⟩, []⟩ 1 →
    Alters f c' (.start now clientId parent)
  | joined (id : ActionId) (header : String) (recovery data : Option String) (e : ActionEntry)
    (url : String) : (f.coordinator.join id header recovery data).1 = .ok url →
    f.coordinator.actions.get? id = some e →
    f.coordinator.Sets c' id
      { e with enlisted := e.enlisted ++ [⟨Links.ofHeader header, url, data⟩] } 0 →
    Alters f c' (.join id header recovery data)
  | recorded {m : Move} (id : ActionId) (e : ActionEntry) (x : ActionRecord) :
    f.coordinator.actions.get? id = some e → f.coordinator.Sets c' id { e with record := x } 0 →
    Alters f c' m

theorem play_alters (hf : f.Sound) (m : Move) : f.Alters (f.play m).coordinator m := by
  cases m with
  | start now clientId parent =>
    rcases h : f.coordinator.start now clientId parent with ⟨x, c⟩
    simp only [play, h]
    obtain ⟨-, hs⟩ | ⟨rfl, -, hs⟩ := Coordinator.start_cases h
    · exact .nothing hs
    · exact .started now clientId parent _ (by rw [h]) hs
  | join id header recovery data =>
    rcases h : f.coordinator.join id header recovery data with ⟨x, c⟩
    simp only [play, h]
    obtain ⟨-, hs⟩ | ⟨e, url, -, rfl, he, -, hs⟩ := Coordinator.join_cases h
    · exact .nothing hs
    · exact .joined id header recovery data e url (by rw [h]) he hs
  | enter ending id =>
    rcases h : f.enter ending id with ⟨x, f'⟩
    simp only [play, h]
    obtain ⟨hs, -, -⟩ | ⟨e, he, -, -, hs, -⟩ := enter_cases h
    · exact .nothing hs
    · exact .recorded id e _ he hs
  | leave i now b =>
    rcases h : f.leave i now b with ⟨x, f'⟩
    simp only [play, h]
    obtain ⟨-, -, rfl⟩ | ⟨u, e, -, -, he, -, hs, -⟩ := leave_cases hf h
    · exact .nothing ⟨rfl, rfl, rfl⟩
    · exact .recorded u.id e _ he hs
  | get | failStart | failJoin => exact .nothing ⟨rfl, rfl, rfl⟩

/-! ## What every move keeps -/

theorem Sound.ofBaseUrl (base : String) : Sound ⟨.ofBaseUrl base, []⟩ where
  fresh _ _ := rfl
  finished _ _ h := by cases h
  underway _ h := by cases h
  nodup := .nil

namespace Sound

variable {id : ActionId} {e : ActionEntry}

theorem idOf_ne (hf : f.Sound) (he : f.coordinator.actions.get? id = some e) {m : Nat}
    (hm : f.coordinator.nextNumber ≤ m) : f.coordinator.idOf m ≠ id := by
  rintro rfl
  rw [hf.fresh m hm] at he
  cases he

/-- The participants of an active action are not being asked. -/
theorem id_ne_of_active (hf : f.Sound) (he : f.coordinator.actions.get? id = some e)
    (ha : e.record.status = .active) {u : Underway} (hu : u ∈ f.underway) : u.id ≠ id := by
  rintro rfl
  obtain ⟨e', he', hst⟩ := hf.underway u hu
  rw [he, Option.some.injEq] at he'
  subst he'
  exact Ending.Verdict.ne_active (.inl rfl) (hst.symm.trans ha)

/-- The other requests underway are for other actions. -/
theorem id_ne_of_mem_eraseIdx (hf : f.Sound) {i : Nat} {u u' : Underway}
    (hu : f.underway[i]? = some u) (hu' : u' ∈ f.underway.eraseIdx i) : u'.id ≠ u.id := by
  obtain ⟨j, hji, hj⟩ := List.mem_eraseIdx_iff_getElem?.1 hu'
  intro hid
  have hi : (f.underway.map Underway.id)[i]? = some u.id := by rw [List.getElem?_map, hu]; rfl
  have hj : (f.underway.map Underway.id)[j]? = some u.id := by
    rw [List.getElem?_map, hj]
    exact congrArg some hid
  obtain ⟨hlt, -⟩ := List.getElem?_eq_some_iff.1 hj
  exact hji ((List.getElem?_inj hlt hf.nodup).1 (hj.trans hi.symm))

theorem of_same (hf : f.Sound) (hs : f.coordinator.Same f'.coordinator)
    (hu : f'.underway = f.underway) : f'.Sound where
  fresh m hm := by
    rw [hs.actions, Coordinator.idOf_congr hs.baseUrl]
    exact hf.fresh m (hs.nextNumber ▸ hm)
  finished id e he := hf.finished id e (hs.actions ▸ he)
  underway u h := by
    rw [hs.actions]
    exact hf.underway u (hu ▸ h)
  nodup := hu ▸ hf.nodup

theorem of_sets (hf : f.Sound) {n : Nat} (hs : f.coordinator.Sets f'.coordinator id e n)
    (hid : ∀ m, f.coordinator.nextNumber + n ≤ m → f.coordinator.idOf m ≠ id)
    (he : e.record.finishedAt.isSome = e.record.status.terminal)
    (hu : ∀ u ∈ f'.underway,
      u ∈ f.underway ∧ u.id ≠ id ∨ u.id = id ∧ e.record.status = u.ending.transient)
    (hn : (f'.underway.map Underway.id).Nodup) : f'.Sound where
  fresh m hm := by
    have hm : f.coordinator.nextNumber + n ≤ m := hs.nextNumber ▸ hm
    rw [hs.get?, Coordinator.idOf_congr hs.baseUrl, if_neg (Ne.symm (hid m hm))]
    exact hf.fresh m (Nat.le_trans (Nat.le_add_right _ _) hm)
  finished id' e' h := by
    rw [hs.get?] at h
    split at h
    · cases h
      exact he
    · exact hf.finished id' e' h
  underway u h := by
    rw [hs.get?]
    rcases hu u h with ⟨hm, hne⟩ | ⟨rfl, hst⟩
    · rw [if_neg (Ne.symm hne)]
      exact hf.underway u hm
    · exact ⟨e, if_pos rfl, hst⟩
  nodup := hn

theorem change (hf : f.Sound) (h : f.Change f') : f'.Sound := by
  cases h with
  | nothing hs hu => exact hf.of_same hs hu
  | started r ha hr hs hu =>
    refine hf.of_sets hs (fun m hm h => ?_) (by rw [ha, hr]; rfl) (fun u h => .inl ?_)
      (hu ▸ hf.nodup)
    · have := Coordinator.idOf_inj h
      omega
    · rw [hu] at h
      obtain ⟨e, he, -⟩ := hf.underway u h
      exact ⟨h, fun hid => hf.idOf_ne he (Nat.le_refl _) hid.symm⟩
  | joined id e enlistment he ha hs hu =>
    refine hf.of_sets hs (fun m hm => hf.idOf_ne he hm) (hf.finished id e he) (fun u h => .inl ?_)
      (hu ▸ hf.nodup)
    rw [hu] at h
    exact ⟨h, hf.id_ne_of_active he ha h⟩
  | entered ending id e he ha hs hu =>
    refine hf.of_sets hs (fun m hm => hf.idOf_ne he hm) ?_ (fun u h => ?_) ?_
    · have := hf.finished id e he
      rw [ha] at this
      cases ending <;> exact this
    · rw [hu, List.mem_append, List.mem_singleton] at h
      rcases h with h | rfl
      · exact .inl ⟨h, hf.id_ne_of_active he ha h⟩
      · exact .inr ⟨rfl, rfl⟩
    · rw [hu, List.map_append, List.nodup_append]
      refine ⟨hf.nodup, by simp, fun a hm b hb => ?_⟩
      obtain ⟨u, h, rfl⟩ := List.mem_map.1 hm
      obtain rfl : b = id := by simpa using hb
      exact hf.id_ne_of_active he ha h
  | left i u e st now hi he hst hv hs hu =>
    refine hf.of_sets hs (fun m hm => hf.idOf_ne he hm) ?_ (fun u' h => .inl ?_) ?_
    · have := hf.finished u.id e he
      rw [hst] at this
      rcases hv with rfl | rfl | rfl <;> cases hend : u.ending <;> rw [hend] at this <;>
        simp_all [ActionRecord.settle, Ending.transient, Ending.done, Ending.failed,
          ActionStatus.terminal]
    · rw [hu] at h
      exact ⟨List.mem_of_mem_eraseIdx h, hf.id_ne_of_mem_eraseIdx hi h⟩
    · rw [hu]
      exact ((List.eraseIdx_sublist _ _).map _).nodup hf.nodup

end Sound

end Floor

/-! ## The requests of a system -/

namespace System

variable {σ : Type} [Journal σ] [Located σ] (sys : System (Engine σ))

/-- Who serves the calls of the system's passes. -/
def backing (s : σ) : Option Backing :=
  if sys.wired then some ⟨Engine.server, (sys.engine, Located.withScopes [] s)⟩ else none

/-- A request that ends an action is its two halves. -/
theorem finish_floor (now : Nat) (ending : Ending) (id : ActionId) (s : σ) (us : List Underway) :
    let x := Floor.enter ⟨sys.coordinator, us⟩ ending id
    let y := x.2.leave us.length now (sys.backing s)
    y.2 = ⟨(sys.finish now ending id s).2.1.coordinator, us⟩ ∧
      (sys.finish now ending id s).1.map some = x.1.map fun _ => y.1 := by
  simp only [finish, Floor.enter]
  rcases (sys.coordinator.count ending).beginEnding ending id with ⟨e | plan, c⟩
  · simp [Floor.leave, Except.map]
  · have hu : (us ++ [⟨ending, id, plan⟩])[us.length]? = some (⟨ending, id, plan⟩ : Underway) := by
      simp
    have he : (us ++ [(⟨ending, id, plan⟩ : Underway)]).eraseIdx us.length = us := by
      simp [List.eraseIdx_append_of_length_le]
    simp only [Floor.leave, hu, he, backing]
    cases sys.wired <;> exact ⟨rfl, rfl⟩

end System

end Saga
