import Mathlib.Data.List.InsertIdx
import Saga.Proofs.Coordinator.Asking
import Saga.Proofs.Coordinator.StatusMachine
import Saga.Proofs.Engine.Run

/-!
# A coordinator at work

An `Office` is a coordinator that drives an engine, with the rounds in which participants are being
asked. A round goes one participant at a time, and between two of them there may be any requests to
the coordinator, turns of other rounds, and whatever else happens to the engine (`Office.Move`).
Without anything else in between, a round from its beginning to its end is `System.finish`
(`System.finish_office`).

What a move does to the records is a `Floor.Change` (`Office.play_floor`); what it does to the rounds
and to the calls they have made is one of the four things that `Office.Turn` lists
(`Office.play_turn`). So a round has called at any time those of the participants it has been to
(`Office.Sound`).
-/

set_option autoImplicit false

namespace Saga

def Underway.pass (u : Underway) : Pass := ⟨u.ending, u.id, u.plan.parent⟩

namespace Pass

variable (p : Pass)

theorem calls_append (xs ys : List Enlistment) : p.calls (xs ++ ys) = p.calls xs ++ p.calls ys :=
  List.filterMap_append

variable {p} {xs : List Enlistment} {call : Call}

theorem mem_calls (h : call ∈ p.calls xs) :
    ∃ x ∈ xs, ∃ owner, call = ⟨owner, p.ending.operation, p.id, p.parent⟩ := by
  obtain ⟨x, hx, hc⟩ := List.mem_filterMap.1 h
  obtain ⟨y, -, rfl⟩ := Option.map_eq_some_iff.1 hc
  exact ⟨x, hx, y.1, rfl⟩

theorem id_of_mem_calls (h : call ∈ p.calls xs) : call.id = p.id := by
  obtain ⟨-, -, _, rfl⟩ := mem_calls h
  rfl

theorem operation_of_mem_calls (h : call ∈ p.calls xs) : call.operation = p.ending.operation := by
  obtain ⟨-, -, _, rfl⟩ := mem_calls h
  rfl

end Pass

/-- A request to end an action while its participants are being asked. -/
structure Round where
  underway : Underway
  /-- Those who have not been asked yet. -/
  waiting : List Enlistment
  /-- The status so far; none once a callback broke down. -/
  status : Option ActionStatus

namespace Round

/-- The round in which nobody was asked yet. -/
def ofUnderway (u : Underway) : Round := ⟨u, u.plan.enlisted, some u.ending.done⟩

/-- The status that the round comes to, once it is over. -/
def verdict? (r : Round) : Option ActionStatus :=
  match r.status, r.waiting with
  | none, _ => some r.underway.ending.failed
  | some st, [] => some st
  | some _, _ :: _ => none

theorem verdict_verdict? {r : Round} {st : ActionStatus}
    (hr : ∀ st, r.status = some st → r.underway.ending.Verdict st) (h : r.verdict? = some st) :
    r.underway.ending.Verdict st := by
  unfold verdict? at h
  split at h
  · cases h
    exact .inr (.inr rfl)
  · rename_i hst _
    cases h
    exact hr _ hst
  · cases h

end Round

/-- A coordinator that drives an engine. -/
structure Office (σ : Type) where
  coordinator : Coordinator
  rounds : List Round
  /-- The engine with the state that callbacks act on, and what the rounds have asked it. -/
  served : Asked (Engine σ × σ)

namespace Office

variable {σ : Type}

/-- The office without its engine. -/
def floor (o : Office σ) : Floor := ⟨o.coordinator, o.rounds.map Round.underway⟩

/-- The calls that rounds have made for an action, with the replies. -/
def askedFor (o : Office σ) (id : ActionId) : List (Call × Reply) :=
  o.served.log.filter fun x => x.1.id = id

/-- The first half of a request to end an action. -/
def enter (o : Office σ) (ending : Ending) (id : ActionId) :
    Except RequestError Coordinator.EndingPlan × Office σ :=
  match (o.coordinator.count ending).beginEnding ending id with
  | (.error e, c) => (.error e, { o with coordinator := c })
  | (.ok plan, c) =>
    (.ok plan, { o with coordinator := c, rounds := o.rounds ++ [.ofUnderway ⟨ending, id, plan⟩] })

variable {o o' : Office σ} {ending : Ending} {id : ActionId}

theorem enter_floor (o : Office σ) (ending : Ending) (id : ActionId) :
    (o.enter ending id).1 = (o.floor.enter ending id).1 ∧
      (o.enter ending id).2.floor = (o.floor.enter ending id).2 := by
  simp only [enter, Floor.enter, floor]
  rcases (o.coordinator.count ending).beginEnding ending id with ⟨e | plan, c⟩
  · exact ⟨rfl, rfl⟩
  · exact ⟨rfl, by simp [Round.ofUnderway]⟩

/-- A request that gets past its first half takes an active action. -/
theorem enter_active {plan : Coordinator.EndingPlan} (h : (o.enter ending id).1 = .ok plan) :
    ∃ e, o.coordinator.actions.get? id = some e ∧ e.record.status = .active ∧
      plan = ⟨e.record.parent, e.enlisted⟩ := by
  rcases he : o.floor.enter ending id with ⟨x, f⟩
  rw [(enter_floor o ending id).1, he] at h
  obtain ⟨-, -, ⟨-, rfl⟩ | ⟨e, -, -, rfl⟩⟩ | ⟨e, hget, ha, rfl, -, -⟩ := Floor.enter_cases he
  · cases h
  · cases h
  · exact ⟨e, hget, ha, (Except.ok.inj h).symm⟩

theorem enter_rounds {plan : Coordinator.EndingPlan} (h : (o.enter ending id).1 = .ok plan) :
    (o.enter ending id).2.rounds = o.rounds ++ [.ofUnderway ⟨ending, id, plan⟩] := by
  rcases hb : (o.coordinator.count ending).beginEnding ending id with ⟨e | plan', c⟩
  · simp only [enter, hb] at h
    cases h
  · simp only [enter, hb] at h ⊢
    cases h
    rfl

/-- The calls of a round are for its action. -/
theorem askedFor_append {p : Pass} {x : Enlistment} {replies : List (Call × Reply)}
    (hc : o'.served.log = o.served.log ++ replies) (hp : replies.map Prod.fst = p.calls [x])
    (id : ActionId) : o'.askedFor id = o.askedFor id ++ if p.id = id then replies else [] := by
  have hid : ∀ y ∈ replies, y.1.id = p.id := fun y hy =>
    Pass.id_of_mem_calls (hp ▸ List.mem_map_of_mem hy)
  rw [askedFor, hc, List.filter_append]
  congr 1
  split
  · rename_i h
    exact List.filter_eq_self.2 fun y hy => by simp [hid y hy, h]
  · rename_i h
    exact List.filter_eq_nil_iff.2 fun y hy => by simp [hid y hy, h]

theorem askedFor_congr (hc : o'.served.log = o.served.log) (id : ActionId) :
    o'.askedFor id = o.askedFor id := by
  rw [askedFor, hc, askedFor]

/-! ## Rounds and records -/

/-- The records are sound, and each round has called those of its participants it has been to. For
an action that nobody has begun to end, nobody was called. -/
structure Sound (o : Office σ) : Prop where
  floor : o.floor.Sound
  verdict : ∀ r ∈ o.rounds, ∀ st, r.status = some st → r.underway.ending.Verdict st
  called : ∀ r ∈ o.rounds, ∃ been, been ++ r.waiting = r.underway.plan.enlisted ∧
    (o.askedFor r.underway.id).map Prod.fst = r.underway.pass.calls been
  quiet : ∀ id, (∀ st, o.floor.status? id = some st → st = .active) → o.askedFor id = []

namespace Sound

theorem ofBaseUrl (base : String) (x : Engine σ × σ) : Sound ⟨.ofBaseUrl base, [], [], x⟩ where
  floor := .ofBaseUrl base
  verdict _ h := by cases h
  called _ h := by cases h
  quiet _ _ := rfl

/-- There is one round for an action at a time. -/
theorem eq_of_id_eq (h : o.Sound) {i j : Nat} {r r' : Round} (hr : o.rounds[i]? = some r)
    (hr' : o.rounds[j]? = some r') (hid : r.underway.id = r'.underway.id) : i = j := by
  have hn : (o.rounds.map fun r => r.underway.id).Nodup := by
    have hn := h.floor.nodup
    rwa [Office.floor, List.map_map] at hn
  have hi : (o.rounds.map fun r => r.underway.id)[i]? = some r.underway.id := by simp [hr]
  have hj : (o.rounds.map fun r => r.underway.id)[j]? = some r.underway.id := by simp [hr', hid]
  obtain ⟨hlt, -⟩ := List.getElem?_eq_some_iff.1 hi
  exact (List.getElem?_inj hlt hn).1 (hi.trans hj.symm)

theorem status_round (h : o.Sound) {r : Round} (hr : r ∈ o.rounds) :
    o.floor.status? r.underway.id = some r.underway.ending.transient := by
  obtain ⟨e, he, hst⟩ := h.floor.underway r.underway (List.mem_map_of_mem hr)
  rw [Floor.status?_of_get? he, hst]

/-- What was asked before an action is out of active: nothing. -/
theorem quiet_back (h : o.Sound) (hc : o.floor.Change o'.floor)
    (hq : ∀ st, o'.floor.status? id = some st → st = .active) : o.askedFor id = [] := by
  refine h.quiet id fun st hst => by_contra fun ha => ?_
  obtain ⟨st', hst', ha'⟩ := hc.not_active h.floor hst ha
  exact ha' (hq st' hst')

end Sound

/-! ## Moves -/

variable [Journal σ]

/-- Round `i` asks the next participant, if there is one and no callback has broken down. -/
def ask (o : Office σ) (i : Nat) : Office σ :=
  match o.rounds[i]? with
  | none => o
  | some r =>
    match r.waiting, r.status with
    | x :: waiting, some st =>
      let (status, served) := r.underway.pass.ask Engine.server.noted x st o.served
      { o with rounds := o.rounds.set i ⟨r.underway, waiting, status⟩, served := served }
    | _, _ => o

/-- The second half of the request whose round is number `i`, once the round is over. -/
def leave (o : Office σ) (i now : Nat) : Option ActionStatus × Office σ :=
  match o.rounds[i]? with
  | none => (none, o)
  | some r =>
    match r.verdict? with
    | none => (none, o)
    | some st =>
      (some st,
        { coordinator := o.coordinator.record now r.underway.id st
          rounds := o.rounds.eraseIdx i
          served :=
            if r.status.isNone then Journal.note (.endingBrokeDown r.underway.id) o.served
            else o.served })

/-- Something that happens in an office. -/
inductive Move (σ : Type) where
  | start (now : Nat) (clientId : String) (parent : Option ActionId)
  | join (id : ActionId) (header : String) (recovery data : Option String)
  | get (id : ActionId)
  | enter (ending : Ending) (id : ActionId)
  | ask (i : Nat)
  | leave (i now : Nat)
  | failStart (on : Bool)
  | failJoin (on : Bool)
  /-- Something happens to the engine that is none of the coordinator's doing. -/
  | elsewhere (deed : Engine.Deed σ)

/-- The office after a move. -/
def play (o : Office σ) : Move σ → Office σ
  | .start now clientId parent =>
    { o with coordinator := (o.coordinator.start now clientId parent).2 }
  | .join id header recovery data =>
    { o with coordinator := (o.coordinator.join id header recovery data).2 }
  | .get _ => o
  | .enter ending id => (o.enter ending id).2
  | .ask i => o.ask i
  | .leave i now => (o.leave i now).2
  | .failStart on => { o with coordinator.failStart := on }
  | .failJoin on => { o with coordinator.failJoin := on }
  | .elsewhere deed => { o with served.state := deed.play o.served.state }

/-- The move of the floor that a move is, if it is one. -/
def Move.onFloor? : Move σ → Option Floor.Move
  | .start now clientId parent => some (.start now clientId parent)
  | .join id header recovery data => some (.join id header recovery data)
  | .get id => some (.get id)
  | .enter ending id => some (.enter ending id)
  | .failStart on => some (.failStart on)
  | .failJoin on => some (.failJoin on)
  | .ask _ | .leave _ _ | .elsewhere _ => none

/-- A move of the floor does the same there, and in the office it may begin rounds. -/
theorem play_onFloor {m : Move σ} {move : Floor.Move} (h : m.onFloor? = some move) :
    (o.play m).floor = o.floor.play move ∧ ∃ us : List Underway,
      o.play m = ⟨(o.floor.play move).coordinator, o.rounds ++ us.map .ofUnderway, o.served⟩ := by
  cases m with
  | ask | leave | elsewhere => cases h
  | start | join | get | failStart | failJoin =>
    cases h
    exact ⟨rfl, [], by rw [List.map_nil, List.append_nil]; rfl⟩
  | enter ending id =>
    cases h
    refine ⟨(enter_floor o ending id).2, ?_⟩
    simp only [play, Floor.play, enter, Floor.enter, floor]
    rcases (o.coordinator.count ending).beginEnding ending id with ⟨e | plan, c⟩
    · exact ⟨[], by simp⟩
    · exact ⟨[⟨ending, id, plan⟩], rfl⟩

/-- What a move can do to the rounds and to the calls that they have made. -/
inductive Turn (o : Office σ) (m : Move σ) (o' : Office σ) : Prop
  | nothing : o'.rounds = o.rounds → o'.served.log = o.served.log → Turn o m o'
  | entered (ending : Ending) (id : ActionId) (plan : Coordinator.EndingPlan) :
    m = .enter ending id → (o.enter ending id).1 = .ok plan →
    o'.rounds = o.rounds ++ [.ofUnderway ⟨ending, id, plan⟩] →
    o'.served.log = o.served.log → Turn o m o'
  | asked (i : Nat) (r : Round) (x : Enlistment) (waiting : List Enlistment)
      (status : Option ActionStatus) (replies : List (Call × Reply)) :
    o.rounds[i]? = some r → r.waiting = x :: waiting →
    o'.rounds = o.rounds.set i ⟨r.underway, waiting, status⟩ →
    (∀ st, status = some st → r.underway.ending.Verdict st) →
    o'.served.log = o.served.log ++ replies →
    replies.map Prod.fst = r.underway.pass.calls [x] → Turn o m o'
  | left (i : Nat) (r : Round) (st : ActionStatus) :
    o.rounds[i]? = some r → r.verdict? = some st → o'.rounds = o.rounds.eraseIdx i →
    o'.served.log = o.served.log → Turn o m o'

/-! ## What a move can do -/

/-- What asking one participant adds to the record: its call, if it has one. -/
theorem ask_noted (p : Pass) (x : Enlistment) (st : ActionStatus) (w : Asked (Engine σ × σ)) :
    ∃ replies, (p.ask Engine.server.noted x st w).2.log = w.log ++ replies ∧
      replies.map Prod.fst = p.calls [x] := by
  cases hc : p.call? x with
  | none =>
    obtain ⟨_, -, hn⟩ := p.ask_unresolved Engine.server x st w.state hc
    exact ⟨[], by rw [hn w.log, List.append_nil], by simp [Pass.calls, hc]⟩
  | some call =>
    obtain ⟨-, hn⟩ := p.ask_resolved Engine.server x st w.state hc
    exact ⟨_, by rw [hn w.log], by simp [Pass.calls, hc]⟩

theorem play_turn (hv : ∀ r ∈ o.rounds, ∀ st, r.status = some st → r.underway.ending.Verdict st)
    (m : Move σ) : o.Turn m (o.play m) := by
  cases m with
  | start | join | get | failStart | failJoin | elsewhere => exact .nothing rfl rfl
  | enter ending id =>
    rcases h : (o.coordinator.count ending).beginEnding ending id with ⟨e | plan, c⟩
    · exact .nothing (by simp [play, enter, h]) (by simp [play, enter, h])
    · exact .entered ending id plan rfl (by simp [enter, h]) (by simp [play, enter, h])
        (by simp [play, enter, h])
  | ask i =>
    simp only [play, ask]
    split
    · exact .nothing rfl rfl
    · rename_i r hr
      split
      · rename_i x waiting st hw hst
        obtain ⟨replies, hc, hp⟩ := ask_noted r.underway.pass x st o.served
        refine .asked i r x waiting _ replies hr hw rfl (fun st' h => ?_) hc hp
        exact r.underway.pass.verdict_ask _ x (hv r (List.mem_of_getElem? hr) st hst) _ h
      · exact .nothing rfl rfl
  | leave i now =>
    simp only [play, leave]
    split
    · exact .nothing rfl rfl
    · rename_i r hr
      split
      · exact .nothing rfl rfl
      · rename_i st hst
        refine .left i r st hr hst rfl ?_
        dsimp only
        split <;> rfl

/-- What a move does to the records is a change of the floor. -/
theorem play_floor (h : o.Sound) (m : Move σ) : o.floor.Change (o.play m).floor := by
  cases m with
  | start | join | get | enter | failStart | failJoin =>
    rw [(play_onFloor rfl).1]
    exact Floor.play_change h.floor _
  | elsewhere deed => exact .nothing ⟨rfl, rfl, rfl⟩ rfl
  | ask i =>
    simp only [play, ask]
    split
    · exact .nothing ⟨rfl, rfl, rfl⟩ rfl
    · rename_i r hr
      split
      · refine .nothing ⟨rfl, rfl, rfl⟩ ?_
        obtain ⟨hlt, rfl⟩ := List.getElem?_eq_some_iff.1 hr
        simp only [floor, List.map_set]
        rw [← List.getElem_map (f := Round.underway) (h := by simpa using hlt),
          List.set_getElem_self]
      · exact .nothing ⟨rfl, rfl, rfl⟩ rfl
  | leave i now =>
    simp only [play, leave]
    split
    · exact .nothing ⟨rfl, rfl, rfl⟩ rfl
    · rename_i r hr
      split
      · exact .nothing ⟨rfl, rfl, rfl⟩ rfl
      · rename_i st hst
        have hi : o.floor.underway[i]? = some r.underway := by
          rw [floor, List.getElem?_map, hr]
          rfl
        obtain ⟨e, he, htr⟩ := h.floor.underway r.underway (List.mem_of_getElem? hi)
        have hv := Round.verdict_verdict? (h.verdict r (List.mem_of_getElem? hr)) hst
        refine .left i r.underway e st now hi he htr hv ?_ (List.eraseIdx_map ..).symm
        simp only [floor, Coordinator.record]
        rw [show o.coordinator.actions.get? r.underway.id = some e from he]
        exact ⟨rfl, rfl, rfl⟩

/-! ## What every move keeps -/

theorem Sound.play (h : o.Sound) (m : Move σ) : (o.play m).Sound := by
  have hc := play_floor h m
  have hf := h.floor.change hc
  have ht := play_turn h.verdict m
  generalize o.play m = o' at hc hf ht
  cases ht with
  | nothing hr hs =>
    refine ⟨hf, hr ▸ h.verdict, fun r hm => ?_, fun id hq => ?_⟩
    · rw [askedFor_congr hs]
      exact h.called r (hr ▸ hm)
    · rw [askedFor_congr hs]
      exact h.quiet_back hc hq
  | entered ending id plan hm hp hr hs =>
    refine ⟨hf, fun r hm st hst => ?_, fun r hm => ?_, fun id' hq => ?_⟩
    · rw [hr, List.mem_append, List.mem_singleton] at hm
      rcases hm with hm | rfl
      · exact h.verdict r hm st hst
      · cases hst
        exact .inr (.inl rfl)
    · rw [askedFor_congr hs]
      rw [hr, List.mem_append, List.mem_singleton] at hm
      rcases hm with hm | rfl
      · exact h.called r hm
      · obtain ⟨e, he, ha, -⟩ := enter_active hp
        refine ⟨[], rfl, ?_⟩
        have hq : o.askedFor id = [] := h.quiet id fun st hst => by
          rw [Floor.status?_of_get? he, ha, Option.some.injEq] at hst
          exact hst.symm
        simp only [Round.ofUnderway, hq]
        rfl
    · rw [askedFor_congr hs]
      exact h.quiet_back hc hq
  | asked i r x waiting status replies hi hw hr hv hs hp =>
    have hri : r ∈ o.rounds := List.mem_of_getElem? hi
    refine ⟨hf, fun r' hm st hst => ?_, fun r' hm => ?_, fun id' hq => ?_⟩
    · rw [hr] at hm
      rcases List.mem_or_eq_of_mem_set hm with hm | rfl
      · exact h.verdict r' hm st hst
      · exact hv st hst
    · rw [askedFor_append hs hp]
      rw [hr] at hm
      obtain ⟨j, hj⟩ := List.mem_iff_getElem?.1 hm
      rw [List.getElem?_set] at hj
      split at hj
      · split at hj
        · cases hj
          obtain ⟨been, hb, hcalls⟩ := h.called r hri
          refine ⟨been ++ [x], by rw [List.append_assoc, ← hb, hw]; rfl, ?_⟩
          rw [if_pos (show r.underway.pass.id = r.underway.id from rfl), List.map_append, hcalls,
            hp, Pass.calls_append]
        · cases hj
      · rename_i hne
        have hid : r.underway.pass.id ≠ r'.underway.id := fun h' => hne (h.eq_of_id_eq hi hj h')
        rw [if_neg hid, List.append_nil]
        exact h.called r' (List.mem_of_getElem? hj)
    · rw [askedFor_append hs hp, h.quiet_back hc hq, List.nil_append, if_neg]
      rintro rfl
      obtain ⟨st, hst, ha⟩ := hc.not_active h.floor (h.status_round hri)
        (Ending.Verdict.ne_active (.inl rfl))
      exact ha (hq st hst)
  | left i r st hi hst hr hs =>
    refine ⟨hf, fun r' hm => ?_, fun r' hm => ?_, fun id hq => ?_⟩
    · exact h.verdict r' (List.mem_of_mem_eraseIdx (hr ▸ hm))
    · rw [askedFor_congr hs]
      exact h.called r' (List.mem_of_mem_eraseIdx (hr ▸ hm))
    · rw [askedFor_congr hs]
      exact h.quiet_back hc hq

/-! ## A round without anything in between -/

theorem ask_cons {i : Nat} {u : Underway} {x : Enlistment} {waiting : List Enlistment}
    {st : ActionStatus} (h : o.rounds[i]? = some ⟨u, x :: waiting, some st⟩) :
    o.ask i = { o with
      rounds := o.rounds.set i ⟨u, waiting, (u.pass.ask Engine.server.noted x st o.served).1⟩
      served := (u.pass.ask Engine.server.noted x st o.served).2 } := by
  simp only [ask, h]

theorem ask_brokenDown {i : Nat} {r : Round} (h : o.rounds[i]? = some r) (hr : r.status = none) :
    o.ask i = o := by
  simp only [ask, h, hr]
  cases r.waiting <;> rfl

/-- A round that asks until nobody waits does what the pass does. -/
theorem askAll_moves {i : Nat} {u : Underway} (waiting : List Enlistment) {st : ActionStatus}
    (h : o.rounds[i]? = some ⟨u, waiting, some st⟩) :
    let a := u.pass.askAll Engine.server.noted waiting st o.served
    ∃ left, (a.1.isSome → left = []) ∧
      (List.replicate waiting.length (.ask i)).foldl play o =
        { o with rounds := o.rounds.set i ⟨u, left, a.1⟩, served := a.2 } := by
  intro a
  induction waiting generalizing o st with
  | nil =>
    obtain ⟨hlt, hi⟩ := List.getElem?_eq_some_iff.1 h
    exact ⟨[], fun _ => rfl, by simp [a, Pass.askAll, ← hi]⟩
  | cons x waiting ih =>
    obtain ⟨hlt, -⟩ := List.getElem?_eq_some_iff.1 h
    simp only [List.length_cons, List.replicate_succ, List.foldl_cons, play, ask_cons h, a,
      Pass.askAll]
    rcases u.pass.ask Engine.server.noted x st o.served with ⟨_ | st', served⟩
    · refine ⟨waiting, fun h => (by cases h), ?_⟩
      have hb : ∀ n, (List.replicate n (Move.ask i)).foldl play
          { o with rounds := o.rounds.set i ⟨u, waiting, none⟩, served := served } =
          { o with rounds := o.rounds.set i ⟨u, waiting, none⟩, served := served } := by
        intro n
        induction n with
        | zero => rfl
        | succ n ih =>
          rw [List.replicate_succ, List.foldl_cons, play,
            ask_brokenDown (List.getElem?_set_self hlt) rfl, ih]
      exact hb _
    · obtain ⟨left, hl, hit⟩ := ih (o := { o with
        rounds := o.rounds.set i ⟨u, waiting, some st'⟩, served := served })
        (List.getElem?_set_self hlt)
      exact ⟨left, hl, by rw [hit]; simp only [List.set_set]⟩

/-- A round without anything in between is a pass. -/
theorem leave_round {plan : Coordinator.EndingPlan} {c : Coordinator} (now : Nat)
    (h : (o.coordinator.count ending).beginEnding ending id = (.ok plan, c)) :
    let x := Pass.run ⟨ending, id, plan.parent⟩ Engine.server.noted plan.enlisted o.served
    ((List.replicate plan.enlisted.length (.ask o.rounds.length)).foldl play
        (o.play (.enter ending id))).leave o.rounds.length now =
      (some x.1, ⟨c.record now id x.1, o.rounds, x.2⟩) := by
  have he : o.play (.enter ending id) =
      ⟨c, o.rounds ++ [⟨⟨ending, id, plan⟩, plan.enlisted, some ending.done⟩], o.served⟩ := by
    simp only [play, enter, h, Round.ofUnderway]
  have hr : (o.play (.enter ending id)).rounds[o.rounds.length]? =
      some ⟨⟨ending, id, plan⟩, plan.enlisted, some ending.done⟩ := by
    simp [he]
  obtain ⟨left, hl, hit⟩ := askAll_moves plan.enlisted hr
  rw [he] at hl hit ⊢
  have hp : Underway.pass ⟨ending, id, plan⟩ = ⟨ending, id, plan.parent⟩ := rfl
  simp only [hp] at hl hit
  rw [hit, Pass.run]
  generalize Pass.askAll ⟨ending, id, plan.parent⟩ Engine.server.noted plan.enlisted ending.done
    o.served = a at hl
  rcases a with ⟨_ | st, served⟩
  · simp [leave, Round.verdict?, List.eraseIdx_append_of_length_le]
  · obtain rfl := hl rfl
    simp [leave, Round.verdict?, List.eraseIdx_append_of_length_le]

end Office

namespace System

variable {σ : Type} [Journal σ] [Located σ]

/-- A request that ends an action is its round, if nothing comes in between. -/
theorem finish_office (sys : System (Engine σ)) {ending : Ending} {id : ActionId}
    {plan : Coordinator.EndingPlan} {c : Coordinator} (now : Nat) (s : σ) (rounds : List Round)
    (hw : sys.wired = true)
    (h : (sys.coordinator.count ending).beginEnding ending id = (.ok plan, c)) :
    let o : Office σ := ⟨sys.coordinator, rounds, [], sys.engine, Located.withScopes [] s⟩
    ∃ status calls e s',
      ((List.replicate plan.enlisted.length (.ask rounds.length)).foldl Office.play
          (o.play (.enter ending id))).leave rounds.length now =
        (some status, ⟨c.record now id status, rounds, calls, e, s'⟩) ∧
      sys.finish now ending id s =
        (.ok status, { sys with engine := e, coordinator := c.record now id status },
          Located.withScopes (Located.scopes s) s') := by
  intro o
  obtain ⟨calls, -, hn⟩ := Pass.run_noted ⟨ending, id, plan.parent⟩ Engine.server plan.enlisted
    (sys.engine, Located.withScopes [] s)
  refine ⟨_, calls, _, _, by rw [Office.leave_round now (o := o) h, hn []]; rfl, ?_⟩
  simp only [finish, h, hw, if_true]
  rfl

end System

end Saga
