import Saga.Proofs.Coordinator.Unfinished
import Saga.Proofs.Parties

/-!
# What an ending comes to

The status that an ending comes to is decided by what became of its participants
(`Ending.cameTo`): failed if one of them failed, else transient if one of them is still at work,
else done. A participant fails when its link for the operation names nobody (`Pass.dangling`), or
when its reply is a failure (`Reply.isFailure`). One participant at a time, the status of a round so
far says this of those it has been to (`Round.Told.ask`), so every move keeps it (`Told.play`), and
the request that ends an action records it (`Run.Leaves.cameTo`).

Two statements follow: a failure is recorded even while another participant is at work
(`Run.recorded_iff`), and an action that went well had only answers that are neither
(`Run.went_well`).
-/

set_option autoImplicit false

namespace Saga

/-! ## Verdicts -/

/-- The participant did not end its part, and is not at work on it. -/
def Reply.isFailure : Reply → Bool
  | .answered t => t.isFailure
  | .refused _ | .brokeDown _ => true

/-- Is one of the replies a failure? -/
def someFailed (asked : List (Call × Reply)) : Bool := asked.any fun y => y.2.isFailure

/-- Does one of the replies say that work goes on? -/
def someAtWork (asked : List (Call × Reply)) : Bool := asked.any fun y => y.2.inProgress

/-- The status of an ending by whether some participant failed, and whether some is at work. -/
def Ending.cameTo (ending : Ending) (failed working : Bool) : ActionStatus :=
  if failed then ending.failed else if working then ending.transient else ending.done

namespace Ending

theorem transient_terminal (ending : Ending) : ending.transient.terminal = false := by
  cases ending <;> rfl

variable {ending : Ending} {failed working : Bool}

theorem cameTo_eq_failed_iff : ending.cameTo failed working = ending.failed ↔ failed = true := by
  cases failed <;> cases working <;> cases ending <;> decide

theorem cameTo_eq_transient_iff :
    ending.cameTo failed working = ending.transient ↔ working = true ∧ ¬ failed = true := by
  cases failed <;> cases working <;> cases ending <;> decide

theorem cameTo_eq_done_iff :
    ending.cameTo failed working = ending.done ↔ ¬ working = true ∧ ¬ failed = true := by
  cases failed <;> cases working <;> cases ending <;> decide

/-- There is more to come of what an ending came to just if it is transient. -/
theorem cameTo_terminal : (ending.cameTo failed working).terminal =
    !decide (ending.cameTo failed working = ending.transient) := by
  cases failed <;> cases working <;> cases ending <;> rfl

end Ending

theorem Termination.not_inProgress_and_isFailure (t : Termination) :
    (t.inProgress && t.isFailure) = false := by
  cases t with
  | accepted | done => rfl
  | status st => cases st <;> rfl
  | response r =>
    by_cases h : r.status = 202 <;>
      simp [inProgress, isFailure, Response.isAccepted, Response.isSuccess, h]

/-- The answer of a participant that is neither at work nor has failed. -/
def Termination.Conclusive : Termination → Prop
  | .done => True
  | .accepted => False
  | .status st => st = .completed ∨ st = .compensated ∨ st = .active
  | .response r => 200 ≤ r.status ∧ r.status < 300 ∧ r.status ≠ 202

theorem Termination.conclusive_iff {t : Termination} :
    t.Conclusive ↔ t.inProgress = false ∧ t.isFailure = false := by
  cases t with
  | done | accepted => simp [Conclusive, inProgress, isFailure]
  | status st => cases st <;> simp [Conclusive, inProgress, ParticipantStatus.inProgress, isFailure]
  | response r =>
    simp only [Conclusive, inProgress, isFailure, Response.isAccepted, Response.isSuccess,
      Bool.not_eq_false', Bool.and_eq_true, decide_eq_true_eq, beq_eq_false_iff_ne]
    tauto

theorem Reply.conclusive {reply : Reply} (hp : reply.inProgress = false)
    (hf : reply.isFailure = false) : ∃ t, reply = .answered t ∧ t.Conclusive := by
  cases reply with
  | answered t => exact ⟨t, rfl, Termination.conclusive_iff.2 ⟨hp, hf⟩⟩
  | refused error => cases hf
  | brokeDown text => cases hf

namespace Pass

theorem tally_cameTo (ending : Ending) (failed working : Bool) (t : Termination) :
    tally ending (ending.cameTo failed working) t =
      ending.cameTo (failed || t.isFailure) (working || t.inProgress) := by
  have h := t.not_inProgress_and_isFailure
  unfold tally
  cases hp : t.inProgress <;> cases hf : t.isFailure
  · simp
  · simp [Ending.cameTo]
  · cases failed <;> cases working <;> cases ending <;>
      simp [Ending.cameTo, Ending.transient, Ending.done, Ending.failed]
  · simp [hp, hf] at h

/-- The participant has a link for the operation, and it names nobody. -/
def dangling (p : Pass) (x : Enlistment) : Bool :=
  (x.links.get? p.ending.operation).any fun url => (Links.ofUrl? url).isNone

variable {τ : Type} [Journal τ] (p : Pass) (serve : Server τ)

/-- What asking one participant makes of the status. -/
theorem ask_cameTo (x : Enlistment) (failed working : Bool) (w : Asked τ) :
    let a := p.ask serve.noted x (p.ending.cameTo failed working) w
    ∃ replies, a.2.log = w.log ++ replies ∧ replies.map Prod.fst = p.calls [x] ∧
      (a.1 = none → someFailed replies = true) ∧
      ∀ st, a.1 = some st → st =
        p.ending.cameTo (failed || p.dangling x || someFailed replies)
          (working || someAtWork replies) := by
  intro a
  cases hl : x.links.get? p.ending.operation with
  | none =>
    refine ⟨[], ?_⟩
    simp [a, ask, hl, calls, call?, dangling, someFailed, someAtWork]
  | some url =>
    cases hu : Links.ofUrl? url with
    | none =>
      refine ⟨[], ?_⟩
      simp [a, ask, hl, hu, calls, call?, dangling, someFailed, Ending.cameTo]
    | some y =>
      rcases hs : serve ⟨y.1, p.ending.operation, p.id, p.parent⟩ w.state with ⟨reply, t⟩
      refine ⟨[(⟨y.1, p.ending.operation, p.id, p.parent⟩, reply)], ?_⟩
      have hc : p.calls [x] = [⟨y.1, p.ending.operation, p.id, p.parent⟩] := by
        simp [calls, call?, hl, hu]
      have hd : p.dangling x = false := by simp [dangling, hl, hu]
      cases reply with
      | answered t =>
        simp [a, ask, hl, hu, hs, hc, hd, Server.noted, tally_cameTo, someFailed, someAtWork,
          Reply.isFailure, Reply.inProgress]
      | refused error =>
        simp [a, ask, hl, hu, hs, hc, hd, Server.noted, someFailed, Reply.isFailure, Ending.cameTo]
      | brokeDown text =>
        simp [a, ask, hl, hu, hs, hc, hd, Server.noted, someFailed, Reply.isFailure]

end Pass

/-! ## Rounds -/

deriving instance DecidableEq for Underway, Round

theorem someFailed_append (xs ys : List (Call × Reply)) :
    someFailed (xs ++ ys) = (someFailed xs || someFailed ys) :=
  List.any_append

theorem someAtWork_append (xs ys : List (Call × Reply)) :
    someAtWork (xs ++ ys) = (someAtWork xs || someAtWork ys) :=
  List.any_append

/-- The round, which has made the calls `asked`, stands as those of its participants do that it has
been to. -/
structure Round.Told (r : Round) (asked : List (Call × Reply)) : Prop where
  broke : r.status = none → someFailed asked = true
  sofar : ∀ st, r.status = some st → ∀ been, been ++ r.waiting = r.underway.plan.enlisted →
    st = r.underway.ending.cameTo (been.any r.underway.pass.dangling || someFailed asked)
      (someAtWork asked)

namespace Round.Told

variable {r : Round} {asked : List (Call × Reply)} {st : ActionStatus}

theorem ofUnderway (u : Underway) : (Round.ofUnderway u).Told [] where
  broke h := by cases h
  sofar st h been hb := by
    obtain rfl : been = [] := List.append_left_eq_self.1 hb
    cases h
    rfl

theorem verdict (h : r.Told asked) (hv : r.verdict? = some st) :
    st = r.underway.ending.cameTo
      (r.underway.plan.enlisted.any r.underway.pass.dangling || someFailed asked)
      (someAtWork asked) := by
  unfold verdict? at hv
  split at hv
  · rename_i hst
    cases hv
    rw [h.broke hst, Bool.or_true]
    rfl
  · rename_i hst hw
    cases hv
    exact h.sofar st hst _ (by rw [hw, List.append_nil])
  · cases hv

/-- What asking the next participant makes of the round. -/
theorem ask {τ : Type} [Journal τ] (h : r.Told asked) (serve : Server τ) {x : Enlistment}
    {been waiting : List Enlistment} (hw : r.waiting = x :: waiting) (hst : r.status = some st)
    (hb : been ++ r.waiting = r.underway.plan.enlisted) (w : Asked τ) :
    let a := r.underway.pass.ask serve.noted x st w
    ∃ replies, a.2.log = w.log ++ replies ∧ replies.map Prod.fst = r.underway.pass.calls [x] ∧
      (⟨r.underway, waiting, a.1⟩ : Round).Told (asked ++ replies) := by
  obtain rfl := h.sofar st hst been hb
  intro a
  obtain ⟨replies, hc, hp, hn, hst'⟩ := r.underway.pass.ask_cameTo serve x
    (been.any r.underway.pass.dangling || someFailed asked) (someAtWork asked) w
  refine ⟨replies, hc, hp, fun h => ?_, fun st' h been' hb' => ?_⟩
  · rw [someFailed_append, hn h, Bool.or_true]
  · obtain rfl : been' = been ++ [x] := by
      rw [← hb, hw] at hb'
      exact List.append_cancel_right (by simpa using hb')
    have hx : [x].any r.underway.pass.dangling = r.underway.pass.dangling x := by simp
    rw [hst' st' h, List.any_append, hx, someFailed_append, someAtWork_append]
    congr 1
    ac_rfl

end Round.Told

/-! ## Offices -/

namespace Office

variable {σ : Type} {o : Office σ}

/-- Every round stands as those of its participants do that it has been to. -/
def Told (o : Office σ) : Prop := ∀ r ∈ o.rounds, r.Told (o.askedFor r.underway.id)

theorem Told.ofBaseUrl (base : String) (x : Engine σ × σ) : Told ⟨.ofBaseUrl base, [], [], x⟩ :=
  fun _ h => by cases h

variable [Journal σ]

/-- A round asks, or it has nobody to ask. -/
theorem ask_cases (o : Office σ) (i : Nat) :
    o.ask i = o ∨
    ∃ r x waiting st, o.rounds[i]? = some r ∧ r.waiting = x :: waiting ∧ r.status = some st ∧
      o.ask i = { o with
        rounds := o.rounds.set i
          ⟨r.underway, waiting, (r.underway.pass.ask Engine.server.noted x st o.served).1⟩
        served := (r.underway.pass.ask Engine.server.noted x st o.served).2 } := by
  unfold ask
  split
  · exact .inl rfl
  · rename_i r hr
    split
    · rename_i x waiting st hw hst
      exact .inr ⟨r, x, waiting, st, hr, hw, hst, rfl⟩
    · exact .inl rfl

/-- What does not ask makes no calls, and the only rounds it adds are those that begin. -/
theorem play_without_asking {m : Move σ} (hm : ∀ i, m ≠ .ask i) :
    (o.play m).served.log = o.served.log ∧
      ∀ r ∈ (o.play m).rounds, r ∈ o.rounds ∨
        ∃ ending id plan, (o.enter ending id).1 = .ok plan ∧
          r = .ofUnderway ⟨ending, id, plan⟩ := by
  cases m with
  | start | join | get | failStart | failJoin | elsewhere => exact ⟨rfl, fun r hr => .inl hr⟩
  | ask i => exact absurd rfl (hm i)
  | enter ending id =>
    rcases hb : (o.coordinator.count ending).beginEnding ending id with ⟨e | plan, c⟩
    · simp only [play, enter, hb]
      exact ⟨trivial, fun r hr => .inl hr⟩
    · have hp : (o.enter ending id).1 = .ok plan := by simp only [enter, hb]
      refine ⟨by simp only [play, enter, hb], fun r hr => ?_⟩
      rw [play, enter_rounds hp] at hr
      rcases List.mem_append.1 hr with hr | hr
      · exact .inl hr
      · exact .inr ⟨ending, id, plan, hp, List.mem_singleton.1 hr⟩
  | leave i now =>
    simp only [play, leave]
    split
    · exact ⟨rfl, fun r hr => .inl hr⟩
    · split
      · exact ⟨rfl, fun r hr => .inl hr⟩
      · refine ⟨?_, fun r hr => .inl (List.mem_of_mem_eraseIdx hr)⟩
        dsimp only
        split <;> rfl

theorem Told.play (h : o.Told) (ho : o.Sound) (m : Move σ) : (o.play m).Told := by
  by_cases hm : ∃ i, m = .ask i
  · obtain ⟨i, rfl⟩ := hm
    rw [Office.play]
    obtain hn | ⟨r, x, waiting, st, hi, hw, hst, ha⟩ := o.ask_cases i
    · rwa [hn]
    · have hr : r ∈ o.rounds := List.mem_of_getElem? hi
      obtain ⟨been, hb, -⟩ := ho.called r hr
      obtain ⟨replies, hc, hp, ht⟩ := (h r hr).ask Engine.server hw hst hb o.served
      have hcalls : (o.ask i).served.log = o.served.log ++ replies := by rw [ha]; exact hc
      intro r' hr'
      rw [askedFor_append hcalls hp]
      rw [ha] at hr'
      rcases eq_or_other_of_mem_set hr' with rfl | ⟨j, hne, hj⟩
      · rw [if_pos (show r.underway.pass.id = r.underway.id from rfl)]
        exact ht
      · have hid : r.underway.pass.id ≠ r'.underway.id := fun h' => hne (ho.eq_of_id_eq hi hj h')
        rw [if_neg hid, List.append_nil]
        exact h r' (List.mem_of_getElem? hj)
  · obtain ⟨hc, hr⟩ := o.play_without_asking (m := m) fun i hi => hm ⟨i, hi⟩
    intro r hmem
    rw [askedFor_congr hc]
    rcases hr r hmem with hr | ⟨ending, id, plan, hp, rfl⟩
    · exact h r hr
    · obtain ⟨e, he, ha, -⟩ := enter_active hp
      have hq : o.askedFor id = [] := ho.quiet id fun st hst => by
        rw [Floor.status?_of_get? he, ha, Option.some.injEq] at hst
        exact hst.symm
      simp only [Round.ofUnderway, hq]
      exact .ofUnderway _

/-! ## Requests that end an action -/

namespace Run

variable {r : Run σ} {n now : Nat} {u : Underway} {st : ActionStatus}

theorem told (r : Run σ) (n : Nat) : (r.before n).Told :=
  (replay_induction (P := fun o : Office σ => o.Sound ∧ o.Told)
    ⟨.ofBaseUrl r.base _, .ofBaseUrl r.base _⟩
    (fun _ move h => ⟨h.1.play move, h.2.play h.1 move⟩) n).2

/-- Move `n` is the second half of the request `u`, at the time `now`, and the request comes to
`st`. -/
def Leaves (r : Run σ) (n : Nat) (u : Underway) (now : Nat) (st : ActionStatus) : Prop :=
  ∃ i x, r.moves[n]? = some (.leave i now) ∧ (r.before n).rounds[i]? = some x ∧ x.underway = u ∧
    x.verdict? = some st

namespace Leaves

variable (h : r.Leaves n u now st)
include h

/-- What the request comes to by what became of its participants. -/
theorem cameTo : st = u.ending.cameTo
    (u.plan.enlisted.any u.pass.dangling || someFailed (r.asked n u.id))
    (someAtWork (r.asked n u.id)) := by
  obtain ⟨i, x, -, hx, rfl, hst⟩ := h
  exact (r.told n x (List.mem_of_getElem? hx)).verdict hst

/-- The request records what it comes to, with the time if nothing more is to come. -/
theorem recorded : ∃ x, (r.before (n + 1)).coordinator.get? u.id = some x ∧ x.status = st ∧
    x.finishedAt = if st.terminal then some now else none := by
  obtain ⟨i, x, hm, hx, rfl, hst⟩ := h
  obtain ⟨e, he, htr⟩ := (r.sound n).floor.underway x.underway
    (List.mem_map_of_mem (List.mem_of_getElem? hx))
  have hf := (r.sound n).floor.finished x.underway.id e he
  have hc : (r.before (n + 1)).coordinator =
      (r.before n).coordinator.record now x.underway.id st := by
    rw [r.follows.succ hm, play, leave, hx]
    simp only [hst]
  refine ⟨e.record.settle now st, by rw [hc]; exact Coordinator.get?_record he now st, rfl, ?_⟩
  have hnone : e.record.finishedAt = none := by
    rw [htr] at hf
    simpa [Ending.transient_terminal] using hf
  rw [ActionRecord.settle, hnone]

end Leaves

/-- A request that comes to done has asked everybody. -/
theorem Leaves.all_asked (h : r.Leaves n u now u.ending.done) :
    (r.asked n u.id).map Prod.fst = u.pass.calls u.plan.enlisted := by
  obtain ⟨i, x, -, hx, rfl, hst⟩ := h
  obtain ⟨been, hb, hc⟩ := (r.sound n).called x (List.mem_of_getElem? hx)
  unfold Round.verdict? at hst
  split at hst
  · cases hend : x.underway.ending <;> rw [hend] at hst <;> cases hst
  · rename_i hw
    rw [hw, List.append_nil] at hb
    rw [asked, hc, hb]
  · cases hst

/-- Some participant of the request `u` failed before move `n`. -/
def Fails (r : Run σ) (n : Nat) (u : Underway) : Prop :=
  (∃ x ∈ u.plan.enlisted, u.pass.dangling x = true) ∨
    ∃ y ∈ r.asked n u.id, y.2.isFailure = true

/-- Some participant of the request `u` has answered before move `n` that work goes on. -/
def AtWork (r : Run σ) (n : Nat) (u : Underway) : Prop :=
  ∃ y ∈ r.asked n u.id, y.2.inProgress = true

theorem fails_iff : r.Fails n u ↔
    (u.plan.enlisted.any u.pass.dangling || someFailed (r.asked n u.id)) = true := by
  simp only [Fails, someFailed, Bool.or_eq_true, List.any_eq_true]

theorem atWork_iff : r.AtWork n u ↔ someAtWork (r.asked n u.id) = true := by
  simp only [AtWork, someAtWork, List.any_eq_true]

/-- **What is recorded of an ending.** It is recorded as failed exactly when some participant
failed, even if another is still at work. If none failed, it is recorded as transient exactly when
some participant is still at work, and as done exactly when none is. The time at which the action
finished is recorded with a failure and with success; with the transient status there is none. -/
theorem recorded_iff (r : Run σ) {n now : Nat} {u : Underway} {st : ActionStatus}
    (h : r.Leaves n u now st) :
    (∃ x, (r.before (n + 1)).coordinator.get? u.id = some x ∧ x.status = st ∧
      x.finishedAt = if st = u.ending.transient then none else some now) ∧
    (st = u.ending.failed ↔ r.Fails n u) ∧
    (st = u.ending.transient ↔ r.AtWork n u ∧ ¬ r.Fails n u) ∧
    (st = u.ending.done ↔ ¬ r.AtWork n u ∧ ¬ r.Fails n u) := by
  obtain ⟨x, hx, hst, hfin⟩ := h.recorded
  obtain rfl := h.cameTo
  rw [Ending.cameTo_terminal] at hfin
  rw [fails_iff, atWork_iff]
  refine ⟨⟨x, hx, hst, ?_⟩, Ending.cameTo_eq_failed_iff, Ending.cameTo_eq_transient_iff,
    Ending.cameTo_eq_done_iff⟩
  rw [hfin]
  split <;> simp_all

/-- **What an action that went well rests on.** If an ending is recorded as done, then every link
for the operation names a participant, everybody who has one was asked, and every answer was
conclusive: none is an error, none says that work goes on, and none is a failure. -/
theorem went_well (r : Run σ) {n now : Nat} {u : Underway} (h : r.Leaves n u now u.ending.done) :
    (∀ x ∈ u.plan.enlisted, ∀ url, x.links.get? u.ending.operation = some url →
      ∃ owner op, Links.ofUrl? url = some (owner, op)) ∧
    (r.asked n u.id).map Prod.fst = u.pass.calls u.plan.enlisted ∧
    ∀ y ∈ r.asked n u.id, ∃ t, y.2 = .answered t ∧ t.Conclusive := by
  obtain ⟨hw, hf⟩ := Ending.cameTo_eq_done_iff.1 h.cameTo.symm
  rw [Bool.not_eq_true] at hw hf
  obtain ⟨hl, hf⟩ := Bool.or_eq_false_iff.1 hf
  refine ⟨fun x hx url hurl => ?_, h.all_asked, fun y hy => ?_⟩
  · have hx : u.pass.dangling x = false := by simpa using List.any_eq_false.1 hl x hx
    cases ho : Links.ofUrl? url with
    | none => simp [Pass.dangling, Underway.pass, hurl, ho] at hx
    | some y => exact ⟨y.1, y.2, rfl⟩
  · exact Reply.conclusive (by simpa using List.any_eq_false.1 hw y hy)
      (by simpa using List.any_eq_false.1 hf y hy)

/-! ## Endings with participants that always answer the same -/

/-- Where a participant takes requests for an operation. -/
def steadyUrl (owner : String) (op : Operation) : String :=
  s!"http://coord/lra-participant/{owner}/{op.name}"

/-- Some participants enlist in an action one after the other, and it is ended. -/
def steadyRun (ending : Ending) (parts : List (Descriptor (List Event))) : Run (List Event) where
  base := "http://coord"
  registry := parts.foldl Registry.put .empty
  state := []
  moves := .start 0 "client" none ::
    parts.map (fun d => .join firstAction
      s!"<{steadyUrl d.owner ending.operation}>; rel={ending.operation.name}" none none) ++
    .enter ending firstAction :: List.replicate parts.length (.ask 0) ++ [.leave 0 1]

/-- The request that ends the action, by the owners who enlisted. -/
def steadyUnderway (ending : Ending) (owners : List String) : Underway where
  ending := ending
  id := firstAction
  plan := ⟨none, owners.mapIdx fun i owner =>
    ⟨Slots.empty.insert ending.operation (steadyUrl owner ending.operation),
      s!"http://coord/recovery/{i + 1}", none⟩⟩

/-- Both are asked; one has failed and the other is at work. -/
def slowAndBroken : Run (List Event) :=
  steadyRun .close [.steady "slow" (.deferred .unit) (.deferred (.awaiting 0)),
    .steady "broken" .unit (.failed "out of order")]

/-- One answers that work goes on, and the action is recorded as failed and finished. -/
theorem failed_while_at_work :
    (slowAndBroken.asked 6 firstAction).map Prod.snd =
      [.answered .accepted, .answered (.status .failedToComplete)] ∧
    Termination.inProgress .accepted = true ∧
    ((slowAndBroken.before 7).coordinator.get? firstAction).map
      (fun x => (x.status, x.finishedAt)) = some (.failedToClose, some 1) := by
  decide +kernel

theorem slowAndBroken_leaves :
    slowAndBroken.Leaves 6 (steadyUnderway .close ["slow", "broken"]) 1 .failedToClose :=
  ⟨0, ⟨steadyUnderway .close ["slow", "broken"], [], some .failedToClose⟩, rfl,
    by decide +kernel, rfl, rfl⟩

theorem slowAndBroken_recorded :
    slowAndBroken.Leaves 6 (steadyUnderway .close ["slow", "broken"]) 1 .failedToClose ∧
    slowAndBroken.Fails 6 (steadyUnderway .close ["slow", "broken"]) ∧
    ∃ x, (slowAndBroken.before 7).coordinator.get? firstAction = some x ∧
      x.status = .failedToClose ∧ x.finishedAt = some 1 := by
  obtain ⟨hx, hf, -, -⟩ := recorded_iff slowAndBroken slowAndBroken_leaves
  exact ⟨slowAndBroken_leaves, hf.1 rfl, hx⟩

/-- The status with which a participant answers, and the status that its action is recorded with. -/
def endsOn (ending : Ending) (st : ParticipantStatus) : List Reply × Option ActionStatus :=
  let o := (steadyRun ending [.steady "Payments" .status (.status st)]).before 5
  ((o.askedFor firstAction).map Prod.snd, o.floor.status? firstAction)

/-- The participant was asked to complete before, and its answer arrives before the action is
cancelled. -/
def overtaken : Run (List Event) where
  base := "http://coord"
  registry := Registry.empty.put (Engine.Run.payments .unit (.awaiting 0))
  state := []
  moves := [.start 0 "client" none,
    .join firstAction "<http://coord/lra-participant/Payments/compensate>; rel=compensate"
      none none,
    .elsewhere (.call ⟨"Payments", .complete, firstAction, none⟩), .elsewhere (.fulfil 0 .unit),
    .elsewhere (.arrive [⟨"Payments", firstAction⟩]), .enter .cancel firstAction, .ask 0,
    .leave 0 1]

/-- An action is closed though its participant is still active or was compensated, and cancelled
though it is still active or was completed; the answer may be one to an earlier request. -/
theorem ends_well_on_any_status :
    endsOn .close .active = ([.answered (.status .active)], some .closed) ∧
    endsOn .close .compensated = ([.answered (.status .compensated)], some .closed) ∧
    endsOn .cancel .active = ([.answered (.status .active)], some .cancelled) ∧
    endsOn .cancel .completed = ([.answered (.status .completed)], some .cancelled) ∧
    overtaken.asked 7 firstAction =
      [(⟨"Payments", .compensate, firstAction, none⟩, .answered (.status .completed))] ∧
    (overtaken.before 8).floor.status? firstAction = some .cancelled := by
  decide +kernel

/-- Its participant completes at once. -/
def prompt : Run (List Event) := steadyRun .close [.steady "Payments" .unit .unit]

theorem prompt_leaves : prompt.Leaves 4 (steadyUnderway .close ["Payments"]) 1 .closed :=
  ⟨0, ⟨steadyUnderway .close ["Payments"], [], some .closed⟩, rfl, by decide +kernel, rfl, rfl⟩

theorem prompt_went_well :
    prompt.Leaves 4 (steadyUnderway .close ["Payments"]) 1 .closed ∧
    (prompt.asked 4 firstAction).map Prod.fst =
      [⟨"Payments", .complete, firstAction, none⟩] ∧
    ∀ y ∈ prompt.asked 4 firstAction, ∃ t, y.2 = .answered t ∧ t.Conclusive := by
  obtain ⟨-, hc, ht⟩ := went_well prompt prompt_leaves
  have hcalls : (steadyUnderway .close ["Payments"]).pass.calls
      (steadyUnderway .close ["Payments"]).plan.enlisted =
        [⟨"Payments", .complete, firstAction, none⟩] := by decide +kernel
  exact ⟨prompt_leaves, hc.trans hcalls, ht⟩

end Run

end Office

end Saga
