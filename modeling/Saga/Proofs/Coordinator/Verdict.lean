import Saga.Proofs.Coordinator.Outcome

/-!
# The verdict of a pass

A pass folds the answers of those whom it asks, one after the other, into one status. The status is
that of the worst answer, where a failure is worse than an answer that says that work goes on, and
this is worse than any other (`Pass.run_cameTo`). So it does not depend on the order, and those who
have no link for the operation have no part in it (`Pass.run_linked`): `Pass.folds_answers`.
-/

set_option autoImplicit false

namespace Saga

/-! ## Replies -/

/-- The reply of a participant that did not end its part, and is not at work on it. -/
inductive Reply.Fails : Reply → Prop
  | refused (error : CallError) : Fails (.refused error)
  | failedToComplete : Fails (.answered (.status .failedToComplete))
  | failedToCancel : Fails (.answered (.status .failedToCancel))
  | response {r : Response} : r.status < 200 ∨ 300 ≤ r.status → Fails (.answered (.response r))

/-- The reply of a participant that is still at work. -/
inductive Reply.GoesOn : Reply → Prop
  | accepted : GoesOn (.answered .accepted)
  | completing : GoesOn (.answered (.status .completing))
  | compensating : GoesOn (.answered (.status .compensating))
  | response {r : Response} : r.status = 202 → GoesOn (.answered (.response r))

namespace Reply

variable {reply : Reply}

theorem isFailure_iff (h : reply.broke = false) : reply.isFailure = true ↔ reply.Fails := by
  constructor
  · intro hf
    cases reply with
    | brokeDown text => cases h
    | refused error => exact .refused error
    | answered t =>
      cases t with
      | accepted | done => cases hf
      | status st =>
        cases st with
        | failedToComplete => exact .failedToComplete
        | failedToCancel => exact .failedToCancel
        | _ => cases hf
      | response r =>
        refine .response ?_
        by_cases hl : 200 ≤ r.status <;>
          simp [isFailure, Termination.isFailure, Response.isSuccess, hl] at hf <;> omega
  · rintro (_ | _ | _ | @⟨r, hr⟩)
    · rfl
    · rfl
    · rfl
    · simp only [isFailure, Termination.isFailure, Response.isSuccess, Bool.not_eq_true',
        Bool.and_eq_false_iff, decide_eq_false_iff_not]
      omega

theorem inProgress_iff : reply.inProgress = true ↔ reply.GoesOn := by
  constructor
  · intro hp
    cases reply with
    | brokeDown | refused => cases hp
    | answered t =>
      cases t with
      | accepted => exact .accepted
      | done => cases hp
      | status st =>
        cases st with
        | completing => exact .completing
        | compensating => exact .compensating
        | _ => cases hp
      | response r => exact .response (by simpa [inProgress, Termination.inProgress,
          Response.isAccepted] using hp)
  · rintro (_ | _ | _ | @⟨r, hr⟩)
    · rfl
    · rfl
    · rfl
    · simpa [inProgress, Termination.inProgress, Response.isAccepted] using hr

end Reply

namespace Pass

variable {τ : Type} [Journal τ] (p : Pass) (serve : Server τ)

/-! ## The fold -/

/-- The calls that a pass makes, with the replies. -/
def asked (enlisted : List Enlistment) (t : τ) : List (Call × Reply) :=
  (p.run serve.noted enlisted ⟨[], t⟩).2.log

/-- Has the participant a link for the operation? -/
def linked (x : Enlistment) : Bool := (x.links.get? p.ending.operation).isSome

theorem askAll_cameTo (enlisted : List Enlistment) (failed working : Bool) (w : Asked τ) :
    let a := p.askAll serve.noted enlisted (p.ending.cameTo failed working) w
    ∃ replies, a.2.log = w.log ++ replies ∧ (a.1 = none → someFailed replies = true) ∧
      ∀ st, a.1 = some st → st =
        p.ending.cameTo (failed || enlisted.any p.dangling || someFailed replies)
          (working || someAtWork replies) := by
  induction enlisted generalizing failed working w with
  | nil =>
    refine ⟨[], (List.append_nil _).symm, fun h => ?_, fun st h => ?_⟩
    · cases h
    · cases h
      simp [someFailed, someAtWork]
  | cons x enlisted ih =>
    obtain ⟨first, hc, -, hn, hst⟩ := p.ask_cameTo serve x failed working w
    rcases ha : p.ask serve.noted x (p.ending.cameTo failed working) w with ⟨_ | st, w'⟩
    · -- the callback broke down
      simp only [askAll, ha]
      rw [ha] at hc hn
      refine ⟨first, hc, fun _ => hn rfl, fun st h => ?_⟩
      cases h
    · rw [ha] at hc hst
      obtain rfl := hst st rfl
      obtain ⟨rest, hc', hn', hst'⟩ := ih (failed || p.dangling x || someFailed first)
        (working || someAtWork first) w'
      simp only [askAll, ha]
      refine ⟨first ++ rest, ?_, fun h => ?_, fun st h => ?_⟩
      · rw [hc', hc, List.append_assoc]
      · rw [someFailed_append, hn' h, Bool.or_true]
      · rw [hst' st h, List.any_cons, someFailed_append, someAtWork_append]
        congr 1 <;> ac_rfl

/-- What a pass comes to by what became of its participants. -/
theorem run_cameTo (enlisted : List Enlistment) (t : τ) :
    (p.run serve enlisted t).1 =
      p.ending.cameTo (enlisted.any p.dangling || someFailed (p.asked serve enlisted t))
        (someAtWork (p.asked serve enlisted t)) := by
  obtain ⟨_, -, hrun⟩ := p.run_noted serve enlisted t
  have hst : (p.run serve enlisted t).1 = (p.run serve.noted enlisted ⟨[], t⟩).1 := by rw [hrun]
  obtain ⟨replies, hc, hn, hs⟩ := p.askAll_cameTo serve enlisted false false ⟨[], t⟩
  have hdone : p.ending.cameTo false false = p.ending.done := rfl
  rw [hdone] at hc hn hs
  rw [hst, asked, run]
  rcases ha : p.askAll serve.noted enlisted p.ending.done ⟨[], t⟩ with ⟨_ | st, w⟩ <;>
    rw [ha] at hc hn hs
  · obtain rfl : w.log = replies := hc
    simp [hn rfl, Ending.cameTo]
  · obtain rfl : w.log = replies := hc
    simpa using hs st rfl

/-- If nobody breaks down, everybody is asked whom the pass is there to ask. -/
theorem asked_calm {enlisted : List Enlistment} {t : τ}
    (calm : ∀ y ∈ p.asked serve enlisted t, y.2.broke = false) :
    (p.asked serve enlisted t).map Prod.fst = p.calls enlisted := by
  obtain ⟨asked, ha, hrun⟩ := p.run_noted serve enlisted t
  have he : p.asked serve enlisted t = asked := by rw [Pass.asked, hrun, List.nil_append]
  rw [he] at calm ⊢
  refine ha.all_iff.2 fun i reply _ hr => ?_
  obtain ⟨y, hy, rfl⟩ := List.mem_map.1 (List.mem_of_getElem? hr)
  exact calm y hy

theorem askAll_linked (enlisted : List Enlistment) (status : ActionStatus) (t : τ) :
    p.askAll serve (enlisted.filter p.linked) status t = p.askAll serve enlisted status t := by
  induction enlisted generalizing status t with
  | nil => rfl
  | cons x enlisted ih =>
    cases hl : x.links.get? p.ending.operation with
    | none =>
      have hx : p.linked x = false := by simp [linked, hl]
      have hask : p.ask serve x status t = (some status, t) := by simp only [ask, hl]
      rw [List.filter_cons_of_neg (by simp [hx]), askAll, hask]
      exact ih status t
    | some url =>
      rw [List.filter_cons_of_pos (by simp [linked, hl]), askAll, askAll]
      rcases p.ask serve x status t with ⟨_ | st, t'⟩
      · rfl
      · exact ih st t'

/-- Those who have no link for the operation have no part in a pass. -/
theorem run_linked (enlisted : List Enlistment) (t : τ) :
    p.run serve (enlisted.filter p.linked) t = p.run serve enlisted t := by
  rw [run, run, askAll_linked]

theorem dangling_iff {x : Enlistment} : p.dangling x = true ↔
    ∃ url, x.links.get? p.ending.operation = some url ∧ Links.ofUrl? url = none := by
  simp [dangling, Option.any_eq_true]

/-- **How the answers are folded.** If no callback breaks down, a pass asks everybody whose link for
the operation names an owner, in the order in which they joined. It comes to the failed status if
some link for the operation names nobody or some reply is a failure, else to the transient status if
some reply says that work goes on, and else to the done status. So another pass over the same
participants in another order comes to the same with the same replies; and leaving out those who
have no link for the operation changes nothing at all. -/
theorem folds_answers (enlisted : List Enlistment) (t : τ)
    (calm : ∀ y ∈ p.asked serve enlisted t, y.2.broke = false) :
    let asked := p.asked serve enlisted t
    let status := (p.run serve enlisted t).1
    let failed := (∃ x ∈ enlisted, ∃ url, x.links.get? p.ending.operation = some url ∧
      Links.ofUrl? url = none) ∨ ∃ y ∈ asked, y.2.Fails
    let working := ∃ y ∈ asked, y.2.GoesOn
    asked.map Prod.fst = p.calls enlisted ∧
    (status = p.ending.failed ↔ failed) ∧
    (status = p.ending.transient ↔ working ∧ ¬ failed) ∧
    (status = p.ending.done ↔ ¬ working ∧ ¬ failed) ∧
    (∀ (serve' : Server τ) (enlisted' : List Enlistment) (t' : τ), enlisted'.Perm enlisted →
      ((p.asked serve' enlisted' t').map Prod.snd).Perm (asked.map Prod.snd) →
      (p.run serve' enlisted' t').1 = status) ∧
    p.run serve (enlisted.filter p.linked) t = p.run serve enlisted t := by
  intro asked status failed working
  have hst : status = _ := p.run_cameTo serve enlisted t
  have hfailed : (enlisted.any p.dangling || someFailed asked) = true ↔ failed := by
    rw [Bool.or_eq_true, List.any_eq_true, someFailed, List.any_eq_true]
    refine or_congr ?_ ?_
    · simp only [p.dangling_iff]
    · exact exists_congr fun y => and_congr_right fun hy => Reply.isFailure_iff (calm y hy)
  have hworking : someAtWork asked = true ↔ working := by
    simp only [someAtWork, List.any_eq_true, Reply.inProgress_iff, working]
  rw [← hfailed, ← hworking, hst]
  refine ⟨p.asked_calm serve calm, Ending.cameTo_eq_failed_iff, Ending.cameTo_eq_transient_iff,
    Ending.cameTo_eq_done_iff, fun serve' enlisted' t' hp hr => ?_, p.run_linked serve enlisted t⟩
  rw [p.run_cameTo serve' enlisted' t', hp.any_eq]
  have hany : ∀ q : Reply → Bool, (p.asked serve' enlisted' t').any (q ∘ Prod.snd) =
      asked.any (q ∘ Prod.snd) := fun q => by
    rw [← List.any_map, ← List.any_map, hr.any_eq]
  have hf : someFailed (p.asked serve' enlisted' t') = someFailed asked := hany Reply.isFailure
  have hw : someAtWork (p.asked serve' enlisted' t') = someAtWork asked := hany Reply.inProgress
  rw [hf, hw]

/-! ## A mixed round -/

/-- An engine that knows one participant that is slow and one that fails. -/
def mixedEngine : Engine (List Event) :=
  .ofRegistry ((Registry.empty.put
    (.steady "slow" (.deferred .unit) (.deferred (.awaiting 0)))).put
    (.steady "broken" .unit (.failed "out of order")))

/-- A participant with a link for one operation. -/
def enlistedFor (op : Operation) (owner : String) : Enlistment where
  links := Slots.empty.insert op (Office.Run.steadyUrl owner op)
  recoveryUrl := ""
  data := none

/-- Both of them, and between them one that is not to be asked to complete. -/
def mixed : List Enlistment :=
  [enlistedFor .complete "slow", enlistedFor .compensate "broken", enlistedFor .complete "broken"]

def mixedPass : Pass := ⟨.close, Office.firstAction, none⟩

theorem mixed_folds :
    (∀ y ∈ mixedPass.asked Engine.server mixed (mixedEngine, []), y.2.broke = false) ∧
    (mixedPass.asked Engine.server mixed (mixedEngine, [])).map Prod.snd =
      [.answered .accepted, .answered (.status .failedToComplete)] ∧
    (mixedPass.run Engine.server mixed (mixedEngine, [])).1 = .failedToClose ∧
    (mixedPass.run Engine.server mixed.reverse (mixedEngine, [])).1 = .failedToClose := by
  have hcalm : ∀ y ∈ mixedPass.asked Engine.server mixed (mixedEngine, []), y.2.broke = false := by
    decide +kernel
  have hr : (mixedPass.asked Engine.server mixed (mixedEngine, [])).map Prod.snd =
      [.answered .accepted, .answered (.status .failedToComplete)] := by
    decide +kernel
  have hr' : ((mixedPass.asked Engine.server mixed.reverse (mixedEngine, [])).map Prod.snd).Perm
      ((mixedPass.asked Engine.server mixed (mixedEngine, [])).map Prod.snd) := by
    decide +kernel
  obtain ⟨-, hf, -, -, hp, -⟩ :=
    folds_answers mixedPass Engine.server mixed (mixedEngine, []) hcalm
  have hfails : ∃ y ∈ mixedPass.asked Engine.server mixed (mixedEngine, []), y.2.Fails := by
    have hm : Reply.answered (.status .failedToComplete) ∈
        (mixedPass.asked Engine.server mixed (mixedEngine, [])).map Prod.snd := by simp [hr]
    obtain ⟨y, hy, he⟩ := List.mem_map.1 hm
    exact ⟨y, hy, he ▸ .failedToComplete⟩
  have hst := hf.2 (.inr hfails)
  exact ⟨hcalm, hr, hst, (hp _ _ _ mixed.reverse_perm hr').trans hst⟩

end Pass

end Saga
