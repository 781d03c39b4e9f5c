import Saga.Proofs.Coordinator.Office

/-!
# One direction for each action

`Office.Run` is anything that happens to a new coordinator and the engine it drives. From the
request that gets past its first half on, an action is `Traced`: either the round of the request
asks its participants, or nobody can end the action any more and what the round has asked stays
(`Traced.play`). Whoever is asked is asked by such a round (`Run.enters_of_asked`), and there is one
for each action (`Run.Enters.history`).
-/

set_option autoImplicit false

namespace Saga.Office

variable {σ : Type} {o : Office σ} {id : ActionId} {u : Underway}

/-! ## After the request -/

/-- The round of a request asks, or it is over and nobody will ask again. -/
inductive Traced (o : Office σ) (u : Underway) : Prop
  | asking (r : Round) : r ∈ o.rounds → r.underway = u → Traced o u
  | ended (st : ActionStatus) (been : List Enlistment) : o.floor.Settled u.id st →
    been <+: u.plan.enlisted → (o.askedFor u.id).map Prod.fst = u.pass.calls been → Traced o u

theorem Traced.been (h : o.Traced u) (ho : o.Sound) :
    ∃ been, been <+: u.plan.enlisted ∧ (o.askedFor u.id).map Prod.fst = u.pass.calls been := by
  cases h with
  | asking r hr hu =>
    subst hu
    obtain ⟨been, hb, hc⟩ := ho.called r hr
    exact ⟨been, ⟨r.waiting, hb⟩, hc⟩
  | ended st been hs hb hc => exact ⟨been, hb, hc⟩

/-- Nobody is asked for an action that nobody can end any more. -/
theorem Turn.askedFor_of_settled {o' : Office σ} {m : Move σ} {st : ActionStatus}
    (ht : o.Turn m o') (hs : o.floor.Settled id st) : o'.askedFor id = o.askedFor id := by
  cases ht with
  | nothing _ hl => exact askedFor_congr hl id
  | entered _ _ _ _ _ _ hl => exact askedFor_congr hl id
  | left _ _ _ _ _ _ hl => exact askedFor_congr hl id
  | asked i r x waiting status replies hi hw hr hv hl hp =>
    have hne : r.underway.pass.id ≠ id :=
      hs.nobody r.underway (List.mem_map_of_mem (List.mem_of_getElem? hi))
    rw [askedFor_append hl hp, if_neg hne, List.append_nil]

/-- A round that is over leaves its action settled. -/
theorem settled_of_left {o' : Office σ} {i : Nat} {r : Round} (ho : o.Sound)
    (hc : o.floor.Change o'.floor) (hi : o.rounds[i]? = some r)
    (hr : o'.rounds = o.rounds.eraseIdx i) : ∃ st, o'.floor.Settled r.underway.id st := by
  have hm : r ∈ o.rounds := List.mem_of_getElem? hi
  obtain ⟨st, hst, ha⟩ := hc.not_active ho.floor (ho.status_round hm)
    (Ending.Verdict.ne_active (.inl rfl))
  refine ⟨st, hst, ha, fun u hu => ?_⟩
  have hu : u ∈ o.floor.underway.eraseIdx i := by
    simpa [floor, hr, List.eraseIdx_map] using hu
  have hi : o.floor.underway[i]? = some r.underway := by simp [floor, hi]
  exact ho.floor.id_ne_of_mem_eraseIdx hi hu

variable [Journal σ]

theorem Traced.play (h : o.Traced u) (ho : o.Sound) (m : Move σ) : (o.play m).Traced u := by
  have hc := play_floor ho m
  have ht := play_turn ho.verdict m
  generalize o.play m = o' at hc ht
  cases h with
  | ended st been hs hb hcalls =>
    exact .ended st been (hs.change ho.floor hc) hb (by rw [ht.askedFor_of_settled hs, hcalls])
  | asking r hr hu =>
    subst hu
    cases ht with
    | nothing hrs _ => exact .asking r (hrs ▸ hr) rfl
    | entered ending id plan _ _ hrs _ => exact .asking r (hrs ▸ List.mem_append_left _ hr) rfl
    | asked i r' x waiting status replies hi hw hrs hv hl hp =>
      obtain ⟨j, hj⟩ := List.mem_iff_getElem?.1 hr
      by_cases hij : i = j
      · subst hij
        rw [hj, Option.some.injEq] at hi
        subst hi
        obtain ⟨hlt, -⟩ := List.getElem?_eq_some_iff.1 hj
        exact .asking ⟨r.underway, waiting, status⟩ (hrs ▸ List.mem_set hlt _) rfl
      · refine .asking r (List.mem_of_getElem? (i := j) ?_) rfl
        rw [hrs, List.getElem?_set_ne hij, hj]
    | left i r' st hi hst hrs hl =>
      obtain ⟨j, hj⟩ := List.mem_iff_getElem?.1 hr
      by_cases hij : i = j
      · subst hij
        rw [hj, Option.some.injEq] at hi
        subst hi
        obtain ⟨st', hs⟩ := settled_of_left ho hc hj hrs
        obtain ⟨been, hb, hcalls⟩ := ho.called r hr
        exact .ended st' been hs ⟨r.waiting, hb⟩ (by rw [askedFor_congr hl, hcalls])
      · exact .asking r (hrs ▸ List.mem_eraseIdx_iff_getElem?.2 ⟨j, Ne.symm hij, hj⟩) rfl

/-! ## Runs -/

/-- Moves made one after the other in the office of a new coordinator. -/
structure Run (σ : Type) where
  base : String
  registry : Registry σ
  state : σ
  moves : List (Move σ)

namespace Run

variable {r : Run σ} {n m : Nat} {ending ending' : Ending} {plan plan' : Coordinator.EndingPlan}

/-- The office before move `n`. -/
def before (r : Run σ) (n : Nat) : Office σ :=
  replay play ⟨.ofBaseUrl r.base, [], [], .ofRegistry r.registry, r.state⟩ r.moves n

/-- What the coordinator has asked the engine for an action before move `n`. -/
def asked (r : Run σ) (n : Nat) (id : ActionId) : List (Call × Reply) := (r.before n).askedFor id

/-- Move `n` is the first half of a request to end the action, and the request gets past it. -/
structure Enters (r : Run σ) (n : Nat) (ending : Ending) (id : ActionId)
    (plan : Coordinator.EndingPlan) : Prop where
  move : r.moves[n]? = some (.enter ending id)
  past : ((r.before n).enter ending id).1 = .ok plan

theorem follows (r : Run σ) : Follows play r.moves r.before := follows_replay

theorem sound (r : Run σ) (n : Nat) : (r.before n).Sound :=
  replay_induction (P := Sound) (.ofBaseUrl r.base _) (fun _ move h => h.play move) n

/-- What the floor of the office is before the moves. -/
def history (r : Run σ) : Floor.History where
  floor n := (r.before n).floor
  sound n := (r.sound n).floor
  change n := r.follows.related (R := fun o o' => o.floor.Change o'.floor)
    (.nothing ⟨rfl, rfl, rfl⟩ rfl) fun move _ => play_floor (r.sound n) move

/-! ## Requests that end an action -/

namespace Enters

variable (h : r.Enters n ending id plan)
include h

theorem active : (r.before n).floor.status? id = some .active := by
  obtain ⟨e, he, ha, -⟩ := enter_active h.past
  rw [Floor.status?_of_get? he, ha]

theorem enlisted_eq : plan.enlisted = (r.before n).coordinator.enlisted id := by
  obtain ⟨e, he, -, rfl⟩ := enter_active h.past
  simp only [Coordinator.enlisted, he]

theorem mem_rounds : Round.ofUnderway ⟨ending, id, plan⟩ ∈ (r.before (n + 1)).rounds := by
  rw [r.follows.succ h.move, play, enter_rounds h.past]
  exact List.mem_append_right _ (List.mem_singleton.2 rfl)

theorem traced (hnm : n < m) : (r.before m).Traced ⟨ending, id, plan⟩ :=
  r.follows.keeps (P := fun o => o.Traced ⟨ending, id, plan⟩) hnm (.asking _ h.mem_rounds rfl)
    fun k move _ _ _ ht => ht.play (r.sound k) move

theorem history : r.history.Enters n ending id :=
  ⟨h.active, (r.sound (n + 1)).status_round h.mem_rounds⟩

theorem quiet (hmn : m ≤ n) : r.asked m id = [] := by
  refine (r.sound m).quiet id fun st hst => by_contra fun ha => ?_
  obtain ⟨st', hst', ha'⟩ := r.history.not_active_mono hst ha hmn
  exact ha' (Option.some.inj (hst'.symm.trans h.active))

end Enters

/-- Every round is that of a request that got past its first half. -/
theorem enters_of_mem_rounds {x : Round} (hx : x ∈ (r.before n).rounds) :
    ∃ m, r.Enters m x.underway.ending x.underway.id x.underway.plan := by
  refine r.follows.keeps (P := fun o => ∀ x ∈ o.rounds,
      ∃ m, r.Enters m x.underway.ending x.underway.id x.underway.plan)
    (Nat.zero_le n) (fun x hx => by cases hx) (fun n move _ _ hm ih x hx => ?_) x hx
  cases play_turn (r.sound n).verdict move with
  | nothing hr _ => exact ih x (hr ▸ hx)
  | left i r' st _ _ hr _ => exact ih x (List.mem_of_mem_eraseIdx (hr ▸ hx))
  | entered ending id plan hmove hp hr _ =>
    rw [hr, List.mem_append, List.mem_singleton] at hx
    rcases hx with hx | rfl
    · exact ih x hx
    · exact ⟨n, hmove ▸ hm, hp⟩
  | asked i r' y waiting status replies hi _ hr _ _ _ =>
    rw [hr] at hx
    rcases List.mem_or_eq_of_mem_set hx with hx | rfl
    · exact ih x hx
    · have hr' : r' ∈ (r.before n).rounds := List.mem_of_getElem? hi
      exact ih r' hr'

/-- Whoever is asked is asked by such a request. -/
theorem enters_of_asked (h : r.asked n id ≠ []) : ∃ m ending plan, r.Enters m ending id plan := by
  refine r.follows.keeps (P := fun o => o.askedFor id ≠ [] →
      ∃ m ending plan, r.Enters m ending id plan)
    (Nat.zero_le n) (fun h => absurd rfl h) (fun n move _ _ _ ih h => ?_) h
  cases play_turn (r.sound n).verdict move with
  | nothing _ hl | left _ _ _ _ _ _ hl | entered _ _ _ _ _ _ hl =>
    rw [askedFor_congr hl] at h
    exact ih h
  | asked i r' y waiting status replies hi _ _ _ hl hp =>
    rw [askedFor_append hl hp] at h
    split at h
    · rename_i hid
      obtain ⟨m, hr⟩ := enters_of_mem_rounds (List.mem_of_getElem? hi)
      rw [show r'.underway.id = id from hid] at hr
      exact ⟨m, _, _, hr⟩
    · rw [List.append_nil] at h
      exact ih h

/-- **One direction.** Whatever the coordinator asks the engine for an action, it asks in one pass of
one request. Nobody is asked before the request; after it, the calls are those of the first so many
of the participants that had enlisted when the request took the action out of active, in the order in
which they joined. -/
theorem one_direction (r : Run σ) (id : ActionId) :
    (∀ n, r.asked n id = []) ∨
    ∃ m ending plan, r.Enters m ending id plan ∧
      (∀ m' ending' plan', r.Enters m' ending' id plan' → m' = m ∧ ending' = ending) ∧
      (r.before m).floor.status? id = some .active ∧
      plan.enlisted = (r.before m).coordinator.enlisted id ∧
      (∀ n, n ≤ m → r.asked n id = []) ∧
      ∀ n, ∃ been, been <+: plan.enlisted ∧
        (r.asked n id).map Prod.fst = Pass.calls ⟨ending, id, plan.parent⟩ been ∧
        ∀ x ∈ r.asked n id, x.1.operation = ending.operation := by
  by_cases hex : ∃ n, r.asked n id ≠ []
  · obtain ⟨k, hk⟩ := hex
    obtain ⟨m, ending, plan, h⟩ := enters_of_asked hk
    refine .inr ⟨m, ending, plan, h, fun _ _ _ h' => h.history.unique h'.history, h.active,
      h.enlisted_eq, fun n hn => h.quiet hn, fun n => ?_⟩
    rcases Nat.lt_or_ge m n with hlt | hge
    · obtain ⟨been, hb, hc⟩ := (h.traced hlt).been (r.sound n)
      refine ⟨been, hb, hc, fun x hx => ?_⟩
      have hx : x.1 ∈ Pass.calls ⟨ending, id, plan.parent⟩ been := hc ▸ List.mem_map_of_mem hx
      exact Pass.operation_of_mem_calls hx
    · exact ⟨[], List.nil_prefix, by simp [h.quiet hge, Pass.calls], by simp [h.quiet hge]⟩
  · exact .inl fun n => by_contra fun hn => hex ⟨n, hn⟩

end Run

end Saga.Office
