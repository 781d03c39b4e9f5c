import Saga.Pending
import Saga.Proofs.Parties
import Saga.Proofs.Replay

/-!
# An answer is handed over once

A `Handover` is a cell with all the calls that there are on it: those that hand an answer in
(`Resolver`) and those that take it (`Taker`), each somewhere between two of the cell's atomic steps.
A `Move` is a new call or the next step of one, so the moves of a run are the steps of all of them in
any order.

`Handover.Sound` ties the cell to the calls: it has been claimed by one resolver at most, it shows
how far that one has come, and what is in it, or was taken out, is the answer of the resolver that
was told it was the first (`Handover.sound`). So the answer is handed over once
(`Handover.hands_over_once`). The steps of a call that nobody comes between are what
`PendingCell.resolve` and `PendingCell.take` do (`play_resolve_undisturbed`,
`play_take_undisturbed`).
-/

set_option autoImplicit false

namespace Saga

/-- What can be seen of a cell may change in these ways. -/
inductive CellState.Moves : CellState → CellState → Prop
  | stays (s : CellState) : Moves s s
  | arrives : Moves unresolved resolved
  | isTaken : Moves resolved consumed

namespace PendingCell

/-! ## Calls on a cell -/

/-- How far a call that hands an answer in has come. -/
inductive ResolverStage where
  | claiming
  /-- It has won, and its answer is not in the cell yet. -/
  | storing
  /-- Its answer is in the cell, and nobody can see it yet. -/
  | publishing
  | returned (first : Bool)
  deriving DecidableEq, Repr

/-- A call that hands an answer in. -/
structure Resolver where
  answer : Answer
  stage : ResolverStage
  deriving DecidableEq, Repr

/-- A call that takes the answer, by how far it has come. -/
inductive Taker where
  | asking
  /-- It has the right to the answer. -/
  | collecting
  /-- It had the right to the answer, and this is what it found in the cell. -/
  | found (answer : Option Answer)
  | refused
  deriving DecidableEq, Repr

namespace Resolver

/-- Has it won? -/
def claimed (r : Resolver) : Bool :=
  match r.stage with
  | .storing | .publishing | .returned true => true
  | .claiming | .returned false => false

/-- Was it told that it is the first? -/
def won (r : Resolver) : Bool := r.stage == .returned true

def hasReturned (r : Resolver) : Bool :=
  match r.stage with
  | .returned _ => true
  | .claiming | .storing | .publishing => false

/-- The next step of a resolver, unless it has returned. -/
def next? (r : Resolver) (p : PendingCell) : Option (Resolver × PendingCell) :=
  match r.stage with
  | .claiming =>
    match p.claim? with
    | some p => some ({ r with stage := .storing }, p)
    | none => some ({ r with stage := .returned false }, p)
  | .storing => some ({ r with stage := .publishing }, p.store r.answer)
  | .publishing => some ({ r with stage := .returned true }, p.publish)
  | .returned _ => none

end Resolver

namespace Taker

/-- Has it the right to the answer, or had it? -/
def entitled : Taker → Bool
  | collecting | found _ => true
  | asking | refused => false

/-- What the call came to, if it has returned. -/
def result? : Taker → Option (Option Answer)
  | found answer => some answer
  | refused => some none
  | asking | collecting => none

/-- Has it returned with an answer? -/
def served (t : Taker) : Bool :=
  match t.result? with
  | some (some _) => true
  | some none | none => false

/-- The next step of a taker, unless it has returned. -/
def next? (t : Taker) (p : PendingCell) : Option (Taker × PendingCell) :=
  match t with
  | asking =>
    match p.handOver? with
    | some p => some (collecting, p)
    | none => some (refused, p)
  | collecting => some (found p.collect.1, p.collect.2)
  | found _ | refused => none

end Taker

/-! ## Moves -/

/-- A cell with the calls on it, in the order in which they came. -/
structure Handover where
  cell : PendingCell
  resolvers : List Resolver
  takers : List Taker
  deriving DecidableEq, Repr

inductive Move where
  /-- Somebody calls to hand an answer in. -/
  | resolve (a : Answer)
  /-- Somebody calls to take the answer. -/
  | take
  /-- A resolver takes its next step. -/
  | goResolver (i : Nat)
  /-- A taker takes its next step. -/
  | goTaker (i : Nat)
  deriving DecidableEq, Repr

namespace Handover

/-- A new cell, and nobody there. -/
def ofOperation (op : Operation) : Handover := ⟨.ofOperation op, [], []⟩

def play (x : Handover) : Move → Handover
  | .resolve a => { x with resolvers := x.resolvers ++ [⟨a, .claiming⟩] }
  | .take => { x with takers := x.takers ++ [.asking] }
  | .goResolver i =>
    match x.resolvers[i]?.bind fun r => r.next? x.cell with
    | none => x
    | some (r, p) => { x with cell := p, resolvers := x.resolvers.set i r }
  | .goTaker i =>
    match x.takers[i]?.bind fun t => t.next? x.cell with
    | none => x
    | some (t, p) => { x with cell := p, takers := x.takers.set i t }

/-- The cell and the calls on it before move `n`. -/
def before (op : Operation) (moves : List Move) (n : Nat) : Handover :=
  replay play (ofOperation op) moves n

end Handover

/-! ## What a move does -/

namespace Handover

/-- What may become of a cell and the calls on it with one move. -/
inductive Next (x : Handover) : Handover → Prop
  | same : Next x x
  | resolver (a : Answer) : Next x { x with resolvers := x.resolvers ++ [⟨a, .claiming⟩] }
  | taker : Next x { x with takers := x.takers ++ [.asking] }
  | claimed {i : Nat} {a : Answer} (hi : x.resolvers[i]? = some ⟨a, .claiming⟩)
    (hp : x.cell.phase = .unresolved) :
      Next x ⟨{ x.cell with phase := .resolving }, x.resolvers.set i ⟨a, .storing⟩, x.takers⟩
  | lost {i : Nat} {a : Answer} (hi : x.resolvers[i]? = some ⟨a, .claiming⟩)
    (hp : x.cell.phase ≠ .unresolved) :
      Next x { x with resolvers := x.resolvers.set i ⟨a, .returned false⟩ }
  | stored {i : Nat} {a : Answer} (hi : x.resolvers[i]? = some ⟨a, .storing⟩) :
      Next x ⟨x.cell.store a, x.resolvers.set i ⟨a, .publishing⟩, x.takers⟩
  | published {i : Nat} {a : Answer} (hi : x.resolvers[i]? = some ⟨a, .publishing⟩) :
      Next x ⟨x.cell.publish, x.resolvers.set i ⟨a, .returned true⟩, x.takers⟩
  | entitled {i : Nat} (hi : x.takers[i]? = some .asking) (hp : x.cell.phase = .resolved) :
      Next x ⟨{ x.cell with phase := .consumed }, x.resolvers, x.takers.set i .collecting⟩
  | refused {i : Nat} (hi : x.takers[i]? = some .asking) (hp : x.cell.phase ≠ .resolved) :
      Next x { x with takers := x.takers.set i .refused }
  | collected {i : Nat} (hi : x.takers[i]? = some .collecting) :
      Next x ⟨{ x.cell with value := none }, x.resolvers, x.takers.set i (.found x.cell.value)⟩

theorem next_play (x : Handover) (move : Move) : x.Next (x.play move) := by
  cases move with
  | resolve a => exact .resolver a
  | take => exact .taker
  | goResolver i =>
    cases hi : x.resolvers[i]? with
    | none =>
      simp only [play, hi, Option.bind_none]
      exact .same
    | some r =>
      obtain ⟨a, stage⟩ := r
      simp only [play, hi, Option.bind_some, Resolver.next?]
      cases stage with
      | claiming =>
        by_cases hp : x.cell.phase = .unresolved
        · simp only [claim?, if_pos hp]
          exact .claimed hi hp
        · simp only [claim?, if_neg hp]
          exact .lost hi hp
      | storing => exact .stored hi
      | publishing => exact .published hi
      | returned first => exact .same
  | goTaker i =>
    cases hi : x.takers[i]? with
    | none =>
      simp only [play, hi, Option.bind_none]
      exact .same
    | some t =>
      simp only [play, hi, Option.bind_some, Taker.next?]
      cases t with
      | asking =>
        by_cases hp : x.cell.phase = .resolved
        · simp only [handOver?, if_pos hp]
          exact .entitled hi hp
        · simp only [handOver?, if_neg hp]
          exact .refused hi hp
      | collecting => exact .collected hi
      | found answer | refused => exact .same

end Handover

/-! ## What the cell has to do with the calls on it -/

/-- The cell is such as it must be with a resolver at its stage. -/
def Resolver.Fits (r : Resolver) (p : PendingCell) : Prop :=
  match r.stage with
  | .claiming => True
  | .storing => p.phase = .resolving
  | .publishing => p.phase = .resolving ∧ p.value = some r.answer
  | .returned true => p.phase = .resolved ∧ p.value = some r.answer ∨ p.phase = .consumed
  | .returned false => p.phase ≠ .unresolved

namespace Handover

/-- The cell shows how far the calls have come. -/
structure Sound (x : Handover) : Prop where
  claimed : x.resolvers.countP Resolver.claimed = if x.cell.phase = .unresolved then 0 else 1
  fits : ∀ r ∈ x.resolvers, r.Fits x.cell
  entitled : x.takers.countP Taker.entitled = if x.cell.phase = .consumed then 1 else 0
  /-- The answer is there for the taker that has the right to it. -/
  collecting : .collecting ∈ x.takers → ∃ r ∈ x.resolvers, r.won = true ∧
    x.cell.value = some r.answer
  found : ∀ v, .found v ∈ x.takers → ∃ r ∈ x.resolvers, r.won = true ∧ v = some r.answer

end Handover

namespace Resolver

variable {r : Resolver} {p q : PendingCell}

theorem fits_of_not_claimed (h : r.claimed = false) (hq : q.phase ≠ .unresolved) : r.Fits q := by
  obtain ⟨a, stage⟩ := r
  cases stage with
  | claiming => trivial
  | storing | publishing => cases h
  | returned first =>
    cases first with
    | true => cases h
    | false => exact hq

/-- The resolver of a cell that is resolved or consumed has returned. -/
theorem Fits.won (h : r.Fits p) (hc : r.claimed = true) (hp : p.phase ≠ .resolving) :
    r.won = true := by
  obtain ⟨a, stage⟩ := r
  cases stage with
  | claiming => cases hc
  | storing => exact absurd h hp
  | publishing => exact absurd h.1 hp
  | returned first =>
    cases first with
    | true => rfl
    | false => cases hc

theorem Fits.value (h : r.Fits p) (hw : r.won = true) (hp : p.phase = .resolved) :
    p.value = some r.answer := by
  obtain ⟨a, stage⟩ := r
  obtain rfl : stage = .returned true := by simpa [Resolver.won] using hw
  rcases h with h | h
  · exact h.2
  · rw [hp] at h
    cases h

/-- Once the cell is consumed it stays fit for everybody. -/
theorem Fits.consumed (h : r.Fits p) (hp : p.phase ≠ .resolving) (hq : q.phase = .consumed) :
    r.Fits q := by
  cases hc : r.claimed with
  | false => exact fits_of_not_claimed hc (by simp [hq])
  | true =>
    have hw := h.won hc hp
    obtain ⟨a, stage⟩ := r
    obtain rfl : stage = .returned true := by simpa [Resolver.won] using hw
    exact .inr hq

theorem claimed_of_won (h : r.won = true) : r.claimed = true := by
  obtain ⟨a, stage⟩ := r
  obtain rfl : stage = .returned true := by simpa [Resolver.won] using h
  rfl

end Resolver

namespace Handover

namespace Sound

variable {x : Handover} {i j : Nat} {r d : Resolver} {t u : Taker}

theorem ofOperation (op : Operation) : (ofOperation op).Sound where
  claimed := rfl
  fits := nofun
  entitled := rfl
  collecting := nofun
  found := nofun

/-! ### One of each -/

theorem phase_ne_unresolved (h : x.Sound) (hr : r ∈ x.resolvers) (hc : r.claimed = true) :
    x.cell.phase ≠ .unresolved := by
  intro hp
  have hpos : 0 < x.resolvers.countP Resolver.claimed := List.countP_pos_iff.2 ⟨r, hr, hc⟩
  have := h.claimed
  rw [if_pos hp] at this
  omega

theorem phase_eq_consumed (h : x.Sound) (ht : t ∈ x.takers) (he : t.entitled = true) :
    x.cell.phase = .consumed := by
  refine Decidable.not_not.1 fun hp => ?_
  have hpos : 0 < x.takers.countP Taker.entitled := List.countP_pos_iff.2 ⟨t, ht, he⟩
  have := h.entitled
  rw [if_neg hp] at this
  omega

/-- The cell has one resolver that claimed it, or none if it is unresolved. -/
theorem others_not_claimed (h : x.Sound) (hi : x.resolvers[i]? = some r)
    (hr : x.cell.phase = .unresolved ∨ r.claimed = true) (hij : i ≠ j)
    (hj : x.resolvers[j]? = some d) : d.claimed = false := by
  refine Bool.eq_false_iff.2 fun hd => ?_
  rcases hr with hp | hr
  · exact h.phase_ne_unresolved (List.mem_of_getElem? hj) hd hp
  · have htwo : 2 ≤ x.resolvers.countP Resolver.claimed := two_le_countP hij hi hj hr hd
    have := h.claimed
    split at this <;> omega

/-- The cell has one taker with the right to the answer, or none if it is not consumed. -/
theorem others_not_entitled (h : x.Sound) (hi : x.takers[i]? = some t)
    (ht : x.cell.phase ≠ .consumed ∨ t.entitled = true) (hij : i ≠ j)
    (hj : x.takers[j]? = some u) : u.entitled = false := by
  refine Bool.eq_false_iff.2 fun hu => ?_
  rcases ht with hp | ht
  · exact hp (h.phase_eq_consumed (List.mem_of_getElem? hj) hu)
  · have htwo : 2 ≤ x.takers.countP Taker.entitled := two_le_countP hij hi hj ht hu
    have := h.entitled
    split at this <;> omega

/-- A cell that is resolved holds the answer of the resolver that was told it was the first. -/
theorem exists_won (h : x.Sound) (hp : x.cell.phase = .resolved) :
    ∃ r ∈ x.resolvers, r.won = true ∧ x.cell.value = some r.answer := by
  have hone := h.claimed
  rw [if_neg (by simp [hp])] at hone
  obtain ⟨r, hr, hc⟩ := List.countP_pos_iff.1 (Nat.lt_of_lt_of_eq Nat.zero_lt_one hone.symm)
  have hw := (h.fits r hr).won hc (by simp [hp])
  exact ⟨r, hr, hw, (h.fits r hr).value hw hp⟩

/-! ### Resolvers -/

/-- It is enough that the step of the one resolver at work fits the cell that it makes. -/
theorem advanced (h : x.Sound) (hi : x.resolvers[i]? = some r)
    (hr : x.cell.phase = .unresolved ∨ r.claimed = true) (hx : x.cell.phase ≠ .consumed)
    {p : PendingCell} (hp : p.phase = .resolving ∨ p.phase = .resolved) (hd : d.claimed = true)
    (fits : d.Fits p) : Sound ⟨p, x.resolvers.set i d, x.takers⟩ := by
  have hp₀ : p.phase ≠ .unresolved := by rcases hp with hp | hp <;> simp [hp]
  have hp₁ : p.phase ≠ .consumed := by rcases hp with hp | hp <;> simp [hp]
  refine ⟨?_, fun c hc => ?_, ?_, fun ht => ?_, fun v ht => ?_⟩
  · have hset := countP_set_add hi d Resolver.claimed
    have hold := h.claimed
    rw [if_neg hp₀]
    rw [hd] at hset
    rcases hr with hu | hr
    · have hr : r.claimed = false := Bool.eq_false_iff.2 fun hc =>
        h.phase_ne_unresolved (List.mem_of_getElem? hi) hc hu
      rw [if_pos hu] at hold
      rw [hold, hr] at hset
      simpa using hset
    · rw [if_neg (h.phase_ne_unresolved (List.mem_of_getElem? hi) hr)] at hold
      rw [hold, hr] at hset
      simpa using hset
  · rcases eq_or_other_of_mem_set hc with rfl | ⟨j, hij, hj⟩
    · exact fits
    · exact Resolver.fits_of_not_claimed (h.others_not_claimed hi hr hij hj) hp₀
  · have hold := h.entitled
    rw [if_neg hx] at hold
    rw [if_neg hp₁, hold]
  · exact absurd (h.phase_eq_consumed ht rfl) hx
  · exact absurd (h.phase_eq_consumed ht rfl) hx

theorem lost (h : x.Sound) {a : Answer} (hi : x.resolvers[i]? = some ⟨a, .claiming⟩)
    (hp : x.cell.phase ≠ .unresolved) :
    Sound { x with resolvers := x.resolvers.set i ⟨a, .returned false⟩ } := by
  -- whoever was told that it was the first is still there
  have hstays : ∀ c ∈ x.resolvers, c.won = true → c ∈ x.resolvers.set i ⟨a, .returned false⟩ :=
    fun c hc hw => mem_set_of_ne hi hc (by rintro rfl; cases hw) _
  refine ⟨?_, fun c hc => ?_, h.entitled, fun ht => ?_, fun v ht => ?_⟩
  · have hset := countP_set_add hi ⟨a, .returned false⟩ Resolver.claimed
    rw [← h.claimed]
    exact hset
  · rcases eq_or_other_of_mem_set hc with rfl | ⟨j, -, hj⟩
    · exact hp
    · exact h.fits c (List.mem_of_getElem? hj)
  · obtain ⟨c, hc, hw, hv⟩ := h.collecting ht
    exact ⟨c, hstays c hc hw, hw, hv⟩
  · obtain ⟨c, hc, hw, hv⟩ := h.found v ht
    exact ⟨c, hstays c hc hw, hw, hv⟩

/-! ### Takers -/

theorem handedOver (h : x.Sound) (hi : x.takers[i]? = some .asking)
    (hp : x.cell.phase = .resolved) :
    Sound ⟨{ x.cell with phase := .consumed }, x.resolvers, x.takers.set i .collecting⟩ := by
  have hx : x.cell.phase ≠ .consumed := by simp [hp]
  refine ⟨?_, fun c hc => ?_, ?_, fun _ => h.exists_won hp, fun v ht => ?_⟩
  · have hold := h.claimed
    rw [if_neg (by simp [hp])] at hold
    exact hold
  · exact (h.fits c hc).consumed (by simp [hp]) rfl
  · have hset := countP_set_add hi .collecting Taker.entitled
    have hold := h.entitled
    rw [if_neg hx] at hold
    rw [hold] at hset
    exact hset
  · rcases eq_or_other_of_mem_set ht with ht | ⟨j, hij, hj⟩
    · cases ht
    · cases h.others_not_entitled hi (.inl hx) hij hj

theorem refused (h : x.Sound) (hi : x.takers[i]? = some .asking) :
    Sound { x with takers := x.takers.set i .refused } := by
  refine ⟨h.claimed, h.fits, ?_, fun ht => ?_, fun v ht => ?_⟩
  · rw [← h.entitled]
    exact countP_set_add hi .refused Taker.entitled
  · rcases eq_or_other_of_mem_set ht with ht | ⟨j, -, hj⟩
    · cases ht
    · exact h.collecting (List.mem_of_getElem? hj)
  · rcases eq_or_other_of_mem_set ht with ht | ⟨j, -, hj⟩
    · cases ht
    · exact h.found v (List.mem_of_getElem? hj)

theorem collected (h : x.Sound) (hi : x.takers[i]? = some .collecting) :
    Sound ⟨{ x.cell with value := none }, x.resolvers, x.takers.set i (.found x.cell.value)⟩ := by
  have hx : x.cell.phase = .consumed := h.phase_eq_consumed (List.mem_of_getElem? hi) rfl
  refine ⟨h.claimed, fun c hc => ?_, ?_, fun ht => ?_, fun v ht => ?_⟩
  · exact (h.fits c hc).consumed (by simp [hx]) hx
  · have hold := h.entitled
    have hset := countP_set_add hi (.found x.cell.value) Taker.entitled
    rw [hold] at hset
    simpa [Taker.entitled] using hset
  · rcases eq_or_other_of_mem_set ht with ht | ⟨j, hij, hj⟩
    · cases ht
    · cases h.others_not_entitled hi (.inr rfl) hij hj
  · rcases eq_or_other_of_mem_set ht with ht | ⟨j, hij, hj⟩
    · cases ht
      exact h.collecting (List.mem_of_getElem? hi)
    · cases h.others_not_entitled hi (.inr rfl) hij hj

theorem next {y : Handover} (h : x.Sound) (hy : x.Next y) : y.Sound := by
  cases hy with
  | same => exact h
  | resolver a =>
    refine ⟨?_, fun c hc => ?_, h.entitled, fun ht => ?_, fun v ht => ?_⟩
    · rw [← h.claimed, List.countP_append]
      rfl
    · rcases List.mem_append.1 hc with hc | hc
      · exact h.fits c hc
      · rw [List.mem_singleton.1 hc]
        trivial
    · obtain ⟨c, hc, hw⟩ := h.collecting ht
      exact ⟨c, List.mem_append_left _ hc, hw⟩
    · obtain ⟨c, hc, hw⟩ := h.found v ht
      exact ⟨c, List.mem_append_left _ hc, hw⟩
  | taker =>
    refine ⟨h.claimed, h.fits, ?_, fun ht => h.collecting ?_, fun v ht => h.found v ?_⟩
    · rw [← h.entitled, List.countP_append]
      rfl
    · simpa using ht
    · simpa using ht
  | claimed hi hp => exact h.advanced hi (.inl hp) (by simp [hp]) (.inl rfl) rfl rfl
  | lost hi hp => exact h.lost hi hp
  | stored hi =>
    have hp : x.cell.phase = .resolving := h.fits _ (List.mem_of_getElem? hi)
    exact h.advanced hi (.inr rfl) (by simp [hp]) (.inl hp) rfl ⟨hp, rfl⟩
  | published hi =>
    obtain ⟨hp, hv⟩ := h.fits _ (List.mem_of_getElem? hi)
    exact h.advanced hi (.inr rfl) (by simp [hp]) (.inr rfl) rfl (.inl ⟨rfl, hv⟩)
  | entitled hi hp => exact h.handedOver hi hp
  | refused hi hp => exact h.refused hi
  | collected hi => exact h.collected hi

/-! ### What can be told of the calls -/

theorem won_le_one (h : x.Sound) : x.resolvers.countP Resolver.won ≤ 1 := by
  have hle : x.resolvers.countP Resolver.won ≤ x.resolvers.countP Resolver.claimed :=
    List.countP_mono_left fun _ _ => Resolver.claimed_of_won
  have := h.claimed
  split at this <;> omega

/-- Of resolvers that have all returned, one was the first. -/
theorem won_eq_one (h : x.Sound) (hne : x.resolvers ≠ [])
    (hall : ∀ r ∈ x.resolvers, r.hasReturned = true) : x.resolvers.countP Resolver.won = 1 := by
  obtain ⟨r, hr⟩ := List.exists_mem_of_ne_nil _ hne
  -- whichever it is that has returned, somebody has claimed the cell
  have hp : x.cell.phase ≠ .unresolved := by
    have hfits := h.fits r hr
    have hret := hall r hr
    obtain ⟨a, stage⟩ := r
    cases stage with
    | claiming | storing | publishing => cases hret
    | returned first =>
      cases first with
      | true => exact h.phase_ne_unresolved hr rfl
      | false => exact hfits
  have hone := h.claimed
  rw [if_neg hp] at hone
  obtain ⟨w, hw, hc⟩ := List.countP_pos_iff.1 (Nat.lt_of_lt_of_eq Nat.zero_lt_one hone.symm)
  have hret := hall w hw
  have hwon : w.won = true := by
    obtain ⟨a, stage⟩ := w
    cases stage with
    | claiming | storing | publishing => cases hret
    | returned first =>
      cases first with
      | true => rfl
      | false => cases hc
  have hpos : 0 < x.resolvers.countP Resolver.won := List.countP_pos_iff.2 ⟨w, hw, hwon⟩
  have := h.won_le_one
  omega

theorem served_le_one (h : x.Sound) : x.takers.countP Taker.served ≤ 1 := by
  have hle : x.takers.countP Taker.served ≤ x.takers.countP Taker.entitled := by
    refine List.countP_mono_left fun t _ ht => ?_
    cases t with
    | collecting | found _ => rfl
    | asking | refused => cases ht
  have := h.entitled
  split at this <;> omega

theorem state_next {y : Handover} (h : x.Sound) (hy : x.Next y) :
    x.cell.state.Moves y.cell.state := by
  cases hy with
  | same | resolver | taker | lost | refused | stored | collected => exact .stays _
  | claimed hi hp =>
    have hs : x.cell.state = .unresolved := by simp [state, hp]
    rw [hs]
    exact .stays _
  | published hi =>
    have hs : x.cell.state = .unresolved := by
      simp [state, (h.fits _ (List.mem_of_getElem? hi)).1]
    rw [hs]
    exact .arrives
  | entitled hi hp =>
    have hs : x.cell.state = .resolved := by simp [state, hp]
    rw [hs]
    exact .isTaken

end Sound

theorem sound (op : Operation) (moves : List Move) (n : Nat) : (before op moves n).Sound :=
  replay_induction (.ofOperation op) (fun x move h => h.next (x.next_play move)) n

/-- **An answer is handed over once.** Whatever steps were taken in whatever order: at most one of
those who hand an answer in is told that it was the first, and exactly one is when all of them have
returned and there are any; at most one of those who take the answer gets one, and what it gets is
the answer of the one who was first; nobody who has the right to the answer finds the cell empty;
and what is seen of the cell goes from unresolved to resolved and on to consumed. -/
theorem hands_over_once (op : Operation) (moves : List Move) (n : Nat) :
    let x := before op moves n
    x.resolvers.countP Resolver.won ≤ 1 ∧
    (x.resolvers ≠ [] → (∀ r ∈ x.resolvers, r.hasReturned = true) →
      x.resolvers.countP Resolver.won = 1) ∧
    x.takers.countP Taker.served ≤ 1 ∧
    (∀ t ∈ x.takers, ∀ a, t.result? = some (some a) →
      ∃ r ∈ x.resolvers, r.won = true ∧ r.answer = a) ∧
    .found none ∉ x.takers ∧
    (before op moves 0).cell.state = .unresolved ∧
    x.cell.state.Moves (before op moves (n + 1)).cell.state := by
  intro x
  have h : x.Sound := sound op moves n
  refine ⟨h.won_le_one, h.won_eq_one, h.served_le_one, fun t ht a hta => ?_, fun ht => ?_, rfl, ?_⟩
  · cases t with
    | found v =>
      obtain ⟨r, hr, hw, hv⟩ := h.found v ht
      obtain rfl : v = some a := Option.some.inj hta
      exact ⟨r, hr, hw, (Option.some.inj hv).symm⟩
    | asking | collecting => cases hta
    | refused => cases hta
  · obtain ⟨r, -, -, hv⟩ := h.found none ht
    cases hv
  · exact follows_replay.related (R := fun x y : Handover => x.cell.state.Moves y.cell.state)
      (.stays _) fun move _ => h.state_next (x.next_play move)

/-- Of two who hand an answer in, one is on its way when somebody asks for the answer too early. -/
example :
    let moves : List Move := [.resolve .unit, .resolve (.failed "late"), .take, .goResolver 0,
      .goResolver 1, .goTaker 0, .goResolver 0, .goResolver 0, .take, .goTaker 1, .goTaker 1]
    (before .complete moves 11).resolvers.map Resolver.stage = [.returned true, .returned false] ∧
      (before .complete moves 11).takers = [.refused, .found (some .unit)] := by
  decide +kernel

/-! ## Calls that nobody comes between -/

theorem play_resolve_undisturbed (x : Handover) (a : Answer) :
    (.resolve a :: List.replicate 3 (.goResolver x.resolvers.length)).foldl play x =
      ⟨(x.cell.resolve a).2, x.resolvers ++ [⟨a, .returned (x.cell.resolve a).1⟩], x.takers⟩ := by
  by_cases hp : x.cell.phase = .unresolved <;>
    simp [List.replicate, play, Resolver.next?, resolve, claim?, hp]

theorem play_take_undisturbed (x : Handover) : ∃ t : Taker, t.result? = some x.cell.take.1 ∧
    (.take :: List.replicate 2 (.goTaker x.takers.length)).foldl play x =
      ⟨x.cell.take.2, x.resolvers, x.takers ++ [t]⟩ := by
  by_cases hp : x.cell.phase = .resolved
  · refine ⟨.found x.cell.value, ?_, ?_⟩ <;>
      simp [List.replicate, play, Taker.next?, Taker.result?, take, handOver?, collect, hp]
  · refine ⟨.refused, ?_, ?_⟩ <;>
      simp [List.replicate, play, Taker.next?, Taker.result?, take, handOver?, hp]

end Handover

end PendingCell

end Saga
