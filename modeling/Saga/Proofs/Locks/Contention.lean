import Saga.Proofs.Locks.Cells
import Saga.Proofs.Parties
import Saga.Proofs.Replay

/-!
# Callers that come between each other

A `Contention` is the locks with all the calls that there are on them, each at some `Stage` between
two atomic steps. A `Move` is a new call, or the next step of any call that can take one; so the
moves of a run are the steps of all the callers in any order. A thread that calls again, or calls
from the body of a call, is one more caller.

`Contention.Sound` ties the cells to the callers: the references to a cell are the map's and those
of the callers at it, the lock of a cell is held by as many callers as it says, and a caller has the
very cell that the map has for its key until it has looked whether it is the last
(`Contention.sound`).
-/

set_option autoImplicit false

namespace Saga.Locks

/-! ## Callers -/

/-- How far a caller has come. -/
inductive Stage where
  /-- It has its reference to the cell and waits for the lock. -/
  | waiting
  /-- It holds the lock and its body is running. -/
  | inside
  /-- Its body has returned, or has broken down. -/
  | left (broke : Bool)
  /-- It has given the lock back. -/
  | released
  /-- It has looked whether nobody else refers to the cell. -/
  | retired
  /-- It has given its reference back. -/
  | gone
  deriving DecidableEq, Repr

namespace Stage

def holds : Stage → Bool
  | inside | left _ => true
  | _ => false

/-- Has the caller its reference to the cell? -/
def refers : Stage → Bool
  | gone => false
  | _ => true

/-- Has the caller yet to look whether it is the last? -/
def stays : Stage → Bool
  | retired | gone => false
  | _ => true

theorem refers_of_holds {s : Stage} (h : s.holds = true) : s.refers = true := by
  cases s <;> first | rfl | cases h

theorem refers_of_stays {s : Stage} (h : s.stays = true) : s.refers = true := by
  cases s <;> first | rfl | cases h

theorem stays_of_holds {s : Stage} (h : s.holds = true) : s.stays = true := by
  cases s <;> first | rfl | cases h

theorem eq_retired {s : Stage} (hr : s.refers = true) (hs : s.stays = false) : s = .retired := by
  cases s with
  | retired => rfl
  | gone => cases hr
  | _ => cases hs

end Stage

/-- A call that holds the lock of a key while its body runs. -/
structure Caller where
  key : CallKey
  /-- The number of the cell that it refers to. -/
  cell : Nat
  stage : Stage
  deriving DecidableEq, Repr

namespace Caller

def refersTo (n : Nat) (c : Caller) : Bool := c.stage.refers && decide (c.cell = n)

def holds (n : Nat) (c : Caller) : Bool := c.stage.holds && decide (c.cell = n)

theorem refersTo_of_holds {n : Nat} {c : Caller} (h : c.holds n = true) : c.refersTo n = true := by
  obtain ⟨hs, hn⟩ := Bool.and_eq_true_iff.1 h
  exact Bool.and_eq_true_iff.2 ⟨Stage.refers_of_holds hs, hn⟩

/-- The next step of a caller, if it can take it: how far it is then, and the locks. `broke` says
how its body ends. -/
def next? (c : Caller) (broke : Bool) (l : Locks) : Option (Stage × Locks) :=
  match c.stage with
  | .waiting => if l.isFree c.cell then some (.inside, l.acquire c.cell) else none
  | .inside => some (.left broke, l)
  | .left _ => some (.released, l.release c.cell)
  | .released => some (.retired, l.retire c.key c.cell)
  | .retired => some (.gone, l.detach c.cell)
  | .gone => none

end Caller

/-! ## Moves -/

/-- Locks with the calls on them, in the order in which they came. -/
structure Contention where
  locks : Locks
  callers : List Caller

inductive Move where
  /-- Somebody calls, and gets a reference to the cell of the key. -/
  | call (key : CallKey)
  /-- A caller takes its next step. -/
  | go (i : Nat) (broke : Bool)
  deriving DecidableEq, Repr

namespace Contention

/-- Nobody is there. -/
def empty : Contention := ⟨.empty, []⟩

def play (x : Contention) : Move → Contention
  | .call key => ⟨(x.locks.attach key).2, x.callers ++ [⟨key, (x.locks.attach key).1, .waiting⟩]⟩
  | .go i broke =>
    match x.callers[i]? with
    | none => x
    | some c =>
      match c.next? broke x.locks with
      | none => x
      | some (stage, locks) => ⟨locks, x.callers.set i { c with stage }⟩

/-- The locks and their callers before move `n`. -/
def before (moves : List Move) (n : Nat) : Contention := replay play empty moves n

/-! ## What the cells have to do with the callers -/

/-- The cells show what the callers have. -/
structure Sound (x : Contention) : Prop where
  refs : ∀ n, x.locks.refs n =
    x.locks.entries.values.count n + x.callers.countP (Caller.refersTo n)
  held : ∀ n, (x.locks.held n).toNat = x.callers.countP (Caller.holds n)
  own : ∀ c ∈ x.callers, c.stage.stays = true → x.locks.entries.get? c.key = some c.cell
  fresh : ∀ n, x.locks.fresh ≤ n → x.locks.refs n = 0
  /-- No two keys have one cell. -/
  apart : ∀ k k' n, x.locks.entries.get? k = some n → x.locks.entries.get? k' = some n → k = k'

theorem Sound.empty : Sound empty where
  refs n := by rfl
  held n := by rfl
  own c hc := by cases hc
  fresh n _ := by rfl
  apart k k' n hk := by cases hk

namespace Sound

variable {x : Contention} {i j n : Nat} {c d : Caller} {key : CallKey}

/-- A caller that has yet to look is at a cell with two references at least, the map's and its
own. -/
theorem two_le_refs (h : x.Sound) (hc : c ∈ x.callers) (hs : c.stage.stays = true) :
    2 ≤ x.locks.refs c.cell := by
  have hmap : 0 < x.locks.entries.values.count c.cell := Table.count_values_pos (h.own c hc hs)
  have hown : 0 < x.callers.countP (Caller.refersTo c.cell) :=
    List.countP_pos_iff.2 ⟨c, hc, by simp [Caller.refersTo, Stage.refers_of_stays hs]⟩
  have := h.refs c.cell
  omega

/-- Another such caller at the cell makes three. -/
theorem three_le_refs (h : x.Sound) (hij : i ≠ j) (hi : x.callers[i]? = some c)
    (hj : x.callers[j]? = some d) (hc : c.stage.stays = true) (hd : d.stage.refers = true)
    (hcell : d.cell = c.cell) : 3 ≤ x.locks.refs c.cell := by
  have hmap : 0 < x.locks.entries.values.count c.cell :=
    Table.count_values_pos (h.own c (List.mem_of_getElem? hi) hc)
  have htwo : 2 ≤ x.callers.countP (Caller.refersTo c.cell) :=
    two_le_countP hij hi hj (by simp [Caller.refersTo, Stage.refers_of_stays hc])
      (by simp [Caller.refersTo, hd, hcell])
  have := h.refs c.cell
  omega

theorem held_iff_exists (h : x.Sound) (n : Nat) :
    x.locks.held n = true ↔ ∃ c ∈ x.callers, c.holds n = true := by
  rw [← List.countP_pos_iff, ← h.held n]
  cases x.locks.held n <;> simp

/-- A cell that is held and referred to by a caller that does not hold it has two references. -/
theorem two_le_refs_of_held (h : x.Sound) (hi : x.callers[i]? = some c)
    (hr : c.stage.refers = true) (hn : c.stage.holds = false) (hh : x.locks.held c.cell = true) :
    2 ≤ x.locks.refs c.cell := by
  obtain ⟨d, hd, hdh⟩ := (h.held_iff_exists c.cell).1 hh
  obtain ⟨j, hj⟩ := List.getElem?_of_mem hd
  have hij : i ≠ j := by
    rintro rfl
    obtain rfl : c = d := by simpa [hi] using hj
    simp [Caller.holds, hn] at hdh
  have htwo : 2 ≤ x.callers.countP (Caller.refersTo c.cell) :=
    two_le_countP hij hi hj (by simp [Caller.refersTo, hr]) (Caller.refersTo_of_holds hdh)
  have := h.refs c.cell
  omega

/-- Two callers that have yet to look are at one cell just if they are at one key. -/
theorem cell_eq_iff (h : x.Sound) (hc : c ∈ x.callers) (hd : d ∈ x.callers)
    (hcs : c.stage.stays = true) (hds : d.stage.stays = true) :
    c.cell = d.cell ↔ c.key = d.key := by
  have hown := h.own c hc hcs
  have hown' := h.own d hd hds
  constructor
  · intro hcell
    rw [← hcell] at hown'
    exact h.apart c.key d.key c.cell hown hown'
  · intro hkey
    rw [hkey, hown'] at hown
    exact (Option.some.inj hown).symm

theorem others (h : x.Sound) (i : Nat) : ∀ j d, i ≠ j → x.callers[j]? = some d →
    d.stage.stays = true → x.locks.entries.get? d.key = some d.cell :=
  fun _ d _ hj hs => h.own d (List.mem_of_getElem? hj) hs

/-- After an arrival that leaves the entries of the others alone, every caller has the entry of its
key, if the new one has. -/
theorem own_arrival (h : x.Sound) {l : Locks} (hn : l.entries.get? key = some n)
    (hl : ∀ k m, x.locks.entries.get? k = some m → l.entries.get? k = some m) :
    ∀ c ∈ x.callers ++ [⟨key, n, .waiting⟩], c.stage.stays = true →
      l.entries.get? c.key = some c.cell := by
  intro c hc hs
  rcases List.mem_append.1 hc with hc | hc
  · exact hl _ _ (h.own c hc hs)
  · rw [List.mem_singleton.1 hc]
    exact hn

/-- A caller comes to a cell that is there. -/
theorem joined (h : x.Sound) (hk : x.locks.entries.get? key = some n) :
    Sound ⟨(x.locks.attach key).2, x.callers ++ [⟨key, n, .waiting⟩]⟩ := by
  have hpos : 0 < x.locks.refs n := by
    have := h.refs n
    have := Table.count_values_pos hk
    omega
  have hl : (x.locks.attach key).2.entries = x.locks.entries := by simp [attach, hk]
  have hf : (x.locks.attach key).2.fresh = x.locks.fresh := by simp [attach, hk]
  refine ⟨fun m => ?_, fun m => ?_,
    h.own_arrival (by rw [hl, hk]) (fun k m hm => by rw [hl, hm]), fun m hm => ?_,
    by rw [hl]; exact h.apart⟩
  · have := h.refs m
    rw [refs_attach_known hk hpos, hl, List.countP_append]
    by_cases hnm : n = m
    · simp [Caller.refersTo, Stage.refers, hnm]
      omega
    · simp [Caller.refersTo, hnm]
      omega
  · have := h.held m
    rw [held_attach_known hk, List.countP_append]
    simpa [Caller.holds, Stage.holds] using this
  · have := h.fresh m (by rw [← hf]; exact hm)
    rw [refs_attach_known hk hpos]
    by_cases hnm : n = m
    · subst hnm
      omega
    · rw [if_neg hnm, this]

/-- A caller comes to a key that nobody is at and gets a new cell. -/
theorem opened (h : x.Sound) (hk : x.locks.entries.get? key = none) :
    Sound ⟨(x.locks.attach key).2, x.callers ++ [⟨key, x.locks.fresh, .waiting⟩]⟩ := by
  have hl : (x.locks.attach key).2.entries = x.locks.entries.insert key x.locks.fresh := by
    simp [attach, hk]
  have hf : (x.locks.attach key).2.fresh = x.locks.fresh + 1 := by simp [attach, hk]
  -- nobody was ever at the new cell
  have hrefs := h.refs x.locks.fresh
  rw [h.fresh _ (Nat.le_refl _)] at hrefs
  have hheld := h.held x.locks.fresh
  have hle : x.callers.countP (Caller.holds x.locks.fresh) ≤
      x.callers.countP (Caller.refersTo x.locks.fresh) :=
    List.countP_mono_left fun c _ => Caller.refersTo_of_holds
  refine ⟨fun m => ?_, fun m => ?_,
    h.own_arrival (by rw [hl, Table.get?_insert, if_pos rfl]) (fun k m hm => ?_), fun m hm => ?_,
    fun k k' m hk₁ hk₂ => ?_⟩
  · have := h.refs m
    rw [refs_attach_new hk, hl, Table.values_insert hk, List.count_append, List.countP_append]
    by_cases hnm : x.locks.fresh = m
    · subst hnm
      simp [Caller.refersTo, Stage.refers]
      omega
    · simp [Caller.refersTo, hnm]
      omega
  · have := h.held m
    rw [held_attach_new hk, List.countP_append]
    by_cases hnm : x.locks.fresh = m
    · subst hnm
      simp [Caller.holds, Stage.holds]
      omega
    · simpa [Caller.holds, Stage.holds, hnm] using this
  · have hne : key ≠ k := by
      rintro rfl
      rw [hk] at hm
      cases hm
    rw [hl, Table.get?_insert, if_neg hne, hm]
  · rw [hf] at hm
    rw [refs_attach_new hk, if_neg (by omega)]
    exact h.fresh m (by omega)
  · have hold : ∀ k, x.locks.entries.get? k ≠ some x.locks.fresh := by
      intro k hk
      have := Table.count_values_pos hk
      omega
    rw [hl, Table.get?_insert] at hk₁ hk₂
    split at hk₁ <;> split at hk₂
    · rename_i h₁ h₂
      exact h₁.symm.trans h₂
    · cases hk₁
      exact absurd hk₂ (hold k')
    · cases hk₂
      exact absurd hk₁ (hold k)
    · exact h.apart k k' m hk₁ hk₂

theorem call (h : x.Sound) (key : CallKey) : (x.play (.call key)).Sound := by
  cases hk : x.locks.entries.get? key with
  | some n =>
    have hn : (x.locks.attach key).1 = n := by simp [attach, hk]
    have hj := h.joined hk
    rw [← hn] at hj
    exact hj
  | none =>
    have hn : (x.locks.attach key).1 = x.locks.fresh := by simp [attach, hk]
    have ho := h.opened hk
    rw [← hn] at ho
    exact ho

/-- It is enough that the step of one caller changes the views of the cells as it changes what the
caller has. -/
theorem moved (h : x.Sound) (hi : x.callers[i]? = some c) {stage : Stage} {l : Locks}
    (refs : ∀ n, l.refs n + x.locks.entries.values.count n + (c.refersTo n).toNat =
      x.locks.refs n + l.entries.values.count n + (Caller.refersTo n { c with stage }).toNat)
    (held : ∀ n, (l.held n).toNat + (c.holds n).toNat =
      (x.locks.held n).toNat + (Caller.holds n { c with stage }).toNat)
    (others : ∀ j d, i ≠ j → x.callers[j]? = some d → d.stage.stays = true →
      l.entries.get? d.key = some d.cell)
    (mine : stage.stays = true → l.entries.get? c.key = some c.cell)
    (fresh : l.fresh = x.locks.fresh) (less : ∀ n, l.refs n ≤ x.locks.refs n)
    (sub : ∀ k n, l.entries.get? k = some n → x.locks.entries.get? k = some n) :
    Sound ⟨l, x.callers.set i { c with stage }⟩ := by
  refine ⟨fun n => ?_, fun n => ?_, fun d hd hs => ?_, fun n hn => ?_,
    fun k k' n hk hk' => h.apart k k' n (sub k n hk) (sub k' n hk')⟩
  · have hset := countP_set_add hi { c with stage } (Caller.refersTo n)
    have := h.refs n
    have := refs n
    dsimp only
    omega
  · have hset := countP_set_add hi { c with stage } (Caller.holds n)
    have := h.held n
    have := held n
    dsimp only
    omega
  · rcases eq_or_other_of_mem_set hd with rfl | ⟨j, hij, hj⟩
    · exact mine hs
    · exact others j d hij hj hs
  · have := less n
    have := h.fresh n (by rw [← fresh]; exact hn)
    dsimp only
    omega

theorem acquired (h : x.Sound) (hi : x.callers[i]? = some c) (hs : c.stage = .waiting)
    (hfree : x.locks.isFree c.cell = true) :
    Sound ⟨x.locks.acquire c.cell, x.callers.set i { c with stage := .inside }⟩ := by
  have hc : c ∈ x.callers := List.mem_of_getElem? hi
  have hstays : c.stage.stays = true := by rw [hs]; rfl
  have htwo := h.two_le_refs hc hstays
  have hfree : x.locks.held c.cell = false := by simpa [isFree_eq] using hfree
  refine h.moved hi (fun n => ?_) (fun n => ?_) (h.others i) (fun _ => h.own c hc hstays) rfl
    (fun n => by simp) (fun _ _ hk => hk)
  · simp only [refs_acquire, Caller.refersTo, hs]
    rfl
  · rw [held_acquire (by omega)]
    by_cases hn : c.cell = n
    · subst hn
      simp [Caller.holds, hs, Stage.holds, hfree]
    · simp [Caller.holds, hn]

theorem finished (h : x.Sound) (hi : x.callers[i]? = some c) (hs : c.stage = .inside)
    (broke : Bool) : Sound ⟨x.locks, x.callers.set i { c with stage := .left broke }⟩ := by
  have hc : c ∈ x.callers := List.mem_of_getElem? hi
  refine h.moved hi (fun n => ?_) (fun n => ?_) (h.others i)
    (fun _ => h.own c hc (by rw [hs]; rfl)) rfl (fun n => Nat.le_refl _) (fun _ _ hk => hk)
  · simp only [Caller.refersTo, hs]
    rfl
  · simp only [Caller.holds, hs]
    rfl

theorem released (h : x.Sound) (hi : x.callers[i]? = some c) {broke : Bool}
    (hs : c.stage = .left broke) :
    Sound ⟨x.locks.release c.cell, x.callers.set i { c with stage := .released }⟩ := by
  have hc : c ∈ x.callers := List.mem_of_getElem? hi
  have hheld : x.locks.held c.cell = true :=
    (h.held_iff_exists c.cell).2 ⟨c, hc, by simp [Caller.holds, hs, Stage.holds]⟩
  refine h.moved hi (fun n => ?_) (fun n => ?_) (h.others i)
    (fun _ => h.own c hc (by rw [hs]; rfl)) rfl (fun n => by simp) (fun _ _ hk => hk)
  · simp only [refs_release, Caller.refersTo, hs]
    rfl
  · rw [held_release]
    by_cases hn : c.cell = n
    · subst hn
      simp [Caller.holds, hs, Stage.holds, hheld]
    · simp [Caller.holds, hn]

/-- Whoever else has yet to look has a reference too, so the entry stays for it. -/
theorem retired (h : x.Sound) (hi : x.callers[i]? = some c) (hs : c.stage = .released) :
    Sound ⟨x.locks.retire c.key c.cell, x.callers.set i { c with stage := .retired }⟩ := by
  have hc : c ∈ x.callers := List.mem_of_getElem? hi
  have hstays : c.stage.stays = true := by rw [hs]; rfl
  have hown := h.own c hc hstays
  have htwo := h.two_le_refs hc hstays
  rw [retire_eq hown (by omega)]
  split
  · rename_i hlast
    have hdrop := refs_drop { x.locks with entries := x.locks.entries.erase c.key } c.cell
    have hheld : ∀ n, (({ x.locks with entries := x.locks.entries.erase c.key } : Locks).drop
        c.cell).held n = x.locks.held n := held_drop fun _ => htwo
    refine h.moved hi (fun n => ?_) (fun n => ?_) (fun j d hij hj hd => ?_) nofun (fresh_drop ..)
      (fun n => ?_) (fun k n hk => ?_)
    · have hcount := Table.count_values_erase hown n
      rw [hdrop, entries_drop]
      change (if c.cell = n then x.locks.refs n - 1 else x.locks.refs n) + _ + _ = _
      simp only [Caller.refersTo, hs]
      by_cases hn : c.cell = n
      · subst hn
        rw [if_pos rfl] at hcount ⊢
        simp only [Stage.refers]
        omega
      · rw [if_neg hn] at hcount ⊢
        simp only [Stage.refers]
        omega
    · rw [hheld]
      simp [Caller.holds, hs, Stage.holds]
    · rw [entries_drop, Table.get?_erase]
      by_cases hk : c.key = d.key
      · have hcell := (h.cell_eq_iff hc (List.mem_of_getElem? hj) hstays hd).2 hk
        have := h.three_le_refs hij hi hj hstays (Stage.refers_of_stays hd) hcell.symm
        omega
      · rw [if_neg hk, h.own d (List.mem_of_getElem? hj) hd]
    · rw [hdrop]
      change (if c.cell = n then x.locks.refs n - 1 else x.locks.refs n) ≤ _
      split <;> omega
    · rw [entries_drop, Table.get?_erase] at hk
      split at hk
      · cases hk
      · exact hk
  · refine h.moved hi (fun n => ?_) (fun n => ?_) (h.others i) nofun rfl (fun n => Nat.le_refl _)
      (fun _ _ hk => hk)
    · simp only [Caller.refersTo, hs]
      rfl
    · simp only [Caller.holds, hs]
      rfl

theorem detached (h : x.Sound) (hi : x.callers[i]? = some c) (hs : c.stage = .retired) :
    Sound ⟨x.locks.detach c.cell, x.callers.set i { c with stage := .gone }⟩ := by
  have hc : c ∈ x.callers := List.mem_of_getElem? hi
  have hpos : 0 < x.callers.countP (Caller.refersTo c.cell) :=
    List.countP_pos_iff.2 ⟨c, hc, by simp [Caller.refersTo, hs, Stage.refers]⟩
  have hrefs := h.refs c.cell
  have hheld : ∀ n, (x.locks.drop c.cell).held n = x.locks.held n :=
    held_drop (h.two_le_refs_of_held hi (by rw [hs]; rfl) (by rw [hs]; rfl))
  refine h.moved hi (fun n => ?_) (fun n => ?_) (fun j d hij hj hd => ?_) nofun (fresh_drop ..)
    (fun n => ?_) (fun k n hk => by rw [detach, entries_drop] at hk; exact hk)
  · rw [detach, refs_drop, entries_drop]
    simp only [Caller.refersTo, hs]
    by_cases hn : c.cell = n
    · subst hn
      simp [Stage.refers]
      omega
    · simp [hn]
  · rw [detach, hheld]
    simp [Caller.holds, hs, Stage.holds]
  · rw [detach, entries_drop]
    exact h.others i j d hij hj hd
  · rw [detach, refs_drop]
    split <;> omega

theorem go (h : x.Sound) (hi : x.callers[i]? = some c) {broke : Bool} {stage : Stage} {l : Locks}
    (hnext : c.next? broke x.locks = some (stage, l)) :
    Sound ⟨l, x.callers.set i { c with stage }⟩ := by
  unfold Caller.next? at hnext
  cases hs : c.stage with
  | waiting =>
    simp only [hs] at hnext
    split at hnext
    · rename_i hfree
      cases hnext
      exact h.acquired hi hs hfree
    · cases hnext
  | inside =>
    simp only [hs] at hnext
    cases hnext
    exact h.finished hi hs broke
  | left how =>
    simp only [hs] at hnext
    cases hnext
    exact h.released hi hs
  | released =>
    simp only [hs] at hnext
    cases hnext
    exact h.retired hi hs
  | retired =>
    simp only [hs] at hnext
    cases hnext
    exact h.detached hi hs
  | gone =>
    simp only [hs] at hnext
    cases hnext

theorem play (h : x.Sound) (move : Move) : (x.play move).Sound := by
  cases move with
  | call key => exact h.call key
  | go i broke =>
    unfold Contention.play
    dsimp only
    split
    · exact h
    · rename_i c hi
      split
      · exact h
      · rename_i stage l hnext
        exact h.go hi hnext

end Sound

theorem sound (moves : List Move) (n : Nat) : (before moves n).Sound :=
  replay_induction .empty (fun _ move h => h.play move) n

end Contention

end Saga.Locks
