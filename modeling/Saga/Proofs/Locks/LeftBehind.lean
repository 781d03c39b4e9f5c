import Saga.Proofs.Locks.Contention

/-!
# Entries that are left behind

A caller takes the key out of the map if nobody else refers to its cell when it looks. A caller
that has looked already and has yet to give its reference back counts as somebody, though it will
not look again. So whether an entry outlasts its callers is decided by the last look at its key
(`Sound.get?_look`), and it is left behind exactly if that look was `Overlooked`, whatever else
happened (`left_behind_iff`).
-/

set_option autoImplicit false

namespace Saga.Locks.Contention

variable {x : Contention} {moves : List Move} {m n i : Nat} {c d : Caller} {key : CallKey}

/-! ## A look -/

/-- Has somebody at the key yet to look? -/
def Attended (x : Contention) (key : CallKey) : Prop :=
  ∃ c ∈ x.callers, c.key = key ∧ c.stage.stays = true

/-- Another caller than `i`, which is at the same cell, has looked and has yet to give its reference
back. -/
def Lingers (x : Contention) (i : Nat) (c : Caller) : Prop :=
  ∃ j d, i ≠ j ∧ x.callers[j]? = some d ∧ d.cell = c.cell ∧ d.stage = .retired

namespace Sound

theorem count_values (h : x.Sound) (hk : x.locks.entries.get? key = some n) :
    x.locks.entries.values.count n = 1 := by
  have hcount := Table.count_values_erase hk n
  have hnone : (x.locks.entries.erase key).values.count n = 0 := by
    rw [List.count_eq_zero]
    intro hmem
    obtain ⟨k, hk'⟩ := Table.exists_get?_of_mem_values hmem
    rw [Table.get?_erase] at hk'
    split at hk'
    · cases hk'
    · rename_i hne
      exact hne (h.apart key k n hk hk')
  rw [if_pos rfl] at hcount
  omega

/-- There is a third reference to the cell of a caller that has yet to look just if another caller
has one. -/
theorem refs_eq_two_iff (h : x.Sound) (hi : x.callers[i]? = some c) (hs : c.stage.stays = true) :
    x.locks.refs c.cell = 2 ↔
      ∀ j d, i ≠ j → x.callers[j]? = some d → d.cell = c.cell → d.stage.refers = false := by
  constructor
  · intro htwo j d hij hj hcell
    refine Bool.eq_false_iff.2 fun hd => ?_
    have := h.three_le_refs hij hi hj hs hd hcell
    omega
  · intro halone
    have hrefs := h.refs c.cell
    rw [h.count_values (h.own c (List.mem_of_getElem? hi) hs)] at hrefs
    -- were the caller gone, nobody would refer to the cell
    have hset := countP_set_add hi { c with stage := .gone } (Caller.refersTo c.cell)
    have hnone :
        (x.callers.set i { c with stage := .gone }).countP (Caller.refersTo c.cell) = 0 := by
      rw [List.countP_eq_zero]
      intro d hd
      obtain ⟨j, hj⟩ := List.getElem?_of_mem hd
      rw [List.getElem?_set] at hj
      split at hj
      · split at hj
        · cases hj
          simp [Caller.refersTo, Stage.refers]
        · cases hj
      · rename_i hij
        intro hd
        obtain ⟨hd, hcell⟩ : d.stage.refers = true ∧ d.cell = c.cell := by
          simpa [Caller.refersTo] using hd
        exact absurd hd (by simp [halone j d hij hj hcell])
    have hone : (Caller.refersTo c.cell c).toNat = 1 := by
      simp [Caller.refersTo, Stage.refers_of_stays hs]
    have hzero : (Caller.refersTo c.cell { c with stage := .gone }).toNat = 0 := rfl
    omega

theorem get?_retire {l : Locks} (hown : l.entries.get? key = some n) (hpos : 0 < l.refs n) :
    ((l.retire key n).entries.get? key).isSome = true ↔ l.refs n ≠ 2 := by
  rw [retire_eq hown hpos]
  split
  · rename_i htwo
    simp [Table.get?_erase, htwo]
  · rename_i hmore
    simp [hown, hmore]

/-- If nobody at the key has yet to look after a look, the entry is there just if somebody
lingered. -/
theorem get?_look (h : x.Sound) (hi : x.callers[i]? = some c) (hs : c.stage = .released)
    (broke : Bool) (hlast : ¬ (x.play (.go i broke)).Attended c.key) :
    ((x.play (.go i broke)).locks.entries.get? c.key).isSome = true ↔ x.Lingers i c := by
  have hstays : c.stage.stays = true := by rw [hs]; rfl
  have hown := h.own c (List.mem_of_getElem? hi) hstays
  have hplay : x.play (.go i broke) =
      ⟨x.locks.retire c.key c.cell, x.callers.set i { c with stage := .retired }⟩ := by
    simp only [Contention.play, hi, Caller.next?, hs]
  have hpos : 0 < x.locks.refs c.cell := by
    have := h.two_le_refs (List.mem_of_getElem? hi) hstays
    omega
  -- whoever else is at the cell has looked, or it would still attend the key
  have hretired : ∀ j d, i ≠ j → x.callers[j]? = some d → d.cell = c.cell →
      d.stage.stays = false := by
    intro j d hij hj hcell
    refine Bool.eq_false_iff.2 fun hd => hlast ⟨d, ?_, ?_, hd⟩
    · rw [hplay]
      exact List.mem_of_getElem? (by rw [List.getElem?_set_ne hij]; exact hj)
    · exact (h.cell_eq_iff (List.mem_of_getElem? hj) (List.mem_of_getElem? hi) hd hstays).1 hcell
  rw [hplay, get?_retire hown hpos, Ne, h.refs_eq_two_iff hi hstays]
  constructor
  · intro hmore
    simp only [Classical.not_forall, Bool.not_eq_false] at hmore
    obtain ⟨j, d, hij, hj, hcell, hd⟩ := hmore
    exact ⟨j, d, hij, hj, hcell, Stage.eq_retired hd (hretired j d hij hj hcell)⟩
  · rintro ⟨j, d, hij, hj, hcell, hd⟩ halone
    have hrefers := halone j d hij hj hcell
    rw [hd] at hrefers
    cases hrefers

end Sound

/-! ## What a move has to do with a key -/

theorem get?_retire_of_ne {l : Locks} {key' : CallKey} (hne : key' ≠ key) (n : Nat) :
    (l.retire key' n).entries.get? key = l.entries.get? key := by
  unfold retire
  split
  · split
    · rw [entries_drop, Table.get?_erase, if_neg hne]
    · rfl
  · rfl

/-- A step other than a look at the key leaves its entry alone, and a caller of the key that had yet
to look has so after it. -/
theorem next?_keeps {l l' : Locks} {broke : Bool} {stage : Stage}
    (hnext : c.next? broke l = some (stage, l')) (hlook : ¬ (c.stage = .released ∧ c.key = key)) :
    l'.entries.get? key = l.entries.get? key ∧
      (c.key = key → c.stage.stays = true → stage.stays = true) := by
  unfold Caller.next? at hnext
  cases hs : c.stage with
  | waiting =>
    simp only [hs] at hnext
    split at hnext
    · cases hnext
      exact ⟨rfl, fun _ _ => rfl⟩
    · cases hnext
  | inside | left how =>
    simp only [hs] at hnext
    cases hnext
    exact ⟨rfl, fun _ _ => rfl⟩
  | released =>
    simp only [hs] at hnext
    cases hnext
    have hne : c.key ≠ key := fun hkey => hlook ⟨hs, hkey⟩
    exact ⟨get?_retire_of_ne hne c.cell, fun hkey => absurd hkey hne⟩
  | retired =>
    simp only [hs] at hnext
    cases hnext
    exact ⟨by rw [detach, entries_drop], fun _ hstays => by cases hstays⟩
  | gone =>
    simp only [hs] at hnext
    cases hnext

/-- The look of caller `i` at its key. -/
structure Looks (x : Contention) (move : Move) (i : Nat) (c : Caller) : Prop where
  move : ∃ broke, move = .go i broke
  caller : x.callers[i]? = some c
  stage : c.stage = .released

/-- A move that is no call for the key and no look at it leaves its entry alone, and whoever attends
it. -/
theorem play_keeps (x : Contention) {move : Move} (hcall : move ≠ .call key)
    (hlook : ∀ i c, x.Looks move i c → c.key ≠ key) :
    (x.play move).locks.entries.get? key = x.locks.entries.get? key ∧
      (x.Attended key → (x.play move).Attended key) := by
  cases move with
  | call key' =>
    have hkey : key' ≠ key := fun hkey => hcall (hkey ▸ rfl)
    constructor
    · cases hentry : x.locks.entries.get? key' <;>
        simp [play, attach, hentry, Table.get?_insert, hkey]
    · rintro ⟨c, hc, hattends⟩
      exact ⟨c, List.mem_append_left _ hc, hattends⟩
  | go i broke =>
    unfold play
    dsimp only
    split
    · exact ⟨rfl, id⟩
    · rename_i c hi
      split
      · exact ⟨rfl, id⟩
      · rename_i stage l hnext
        obtain ⟨hentry, hstays⟩ :=
          next?_keeps hnext fun hs => hlook i c ⟨⟨broke, rfl⟩, hi, hs.1⟩ hs.2
        refine ⟨hentry, ?_⟩
        rintro ⟨d, hd, hkey, hds⟩
        obtain ⟨j, hj⟩ := List.getElem?_of_mem hd
        by_cases hij : i = j
        · subst hij
          obtain rfl : c = d := by simpa [hi] using hj
          have hlt := (List.getElem?_eq_some_iff.1 hi).1
          exact ⟨_, List.mem_set hlt _, hkey, hstays hkey hds⟩
        · refine ⟨d, List.mem_of_getElem? (i := j) ?_, hkey, hds⟩
          rw [List.getElem?_set_ne hij]
          exact hj

/-! ## Runs -/

/-- In move `m` caller `i` looks at the key. -/
def LooksAt (moves : List Move) (m : Nat) (key : CallKey) (i : Nat) (c : Caller) : Prop :=
  ∃ move, moves[m]? = some move ∧ (before moves m).Looks move i c ∧ c.key = key

/-- When somebody looked at the key for the last time before move `n`, another caller that had
looked had yet to give back its reference to the cell. -/
def Overlooked (moves : List Move) (n : Nat) (key : CallKey) : Prop :=
  ∃ m i c, m < n ∧ LooksAt moves m key i c ∧ (before moves m).Lingers i c ∧
    ∀ k i' c', m < k → k < n → ¬ LooksAt moves k key i' c'

theorem LooksAt.unique (h : LooksAt moves m key i c) {i' : Nat} {c' : Caller}
    (h' : LooksAt moves m key i' c') : i = i' ∧ c = c' := by
  obtain ⟨move, hm, ⟨⟨broke, rfl⟩, hc, -⟩, -⟩ := h
  obtain ⟨move', hm', ⟨⟨broke', rfl⟩, hc', -⟩, -⟩ := h'
  rw [hm] at hm'
  cases hm'
  rw [hc] at hc'
  cases hc'
  exact ⟨rfl, rfl⟩

theorem overlooked_succ_of_look (h : LooksAt moves n key i c) :
    Overlooked moves (n + 1) key ↔ (before moves n).Lingers i c := by
  constructor
  · rintro ⟨m, i', c', hm, hlook, hlingers, hlast⟩
    obtain hmn | rfl : m < n ∨ m = n := by omega
    · exact absurd h (hlast n i c hmn n.lt_succ_self)
    · obtain ⟨rfl, rfl⟩ := h.unique hlook
      exact hlingers
  · exact fun hlingers =>
      ⟨n, i, c, n.lt_succ_self, h, hlingers, fun k _ _ hk hk' => absurd hk' (by omega)⟩

theorem overlooked_succ_of_none (h : ∀ i c, ¬ LooksAt moves n key i c) :
    Overlooked moves (n + 1) key ↔ Overlooked moves n key := by
  constructor
  · rintro ⟨m, i, c, hm, hlook, hlingers, hlast⟩
    have hmn : m ≠ n := fun hmn => h i c (hmn ▸ hlook)
    exact ⟨m, i, c, by omega, hlook, hlingers, fun k i' c' hk hk' => hlast k i' c' hk (by omega)⟩
  · rintro ⟨m, i, c, hm, hlook, hlingers, hlast⟩
    refine ⟨m, i, c, by omega, hlook, hlingers, fun k i' c' hk hk' => ?_⟩
    obtain hk' | rfl : k < n ∨ k = n := by omega
    · exact hlast k i' c' hk hk'
    · exact h i' c'

/-- The entry of a key that nobody attends is there just if the last look was overlooked. -/
theorem get?_unattended (h : ¬ (before moves n).Attended key) :
    ((before moves n).locks.entries.get? key).isSome = true ↔ Overlooked moves n key := by
  induction n with
  | zero =>
    constructor
    · intro hsome
      cases hsome
    · rintro ⟨m, i, c, hm, -⟩
      exact absurd hm (Nat.not_lt_zero m)
  | succ n ih =>
    cases hmove : moves[n]? with
    | none =>
      have hsame : before moves (n + 1) = before moves n := replay_of_none hmove
      have hnone : ∀ i c, ¬ LooksAt moves n key i c := by
        rintro i c ⟨move, hm, -⟩
        rw [hmove] at hm
        cases hm
      rw [hsame] at h ⊢
      rw [overlooked_succ_of_none hnone, ih h]
    | some move =>
      have hplay : before moves (n + 1) = (before moves n).play move := replay_succ hmove
      rw [hplay] at h ⊢
      by_cases hlook : ∃ i c, (before moves n).Looks move i c ∧ c.key = key
      · obtain ⟨i, c, hlook, rfl⟩ := hlook
        rw [overlooked_succ_of_look ⟨move, hmove, hlook, rfl⟩]
        obtain ⟨⟨broke, rfl⟩, hi, hs⟩ := hlook
        exact (sound moves n).get?_look hi hs broke h
      · have hnone : ∀ i c, ¬ LooksAt moves n key i c := by
          rintro i c ⟨move', hm, hl⟩
          rw [hmove] at hm
          cases hm
          exact hlook ⟨i, c, hl⟩
        have hcall : move ≠ .call key := by
          rintro rfl
          exact h ⟨_, List.mem_append_right _ List.mem_cons_self, rfl, rfl⟩
        obtain ⟨hentry, hattended⟩ := (before moves n).play_keeps hcall fun i c hl hkey =>
          hlook ⟨i, c, hl, hkey⟩
        rw [overlooked_succ_of_none hnone, hentry, ih fun ha => h (hattended ha)]

/-- **What is left behind.** At any time of any run the map has an entry for a key exactly if some
caller at the key has yet to look, or the last look at it was overlooked: another caller had looked
and had not yet given its reference back. So when all calls have returned, the map is empty exactly
if no key was overlooked. -/
theorem left_behind_iff (moves : List Move) (n : Nat) :
    (∀ key, ((before moves n).locks.entries.get? key).isSome = true ↔
      (∃ c ∈ (before moves n).callers, c.key = key ∧ c.stage.stays = true) ∨
        Overlooked moves n key) ∧
    ((∀ c ∈ (before moves n).callers, c.stage = .gone) →
      ((before moves n).locks.active = 0 ↔ ∀ key, ¬ Overlooked moves n key)) := by
  have hentry : ∀ key, ((before moves n).locks.entries.get? key).isSome = true ↔
      (before moves n).Attended key ∨ Overlooked moves n key := by
    intro key
    by_cases ha : (before moves n).Attended key
    · obtain ⟨c, hc, rfl, hs⟩ := ha
      have hown := (sound moves n).own c hc hs
      exact ⟨fun _ => .inl ⟨c, hc, rfl, hs⟩, fun _ => by rw [hown]; rfl⟩
    · rw [get?_unattended ha]
      exact ⟨.inr, fun h => h.resolve_left ha⟩
  refine ⟨hentry, fun hgone => ?_⟩
  have hnobody : ∀ key, ¬ (before moves n).Attended key := by
    rintro key ⟨c, hc, -, hs⟩
    rw [hgone c hc] at hs
    cases hs
  rw [active, Table.size_eq_zero_iff]
  refine forall_congr' fun key => ?_
  rw [← get?_unattended (hnobody key), Option.not_isSome_iff_eq_none]

/-- Two calls for one key. The second gets the lock when the first has given it back, and looks
before the first, which has looked, gives its reference back. -/
def closeBehind : List Move :=
  [.call ⟨"Orders", ⟨"tx"⟩⟩, .call ⟨"Orders", ⟨"tx"⟩⟩, .go 0 false, .go 0 false, .go 0 false,
    .go 0 false, .go 1 false, .go 1 false, .go 1 false, .go 1 false, .go 0 false, .go 1 false]

/-- Both calls have returned, and the entry is still there. -/
theorem closeBehind_leaves :
    (∀ c ∈ (before closeBehind 12).callers, c.stage = .gone) ∧
      (before closeBehind 12).locks.active = 1 ∧ ∃ key, Overlooked closeBehind 12 key := by
  have hgone : ∀ c ∈ (before closeBehind 12).callers, c.stage = .gone := by decide +kernel
  have hactive : (before closeBehind 12).locks.active = 1 := by decide +kernel
  refine ⟨hgone, hactive, Classical.not_forall_not.1 fun hnone => ?_⟩
  rw [((left_behind_iff closeBehind 12).2 hgone).2 hnone] at hactive
  cases hactive

end Saga.Locks.Contention
