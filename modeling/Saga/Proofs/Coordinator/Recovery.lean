import Saga.Proofs.Coordinator.StatusMachine

/-!
# Recovery URLs

The number of a join is what stands behind the last slash of its recovery URL, whatever the rest of
the URL looks like (`Coordinator.recoveryUrl_inj`). Joins are numbered as they come, those that fail
too (`Run.Joins.numbered`), so no two of them are given one URL (`Run.Joins.unique`). A join adds
one enlistment behind the others, nothing takes one away or changes it (`Run.enlisted_mono`), and
nothing else adds one (`Run.joined_at`). `Run.recovery_urls` puts these together.
-/

set_option autoImplicit false

namespace Saga

/-! ## Numbers behind the last slash -/

namespace Text

theorem slash_not_mem_toDigits (n : Nat) : '/' ∉ Nat.toDigits 10 n := by
  intro h
  have hd := Nat.isDigit_of_mem_toDigits (by decide) (by decide) h
  exact absurd hd (by decide)

/-- The last piece is what stands behind the last separator. -/
theorem getLast?_splitOn {sep : Char} {l r : List Char} (h : sep ∉ r) :
    ((l ++ sep :: r).splitOn sep).getLast? = some r := by
  rw [List.splitOn_append_cons_self, List.splitOn_eq_singleton h, List.getLast?_concat]

end Text

namespace Coordinator

variable {c : Coordinator} {id : ActionId}

theorem getLast?_splitOn_recoveryUrl (stem : String) (n : Nat) :
    ((recoveryUrl stem n).toList.splitOn '/').getLast? = some (Nat.toDigits 10 n) := by
  have hl : (recoveryUrl stem n).toList =
      (Text.dropEndWhile (· == '/') stem.toList ++ "/recovery".toList) ++
        '/' :: Nat.toDigits 10 n := by
    simp [recoveryUrl]
    rfl
  rw [hl, Text.getLast?_splitOn (Text.slash_not_mem_toDigits n)]

/-- Recovery URLs with different numbers differ, whatever they begin with. -/
theorem recoveryUrl_inj {stem stem' : String} {m n : Nat}
    (h : recoveryUrl stem m = recoveryUrl stem' n) : m = n := by
  have hm := getLast?_splitOn_recoveryUrl stem m
  rw [h, getLast?_splitOn_recoveryUrl stem' n] at hm
  exact (Text.toDigits_inj (Option.some.inj hm)).symm

/-- A prefix may look like a recovery URL, and the slashes at its end are dropped. -/
example : recoveryUrl "http://c/recovery/1//" 2 = "http://c/recovery/1/recovery/2" := by
  decide +kernel

/-! ## The number of the next join -/

theorem joins_join (c : Coordinator) (id : ActionId) (header : String)
    (recovery data : Option String) : (c.join id header recovery data).2.joins = c.joins + 1 := by
  unfold join
  dsimp only
  split
  · rfl
  · split
    · rfl
    · split
      · rfl
      · split <;> rfl

theorem joins_start (c : Coordinator) (now : Nat) (clientId : String)
    (parent : Option ActionId) : (c.start now clientId parent).2.joins = c.joins := by
  unfold start
  dsimp only
  split
  · rfl
  · split <;> rfl

theorem joins_beginEnding (c : Coordinator) (ending : Ending) (id : ActionId) :
    (c.beginEnding ending id).2.joins = c.joins := by
  unfold beginEnding
  split
  · rfl
  · split <;> rfl

theorem joins_record (c : Coordinator) (now : Nat) (id : ActionId) (st : ActionStatus) :
    (c.record now id st).joins = c.joins := by
  unfold record
  split <;> rfl

theorem joins_count (c : Coordinator) (ending : Ending) : (c.count ending).joins = c.joins := by
  cases ending <;> rfl

end Coordinator

namespace Floor

variable {f : Floor} {id : ActionId}

theorem joins_enter (f : Floor) (ending : Ending) (id : ActionId) :
    (f.enter ending id).2.coordinator.joins = f.coordinator.joins := by
  have hb := Coordinator.joins_beginEnding (f.coordinator.count ending) ending id
  rw [Coordinator.joins_count] at hb
  unfold enter
  split
  · rename_i h
    rw [h] at hb
    exact hb
  · rename_i h
    rw [h] at hb
    exact hb

theorem joins_leave (f : Floor) (i now : Nat) (b : Option Backing) :
    (f.leave i now b).2.coordinator.joins = f.coordinator.joins := by
  unfold leave
  split
  · rfl
  · exact Coordinator.joins_record _ _ _ _

/-- No move takes back the number of a join. -/
theorem joins_le_play (f : Floor) (m : Move) :
    f.coordinator.joins ≤ (f.play m).coordinator.joins := by
  cases m with
  | start now clientId parent => exact Nat.le_of_eq (Coordinator.joins_start _ _ _ _).symm
  | join id header recovery data =>
    rw [play, Coordinator.joins_join]
    exact Nat.le_succ _
  | enter ending id => exact Nat.le_of_eq (f.joins_enter ending id).symm
  | leave i now b => exact Nat.le_of_eq (f.joins_leave i now b).symm
  | get | failStart | failJoin => exact Nat.le_refl _

/-! ## One move -/

theorem Step.enlisted {x y : Option ActionEntry} (h : Step x y) :
    (x.map ActionEntry.enlisted).getD [] <+: (y.map ActionEntry.enlisted).getD [] := by
  cases h with
  | stays => exact List.prefix_refl _
  | started => exact List.nil_prefix
  | joined e enlistment => exact List.prefix_append _ _
  | entered | left => exact List.prefix_refl _

theorem enlisted_of_get? {e : ActionEntry} (he : f.coordinator.actions.get? id = some e) :
    f.coordinator.enlisted id = e.enlisted := by
  rw [enlisted_eq, he]
  rfl

theorem enlisted_of_sets {c' : Coordinator} {id' : ActionId} {e : ActionEntry} {n : Nat}
    (hs : f.coordinator.Sets c' id' e n) (id : ActionId) :
    c'.enlisted id = if id' = id then e.enlisted else f.coordinator.enlisted id := by
  unfold Coordinator.enlisted
  rw [hs.get?]
  by_cases hid : id' = id
  · simp [hid]
  · simp [hid]

/-- Of an action that was there, a move keeps those who enlisted, or one has joined behind them. -/
theorem Alters.enlisted {c' : Coordinator} {m : Move} (h : f.Alters c' m) (id : ActionId) :
    c'.enlisted id = f.coordinator.enlisted id ∨ c'.enlisted id = [] ∨
      ∃ header recovery data url, m = .join id header recovery data ∧
        (f.coordinator.join id header recovery data).1 = .ok url ∧
        c'.enlisted id = f.coordinator.enlisted id ++ [⟨Links.ofHeader header, url, data⟩] := by
  cases h with
  | nothing hs =>
    unfold Coordinator.enlisted
    exact .inl (by rw [hs.actions])
  | started now clientId parent id' hok hs =>
    rw [enlisted_of_sets hs]
    split
    · exact .inr (.inl rfl)
    · exact .inl rfl
  | joined id' header recovery data e url hok he hs =>
    rw [enlisted_of_sets hs]
    split
    · rename_i hid
      subst hid
      rw [enlisted_of_get? he]
      exact .inr (.inr ⟨header, recovery, data, url, rfl, hok, rfl⟩)
    · exact .inl rfl
  | recorded id' e y he hs =>
    rw [enlisted_of_sets hs]
    split
    · rename_i hid
      subst hid
      exact .inl (enlisted_of_get? he).symm
    · exact .inl rfl

/-- Somebody who was not enlisted before has joined. -/
theorem Sound.joined_of_new (hf : f.Sound) {m : Move} {i : Nat} {x : Enlistment}
    (hi : (f.coordinator.enlisted id).length ≤ i)
    (hx : ((f.play m).coordinator.enlisted id)[i]? = some x) :
    ∃ header recovery, m = .join id header recovery x.data ∧
      (f.coordinator.join id header recovery x.data).1 = .ok x.recoveryUrl ∧
      x.links = Links.ofHeader header ∧ i = (f.coordinator.enlisted id).length := by
  obtain hsame | hnil | ⟨header, recovery, data, url, rfl, hok, hjoined⟩ :=
    (play_alters hf m).enlisted id
  · rw [hsame, List.getElem?_eq_none hi] at hx
    cases hx
  · rw [hnil] at hx
    cases hx
  · rw [hjoined, List.getElem?_append_right hi, List.getElem?_singleton] at hx
    split at hx
    · cases hx
      exact ⟨header, recovery, rfl, hok, rfl, by omega⟩
    · cases hx

namespace Run

variable {r : Run} {n m : Nat} {header header' : String} {data data' : Option String}
  {url url' : String} {id' : ActionId}

/-! ## What every move keeps -/

theorem joins_mono (r : Run) (hnm : n ≤ m) :
    (r.before n).coordinator.joins ≤ (r.before m).coordinator.joins := by
  induction hnm with
  | refl => exact Nat.le_refl _
  | @step m _ ih =>
    refine Nat.le_trans ih ?_
    exact r.follows.related (R := fun f f' => f.coordinator.joins ≤ f'.coordinator.joins)
      (Nat.le_refl _) fun move _ => joins_le_play _ _

/-- Those who enlisted stay, in the order in which they came. -/
theorem enlisted_mono (r : Run) (id : ActionId) (hnm : n ≤ m) :
    (r.before n).coordinator.enlisted id <+: (r.before m).coordinator.enlisted id := by
  induction hnm with
  | refl => exact List.prefix_refl _
  | @step m _ ih =>
    refine ih.trans ?_
    rw [enlisted_eq, enlisted_eq]
    exact ((r.history.change m).step (r.sound m) id).enlisted

/-! ## Joins -/

/-- Move `n` is a join that goes through, and gives the recovery URL `url`. -/
def Joins (r : Run) (n : Nat) (id : ActionId) (header : String) (data : Option String)
    (url : String) : Prop :=
  ∃ recovery, r.moves[n]? = some (.join id header recovery data) ∧
    ((r.before n).coordinator.join id header recovery data).1 = .ok url

theorem exists_join_of_active {recovery : Option String} {x : ActionRecord}
    (hm : r.moves[n]? = some (.join id header recovery data))
    (hj : (r.before n).coordinator.failJoin = false)
    (hx : (r.before n).coordinator.get? id = some x) (ha : x.status = .active)
    (hl : (Links.ofHeader header).bound.isEmpty = false) : ∃ url, r.Joins n id header data url := by
  obtain ⟨e, he, rfl⟩ := Option.map_eq_some_iff.1 hx
  obtain ⟨url, hok, -⟩ := Coordinator.get?_join hj he ha hl recovery data
  exact ⟨url, recovery, hm, hok⟩

namespace Joins

variable (h : r.Joins n id header data url)
include h

/-- What the move does. -/
theorem sets : ∃ stem e, url = Coordinator.recoveryUrl stem ((r.before n).coordinator.joins + 1) ∧
    (r.before n).coordinator.actions.get? id = some e ∧
    (r.before n).coordinator.Sets (r.before (n + 1)).coordinator id
      { e with enlisted := e.enlisted ++ [⟨Links.ofHeader header, url, data⟩] } 0 := by
  obtain ⟨recovery, hm, hok⟩ := h
  rcases hj : (r.before n).coordinator.join id header recovery data with ⟨y, c⟩
  have hc : (r.before (n + 1)).coordinator = c := by rw [r.follows.succ hm, play, hj]
  rw [hj] at hok
  obtain ⟨⟨error, rfl⟩, -⟩ | ⟨e, url', hurl, rfl, he, -, hs⟩ := Coordinator.join_cases hj
  · cases hok
  · cases hok
    exact ⟨_, e, hurl, he, hc ▸ hs⟩

/-- The number of the join is used up. -/
theorem numbered :
    (r.before (n + 1)).coordinator.joins = (r.before n).coordinator.joins + 1 := by
  obtain ⟨recovery, hm, -⟩ := h
  rw [r.follows.succ hm, play, Coordinator.joins_join]

theorem ne_of_lt (h' : r.Joins m id' header' data' url') (hnm : n < m) : url ≠ url' := by
  intro heq
  obtain ⟨stem, -, hurl, -⟩ := h.sets
  obtain ⟨stem', -, hurl', -⟩ := h'.sets
  have hnext := h.numbered
  have hnum := Coordinator.recoveryUrl_inj (hurl.symm.trans (heq.trans hurl'))
  have hle : (r.before (n + 1)).coordinator.joins ≤ (r.before m).coordinator.joins :=
    r.joins_mono hnm
  omega

/-- No recovery URL is given twice. -/
theorem unique (h' : r.Joins m id' header' data' url) : n = m := by
  rcases Nat.lt_trichotomy n m with hlt | heq | hgt
  · exact absurd rfl (h.ne_of_lt h' hlt)
  · exact heq
  · exact absurd rfl (h'.ne_of_lt h hgt)

/-- The join enlists the participant with the URL, behind the others. -/
theorem enlisted : (r.before (n + 1)).coordinator.enlisted id =
    (r.before n).coordinator.enlisted id ++ [⟨Links.ofHeader header, url, data⟩] := by
  obtain ⟨-, e, -, he, hs⟩ := h.sets
  rw [enlisted_of_sets hs, if_pos rfl, enlisted_of_get? he]

/-- The participant stays enlisted in its place. -/
theorem stays (hnm : n < m) : ((r.before m).coordinator.enlisted id)[
    ((r.before n).coordinator.enlisted id).length]? = some ⟨Links.ofHeader header, url, data⟩ := by
  obtain ⟨rest, hrest⟩ := r.enlisted_mono id (m := m) hnm
  rw [← hrest, h.enlisted]
  simp

end Joins

/-- Everybody who is enlisted has joined, and got the recovery URL that is stored. -/
theorem joined_at {i : Nat} {x : Enlistment}
    (h : ((r.before n).coordinator.enlisted id)[i]? = some x) :
    ∃ m < n, ∃ header, r.Joins m id header x.data x.recoveryUrl ∧ x.links = Links.ofHeader header ∧
      ((r.before m).coordinator.enlisted id).length = i := by
  induction n with
  | zero => cases h
  | succ n ih =>
    by_cases hi : i < ((r.before n).coordinator.enlisted id).length
    · obtain ⟨rest, hrest⟩ := r.enlisted_mono id (Nat.le_succ n)
      rw [← hrest, List.getElem?_append_left hi] at h
      obtain ⟨m, hm, hj⟩ := ih h
      exact ⟨m, Nat.lt_succ_of_lt hm, hj⟩
    · cases hm : r.moves[n]? with
      | none =>
        rw [r.follows.of_none hm, List.getElem?_eq_none (Nat.not_lt.1 hi)] at h
        cases h
      | some move =>
        rw [r.follows.succ hm] at h
        obtain ⟨header, recovery, rfl, hok, hl, rfl⟩ :=
          (r.sound n).joined_of_new (Nat.not_lt.1 hi) h
        exact ⟨n, Nat.lt_succ_self n, header, ⟨recovery, hm, hok⟩, hl, rfl⟩

/-- **Recovery URLs.** In every order of requests, a join goes through if joins are not refused, the
action is active, and the header has some link. The recovery URLs of two joins that went through
differ, for whatever actions and with whatever recovery prefixes they were made. The URL that a
join gives is the one that it stores, with the links and the data of the participant, in the place
behind those who enlisted before, and it stays there. All who are enlisted have joined so; thus no
two of them, in one action or in two, have one recovery URL. -/
theorem recovery_urls (r : Run) :
    (∀ n id header recovery data x, r.moves[n]? = some (.join id header recovery data) →
      (r.before n).coordinator.failJoin = false → (r.before n).coordinator.get? id = some x →
      x.status = .active → (Links.ofHeader header).bound.isEmpty = false →
      ∃ url, r.Joins n id header data url) ∧
    (∀ n m id id' header header' data data' url url', r.Joins n id header data url →
      r.Joins m id' header' data' url' → n ≠ m → url ≠ url') ∧
    (∀ n id header data url, r.Joins n id header data url →
      (r.before (n + 1)).coordinator.enlisted id =
        (r.before n).coordinator.enlisted id ++ [⟨Links.ofHeader header, url, data⟩] ∧
      ∀ m, n < m → ((r.before m).coordinator.enlisted id)[
        ((r.before n).coordinator.enlisted id).length]? =
          some ⟨Links.ofHeader header, url, data⟩) ∧
    (∀ n id x, x ∈ (r.before n).coordinator.enlisted id →
      ∃ m < n, ∃ header, r.Joins m id header x.data x.recoveryUrl ∧
        x.links = Links.ofHeader header) ∧
    ∀ n id id' (i j : Nat) (x y : Enlistment), ((r.before n).coordinator.enlisted id)[i]? = some x →
      ((r.before n).coordinator.enlisted id')[j]? = some y → x.recoveryUrl = y.recoveryUrl →
      id = id' ∧ i = j := by
  refine ⟨?_, ?_, ?_, ?_, ?_⟩
  · intro n id header recovery data x hm hj hx ha hl
    exact exists_join_of_active hm hj hx ha hl
  · rintro n m id id' header header' data data' url url' h h' hne rfl
    exact hne (h.unique h')
  · intro n id header data url h
    exact ⟨h.enlisted, fun m hnm => h.stays hnm⟩
  · intro n id x hx
    obtain ⟨i, hi⟩ := List.mem_iff_getElem?.1 hx
    obtain ⟨m, hm, header, hj, hl, -⟩ := joined_at hi
    exact ⟨m, hm, header, hj, hl⟩
  · intro n id id' i j x y hx hy hurl
    obtain ⟨m, -, header, hj, -, rfl⟩ := joined_at hx
    obtain ⟨m', -, header', hj', -, rfl⟩ := joined_at hy
    rw [hurl] at hj
    obtain rfl := hj.unique hj'
    -- one move is a join in one action
    obtain ⟨recovery, hmove, -⟩ := hj
    obtain ⟨recovery', hmove', -⟩ := hj'
    rw [hmove, Option.some.injEq, Move.join.injEq] at hmove'
    obtain ⟨rfl, -⟩ := hmove'
    exact ⟨rfl, rfl⟩

end Run

end Floor

end Saga
