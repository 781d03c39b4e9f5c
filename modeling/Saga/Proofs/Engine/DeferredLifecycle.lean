import Saga.Proofs.Engine.Log
import Saga.Proofs.Engine.Producers

/-!
# The life of a deferred answer

What has become of the deferred answer that a callback handed back (`Run.Defers`) can be told from
the deeds alone: what it has come to (`Run.since`), and whether it was handed in (`Run.Resolved`).
The entry that was filed for it follows this (`Pending.Tracks`), deed by deed
(`Pending.Tracks.onEntry`) and so through every run (`Run.Defers.tracks`).
`Run.deferred_lifecycle` puts this together with what each call for a bound callback answers and
which callbacks it calls.
-/

set_option autoImplicit false

namespace Saga

variable {σ : Type}

/-! ## Deeds and deferred answers -/

namespace Engine.Deed

/-- What a deed makes of a deferred answer: only the use of a handle changes it. -/
def onDeferred : Deed σ → Deferred → Deferred
  | .fulfil t a, later => later.fulfil t a
  | .call _, later | .register _, later | .arrive _, later | .elsewhere _, later => later

/-- What produces the answer of `later` under `key` gets its turn, and the answer is there. -/
def Resolves (deed : Deed σ) (key : CallKey) (later : Deferred) : Prop :=
  ∃ keys a, deed = .arrive keys ∧ key ∈ keys ∧ later = .ready a

end Engine.Deed

/-! ## An entry and the deferred answer it was filed for -/

namespace Pending

variable {p : Pending} {later : Deferred} {resolved : Prop} {a : Answer}

/-- The entry of a deferred answer that has come to `later`, and was handed in or was not. -/
def Tracks (p : Pending) (later : Deferred) (resolved : Prop) : Prop :=
  ¬ resolved ∧ p.Waits later ∨ resolved ∧ ∃ a, later = .ready a ∧ p.Has a

namespace Tracks

theorem state_iff (h : p.Tracks later resolved) : p.cell.state = .resolved ↔ resolved := by
  rcases h with ⟨hr, hw⟩ | ⟨hr, a, -, hh⟩
  · simp [hw.state, hr]
  · simp [hh.state, hr]

theorem take_iff (h : p.Tracks later resolved) :
    p.cell.take.1 = some a ↔ resolved ∧ later = .ready a := by
  rcases h with ⟨hr, hw⟩ | ⟨hr, b, rfl, hh⟩
  · simp [hw.take, hr]
  · simp [hh.take, hr]

/-- An entry follows its deferred answer through a deed. -/
theorem onEntry (h : p.Tracks later resolved) (deed : Engine.Deed σ) (key : CallKey) :
    (deed.onEntry key p).Tracks (deed.onDeferred later) (resolved ∨ deed.Resolves key later) := by
  cases deed with
  | call _ | register _ | elsewhere _ =>
    simpa [Engine.Deed.onEntry, Engine.Deed.onDeferred, Engine.Deed.Resolves] using h
  | fulfil t b =>
    have hr : ¬ (Engine.Deed.fulfil t b : Engine.Deed σ).Resolves key later := by
      simp [Engine.Deed.Resolves]
    rcases h with ⟨hn, hw⟩ | ⟨hn, a, rfl, hh⟩
    · exact .inl ⟨not_or.2 ⟨hn, hr⟩, hw.fulfilled t b⟩
    · exact .inr ⟨.inl hn, Answer.fulfil t b a, by rw [Engine.Deed.onDeferred, Deferred.fulfil],
        hh.fulfilled t b⟩
  | arrive keys =>
    simp only [Engine.Deed.onEntry, Engine.Deed.onDeferred]
    by_cases hk : key ∈ keys
    · rw [if_pos hk]
      rcases h with ⟨hn, hw⟩ | ⟨hn, a, rfl, hh⟩
      · by_cases hl : ∃ a, later = .ready a
        · -- the turn at which the answer is handed in
          obtain ⟨a, rfl⟩ := hl
          exact .inr ⟨.inr ⟨keys, a, rfl, hk, rfl⟩, a, rfl, hw.turned_ready⟩
        · refine .inl ⟨not_or.2 ⟨hn, ?_⟩, hw.turned fun a ha => hl ⟨a, ha⟩⟩
          rintro ⟨-, a, -, -, ha⟩
          exact hl ⟨a, ha⟩
      · exact .inr ⟨.inl hn, a, rfl, by rw [hh.turned]; exact hh⟩
    · rw [if_neg hk]
      have hr : ¬ (Engine.Deed.arrive keys : Engine.Deed σ).Resolves key later := by
        rintro ⟨keys', -, he, hk', -⟩
        cases he
        exact hk hk'
      rcases h with ⟨hn, hw⟩ | ⟨hn, hh⟩
      · exact .inl ⟨not_or.2 ⟨hn, hr⟩, hw⟩
      · exact .inr ⟨.inl hn, hh⟩

end Tracks

end Pending

/-! ## What becomes of a deferred answer in a run -/

theorem Desk.Freed.get?_eq_none [Journal σ] {k k' : Desk} {d : Descriptor σ} {call : Call}
    {s s' : σ} (h : k.Freed d call s k' s') : k'.pending.get? call.key = none := by
  cases h with
  | free hn => exact hn
  | taken p a hp ht ha => simp [Table.get?_erase]

namespace Engine.Run

variable {r : Run σ} {i m n k : Nat} {key : CallKey} {call : Call} {later : Deferred}
  {deed : Deed σ}

/-- Deed `n` is a call for a bound callback, and the one callback that it calls hands back the
deferred answer `later`, of the type that it declares. -/
def Defers [Journal σ] (r : Run σ) (n : Nat) (call : Call) (later : Deferred) : Prop :=
  ∃ d c inv, r.Asks n call d c ∧ r.invocations n call = [inv] ∧
    c.deferral? inv.outcome = some later

/-- What the deferred answer `later`, handed back in deed `i`, has come to before deed `n`. -/
def since (r : Run σ) (i : Nat) (later : Deferred) (n : Nat) : Deferred :=
  replay (fun later deed => deed.onDeferred later) later (r.deeds.drop (i + 1)) (n - (i + 1))

/-- What the deferred answer `later`, handed back in deed `i` under `key`, came to was handed in
before deed `n`. -/
def Resolved (r : Run σ) (i : Nat) (key : CallKey) (later : Deferred) (n : Nat) : Prop :=
  ∃ m deed, i < m ∧ m < n ∧ r.deeds[m]? = some deed ∧ deed.Resolves key (r.since i later m)

theorem since_self : r.since i later (i + 1) = later := by
  simp [since, replay]

theorem since_succ (hin : i < n) (h : r.deeds[n]? = some deed) :
    r.since i later (n + 1) = deed.onDeferred (r.since i later n) := by
  have hd : (r.deeds.drop (i + 1))[n - (i + 1)]? = some deed := by
    rw [List.getElem?_drop, Nat.add_sub_cancel' hin, h]
  rw [since, Nat.sub_add_comm hin, replay_succ hd]
  rfl

theorem since_of_none (hin : i < n) (h : r.deeds[n]? = none) :
    r.since i later (n + 1) = r.since i later n := by
  have hd : (r.deeds.drop (i + 1))[n - (i + 1)]? = none := by
    rw [List.getElem?_drop, Nat.add_sub_cancel' hin, h]
  rw [since, Nat.sub_add_comm hin, replay_of_none hd]
  rfl

/-- What has a property that every deed keeps has it from then on. -/
theorem since_induction {P : Deferred → Prop} (him : i < m) (hmn : m ≤ n)
    (h : P (r.since i later m))
    (step : ∀ j deed last, m ≤ j → j < n → r.deeds[j]? = some deed → P last →
      P (deed.onDeferred last)) : P (r.since i later n) := by
  induction hmn with
  | refl => exact h
  | @step n hmn ih =>
    have hin : i < n := Nat.lt_of_lt_of_le him hmn
    have hn : P (r.since i later n) := ih fun j deed last hj hjn => step j deed last hj (by omega)
    cases hd : r.deeds[n]? with
    | none => rwa [Nat.succ_eq_add_one, since_of_none hin hd]
    | some deed =>
      rw [Nat.succ_eq_add_one, since_succ hin hd]
      exact step n deed _ hmn (Nat.lt_succ_self n) hd hn

/-- A deferred answer waits for its handle until that is used. -/
theorem since_awaiting {t : Ticket} (hin : i < n)
    (h : ∀ m a, i < m → m < n → r.deeds[m]? ≠ some (.fulfil t a)) :
    r.since i (.awaiting t) n = .awaiting t := by
  refine since_induction (P := (· = .awaiting t)) (Nat.lt_succ_self i) hin since_self ?_
  rintro j deed _ hij hjn hd rfl
  cases deed with
  | fulfil u a =>
    have hu : t ≠ u := fun hu => h j a hij hjn (by rw [hu, hd])
    rw [Deed.onDeferred, Deferred.fulfil, if_neg hu]
  | call _ | register _ | arrive _ | elsewhere _ => rfl

theorem since_fulfil {t : Ticket} {a : Answer} (hin : i < n)
    (hn : r.since i (.awaiting t) n = .awaiting t) (h : r.deeds[n]? = some (.fulfil t a)) :
    r.since i (.awaiting t) (n + 1) = .ready a := by
  rw [since_succ hin h, hn, Deed.onDeferred, Deferred.fulfil, if_pos rfl]

/-- An answer that is there stays, unless it is itself a deferred one. -/
theorem since_ready {a : Answer} (him : i < m) (hmn : m ≤ n) (ha : ∀ d, a ≠ .deferred d)
    (h : r.since i later m = .ready a) : r.since i later n = .ready a := by
  refine since_induction (P := (· = .ready a)) him hmn h ?_
  rintro j deed _ - - - rfl
  cases deed with
  | fulfil u b =>
    rw [Deed.onDeferred, Deferred.fulfil]
    cases a with
    | deferred d => exact absurd rfl (ha d)
    | unit | status _ | response _ | failed _ | protocol _ => rw [Answer.fulfil]
  | call _ | register _ | arrive _ | elsewhere _ => rfl

theorem since_lost (hin : i < n) : r.since i .lost n = .lost := by
  refine since_induction (P := (· = .lost)) (Nat.lt_succ_self i) hin since_self ?_
  rintro j deed _ - - - rfl
  cases deed with
  | fulfil u b => rw [Deed.onDeferred, Deferred.fulfil]
  | call _ | register _ | arrive _ | elsewhere _ => rfl

theorem not_resolved_self : ¬ r.Resolved i key later (i + 1) := by
  rintro ⟨m, _, him, hm, -⟩
  omega

theorem Resolved.mono (h : r.Resolved i key later m) (hmn : m ≤ n) : r.Resolved i key later n := by
  obtain ⟨j, deed, hij, hj, hd⟩ := h
  exact ⟨j, deed, hij, Nat.lt_of_lt_of_le hj hmn, hd⟩

theorem resolved_succ (hin : i < n) (h : r.deeds[n]? = some deed) :
    r.Resolved i key later (n + 1) ↔
      r.Resolved i key later n ∨ deed.Resolves key (r.since i later n) := by
  constructor
  · rintro ⟨m, deed', him, hm, hd, hr⟩
    by_cases hmn : m < n
    · exact .inl ⟨m, deed', him, hmn, hd, hr⟩
    · obtain rfl : m = n := by omega
      rw [h, Option.some.injEq] at hd
      exact .inr (hd ▸ hr)
  · rintro (hr | hr)
    · exact hr.mono (Nat.le_succ n)
    · exact ⟨n, deed, hin, Nat.lt_succ_self n, h, hr⟩

theorem resolved_of_none (h : r.deeds[n]? = none) :
    r.Resolved i key later (n + 1) ↔ r.Resolved i key later n := by
  constructor
  · rintro ⟨m, deed, him, hm, hd, hr⟩
    have hmn : m ≠ n := fun hmn => by rw [hmn, h] at hd; cases hd
    exact ⟨m, deed, him, by omega, hd, hr⟩
  · exact fun hr => hr.mono (Nat.le_succ n)

/-! ## The entry of a deferred answer -/

section
variable [Journal σ]

theorem Defers.files (h : r.Defers i call later) : r.Files i call (r.created i) := by
  obtain ⟨d, c, inv, ha, hi, hl⟩ := h
  exact files_of_deferral ha hi hl

/-- What is filed for a deferred answer: an entry that waits for just this. -/
theorem Defers.filed (h : r.Defers i call later) : r.filed? (i + 1) call.key =
    some ⟨r.created i, .ofOperation call.operation, some later⟩ := by
  obtain ⟨d, c, inv, ha, hi, hl⟩ := h
  rw [filed?, engine, r.follows.succ ha.deed]
  exact filed_of_deferral ha.asks hi hl

/-- Only the deferred answers that callbacks hand back are filed. -/
theorem Files.defers (h : r.Files i call k) : ∃ later, r.Defers i call later := by
  obtain ⟨-, waits, hfiled⟩ := h.filed
  have hpending : (r.filed? (i + 1) call.key) =
      ((r.engine i).serve call (r.before i).2).2.1.desk.pending.get? call.key := by
    rw [filed?, engine, r.follows.succ h.deed]
    rfl
  -- a call that leaves the entry of its key as it was files nothing
  have hsame : ((r.engine i).serve call (r.before i).2).2.1.desk.pending =
      (r.engine i).desk.pending → False := fun hp =>
    h.absent ⟨_, by rw [filed?, ← hp, ← hpending]; exact hfiled, rfl⟩
  rw [hfiled] at hpending
  cases (r.engine i).way call (r.before i).2 with
  | unknown error look serve => exact (hsame (by rw [serve])).elim
  | unbound d look serve => exact (hsame (by rw [serve]; rfl)).elim
  | outstanding d c p asks filed waits serve => exact (hsame (by rw [serve]; rfl)).elim
  | arrived d c p a asks filed takes final serve =>
    rw [serve, closing, Desk.normalizeArrived_pending] at hpending
    simp [Table.get?_erase] at hpending
  | called d c k' s' asks freed serve one =>
    rw [serve, closing, Desk.invoke_pending] at hpending
    cases hl : c.deferral? (Desk.outcome d c call s') with
    | none =>
      rw [hl, freed.get?_eq_none] at hpending
      cases hpending
    | some later => exact ⟨later, d, c, _, ⟨h.deed, asks⟩, one, hl⟩

/-- The entry of a deferred answer follows it, as long as it is there. -/
theorem Defers.tracks (h : r.Defers i call later) (hin : i < n) {p : Pending}
    (hp : r.filed? n call.key = some p) (hk : p.number = r.created i) :
    p.Tracks (r.since i later n) (r.Resolved i call.key later n) := by
  induction hin generalizing p with
  | refl =>
    rw [h.filed, Option.some.injEq] at hp
    subst hp
    exact .inl ⟨not_resolved_self, rfl, .inl (by rw [since_self])⟩
  | @step n hin ih =>
    cases hd : r.deeds[n]? with
    | none =>
      rw [filed?, engine, r.follows.of_none hd] at hp
      rw [since_of_none hin hd, resolved_of_none hd]
      exact ih hp hk
    | some deed =>
      rw [filed?, engine, r.follows.succ hd] at hp
      rw [since_succ hin hd, resolved_succ hin hd]
      rcases deed.get?_back hp with ⟨q, hq, rfl⟩ | ⟨hn, -⟩
      · refine (ih hq ?_).onEntry deed call.key
        rw [← hk, (deed.onEntry_next call.key q).number]
      · -- a later entry has a later number
        have hlt : r.created i < r.created n := by
          have hi := number_lt h.filed
          exact Nat.lt_of_lt_of_le hi (r.created_mono hin)
        exact absurd (hk.symm.trans hn) (Nat.ne_of_lt hlt)

end

/-! ## The whole life -/

/-- What happens to the deferred answer `later` that the call `call` left as deed `i`. -/
structure Life [Journal σ] (r : Run σ) (i : Nat) (call : Call) (later : Deferred) : Prop where
  /-- It is filed for the operation of the call, under a number that is new. -/
  files : r.Files i call (r.created i)
  filed : r.filed? (i + 1) call.key =
    some ⟨r.created i, .ofOperation call.operation, some later⟩
  /-- As long as its entry is there, the cell is resolved if it was handed in, and holds just what
  it came to. -/
  cell : ∀ n p, i < n → r.filed? n call.key = some p → p.number = r.created i →
    (p.cell.state = .resolved ↔ r.Resolved i call.key later n) ∧
    ∀ a, p.cell.take.1 = some a ↔
      r.Resolved i call.key later n ∧ r.since i later n = .ready a
  /-- Until it is handed in, its entry is there, and calls on the key are answered that work goes
  on. -/
  outstanding : ∀ n call' d c, i < n → r.Asks n call' d c → call'.key = call.key →
    ¬ r.Resolved i call.key later n → r.Holds n call.key (r.created i) ∧
      r.reply n call' = .answered .accepted ∧ r.invocations n call' = []
  /-- The first call on the key afterwards uses what it came to, and nobody else ever does. -/
  used : ∀ n call' d c, i < n → r.Asks n call' d c → call'.key = call.key →
    r.Resolved i call.key later n →
    (∀ m call'' d' c', i < m → m < n → r.Asks m call'' d' c' → call''.key = call.key →
      ¬ r.Resolved i call.key later m) →
    ∃ a, r.since i later n = .ready a ∧ r.Uses n (r.created i) a ∧
      (∀ m b, r.Uses m (r.created i) b → m = n) ∧
      (∀ m key, n < m → ¬ r.Holds m key (r.created i)) ∧
      if a.inProgress then r.CallsOnce n call' d c
      else r.reply n call' = d.arrivedReply call.operation a ∧ r.invocations n call' = []

section
variable [Journal σ]

/-- What was not handed in, nobody has used. -/
theorem Defers.resolved_of_uses {b : Answer} (h : r.Defers i call later)
    (hu : r.Uses n (r.created i) b) : i < n ∧ ∃ call' d c, r.Asks n call' d c ∧
      call'.key = call.key ∧ r.Resolved i call.key later n := by
  obtain ⟨call', d, c, p, ha, hp, hk, ht⟩ := hu
  obtain ⟨hin, hkey⟩ := h.files.arrived_holds hp hk
  rw [hkey] at hp
  exact ⟨hin, call', d, c, ha, hkey, ((h.tracks hin hp hk).take_iff.1 ht).1⟩

theorem Defers.life (h : r.Defers i call later) : r.Life i call later where
  files := h.files
  filed := h.filed
  cell n p hin hp hk := ⟨(h.tracks hin hp hk).state_iff, fun _ => (h.tracks hin hp hk).take_iff⟩
  outstanding n call' d c hin ha hkey hr := by
    have hu : ∀ j b, j < n → ¬ r.Uses j (r.created i) b := fun j b hj hu => by
      obtain ⟨-, _, _, _, -, -, hj'⟩ := h.resolved_of_uses hu
      exact hr (hj'.mono (Nat.le_of_lt hj))
    obtain ⟨p, hp, hk, -⟩ := h.files.unused hin hu
    have ht : p.cell.take.1 = none := Option.eq_none_iff_forall_ne_some.2 fun a ha =>
      hr ((h.tracks hin hp hk).take_iff.1 ha).1
    have hholds : r.Holds n call.key (r.created i) := ⟨p, hp, hk⟩
    rw [← hkey] at hp
    have hserve := serve_outstanding ha.asks hp ht (s := (r.before n).2)
    exact ⟨hholds, hserve.1, hserve.2.1⟩
  used n call' d c hin ha hkey hr hfirst := by
    have hu : ∀ j b, j < n → ¬ r.Uses j (r.created i) b := fun j b hj hu => by
      obtain ⟨hij, call'', d', c', ha', hkey', hr'⟩ := h.resolved_of_uses hu
      exact hfirst j call'' d' c' hij hj ha' hkey' hr'
    obtain ⟨p, hp, hk, hop⟩ := h.files.unused hin hu
    have htracks := h.tracks hin hp hk
    obtain ⟨a, ht⟩ := ((r.sound n).live _ p hp).take_eq_some (htracks.state_iff.2 hr)
    rw [← hkey] at hp
    have huse : r.Uses n (r.created i) a := ⟨call', d, c, p, ha, hp, hk, ht⟩
    refine ⟨a, (htracks.take_iff.1 ht).2, huse, fun m b hm => huse.unique hm,
      fun m key hm => huse.gone hm, ?_⟩
    split
    · rename_i hprog
      exact callsOnce_of_inProgress ha.asks hp ht hprog
    · rename_i hprog
      rw [← hop]
      exact serve_arrived ha.asks hp ht (by simpa using hprog)

/-- **The life of a deferred answer.** Whatever deferred answer a callback hands back is filed, and
nothing else ever is. Until it is handed in, every call for a bound callback on its key is answered
with `accepted` and calls nothing. The first such call afterwards uses what it came to, and no other
call of the run ever does. That call is answered from it, unless it says that work goes on: then the
callback asked for now is called once. A call on a key with nothing filed calls the bound callback
once. What a deferred answer comes to is the answer that its handle is used for first. -/
theorem deferred_lifecycle (r : Run σ) :
    (∀ i call later, r.Defers i call later → r.Life i call later) ∧
    (∀ i call k, r.Files i call k → k = r.created i ∧ ∃ later, r.Defers i call later) ∧
    (∀ n call d c, r.Asks n call d c → r.filed? n call.key = none → r.CallsOnce n call d c) ∧
    (∀ i t n, i < n → (∀ m a, i < m → m < n → r.deeds[m]? ≠ some (.fulfil t a)) →
      r.since i (.awaiting t) n = .awaiting t ∧
      ∀ a, r.deeds[n]? = some (.fulfil t a) → r.since i (.awaiting t) (n + 1) = .ready a) ∧
    (∀ i later m n a, i < m → m ≤ n → (∀ d, a ≠ .deferred d) → r.since i later m = .ready a →
      r.since i later n = .ready a) ∧
    ∀ i n, i < n → r.since i .lost n = .lost :=
  ⟨fun _ _ _ h => h.life, fun _ _ _ h => ⟨h.filed.1, h.defers⟩,
    fun _ _ _ _ h hn => callsOnce_of_none h.asks hn,
    fun _ _ _ hin h =>
      ⟨since_awaiting hin h, fun _ ha => since_fulfil hin (since_awaiting hin h) ha⟩,
    fun _ _ _ _ _ him hmn ha h => since_ready him hmn ha h, fun _ _ hin => since_lost hin⟩

end

/-! ## A deferred answer that is asked for too early -/

/-- The request for the status. -/
def statusCall : Call := { paymentsCall with operation := .status }

/-- A participant is asked to complete and defers its answer; there is a turn before the answer is
there. It is asked for its status before the next turn, and once more after it. -/
def polled : Run (List Event) :=
  ⟨Registry.empty.put (payments .unit (.awaiting 0)), [], [.call paymentsCall,
    .arrive [paymentsCall.key], .fulfil 0 .unit, .call statusCall, .arrive [paymentsCall.key],
    .call statusCall]⟩

theorem polled_asks (n : Nat) (h : n = 3 ∨ n = 5) : polled.Asks n statusCall
    (payments .unit (.awaiting 0)) (.steady (.deferred .unit) (.deferred (.awaiting 0))) := by
  rcases h with rfl | rfl <;> exact ⟨rfl, rfl, rfl⟩

theorem polled_defers : polled.Defers 0 paymentsCall (.awaiting 0) :=
  ⟨_, _, _, ⟨rfl, rfl, rfl⟩, rfl, rfl⟩

/-- The first request for the status is told that work goes on, the second one that it has
completed. -/
theorem polled_used :
    polled.Defers 0 paymentsCall (.awaiting 0) ∧
    ¬ polled.Resolved 0 paymentsCall.key (.awaiting 0) 4 ∧
    polled.reply 3 statusCall = .answered .accepted ∧ polled.invocations 3 statusCall = [] ∧
    polled.Resolved 0 paymentsCall.key (.awaiting 0) 5 ∧ polled.Uses 5 0 .unit ∧
    polled.reply 5 statusCall = .answered (.status .completed) ∧
    polled.invocations 5 statusCall = [] := by
  obtain ⟨hlife, -⟩ := deferred_lifecycle polled
  have life := hlife 0 paymentsCall (.awaiting 0) polled_defers
  have h₄ : polled.filed? 4 paymentsCall.key =
      some ⟨0, .ofOperation .complete, some (.ready .unit)⟩ := by decide +kernel
  have h₅ : polled.filed? 5 paymentsCall.key =
      some ⟨0, ⟨.complete, .resolved, some .unit⟩, none⟩ := by decide +kernel
  have hnot : ¬ polled.Resolved 0 paymentsCall.key (.awaiting 0) 4 := fun h =>
    absurd ((life.cell 4 _ (by omega) h₄ rfl).1.2 h) (by decide)
  obtain ⟨hres, hsince⟩ := ((life.cell 5 _ (by omega) h₅ rfl).2 .unit).1 rfl
  obtain ⟨-, haccepted, hnone⟩ := life.outstanding 3 statusCall _ _ (by omega)
    (polled_asks 3 (.inl rfl)) rfl fun h => hnot (h.mono (by omega))
  obtain ⟨a, ha, huses, -, -, hanswered⟩ := life.used 5 statusCall _ _ (by omega)
    (polled_asks 5 (.inr rfl)) rfl hres fun m _ _ _ _ hm _ _ h => hnot (h.mono (by omega))
  obtain rfl : .unit = a := by simpa using hsince.symm.trans ha
  exact ⟨polled_defers, hnot, haccepted, hnone, hres, huses, hanswered⟩

end Engine.Run

end Saga
