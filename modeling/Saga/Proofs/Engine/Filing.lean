import Saga.Proofs.Engine.Run
import Saga.Proofs.Participants

/-!
# Filing a deferred answer and taking it

Every deferred answer that an engine files has a number of its own, so a run can be followed from
the call that files it (`Run.Files`) to the call that takes it (`Run.Uses`). It stays under its key
until it is taken (`Run.stays`), nothing else ever gets its number (`Run.Holds.back`), and once
taken it is gone for good (`Run.Uses.gone`).
-/

set_option autoImplicit false

namespace Saga.Engine.Run

variable {σ : Type} [Journal σ] {r : Run σ} {i m n k : Nat} {key key' : CallKey} {call : Call}
  {d : Descriptor σ} {c : Callback σ} {a : Answer}

/-- The entry under a key before deed `n`. -/
def filed? (r : Run σ) (n : Nat) (key : CallKey) : Option Pending :=
  (r.engine n).desk.pending.get? key

/-- The number of deferred answers filed before deed `n`. -/
def created (r : Run σ) (n : Nat) : Nat := (r.engine n).desk.counters.pendingCreated

/-- Deed `n` is a call that asks for the bound callback `c` of the participant `d`. -/
structure Asks (r : Run σ) (n : Nat) (call : Call) (d : Descriptor σ) (c : Callback σ) : Prop where
  deed : r.deeds[n]? = some (.call call)
  asks : (r.engine n).Asks call d c

/-- The reply to `call` as deed `n`. -/
def reply (r : Run σ) (n : Nat) (call : Call) : Reply :=
  ((r.before n).1.serve call (r.before n).2).1

/-- The callbacks called for `call` as deed `n`. -/
def invocations (r : Run σ) (n : Nat) (call : Call) : List (Invocation σ) :=
  (r.before n).1.invocations call (r.before n).2

/-- As deed `n`, `call` calls the callback `c` once and is answered from its outcome. -/
def CallsOnce (r : Run σ) (n : Nat) (call : Call) (d : Descriptor σ) (c : Callback σ) : Prop :=
  (r.before n).1.CallsOnce call (r.before n).2 d c

/-- Before deed `n` the deferred answer with the number `k` is filed under `key`. -/
def Holds (r : Run σ) (n : Nat) (key : CallKey) (k : Nat) : Prop :=
  ∃ p, r.filed? n key = some p ∧ p.number = k

/-- Deed `n` is a call that files the deferred answer with the number `k`. -/
structure Files (r : Run σ) (n : Nat) (call : Call) (k : Nat) : Prop where
  deed : r.deeds[n]? = some (.call call)
  absent : ¬ r.Holds n call.key k
  holds : r.Holds (n + 1) call.key k

/-- Deed `n` is a call that takes the answer `a` out of the entry with the number `k`. -/
def Uses (r : Run σ) (n k : Nat) (a : Answer) : Prop :=
  ∃ call d c p, r.Asks n call d c ∧ r.filed? n call.key = some p ∧ p.number = k ∧
    p.cell.take.1 = some a

/-! ## Numbers -/

theorem number_lt {p : Pending} (h : r.filed? n key = some p) : p.number < r.created n :=
  (r.sound n).number_lt key p h

theorem Holds.key_eq (h : r.Holds n key k) (h' : r.Holds n key' k) : key = key' := by
  obtain ⟨p, hp, hk⟩ := h
  obtain ⟨p', hp', hk'⟩ := h'
  exact (r.sound n).number_inj key key' p p' hp hp' (hk.trans hk'.symm)

theorem created_le_succ (r : Run σ) (n : Nat) : r.created n ≤ r.created (n + 1) := by
  rcases r.carries_or_refiled n with h | ⟨_, _, _, -, -, -, h⟩
  · exact Nat.le_of_eq h.created.symm
  · rcases h.own with ⟨-, h⟩ | ⟨_, -, h⟩ <;> unfold created <;> omega

theorem created_mono (r : Run σ) (h : m ≤ n) : r.created m ≤ r.created n := by
  induction h with
  | refl => exact Nat.le_refl _
  | step _ ih => exact Nat.le_trans ih (r.created_le_succ _)

/-- A number that was given before deed `n` is not given again. -/
theorem Holds.pred (h : r.Holds (n + 1) key k) (hk : k < r.created n) : r.Holds n key k := by
  obtain ⟨q, hq, rfl⟩ := h
  rcases r.carries_or_refiled n with h | ⟨_, _, _, -, -, -, h⟩
  · obtain ⟨p, hp, hpq⟩ := h.back hq
    exact ⟨p, hp, hpq.number.symm⟩
  · obtain ⟨-, hp, -⟩ | ⟨-, -, hn, -⟩ := h.back hq
    · exact ⟨q, hp, rfl⟩
    · exact absurd hn (Nat.ne_of_lt hk)

theorem Holds.back (h : r.Holds n key k) (hm : m ≤ n) (hk : k < r.created m) : r.Holds m key k := by
  induction hm with
  | refl => exact h
  | step hle ih => exact ih (h.pred (Nat.lt_of_lt_of_le hk (r.created_mono hle)))

/-! ## From filing to taking -/

/-- What a call files: an entry of its own operation that waits, under the next number. -/
theorem Files.filed (h : r.Files i call k) :
    k = r.created i ∧ ∃ later, r.filed? (i + 1) call.key =
      some ⟨k, .ofOperation call.operation, some later⟩ := by
  obtain ⟨q, hq, rfl⟩ := h.holds
  rcases r.carries_or_refiled i with hc | ⟨call', _, _, hd, -, -, hr⟩
  · obtain ⟨p, hp, hpq⟩ := hc.back hq
    exact absurd ⟨p, hp, hpq.number.symm⟩ h.absent
  · have hcall : call' = call := by simpa [h.deed] using hd.symm
    subst hcall
    rcases hr.own with ⟨hn, -⟩ | ⟨later, hs, -⟩
    · rw [filed?, hn] at hq
      cases hq
    · have hq' := hq
      rw [filed?, hs, Option.some.injEq] at hq'
      exact ⟨hq' ▸ rfl, later, by rw [filed?, hs, ← hq']⟩

/-- An entry stays under its key until it is used. -/
theorem stays {p : Pending} (hp : r.filed? m key = some p) (hmn : m ≤ n)
    (hu : ∀ j b, m ≤ j → j < n → ¬ r.Uses j p.number b) :
    ∃ q, r.filed? n key = some q ∧ p.Later q := by
  induction hmn with
  | refl => exact ⟨p, hp, .refl p⟩
  | @step n hle ih =>
    obtain ⟨q, hq, hpq⟩ := ih fun j b hj hjn => hu j b hj (Nat.lt_succ_of_lt hjn)
    rcases r.carries_or_refiled n with hc | ⟨call, d, c, hd, ha, ht, hr⟩
    · obtain ⟨q', hq', hqq'⟩ := hc.keeps key q hq
      exact ⟨q', hq', hpq.trans hqq'⟩
    · by_cases hk : key = call.key
      · subst hk
        obtain ⟨b, hb⟩ := ht q hq
        exact absurd ⟨call, d, c, q, ⟨hd, ha⟩, hq, hpq.number, hb⟩ (hu n b hle (Nat.lt_succ_self n))
      · exact ⟨q, by rw [filed?, hr.others key hk]; exact hq, hpq⟩

theorem Uses.holds (h : r.Uses n k a) : ∃ key, r.Holds n key k := by
  obtain ⟨call, _, _, p, -, hp, hk, -⟩ := h
  exact ⟨call.key, p, hp, hk⟩

/-- What was used is gone for good. -/
theorem Uses.gone (h : r.Uses n k a) (hm : n < m) : ¬ r.Holds m key k := by
  intro hk
  obtain ⟨call, d, c, p, ha, hp, rfl, ht⟩ := h
  have hlt : p.number < r.created n := number_lt hp
  have hlt' : p.number < r.created (n + 1) := Nat.lt_of_lt_of_le hlt (r.created_le_succ n)
  have h1 : r.Holds (n + 1) key p.number := hk.back hm hlt'
  have hkey : key = call.key := (h1.pred hlt).key_eq ⟨p, hp, rfl⟩
  subst hkey
  obtain ⟨q, hq, hqn⟩ := h1
  have hr := refiled_of_take ha.asks hp ht (s := (r.before n).2)
  rw [filed?, engine, r.follows.succ ha.deed] at hq
  obtain ⟨hne, -, -⟩ | ⟨-, -, hn, -⟩ := hr.back hq
  · exact hne rfl
  · exact Nat.ne_of_lt hlt (hqn ▸ hn)

theorem Uses.unique {b : Answer} (h : r.Uses n k a) (h' : r.Uses m k b) : m = n := by
  obtain ⟨key, hk⟩ := h.holds
  obtain ⟨key', hk'⟩ := h'.holds
  rcases Nat.lt_trichotomy m n with hlt | heq | hgt
  · exact absurd hk (h'.gone hlt)
  · exact heq
  · exact absurd hk' (h.gone hgt)

/-! ## The calls on one key -/

theorem Files.arrived_holds (h : r.Files i call k) {p : Pending} (hp : r.filed? m key = some p)
    (hk : p.number = k) : i < m ∧ key = call.key := by
  obtain ⟨hc, later, hl⟩ := h.filed
  have hlt : r.created i < r.created m := by rw [← hc, ← hk]; exact number_lt hp
  have him : i < m := Nat.lt_of_not_le fun hle => Nat.not_le_of_lt hlt (r.created_mono hle)
  have hb : r.Holds (i + 1) key k := Holds.back ⟨p, hp, hk⟩ him (number_lt hl)
  exact ⟨him, hb.key_eq h.holds⟩

/-- While nobody has used what was filed, it is there with the operation of the call that filed
it. -/
theorem Files.unused (h : r.Files i call k) (hin : i < n) (hu : ∀ j b, j < n → ¬ r.Uses j k b) :
    ∃ p, r.filed? n call.key = some p ∧ p.number = k ∧ p.cell.operation = call.operation := by
  obtain ⟨-, later, hl⟩ := h.filed
  obtain ⟨p, hp, hlp⟩ := stays hl hin fun j b _ hj => hu j b hj
  exact ⟨p, hp, hlp.number, hlp.operation⟩

/-- A call that calls a callback whose answer is a deferred one of the declared type files it. -/
theorem files_of_deferral {inv : Invocation σ} {later : Deferred} (h : r.Asks n call d c)
    (hi : r.invocations n call = [inv]) (hl : c.deferral? inv.outcome = some later) :
    r.Files n call (r.created n) := by
  refine ⟨h.deed, fun ⟨p, hp, hk⟩ => Nat.ne_of_lt (number_lt hp) hk, ?_⟩
  have hf := filed_of_deferral h.asks hi hl
  exact ⟨_, by rw [filed?, engine, r.follows.succ h.deed]; exact hf, rfl⟩

/-- Whatever is filed was filed by a call for a bound callback. -/
theorem exists_files {p : Pending} (h : r.filed? n key = some p) :
    ∃ i call d c, i < n ∧ r.Asks i call d c ∧ r.Files i call p.number ∧ call.key = key ∧
      p.cell.operation = call.operation := by
  induction n generalizing p with
  | zero => cases h
  | succ n ih =>
    rcases r.carries_or_refiled n with hc | ⟨call, d, c, hd, ha, -, hr⟩
    · obtain ⟨q, hq, hqp⟩ := hc.back h
      obtain ⟨i, call, d, c, hi, ha, hf, hkey, hop⟩ := ih hq
      exact ⟨i, call, d, c, by omega, ha, by rw [hqp.number]; exact hf, hkey,
        by rw [hqp.operation]; exact hop⟩
    · by_cases hk : key = call.key
      · subst hk
        rcases hr.own with ⟨hn, -⟩ | ⟨later, hs, -⟩
        · rw [filed?, hn] at h
          cases h
        · have hp := h
          rw [filed?, hs, Option.some.injEq] at hp
          subst hp
          have habs : ¬ r.Holds n call.key (r.created n) := by
            rintro ⟨q, hq, hk⟩
            exact Nat.ne_of_lt (number_lt hq) hk
          exact ⟨n, call, d, c, by omega, ⟨hd, ha⟩, ⟨hd, habs, _, h, rfl⟩, rfl, rfl⟩
      · rw [filed?, hr.others key hk] at h
        obtain ⟨i, call, d, c, hi, ha, hf, hkey, hop⟩ := ih h
        exact ⟨i, call, d, c, by omega, ha, hf, hkey, hop⟩

/-! ## A participant whose answers are filed -/

/-- A participant that defers all its answers to `later`, and declares what comes then to be of the
kind. -/
def payments (kind : ReturnType) (later : Deferred) : Descriptor (List Event) :=
  .steady "Payments" (.deferred kind) (.deferred later)

/-- The request to complete its part. -/
def paymentsCall : Call := ⟨"Payments", .complete, ⟨"http://c/lra/1"⟩, none⟩

end Saga.Engine.Run
