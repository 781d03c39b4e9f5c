import Saga.Proofs.Engine.DeskOrder

/-!
# How a deferred answer is produced, or is not

While something produces the answer of an entry, the cell of the entry waits for it
(`Pending.Open`). When it has ended and gets its last turn (`Run.Ends`), an answer that it left goes
into the cell (`Pending.Has`), and the next call takes it. If it died instead, the cell goes on
waiting (`Pending.Waits`), and no call ever takes the entry off. `Run.arrives_unless_lost` tells the
two apart.
-/

set_option autoImplicit false

namespace Saga

namespace Pending

/-- The entry after what produces its answer got its turn. -/
def turned (p : Pending) : Pending :=
  match p.producer with
  | some (.ready a) => { p with cell := (p.cell.resolve a).2, producer := none }
  | some .lost => { p with producer := none }
  | some (.awaiting _) | none => p

/-- The entry after the handle `t` was used to hand in `a`. -/
def fulfilled (p : Pending) (t : Ticket) (a : Answer) : Pending :=
  { p with cell := p.cell.fulfil t a, producer := p.producer.map (Deferred.fulfil t a) }

/-- What a deed may make of an entry whose answer is not taken. -/
inductive Next (p : Pending) : Pending → Prop
  | same : Next p p
  | turned : Next p p.turned
  | fulfilled (t : Ticket) (a : Answer) : Next p (p.fulfilled t a)

/-- While something produces the answer, the cell waits for it. -/
def Open (p : Pending) : Prop := p.producer.isSome = true → p.cell.phase = .unresolved

/-- The cell waits for the answer of `later`. If `later` is lost, nobody may be left who would
produce it. -/
structure Waits (p : Pending) (later : Deferred) : Prop where
  phase : p.cell.phase = .unresolved
  producer : p.producer = some later ∨ later = .lost ∧ p.producer = none

/-- The cell has got the answer `a`. -/
structure Has (p : Pending) (a : Answer) : Prop where
  phase : p.cell.phase = .resolved
  value : p.cell.value = some a
  producer : p.producer = none

variable {p q : Pending} {later : Deferred} {a : Answer}

theorem advance_fst {σ : Type} [Journal σ] (key : CallKey) (p : Pending) (s : σ) :
    (p.advance key s).1 = p.turned := by
  unfold advance turned
  cases p.producer with
  | none => rfl
  | some d =>
    cases d with
    | ready a => rcases h : p.cell.resolve a with ⟨_ | _, cell⟩ <;> simp [h]
    | awaiting t => rfl
    | lost => rfl

theorem turned_turned (p : Pending) : p.turned.turned = p.turned := by
  rcases h : p.producer with _ | ⟨_ | _ | _⟩ <;> simp [turned, h]

theorem Next.number (h : p.Next q) : q.number = p.number := by
  cases h with
  | same => rfl
  | turned => unfold Pending.turned; split <;> rfl
  | fulfilled t a => rfl

theorem Open.next (hp : p.Open) (h : p.Next q) : q.Open := by
  cases h with
  | same => exact hp
  | turned =>
    intro hs
    rcases hd : p.producer with _ | ⟨_ | _ | _⟩ <;> simp [Pending.turned, hd] at hs ⊢
    exact hp (by rw [hd]; rfl)
  | fulfilled t a =>
    intro hs
    exact hp (by simpa [Pending.fulfilled] using hs)

/-- What is to produce the answer is what the cell waits for. -/
theorem Open.waits (hp : p.Open) (h : p.producer = some later) : p.Waits later :=
  ⟨hp (by rw [h]; rfl), .inl h⟩

namespace Waits

theorem state (h : p.Waits later) : p.cell.state = .unresolved := by
  simp [PendingCell.state, h.phase]

theorem take (h : p.Waits later) : p.cell.take.1 = none :=
  PendingCell.take_eq_none (by rw [h.state]; decide)

theorem fulfilled (h : p.Waits later) (t : Ticket) (b : Answer) :
    (p.fulfilled t b).Waits (later.fulfil t b) := by
  refine ⟨h.phase, ?_⟩
  rcases h.producer with hp | ⟨rfl, hp⟩
  · exact .inl (by rw [Pending.fulfilled, hp, Option.map_some])
  · exact .inr ⟨by rw [Deferred.fulfil], by rw [Pending.fulfilled, hp, Option.map_none]⟩

/-- A turn changes nothing while the answer is not there. -/
theorem turned (h : p.Waits later) (hl : ∀ a, later ≠ .ready a) : p.turned.Waits later := by
  rcases h.producer with hp | ⟨rfl, hp⟩
  · cases later with
    | ready a => exact absurd rfl (hl a)
    | awaiting t => simpa [Pending.turned, hp] using h
    | lost =>
      exact ⟨by simpa [Pending.turned, hp] using h.phase, .inr (by simp [Pending.turned, hp])⟩
  · simpa [Pending.turned, hp] using h

/-- An answer that is there goes into the cell at the next turn. -/
theorem turned_ready (h : p.Waits (.ready a)) : p.turned.Has a := by
  have hp : p.producer = some (.ready a) := h.producer.resolve_right fun hl => by cases hl.1
  constructor <;>
    simp [Pending.turned, hp, PendingCell.resolve, PendingCell.claim?, h.phase, PendingCell.store,
      PendingCell.publish]

/-- What was to produce the answer is dead for good. -/
theorem next_lost (h : p.Waits .lost) (hn : p.Next q) : q.Waits .lost := by
  cases hn with
  | same => exact h
  | turned => exact h.turned fun a ha => by cases ha
  | fulfilled t b => simpa only [Deferred.fulfil] using h.fulfilled t b

end Waits

namespace Has

theorem state (h : p.Has a) : p.cell.state = .resolved := by
  simp [PendingCell.state, h.phase]

theorem take (h : p.Has a) : p.cell.take.1 = some a := PendingCell.take_resolved h.phase h.value

theorem fulfilled (h : p.Has a) (t : Ticket) (b : Answer) :
    (p.fulfilled t b).Has (Answer.fulfil t b a) where
  phase := h.phase
  value := by rw [Pending.fulfilled, PendingCell.fulfil, h.value, Option.map_some]
  producer := by rw [Pending.fulfilled, h.producer, Option.map_none]

theorem turned (h : p.Has a) : p.turned = p := by
  simp [Pending.turned, h.producer]

end Has

end Pending

/-! ## What a deed makes of an entry -/

section
variable {σ : Type} [Journal σ]

theorem Desk.get?_advance (keys : List CallKey) (k : Desk) (s : σ) (key : CallKey) :
    (k.advance keys s).1.pending.get? key =
      (k.pending.get? key).map fun p => if key ∈ keys then p.turned else p := by
  induction keys generalizing k s with
  | nil => simp [advance]
  | cons key' keys ih =>
    cases hp : k.pending.get? key' with
    | none =>
      simp only [advance, hp, ih]
      by_cases hk : key = key'
      · subst hk
        simp [hp]
      · simp [hk]
    | some p =>
      simp only [advance, hp, ih, Table.get?_insert, Pending.advance_fst]
      by_cases hk : key' = key
      · subst hk
        simp [hp, Pending.turned_turned]
      · simp [hk, Ne.symm hk]

omit [Journal σ] in
theorem Engine.get?_fulfil (e : Engine σ) (t : Ticket) (a : Answer) (key : CallKey) :
    (e.fulfil t a).desk.pending.get? key =
      (e.desk.pending.get? key).map fun p => p.fulfilled t a :=
  Table.get?_mapValues ..

namespace Engine

variable {x : Engine σ × σ} {key : CallKey} {p q : Pending}

/-- What a deed, if it is no call, makes of the entry under `key`. -/
def Deed.onEntry (key : CallKey) : Deed σ → Pending → Pending
  | .fulfil t a, p => p.fulfilled t a
  | .arrive keys, p => if key ∈ keys then p.turned else p
  | .call _, p | .register _, p | .elsewhere _, p => p

omit [Journal σ] in
theorem Deed.onEntry_next (deed : Deed σ) (key : CallKey) (p : Pending) :
    p.Next (deed.onEntry key p) := by
  cases deed with
  | fulfil t a => exact .fulfilled t a
  | arrive keys =>
    rw [onEntry]
    split
    · exact .turned
    · exact .same
  | call _ | register _ | elsewhere _ => exact .same

/-- A deed that is no call adds no entry and takes none off. -/
theorem Deed.get?_play {deed : Deed σ} (h : ∀ call, deed ≠ .call call) :
    (deed.play x).1.desk.pending.get? key =
      (x.1.desk.pending.get? key).map (deed.onEntry key) := by
  cases deed with
  | call call => exact absurd rfl (h call)
  | fulfil t a => exact get?_fulfil x.1 t a key
  | arrive keys => exact x.1.desk.get?_advance keys x.2 key
  | register _ | elsewhere _ => exact Option.map_id'.symm

/-- An entry whose answer can not be taken goes on. -/
theorem Deed.get?_play_of_take (hp : x.1.desk.pending.get? key = some p)
    (ht : p.cell.take.1 = none) (deed : Deed σ) :
    (deed.play x).1.desk.pending.get? key = some (deed.onEntry key p) := by
  by_cases h : ∃ call, deed = .call call
  · obtain ⟨call, rfl⟩ := h
    exact (x.1.serve_served call x.2).stays hp ht
  · rw [get?_play fun call hc => h ⟨call, hc⟩, hp, Option.map_some]

/-- An entry was there before the deed, or a call has just filed it. -/
theorem Deed.get?_back {deed : Deed σ} (hq : (deed.play x).1.desk.pending.get? key = some q) :
    (∃ p, x.1.desk.pending.get? key = some p ∧ q = deed.onEntry key p) ∨
      q.number = x.1.desk.counters.pendingCreated ∧ q.cell.phase = .unresolved := by
  by_cases h : ∃ call, deed = .call call
  · obtain ⟨call, rfl⟩ := h
    cases x.1.serve_served call x.2 with
    | cleared h => exact .inl ⟨q, h.back hq, rfl⟩
    | filed k₁ later h hn hk =>
      rw [Deed.play, hk, Desk.count_pending, Desk.file_pending, Table.get?_insert] at hq
      split at hq
      · cases hq
        exact .inr ⟨h.created, rfl⟩
      · exact .inl ⟨q, h.back hq, rfl⟩
  · rw [get?_play fun call hc => h ⟨call, hc⟩] at hq
    obtain ⟨p, hp, rfl⟩ := Option.map_eq_some_iff.1 hq
    exact .inl ⟨p, hp, rfl⟩

end Engine

end

/-! ## Runs -/

namespace Engine.Run

variable {σ : Type} [Journal σ] {r : Run σ} {m n k : Nat} {key : CallKey} {p : Pending}
  {last : Deferred}

theorem filed_open (h : r.filed? n key = some p) : p.Open := by
  refine replay_induction
    (P := fun x : Engine σ × σ => ∀ key p, x.1.desk.pending.get? key = some p → p.Open)
    (fun _ _ h => by cases h) (fun x deed hx key q hq => ?_) n key p h
  rcases deed.get?_back hq with ⟨p, hp, rfl⟩ | ⟨-, hq⟩
  · exact (hx key p hp).next (deed.onEntry_next key p)
  · exact fun _ => hq

/-- An entry whose answer will never be there stays. -/
theorem lost_stays (hp : r.filed? m key = some p) (hl : p.Waits .lost) (hmn : m ≤ n) :
    ∃ q, r.filed? n key = some q ∧ q.Waits .lost ∧ q.number = p.number := by
  refine r.follows.keeps (P := fun x => ∃ q, x.1.desk.pending.get? key = some q ∧ q.Waits .lost ∧
    q.number = p.number) hmn ⟨p, hp, hl, rfl⟩ ?_
  rintro k deed - - - ⟨q, hq, hql, hn⟩
  have hnext := deed.onEntry_next key q
  exact ⟨_, deed.get?_play_of_take hq hql.take, hql.next_lost hnext, hnext.number.trans hn⟩

/-- In deed `m` what produces the deferred answer with the number `k`, filed under `key`, has its
last turn: it has left the answer of `last`, or died. -/
structure Ends (r : Run σ) (m : Nat) (key : CallKey) (k : Nat) (last : Deferred) : Prop where
  turn : ∃ keys, r.deeds[m]? = some (.arrive keys) ∧ key ∈ keys
  filed : ∃ p, r.filed? m key = some p ∧ p.number = k ∧ p.producer = some last
  atEnd : ∀ t, last ≠ .awaiting t

/-- Call `n` is the first one after deed `m` that asks for a bound callback on the key. -/
def FirstAfter (r : Run σ) (m : Nat) (key : CallKey) (n : Nat) : Prop :=
  m < n ∧ ∀ j call d c, m < j → j < n → r.Asks j call d c → call.key ≠ key

/-- What is resolved is taken by the first call for a bound callback on its key. -/
theorem uses_of_resolved (hp : r.filed? (m + 1) key = some p) (hs : p.cell.state = .resolved)
    {call : Call} {d : Descriptor σ} {c : Callback σ} (hfirst : r.FirstAfter m key n)
    (h : r.Asks n call d c) (hkey : call.key = key) : ∃ a, r.Uses n p.number a := by
  obtain ⟨hmn, hfirst⟩ := hfirst
  have hlt : p.number < r.created (m + 1) := number_lt hp
  -- who used it before would have asked on the same key
  have hu : ∀ j b, m + 1 ≤ j → j < n → ¬ r.Uses j p.number b := by
    intro j b hj hjn hu
    obtain ⟨call', d', c', q, ha, hq, hk, -⟩ := hu
    have hb : r.Holds (m + 1) call'.key p.number := Holds.back ⟨q, hq, hk⟩ hj hlt
    exact hfirst j call' d' c' hj hjn ha (hb.key_eq ⟨p, hp, rfl⟩)
  obtain ⟨q, hq, hpq⟩ := stays hp hmn hu
  obtain ⟨a, ht⟩ := ((r.sound n).live key q hq).take_eq_some (hpq.resolved hs)
  exact ⟨a, call, d, c, q, h, by rw [hkey]; exact hq, hpq.number, ht⟩

theorem Ends.turned (h : r.Ends m key k last) : ∃ p, r.filed? m key = some p ∧ p.number = k ∧
    p.producer = some last ∧ r.filed? (m + 1) key = some p.turned := by
  obtain ⟨keys, hm, hk⟩ := h.turn
  obtain ⟨p, hp, hn, hl⟩ := h.filed
  refine ⟨p, hp, hn, hl, ?_⟩
  have ha := (r.before m).1.desk.get?_advance keys (r.before m).2 key
  rw [show (r.before m).1.desk.pending.get? key = some p from hp, Option.map_some, if_pos hk] at ha
  rw [filed?, engine, r.follows.succ hm]
  exact ha

theorem stateOf?_eq (r : Run σ) (n : Nat) (key : CallKey) :
    (r.engine n).stateOf? key = (r.filed? n key).map fun p => p.cell.state := rfl

/-- **A deferred answer arrives unless what produces it dies.** When that has ended with an answer,
of whatever kind, the entry is resolved and the first call afterwards for a bound callback on its
key takes the answer. When it died, the entry is never resolved: it stays for good, and every call
for a bound callback on its key is answered with `accepted` and calls nothing. -/
theorem arrives_unless_lost (r : Run σ) {m k : Nat} {key : CallKey} {last : Deferred}
    (h : r.Ends m key k last) :
    ((r.engine (m + 1)).stateOf? key = some .resolved ↔ last ≠ .lost) ∧
    (last ≠ .lost → ∀ n call d c, r.FirstAfter m key n → r.Asks n call d c → call.key = key →
      ∃ a, r.Uses n k a) ∧
    (last = .lost → ∀ n, m ≤ n → r.Holds n key k ∧
      (r.engine n).stateOf? key = some .unresolved ∧
      ∀ call d c, r.Asks n call d c → call.key = key →
        r.reply n call = .answered .accepted ∧ r.invocations n call = []) := by
  obtain ⟨p, hp, rfl, hl, ht⟩ := h.turned
  have hopen : p.Open := filed_open hp
  cases last with
  | awaiting t => exact absurd rfl (h.atEnd t)
  | ready a =>
    have hs : p.turned.cell.state = .resolved := (hopen.waits hl).turned_ready.state
    have hn : p.turned.number = p.number := Pending.Next.turned.number
    refine ⟨?_, fun _ n call d c hfirst ha hkey => ?_, fun hlost => by cases hlost⟩
    · simp [stateOf?_eq, ht, hs]
    · rw [← hn]
      exact uses_of_resolved ht hs hfirst ha hkey
  | lost =>
    have hw : p.Waits .lost := hopen.waits hl
    refine ⟨?_, fun hne => absurd rfl hne, fun _ n hmn => ?_⟩
    · simp [stateOf?_eq, ht, (hw.next_lost .turned).state]
    · obtain ⟨q, hq, hqw, hn⟩ := lost_stays hp hw hmn
      refine ⟨⟨q, hq, hn⟩, by simp [stateOf?_eq, hq, hqw.state], fun call d c ha hkey => ?_⟩
      rw [← hkey] at hq
      have hserve := serve_outstanding ha.asks hq hqw.take (s := (r.before n).2)
      exact ⟨hserve.1, hserve.2.1⟩

/-! ## An answer that never arrives -/

/-- A participant is asked to complete, what was to produce its answer breaks down, and it is asked
again. -/
def doomedRun : Run (List Event) :=
  ⟨Registry.empty.put (payments .unit .lost), [], [.call paymentsCall,
    .arrive [paymentsCall.key], .call paymentsCall]⟩

theorem doomedRun_ends : doomedRun.Ends 1 paymentsCall.key 0 .lost where
  turn := ⟨[paymentsCall.key], rfl, List.mem_singleton.2 rfl⟩
  filed := ⟨⟨0, .ofOperation .complete, some .lost⟩, by decide +kernel, rfl, rfl⟩
  atEnd := fun t h => by cases h

/-- It is answered that work goes on, though nothing is at work. -/
theorem doomedRun_never_arrives :
    doomedRun.Ends 1 paymentsCall.key 0 .lost ∧
    (doomedRun.engine 2).stateOf? paymentsCall.key ≠ some .resolved ∧
    doomedRun.reply 2 paymentsCall = .answered .accepted ∧
    doomedRun.invocations 2 paymentsCall = [] := by
  obtain ⟨hs, -, hl⟩ := arrives_unless_lost doomedRun doomedRun_ends
  have ha : doomedRun.Asks 2 paymentsCall (payments .unit .lost)
      (.steady (.deferred .unit) (.deferred .lost)) := ⟨rfl, rfl, rfl⟩
  obtain ⟨-, -, hreply⟩ := hl rfl 2 (by omega)
  exact ⟨doomedRun_ends, fun h => hs.1 h rfl, hreply paymentsCall _ _ ha rfl⟩

end Engine.Run

end Saga
