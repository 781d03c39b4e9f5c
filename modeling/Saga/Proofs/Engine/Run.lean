import Saga.Proofs.Engine.Watched
import Saga.Proofs.Replay

/-!
# Runs of an engine

A run is a list of deeds done to a new engine: calls, registrations, uses of completion handles,
turns of the producers of deferred answers, and whatever else happens to the state the callbacks
act on. `Run.before r n` is the engine with that state before deed `n`.

A deed does one of two things to the desk. It `Carries` every entry on: nothing comes or goes, and
a cell that is resolved stays so. Or it is a call for a bound callback that finds no entry under
its key, or takes the answer out of it; then the desk is `Refiled` under that key
(`play_carries_or_refiled`). Either way the desk stays `Sound` (`Run.sound`).
-/

set_option autoImplicit false

namespace Saga

/-! ## Cells -/

namespace PendingCell

/-- The cell waits for its answer or holds it; nobody has taken it. -/
def Live (p : PendingCell) : Prop :=
  p.phase = .unresolved ∨ p.phase = .resolved ∧ p.value.isSome

theorem live_ofOperation (op : Operation) : (ofOperation op).Live := .inl rfl

theorem Live.fulfil {p : PendingCell} (h : p.Live) (t : Ticket) (a : Answer) :
    (p.fulfil t a).Live :=
  h.imp id fun ⟨hp, hv⟩ => ⟨hp, by simpa [PendingCell.fulfil] using hv⟩

theorem Live.resolve {p : PendingCell} (h : p.Live) (a : Answer) : (p.resolve a).2.Live := by
  rcases h with h | ⟨h, hv⟩
  · exact .inr (by simp [PendingCell.resolve, claim?, h, store, publish])
  · exact .inr (by simp [PendingCell.resolve, claim?, h, hv])

theorem resolve_operation (p : PendingCell) (a : Answer) :
    (p.resolve a).2.operation = p.operation := by
  by_cases h : p.phase = .unresolved
  · simp [resolve, claim?, h, store, publish]
  · simp [resolve, claim?, h]

theorem state_resolve {p : PendingCell} (a : Answer) (h : p.state = .resolved) :
    (p.resolve a).2.state = .resolved := by
  unfold state at h ⊢
  split at h <;> simp_all [resolve, claim?]

theorem take_eq_none {p : PendingCell} (h : p.state ≠ .resolved) : p.take.1 = none := by
  cases hp : p.phase <;> simp_all [take, handOver?, state]

theorem Live.take_eq_some {p : PendingCell} (h : p.Live) (hs : p.state = .resolved) :
    ∃ a, p.take.1 = some a := by
  rcases h with h | ⟨h, hv⟩
  · simp [state, h] at hs
  · obtain ⟨a, ha⟩ := Option.isSome_iff_exists.1 hv
    exact ⟨a, by simp [take, handOver?, h, collect, ha]⟩

theorem take_resolved {p : PendingCell} {a : Answer} (hr : p.phase = .resolved)
    (hv : p.value = some a) : p.take.1 = some a := by
  simp [take, handOver?, hr, collect, hv]

end PendingCell

/-! ## What happens to an entry while nobody takes its answer -/

/-- `q` is what the entry `p` is some time later. -/
structure Pending.Later (p q : Pending) : Prop where
  number : q.number = p.number
  operation : q.cell.operation = p.cell.operation
  live : p.cell.Live → q.cell.Live
  resolved : p.cell.state = .resolved → q.cell.state = .resolved

namespace Pending.Later

theorem refl (p : Pending) : Later p p := ⟨rfl, rfl, id, id⟩

theorem trans {p q r : Pending} (h₁ : Later p q) (h₂ : Later q r) : Later p r :=
  ⟨h₂.number.trans h₁.number, h₂.operation.trans h₁.operation, h₂.live ∘ h₁.live,
    h₂.resolved ∘ h₁.resolved⟩

end Pending.Later

theorem Pending.later_advance {σ : Type} [Journal σ] (key : CallKey) (p : Pending) (s : σ) :
    p.Later (p.advance key s).1 := by
  unfold advance
  split
  · rename_i a _
    have hc : p.Later { p with cell := (p.cell.resolve a).2, producer := none } :=
      ⟨rfl, p.cell.resolve_operation a, fun h => h.resolve a, p.cell.state_resolve a⟩
    split <;> rename_i hr <;> rw [hr] at hc <;> exact hc
  · exact ⟨rfl, rfl, id, id⟩
  · exact .refl p
  · exact .refl p

/-! ## The desk -/

namespace Desk

/-- Every entry is on `k'` as it was on `k`, some time later, and there are no others. -/
structure Carries (k k' : Desk) : Prop where
  created : k'.counters.pendingCreated = k.counters.pendingCreated
  keeps : ∀ key p, k.pending.get? key = some p → ∃ q, k'.pending.get? key = some q ∧ p.Later q
  adds : ∀ key, k.pending.get? key = none → k'.pending.get? key = none

namespace Carries

variable {k k' k'' : Desk}

theorem of_pending (h : k'.pending = k.pending)
    (hc : k'.counters.pendingCreated = k.counters.pendingCreated) : Carries k k' :=
  ⟨hc, fun key p hp => ⟨p, by rw [h, hp], .refl p⟩, fun key hk => by rw [h, hk]⟩

theorem refl (k : Desk) : Carries k k := of_pending rfl rfl

theorem trans (h₁ : Carries k k') (h₂ : Carries k' k'') : Carries k k'' := by
  refine ⟨h₂.created.trans h₁.created, fun key p hp => ?_,
    fun key hk => h₂.adds key (h₁.adds key hk)⟩
  obtain ⟨q, hq, hpq⟩ := h₁.keeps key p hp
  obtain ⟨r, hr, hqr⟩ := h₂.keeps key q hq
  exact ⟨r, hr, hpq.trans hqr⟩

/-- An entry of the later desk was there before. -/
theorem back (h : Carries k k') {key : CallKey} {q : Pending} (hq : k'.pending.get? key = some q) :
    ∃ p, k.pending.get? key = some p ∧ p.Later q := by
  cases hp : k.pending.get? key with
  | none => rw [h.adds key hp] at hq; cases hq
  | some p =>
    obtain ⟨q', hq', hpq⟩ := h.keeps key p hp
    rw [hq, Option.some.injEq] at hq'
    exact ⟨p, rfl, hq' ▸ hpq⟩

end Carries

/-- `k'` is `k` with the entry of `key` gone, or with a new one there for `op`. -/
structure Refiled (k k' : Desk) (key : CallKey) (op : Operation) : Prop where
  others : ∀ key', key' ≠ key → k'.pending.get? key' = k.pending.get? key'
  own : k'.pending.get? key = none ∧ k'.counters.pendingCreated = k.counters.pendingCreated ∨
    ∃ later, k'.pending.get? key =
        some ⟨k.counters.pendingCreated, .ofOperation op, some later⟩ ∧
      k'.counters.pendingCreated = k.counters.pendingCreated + 1

/-- An entry of the refiled desk was there before under another key, or is the new one. -/
theorem Refiled.back {k k' : Desk} {key : CallKey} {op : Operation} (h : Refiled k k' key op)
    {key' : CallKey} {q : Pending} (hq : k'.pending.get? key' = some q) :
    key' ≠ key ∧ k.pending.get? key' = some q ∧
        k.counters.pendingCreated ≤ k'.counters.pendingCreated ∨
      key' = key ∧ q.cell.Live ∧ q.number = k.counters.pendingCreated ∧
        k'.counters.pendingCreated = k.counters.pendingCreated + 1 := by
  by_cases hk : key' = key
  · subst hk
    rcases h.own with ⟨hn, -⟩ | ⟨later, hs, hc⟩
    · rw [hn] at hq; cases hq
    · rw [hs, Option.some.injEq] at hq
      subst hq
      exact .inr ⟨rfl, PendingCell.live_ofOperation op, rfl, hc⟩
  · refine .inl ⟨hk, by rw [← h.others key' hk, hq], ?_⟩
    rcases h.own with ⟨-, hc⟩ | ⟨_, -, hc⟩ <;> omega

/-- Each entry has a number of its own, below the number of entries made so far, and a cell whose
answer nobody has taken. -/
structure Sound (k : Desk) : Prop where
  number_lt : ∀ key p, k.pending.get? key = some p → p.number < k.counters.pendingCreated
  number_inj : ∀ key key' p p', k.pending.get? key = some p → k.pending.get? key' = some p' →
    p.number = p'.number → key = key'
  live : ∀ key p, k.pending.get? key = some p → p.cell.Live

namespace Sound

variable {k k' : Desk}

theorem empty : Sound .empty where
  number_lt _ _ h := by cases h
  number_inj _ _ _ _ h := by cases h
  live _ _ h := by cases h

theorem carries (hk : Sound k) (h : Carries k k') : Sound k' where
  number_lt key q hq := by
    obtain ⟨p, hp, hpq⟩ := h.back hq
    rw [hpq.number, h.created]
    exact hk.number_lt key p hp
  number_inj key key' q q' hq hq' hn := by
    obtain ⟨p, hp, hpq⟩ := h.back hq
    obtain ⟨p', hp', hpq'⟩ := h.back hq'
    exact hk.number_inj key key' p p' hp hp' (by rw [← hpq.number, ← hpq'.number, hn])
  live key q hq := by
    obtain ⟨p, hp, hpq⟩ := h.back hq
    exact hpq.live (hk.live key p hp)

theorem refiled (hk : Sound k) {key : CallKey} {op : Operation} (h : Refiled k k' key op) :
    Sound k' where
  number_lt key' q hq := by
    obtain ⟨hne, hq, hc⟩ | ⟨-, -, hn, hc⟩ := h.back hq
    · have := hk.number_lt key' q hq
      omega
    · omega
  number_inj key₁ key₂ q₁ q₂ h₁ h₂ hn := by
    obtain ⟨-, h₁, -⟩ | ⟨rfl, -, hn₁, -⟩ := h.back h₁ <;>
      obtain ⟨-, h₂, -⟩ | ⟨rfl, -, hn₂, -⟩ := h.back h₂
    · exact hk.number_inj key₁ key₂ q₁ q₂ h₁ h₂ hn
    · have := hk.number_lt key₁ q₁ h₁
      omega
    · have := hk.number_lt key₂ q₂ h₂
      omega
    · rfl
  live key' q hq := by
    obtain ⟨-, hq, -⟩ | ⟨-, hl, -, -⟩ := h.back hq
    · exact hk.live key' q hq
    · exact hl

end Sound

end Desk

/-! ## Calls for a bound callback -/

namespace Engine

variable {σ : Type} [Journal σ] {e : Engine σ} {call : Call} {s : σ} {d : Descriptor σ}
  {c : Callback σ} {p : Pending}

/-- The call asks for the bound callback `c` of the participant `d`. -/
structure Asks (e : Engine σ) (call : Call) (d : Descriptor σ) (c : Callback σ) : Prop where
  known : e.registry.lookup call.owner = .ok d
  bound : d.callback? call.operation = some c

/-- The call calls the callback `c` of `d` once, with the arguments it declares, and is answered
from the outcome. -/
def CallsOnce (e : Engine σ) (call : Call) (s : σ) (d : Descriptor σ) (c : Callback σ) : Prop :=
  ∃ o, e.invocations call s =
      [⟨d.owner, call.operation, c, .ofArity c.signature.arity call.id call.parent, o⟩] ∧
    (e.serve call s).1 = c.outcomeReply d.owner call.operation o

/-- Calling a callback refiles a desk, up to counts, whose key is free. -/
theorem refiled_invoke {k k' : Desk} (hn : k'.pending.get? call.key = none)
    (ho : ∀ key, key ≠ call.key → k'.pending.get? key = k.pending.get? key)
    (hc : k'.counters.pendingCreated = k.counters.pendingCreated) :
    k.Refiled (k'.invoke d c call s).2.1 call.key call.operation := by
  constructor
  · intro key hne
    rw [Desk.invoke_pending, ← ho key hne]
    split
    · rw [Table.get?_insert, if_neg (Ne.symm hne)]
    · rfl
  · rw [Desk.invoke_pending, Desk.invoke_pendingCreated]
    cases c.deferral? (Desk.outcome d c call s) with
    | none => exact .inl ⟨hn, hc⟩
    | some later => exact .inr ⟨later, by simp [Table.get?_insert, hc], by simp [hc]⟩

variable (h : e.Asks call d c)
include h

theorem callsOnce_of_none (hn : e.desk.pending.get? call.key = none) :
    e.CallsOnce call s d c := by
  refine ⟨Desk.outcome d c call s, ?_, ?_⟩
  · rw [invocations_bound h.known h.bound, Desk.called, hn]
    rfl
  · rw [serve_bound h.known h.bound, Desk.serve_none _ _ _ _ _ hn, Desk.invoke_reply]

theorem refiled_of_none (hn : e.desk.pending.get? call.key = none) :
    e.desk.Refiled (e.serve call s).2.1.desk call.key call.operation := by
  rw [serve_bound h.known h.bound, Desk.serve_none _ _ _ _ _ hn]
  exact refiled_invoke hn (fun _ _ => rfl) rfl

theorem serve_outstanding (hp : e.desk.pending.get? call.key = some p)
    (ht : p.cell.take.1 = none) :
    (e.serve call s).1 = .answered .accepted ∧ e.invocations call s = [] ∧
      e.desk.Carries (e.serve call s).2.1.desk := by
  rw [invocations_bound h.known h.bound, serve_bound h.known h.bound,
    Desk.serve_outstanding _ _ _ _ _ hp ht]
  exact ⟨rfl, by simp [Desk.called, hp, ht], .of_pending rfl rfl⟩

theorem serve_arrived {a : Answer} (hp : e.desk.pending.get? call.key = some p)
    (ht : p.cell.take.1 = some a) (ha : a.inProgress = false) :
    (e.serve call s).1 = d.arrivedReply p.cell.operation a ∧ e.invocations call s = [] := by
  rw [invocations_bound h.known h.bound, serve_bound h.known h.bound,
    Desk.serve_arrived _ _ _ _ _ hp ht ha]
  exact ⟨Desk.normalizeArrived_reply .., by simp [Desk.called, hp, ht, ha]⟩

theorem callsOnce_of_inProgress {a : Answer} (hp : e.desk.pending.get? call.key = some p)
    (ht : p.cell.take.1 = some a) (ha : a.inProgress = true) : e.CallsOnce call s d c := by
  refine ⟨Desk.outcome d c call (Journal.note (.resultInProgress d.owner call.id) s), ?_, ?_⟩
  · simp only [invocations_bound h.known h.bound, Desk.called, hp, ht, ha, if_true]
    rfl
  · rw [serve_bound h.known h.bound, Desk.serve_inProgress _ _ _ _ _ hp ht ha, Desk.invoke_reply]

/-- What is filed after the one callback called answered with a deferred answer. -/
theorem filed_of_deferral {inv : Invocation σ} {later : Deferred}
    (hi : e.invocations call s = [inv]) (hl : c.deferral? inv.outcome = some later) :
    (e.serve call s).2.1.desk.pending.get? call.key =
      some ⟨e.desk.counters.pendingCreated, .ofOperation call.operation, some later⟩ := by
  rw [invocations_bound h.known h.bound] at hi
  rw [serve_bound h.known h.bound]
  cases hp : e.desk.pending.get? call.key with
  | none =>
    obtain rfl : Desk.invocation d c call s = inv := by simpa [Desk.called, hp] using hi
    rw [Desk.invocation_outcome] at hl
    rw [Desk.serve_none _ _ _ _ _ hp, Desk.invoke_pending, hl]
    simp [Table.get?_insert]
  | some p =>
    cases ht : p.cell.take.1 with
    | none => simp [Desk.called, hp, ht] at hi
    | some a =>
      cases ha : a.inProgress with
      | false => simp [Desk.called, hp, ht, ha] at hi
      | true =>
        obtain rfl : Desk.invocation d c call
            (Journal.note (.resultInProgress d.owner call.id) s) = inv := by
          simpa [Desk.called, hp, ht, ha] using hi
        rw [Desk.invocation_outcome] at hl
        rw [Desk.serve_inProgress _ _ _ _ _ hp ht ha, Desk.invoke_pending, hl]
        simp [Table.get?_insert, Counters.consumed, Counters.inconsistent]

theorem refiled_of_take {a : Answer} (hp : e.desk.pending.get? call.key = some p)
    (ht : p.cell.take.1 = some a) :
    e.desk.Refiled (e.serve call s).2.1.desk call.key call.operation := by
  rw [serve_bound h.known h.bound]
  cases ha : a.inProgress with
  | true =>
    rw [Desk.serve_inProgress _ _ _ _ _ hp ht ha]
    refine refiled_invoke ?_ (fun key hne => ?_) rfl
    · simp [Table.get?_erase]
    · simp [Table.get?_erase, Ne.symm hne]
  | false =>
    rw [Desk.serve_arrived _ _ _ _ _ hp ht ha]
    refine ⟨fun key hne => ?_, .inl ⟨?_, ?_⟩⟩
    · simp [Desk.normalizeArrived_pending, Table.get?_erase, Ne.symm hne]
    · simp [Desk.normalizeArrived_pending, Table.get?_erase]
    · simp [Desk.normalizeArrived_pendingCreated, Counters.consumed]

end Engine

/-! ## Deeds -/

/-- Something that happens to an engine. -/
inductive Engine.Deed (σ : Type) where
  | call (call : Call)
  | register (d : Descriptor σ)
  /-- A completion handle is used, or dropped unused, and an answer is there in its place. -/
  | fulfil (t : Ticket) (a : Answer)
  /-- The producers of the deferred answers under the keys get their turn. -/
  | arrive (keys : List CallKey)
  /-- The state that callbacks act on changes. -/
  | elsewhere (f : σ → σ)

variable {σ : Type} [Journal σ]

/-- What a deed makes of an engine and the state its callbacks act on. -/
def Engine.Deed.play : Engine.Deed σ → Engine σ × σ → Engine σ × σ
  | .call c, x => (x.1.serve c x.2).2
  | .register d, x => (x.1.register d x.2).2
  | .fulfil t a, x => (x.1.fulfil t a, x.2)
  | .arrive keys, x =>
    let (desk, s) := x.1.desk.advance keys x.2
    ({ x.1 with desk := desk }, s)
  | .elsewhere f, x => (x.1, f x.2)

theorem Desk.carries_insert {k : Desk} {key : CallKey} {p q : Pending}
    (hp : k.pending.get? key = some p) (hq : p.Later q) :
    k.Carries { k with pending := k.pending.insert key q } := by
  refine ⟨rfl, fun key' p' hp' => ?_, fun key' hn => ?_⟩
  · by_cases hk : key = key'
    · subst hk
      rw [hp, Option.some.injEq] at hp'
      exact ⟨q, by simp [Table.get?_insert], hp' ▸ hq⟩
    · exact ⟨p', by simp [Table.get?_insert, hk, hp'], .refl p'⟩
  · have hk : key ≠ key' := fun he => by rw [← he, hp] at hn; cases hn
    simp [Table.get?_insert, hk, hn]

theorem Desk.carries_advance (keys : List CallKey) (k : Desk) (s : σ) :
    k.Carries (k.advance keys s).1 := by
  induction keys generalizing k s with
  | nil => exact .refl k
  | cons key keys ih =>
    cases hp : k.pending.get? key with
    | none =>
      simp only [advance, hp]
      exact ih k s
    | some p =>
      simp only [advance, hp]
      exact (carries_insert hp (p.later_advance key s)).trans (ih ..)

omit [Journal σ] in
theorem Desk.carries_fulfil (e : Engine σ) (t : Ticket) (a : Answer) :
    e.desk.Carries (e.fulfil t a).desk := by
  refine ⟨rfl, fun key p hp => ?_, fun key hn => ?_⟩
  · refine ⟨{ p with
      cell := p.cell.fulfil t a, producer := p.producer.map (Deferred.fulfil t a) }, ?_, ?_⟩
    · simp [Engine.fulfil, Table.get?_mapValues, hp]
    · exact ⟨rfl, rfl, fun h => h.fulfil t a, id⟩
  · simp [Engine.fulfil, Table.get?_mapValues, hn]

/-- A deed carries every entry on, or it is a call that finds none or takes its answer. -/
theorem Engine.Deed.play_carries_or_refiled (deed : Engine.Deed σ) (x : Engine σ × σ) :
    x.1.desk.Carries (deed.play x).1.desk ∨
      ∃ call d c, deed = .call call ∧ x.1.Asks call d c ∧
        (∀ p, x.1.desk.pending.get? call.key = some p → ∃ a, p.cell.take.1 = some a) ∧
        x.1.desk.Refiled (deed.play x).1.desk call.key call.operation := by
  cases deed with
  | register d => exact .inl (.of_pending rfl rfl)
  | fulfil t a => exact .inl (Desk.carries_fulfil x.1 t a)
  | arrive keys => exact .inl (x.1.desk.carries_advance keys x.2)
  | elsewhere f => exact .inl (.refl _)
  | call call =>
    cases h : x.1.registry.lookup call.owner with
    | error error => exact .inl (by rw [play, Engine.serve_unknown h]; exact .refl _)
    | ok d =>
      cases hc : d.callback? call.operation with
      | none => exact .inl (by rw [play, Engine.serve_unbound h hc]; exact .of_pending rfl rfl)
      | some c =>
        cases hp : x.1.desk.pending.get? call.key with
        | none =>
          exact .inr ⟨call, d, c, rfl, ⟨h, hc⟩, fun p h => by (rw [hp] at h; cases h),
            Engine.refiled_of_none ⟨h, hc⟩ hp⟩
        | some p =>
          cases ht : p.cell.take.1 with
          | none => exact .inl (Engine.serve_outstanding ⟨h, hc⟩ hp ht).2.2
          | some a =>
            refine .inr ⟨call, d, c, rfl, ⟨h, hc⟩, fun q hq => ?_,
              Engine.refiled_of_take ⟨h, hc⟩ hp ht⟩
            rw [hp, Option.some.injEq] at hq
            exact ⟨a, hq ▸ ht⟩

/-! ## Runs -/

/-- Deeds done one after the other to a new engine. -/
structure Engine.Run (σ : Type) where
  registry : Registry σ
  state : σ
  deeds : List (Deed σ)

namespace Engine.Run

/-- The engine, with the state its callbacks act on, before deed `n`. -/
def before (r : Run σ) (n : Nat) : Engine σ × σ :=
  replay (fun x deed => deed.play x) (.ofRegistry r.registry, r.state) r.deeds n

/-- The engine before deed `n`. -/
def engine (r : Run σ) (n : Nat) : Engine σ := (r.before n).1

theorem follows (r : Run σ) : Follows (fun x deed => deed.play x) r.deeds r.before := follows_replay

theorem carries_or_refiled (r : Run σ) (n : Nat) :
    (r.engine n).desk.Carries (r.engine (n + 1)).desk ∨
      ∃ call d c, r.deeds[n]? = some (.call call) ∧ (r.engine n).Asks call d c ∧
        (∀ p, (r.engine n).desk.pending.get? call.key = some p → ∃ a, p.cell.take.1 = some a) ∧
        (r.engine n).desk.Refiled (r.engine (n + 1)).desk call.key call.operation := by
  unfold engine
  cases h : r.deeds[n]? with
  | none =>
    rw [r.follows.of_none h]
    exact .inl (.refl _)
  | some deed =>
    rw [r.follows.succ h]
    rcases deed.play_carries_or_refiled (r.before n) with hc | ⟨call, d, c, rfl, hr⟩
    · exact .inl hc
    · exact .inr ⟨call, d, c, rfl, hr⟩

theorem sound (r : Run σ) (n : Nat) : (r.engine n).desk.Sound := by
  refine replay_induction (P := fun x : Engine σ × σ => x.1.desk.Sound) .empty
    (fun x deed hx => ?_) n
  rcases deed.play_carries_or_refiled x with h | ⟨_, _, _, -, -, -, h⟩
  · exact hx.carries h
  · exact hx.refiled h

end Engine.Run

end Saga
