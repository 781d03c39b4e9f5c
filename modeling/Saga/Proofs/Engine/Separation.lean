import Mathlib.Data.List.Flatten
import Saga.Proofs.Engine.Aspect
import Saga.Proofs.Participants

/-!
# Participants do not interfere

`Run.only r owner n` is what is left of the first `n` deeds of a run when every deed that concerns
others than `owner` is left out. If the callbacks of `owner` go by a part of the state that nobody
else changes (`Run.Separate`), then the calls of `owner` go in both runs in the same way and its
entries are in the same states (`Run.same_alone`). Handles have other numbers there, because fewer
are handed out; a handle is known by its place among those handed out to `owner`.
-/

set_option autoImplicit false

namespace Saga

variable {σ α : Type} [Journal σ] {owner : String} {ts ts' : List Ticket} {view : σ → α}

/-! ## What a participant sees of a run -/

namespace Serving

/-- The call, its reply, and the callbacks called with their arguments. -/
def seen (s : Serving σ) : Call × Reply × List (Operation × Arguments) :=
  (s.call, s.reply, s.invocations.map Invocation.seen)

/-- The handles that the callbacks called handed out. -/
def handles (s : Serving σ) : List Ticket := s.invocations.flatMap Invocation.handles

end Serving

namespace Engine

/-- What is left of a deed when what concerns others than `owner` is left out. What was the handle
of some place in `ts` is the handle of that place in `ts'`. -/
def Deed.of (owner : String) (ts ts' : List Ticket) : Deed σ → Option (Deed σ)
  | .call c => if c.owner = owner then some (.call c) else none
  | .register d => if d.owner = owner then some (.register d) else none
  | .fulfil t a => if t ∈ ts then (ts'[ts.idxOf t]?).map fun t' => .fulfil t' a else none
  | .arrive keys => some (.arrive (keys.filter fun key => key.owner = owner))
  | .elsewhere _ => none

/-- What there is to see of a deed, if it is a call of `owner`. -/
def Deed.servings (owner : String) (deed : Deed σ) (x : Engine σ × σ) : List (Serving σ) :=
  (deed.serving? x).toList.filter fun s => s.call.owner = owner

theorem Deed.servings_call (call : Call) (x : Engine σ × σ) :
    (Deed.call call).servings call.owner x = [x.1.serving call x.2] := by
  simp [servings, serving?, serving]

/-! ## Beside each other -/

/-- `owner` can not tell the engine and the state of `x` from those of `x'`, for the handles that
were handed out with each. -/
structure Beside (owner : String) (view : σ → α) (ts ts' : List Ticket) (x x' : Engine σ × σ) :
    Prop where
  look : x.1.registry.lookup owner = x'.1.registry.lookup owner
  facing : x.1.desk.Facing owner ts ts' x'.1.desk
  view : view x.2 = view x'.2
  length : ts.length = ts'.length
  awaits : x.1.desk.Awaits owner ts
  awaits' : x'.1.desk.Awaits owner ts'

/-! ## One deed -/

variable {e : Engine σ} {x x' : Engine σ × σ} {call : Call} {deed deed' : Deed σ}

/-- An entry was there before the call, or is what the callback called has deferred. -/
theorem get?_serve {s : σ} {key : CallKey} {q : Pending}
    (hq : (e.serve call s).2.1.desk.pending.get? key = some q) :
    e.desk.pending.get? key = some q ∨ key = call.key ∧ ∃ inv later,
      e.invocations call s = [inv] ∧ q.producer = some later ∧
        inv.outcome.handle? = later.handle? := by
  cases e.way call s with
  | unknown error look serve none =>
    rw [serve] at hq
    exact .inl hq
  | unbound d look serve none =>
    rw [serve] at hq
    exact .inl hq
  | outstanding d c p asks filed waits serve none =>
    rw [serve] at hq
    exact .inl hq
  | arrived d c p a asks filed takes final serve none =>
    rw [serve, closing, Desk.normalizeArrived_pending, Desk.count_pending, Desk.remove_pending,
      Table.get?_erase] at hq
    split at hq
    · cases hq
    · exact .inl hq
  | called d c k s' asks freed serve one =>
    have hk : k.pending.get? key = some q → e.desk.pending.get? key = some q := by
      intro hk
      cases freed with
      | free _ => exact hk
      | taken p a _ _ _ =>
        rw [Desk.count_pending, Desk.count_pending, Desk.remove_pending, Table.get?_erase] at hk
        split at hk
        · cases hk
        · exact hk
    rw [serve, closing, Desk.invoke_pending] at hq
    cases hl : c.deferral? (Desk.outcome d c call s') with
    | none =>
      rw [hl] at hq
      exact .inl (hk hq)
    | some later =>
      rw [hl] at hq
      dsimp only at hq
      rw [Table.get?_insert] at hq
      split at hq
      · rename_i hkey
        cases hq
        exact .inr ⟨hkey.symm, _, later, one, rfl, Callback.handle?_of_deferral hl⟩
      · exact .inl (hk hq)

/-- An entry waits only for handles that were handed out. -/
theorem Deed.awaits_play (h : x.1.desk.Awaits owner ts) (deed : Deed σ) :
    (deed.play x).1.desk.Awaits owner
      (ts ++ (deed.servings owner x).flatMap Serving.handles) := by
  intro id p t hp ht
  cases deed with
  | call call =>
    rcases get?_serve hp with hp | ⟨hkey, inv, later, hi, hl, hh⟩
    · exact List.mem_append_left _ (h id p t hp ht)
    · have howner : call.owner = owner := congrArg CallKey.owner hkey.symm
      have hlater : later = .awaiting t := by
        rw [Pending.Awaits, hl, Option.some.injEq] at ht
        exact ht
      refine List.mem_append_right _ ?_
      simp [servings, serving?, serving, howner, Serving.handles, hi, Invocation.handles, hh,
        hlater, Deferred.handle?]
  | register d => exact List.mem_append_left _ (h id p t hp ht)
  | fulfil u a =>
    rw [play, get?_fulfil] at hp
    obtain ⟨q, hq, rfl⟩ := Option.map_eq_some_iff.1 hp
    exact List.mem_append_left _ (h id q t hq (Pending.Next.fulfilled u a |>.awaits ht))
  | arrive keys =>
    have hadv := x.1.desk.get?_advance keys x.2 ⟨owner, id⟩
    obtain ⟨q, hq, rfl⟩ := Option.map_eq_some_iff.1 (hadv.symm.trans hp)
    have hnext : q.Next (if (⟨owner, id⟩ : CallKey) ∈ keys then q.turned else q) := by
      split
      · exact .turned
      · exact .same
    exact List.mem_append_left _ (h id q t hq (hnext.awaits ht))
  | elsewhere f => exact List.mem_append_left _ (h id p t hp ht)

theorem serve_view {s : σ} (hq : Quiet view)
    (hc : ∀ d c, e.Asks call d c → c.Spares view) :
    view (e.serve call s).2.2 = view s := by
  cases e.way call s with
  | unknown error look serve none => rw [serve]
  | unbound d look serve none =>
    rw [serve]
    exact hq _ s
  | outstanding d c p asks filed waits serve none =>
    rw [serve]
    exact hq _ s
  | arrived d c p a asks filed takes final serve none =>
    rw [serve, closing, Desk.normalizeArrived_view _ d call s hq]
  | called d c k s' asks freed serve one =>
    have hs' : view s' = view s := by
      cases freed with
      | free _ => rfl
      | taken p a _ _ _ => exact hq _ s
    rw [serve, closing, Desk.invoke_view k d c call s' hq, Callback.invoke, hc d c asks,
      Desk.announce, hq, hs']

theorem register_lookup (e : Engine σ) (d : Descriptor σ) (s : σ) (owner : String) :
    (e.register d s).2.1.registry.lookup owner =
      if d.owner = owner then .ok d else e.registry.lookup owner := by
  have hput : (e.register d s).2.1.registry = e.registry.put d := by
    simp only [register, Registry.register]
    split <;> rfl
  rw [hput, Registry.lookup_put]

theorem register_view (hq : Quiet view) (e : Engine σ) (d : Descriptor σ) (s : σ) :
    view (e.register d s).2.2 = view s := by
  simp only [register, Registry.register]
  split <;> exact hq _ s

theorem pending_advance_view (hq : Quiet view) (key : CallKey) (p : Pending) (s : σ) :
    view (p.advance key s).2 = view s := by
  unfold Pending.advance
  split
  · split <;> exact hq _ s
  · rfl
  · rfl
  · rfl

theorem advance_view (hq : Quiet view) (keys : List CallKey) (k : Desk) (s : σ) :
    view (k.advance keys s).2 = view s := by
  induction keys generalizing k s with
  | nil => rfl
  | cons key keys ih =>
    cases hp : k.pending.get? key with
    | none =>
      simp only [Desk.advance, hp]
      exact ih k s
    | some p =>
      simp only [Desk.advance, hp]
      rw [ih, pending_advance_view hq]

namespace Beside

/-- A deed that concerns others leaves everything as `owner` has it. -/
theorem skip (h : Beside owner view ts ts' x x') (hnone : deed.of owner ts ts' = none)
    (hq : Quiet view)
    (others : ∀ call d c, deed = .call call → call.owner ≠ owner → x.1.Asks call d c →
      c.Spares view)
    (elsewhere : ∀ f, deed = .elsewhere f → ∀ s, view (f s) = view s) :
    Beside owner view ts ts' (deed.play x) x' ∧ deed.servings owner x = [] := by
  have hnothing : deed.servings owner x = [] := by
    cases deed with
    | call call =>
      have hne : call.owner ≠ owner := fun he => by simp [Deed.of, he] at hnone
      simp [Deed.servings, Deed.serving?, serving, hne]
    | register _ | fulfil _ _ | arrive _ | elsewhere _ => rfl
  have hawaits : (deed.play x).1.desk.Awaits owner ts := by
    simpa [hnothing] using deed.awaits_play h.awaits
  refine ⟨?_, hnothing⟩
  cases deed with
  | call call =>
    have hne : call.owner ≠ owner := fun he => by simp [Deed.of, he] at hnone
    have hsame : ∀ id, ((Deed.call call).play x).1.desk.pending.get? ⟨owner, id⟩ =
        x.1.desk.pending.get? ⟨owner, id⟩ := by
      intro id
      apply (x.1.serve_served call x.2).others
      intro hk
      exact hne (show owner = call.owner from congrArg CallKey.owner hk).symm
    refine ⟨?_, fun id => ?_, ?_, h.length, hawaits, h.awaits'⟩
    · rw [Deed.play, serve_registry]
      exact h.look
    · rw [hsame]
      exact h.facing id
    · rw [Deed.play, serve_view hq fun d c ha => others call d c rfl hne ha]
      exact h.view
  | register d =>
    have hne : d.owner ≠ owner := fun he => by simp [Deed.of, he] at hnone
    refine ⟨?_, h.facing, ?_, h.length, hawaits, h.awaits'⟩
    · rw [Deed.play, register_lookup, if_neg hne]
      exact h.look
    · rw [Deed.play, register_view hq]
      exact h.view
  | fulfil t a =>
    have ht : t ∉ ts := by
      intro ht
      have hlt : ts.idxOf t < ts'.length := by
        rw [← h.length]
        exact List.idxOf_lt_length_iff.2 ht
      simp [Deed.of, ht, List.getElem?_eq_getElem hlt] at hnone
    exact ⟨h.look, h.facing.fulfil_left h.awaits ht a, h.view, h.length, hawaits, h.awaits'⟩
  | arrive keys => cases hnone
  | elsewhere f =>
    refine ⟨h.look, h.facing, ?_, h.length, hawaits, h.awaits'⟩
    rw [Deed.play, elsewhere f rfl]
    exact h.view

/-- A call of `owner` goes in both places in the same way. -/
theorem serve (h : Beside call.owner view ts ts' x x') (hq : Quiet view)
    (own : ∀ d c, x.1.Asks call d c → c.GoesBy view)
    (hnew : ∀ t ∈ (x.1.invocations call x.2).flatMap Invocation.handles, t ∉ ts)
    (hnew' : ∀ t ∈ (x'.1.invocations call x'.2).flatMap Invocation.handles, t ∉ ts') :
    Desk.Parallel call.owner ts ts' view
      ((x.1.serve call x.2).1, (x.1.serve call x.2).2.1.desk, (x.1.serve call x.2).2.2)
      ((x'.1.serve call x'.2).1, (x'.1.serve call x'.2).2.1.desk, (x'.1.serve call x'.2).2.2)
      (x.1.invocations call x.2) (x'.1.invocations call x'.2) := by
  cases hl : x.1.registry.lookup call.owner with
  | error error =>
    have hl' : x'.1.registry.lookup call.owner = .error error := h.look.symm.trans hl
    rw [invocations_unknown hl, invocations_unknown hl', serve_unknown hl, serve_unknown hl']
    refine ⟨rfl, rfl, rfl, h.view, ?_⟩
    simpa using h.facing
  | ok d =>
    have hl' : x'.1.registry.lookup call.owner = .ok d := h.look.symm.trans hl
    cases hc : d.callback? call.operation with
    | none =>
      rw [invocations_unbound hl hc, invocations_unbound hl' hc, serve_unbound hl hc,
        serve_unbound hl' hc]
      refine ⟨rfl, rfl, rfl, ?_, fun id => ?_⟩
      · rw [hq, hq]
        exact h.view
      · simpa using h.facing id
    | some c =>
      rw [invocations_bound hl hc] at hnew ⊢
      rw [invocations_bound hl' hc] at hnew' ⊢
      rw [serve_bound hl hc, serve_bound hl' hc]
      exact h.facing.serve h.awaits h.awaits' h.length hq (own d c ⟨hl, hc⟩) h.view hnew hnew'

theorem keep_call (h : Beside call.owner view ts ts' x x') (hq : Quiet view)
    (own : ∀ d c, x.1.Asks call d c → c.GoesBy view)
    (hnew : (ts ++ (x.1.serving call x.2).handles).Nodup)
    (hnew' : (ts' ++ (x'.1.serving call x'.2).handles).Nodup) :
    (x.1.serving call x.2).seen = (x'.1.serving call x'.2).seen ∧
      Beside call.owner view (ts ++ (x.1.serving call x.2).handles)
        (ts' ++ (x'.1.serving call x'.2).handles) ((Deed.call call).play x)
        ((Deed.call call).play x') := by
  have hpar := h.serve hq own
    (fun t ht hts => List.disjoint_of_nodup_append hnew hts ht)
    (fun t ht hts => List.disjoint_of_nodup_append hnew' hts ht)
  have hawaits := Deed.awaits_play h.awaits (.call call)
  have hawaits' := Deed.awaits_play h.awaits' (.call call)
  rw [Deed.servings_call, List.flatMap_singleton] at hawaits hawaits'
  refine ⟨?_, ⟨?_, hpar.facing, hpar.view, ?_, hawaits, hawaits'⟩⟩
  · have hseen := hpar.seen
    have hreply := hpar.reply
    simp only [Serving.seen, serving, hseen]
    rw [hreply]
  · rw [Deed.play, Deed.play, serve_registry, serve_registry]
    exact h.look
  · have hlen := hpar.length
    rw [List.length_append, List.length_append, h.length]
    exact congrArg _ hlen

/-- A deed that concerns `owner` is done in both places. -/
theorem keep (h : Beside owner view ts ts' x x') (hsome : deed.of owner ts ts' = some deed')
    (hq : Quiet view)
    (own : ∀ call d c, deed = .call call → call.owner = owner → x.1.Asks call d c →
      c.GoesBy view)
    (hnew : (ts ++ (deed.servings owner x).flatMap Serving.handles).Nodup)
    (hnew' : (ts' ++ (deed'.servings owner x').flatMap Serving.handles).Nodup) :
    (deed.servings owner x).map Serving.seen = (deed'.servings owner x').map Serving.seen ∧
      Beside owner view (ts ++ (deed.servings owner x).flatMap Serving.handles)
        (ts' ++ (deed'.servings owner x').flatMap Serving.handles) (deed.play x)
        (deed'.play x') := by
  have hawaits := deed.awaits_play h.awaits
  have hawaits' := deed'.awaits_play h.awaits'
  cases deed with
  | call call =>
    have howner : call.owner = owner := by
      by_contra hne
      simp [Deed.of, hne] at hsome
    subst howner
    obtain rfl : deed' = .call call := by simpa [Deed.of] using hsome.symm
    rw [Deed.servings_call, List.flatMap_singleton] at hnew hnew'
    rw [Deed.servings_call, Deed.servings_call, List.flatMap_singleton, List.flatMap_singleton]
    obtain ⟨hseen, hbeside⟩ := h.keep_call hq (fun d c => own call d c rfl rfl) hnew hnew'
    exact ⟨congrArg (fun seen => [seen]) hseen, hbeside⟩
  | register d =>
    have howner : d.owner = owner := by
      by_contra hne
      simp [Deed.of, hne] at hsome
    obtain rfl : deed' = .register d := by simpa [Deed.of, howner] using hsome.symm
    have hserv : ∀ y : Engine σ × σ, (Deed.register d).servings owner y = [] := fun _ => rfl
    simp only [hserv, List.flatMap_nil, List.append_nil] at hawaits hawaits' ⊢
    refine ⟨trivial, ⟨?_, h.facing, ?_, h.length, hawaits, hawaits'⟩⟩
    · rw [Deed.play, Deed.play, register_lookup, register_lookup, if_pos howner, if_pos howner]
    · rw [Deed.play, Deed.play, register_view hq, register_view hq]
      exact h.view
  | fulfil t a =>
    have ht : t ∈ ts := by
      by_contra ht
      simp [Deed.of, ht] at hsome
    have hlt : ts.idxOf t < ts'.length := by
      rw [← h.length]
      exact List.idxOf_lt_length_iff.2 ht
    obtain rfl : deed' = .fulfil ts'[ts.idxOf t] a := by
      simpa [Deed.of, ht, List.getElem?_eq_getElem hlt] using hsome.symm
    have hserv : ∀ (u : Ticket) (y : Engine σ × σ),
        (Deed.fulfil u a : Deed σ).servings owner y = [] := fun _ _ => rfl
    simp only [hserv, List.flatMap_nil, List.append_nil] at hnew' hawaits hawaits' ⊢
    have hplace : ts.idxOf t = ts'.idxOf ts'[ts.idxOf t] := (hnew'.idxOf_getElem _ hlt).symm
    exact ⟨trivial, ⟨h.look, h.facing.fulfil h.awaits h.awaits' hplace a, h.view, h.length,
      hawaits, hawaits'⟩⟩
  | arrive keys =>
    obtain rfl : deed' = .arrive (keys.filter fun key => key.owner = owner) := by
      simpa [Deed.of] using hsome.symm
    have hserv : ∀ (keys : List CallKey) (y : Engine σ × σ),
        (Deed.arrive keys : Deed σ).servings owner y = [] := fun _ _ => rfl
    simp only [hserv, List.flatMap_nil, List.append_nil] at hawaits hawaits' ⊢
    refine ⟨trivial, ⟨h.look, h.facing.advance (fun id => by simp) x.2 x'.2, ?_, h.length,
      hawaits, hawaits'⟩⟩
    rw [Deed.play, Deed.play]
    dsimp only
    rw [advance_view hq, advance_view hq]
    exact h.view
  | elsewhere f => cases hsome

end Beside

/-! ## Runs -/

namespace Run

variable {r : Run σ} {n : Nat}

/-- The calls of `owner` before deed `n`. -/
def callsOf (r : Run σ) (owner : String) (n : Nat) : List (Serving σ) :=
  (r.log n).filter fun s => s.call.owner = owner

/-- The handles that were handed out to `owner` before deed `n`, in order. -/
def handlesOf (r : Run σ) (owner : String) (n : Nat) : List Ticket :=
  (r.callsOf owner n).flatMap Serving.handles

/-- No handle was handed out twice before deed `n`. -/
def Distinct (r : Run σ) (n : Nat) : Prop := ((r.log n).flatMap Serving.handles).Nodup

def length (r : Run σ) : Nat := r.deeds.length

/-- The run with one more deed at its end. -/
def followed (r : Run σ) (deed : Deed σ) : Run σ := { r with deeds := r.deeds ++ [deed] }

/-- What is left of the first `n` deeds when those that concern others than `owner` are left
out. -/
def only (r : Run σ) (owner : String) : Nat → Run σ
  | 0 => { r with deeds := [] }
  | n + 1 =>
    let r' := r.only owner n
    match (r.deeds[n]?).bind
      (Deed.of owner (r.handlesOf owner n) (r'.handlesOf owner r'.length)) with
    | some deed => r'.followed deed
    | none => r'

/-- The callback `c` is bound to the operation of somebody registered under the name at some
time. -/
def Bound (r : Run σ) (owner : String) (op : Operation) (c : Callback σ) : Prop :=
  ∃ d, (r.registry.lookup owner = .ok d ∨ .register d ∈ r.deeds ∧ d.owner = owner) ∧
    d.callback? op = some c

/-- `owner` shares nothing with the others: its callbacks go by the part of the state that `view`
shows, and nothing but they changes that part. -/
structure Separate (r : Run σ) (owner : String) (view : σ → α) : Prop where
  quiet : Quiet view
  own : ∀ op c, r.Bound owner op c → c.GoesBy view
  others : ∀ other op c, other ≠ owner → r.Bound other op c → c.Spares view
  elsewhere : ∀ f, .elsewhere f ∈ r.deeds → ∀ s, view (f s) = view s

theorem bound_of_asks {d : Descriptor σ} {c : Callback σ} (h : (r.engine n).Asks call d c) :
    r.Bound call.owner call.operation c := by
  refine ⟨d, ?_, h.bound⟩
  refine replay_induction_mem (P := fun x : Engine σ × σ => ∀ owner d,
    x.1.registry.lookup owner = .ok d →
      r.registry.lookup owner = .ok d ∨ .register d ∈ r.deeds ∧ d.owner = owner)
    (fun _ _ hl => .inl hl) (fun x deed hdeed hx owner d hl => ?_) n call.owner d h.known
  cases deed with
  | call call =>
    rw [Deed.play, serve_registry] at hl
    exact hx owner d hl
  | register d' =>
    rw [Deed.play, register_lookup] at hl
    split at hl
    · rename_i howner
      cases hl
      exact .inr ⟨hdeed, howner⟩
    · exact hx owner d hl
  | fulfil _ _ | arrive _ | elsewhere _ => exact hx owner d hl

theorem callsOf_succ (h : r.deeds[n]? = some deed) (owner : String) :
    r.callsOf owner (n + 1) = r.callsOf owner n ++ deed.servings owner (r.before n) := by
  rw [callsOf, log_succ h, List.filter_append]
  rfl

theorem handlesOf_succ (h : r.deeds[n]? = some deed) (owner : String) :
    r.handlesOf owner (n + 1) =
      r.handlesOf owner n ++ (deed.servings owner (r.before n)).flatMap Serving.handles := by
  rw [handlesOf, callsOf_succ h, List.flatMap_append]
  rfl

theorem Distinct.of_succ (h : r.Distinct (n + 1)) : r.Distinct n := by
  unfold Distinct at h ⊢
  rw [log, List.flatMap_append] at h
  exact (List.nodup_append.1 h).1

theorem Distinct.handlesOf (h : r.Distinct n) (owner : String) : (r.handlesOf owner n).Nodup :=
  List.Nodup.sublist (List.filter_sublist.flatMap Serving.handles) h

/-! ### One more deed -/

theorem before_followed (deed : Deed σ) (h : n ≤ r.length) :
    (r.followed deed).before n = r.before n := by
  unfold before followed replay
  dsimp only
  rw [List.take_append_of_le_length h]

theorem log_followed (deed : Deed σ) (h : n ≤ r.length) : (r.followed deed).log n = r.log n := by
  induction n with
  | zero => rfl
  | succ n ih =>
    have hlt : n < r.deeds.length := h
    rw [log, log, ih (Nat.le_of_succ_le h), before_followed deed (Nat.le_of_succ_le h)]
    rw [followed, List.getElem?_append_left hlt]

omit [Journal σ] in
theorem length_followed (r : Run σ) (deed : Deed σ) :
    (r.followed deed).length = r.length + 1 := by
  simp [followed, length]

omit [Journal σ] in
theorem getElem?_followed (r : Run σ) (deed : Deed σ) :
    (r.followed deed).deeds[r.length]? = some deed := by
  simp [followed, length]

theorem before_followed_last (r : Run σ) (deed : Deed σ) :
    (r.followed deed).before (r.length + 1) = deed.play (r.before r.length) := by
  rw [(r.followed deed).follows.succ (r.getElem?_followed deed),
    before_followed deed (Nat.le_refl _)]

theorem callsOf_followed (r : Run σ) (deed : Deed σ) (owner : String) :
    (r.followed deed).callsOf owner (r.length + 1) =
      r.callsOf owner r.length ++ deed.servings owner (r.before r.length) := by
  rw [callsOf_succ (r.getElem?_followed deed), before_followed deed (Nat.le_refl _), callsOf,
    log_followed deed (Nat.le_refl _)]
  rfl

theorem handlesOf_followed (r : Run σ) (deed : Deed σ) (owner : String) :
    (r.followed deed).handlesOf owner (r.length + 1) = r.handlesOf owner r.length ++
      (deed.servings owner (r.before r.length)).flatMap Serving.handles := by
  rw [handlesOf, callsOf_followed, List.flatMap_append]
  rfl

theorem Distinct.of_followed {deed : Deed σ} (h : (r.followed deed).Distinct (r.length + 1)) :
    r.Distinct r.length := by
  have := h.of_succ
  rwa [Distinct, log_followed deed (Nat.le_refl _)] at this

/-! ### With the others and without -/

/-- At every time `owner` can not tell the run from what is left of it. -/
theorem beside_only (hs : r.Separate owner view) (n : Nat) (hd : r.Distinct n)
    (hd' : (r.only owner n).Distinct (r.only owner n).length) :
    (r.callsOf owner n).map Serving.seen =
        ((r.only owner n).callsOf owner (r.only owner n).length).map Serving.seen ∧
      Beside owner view (r.handlesOf owner n)
        ((r.only owner n).handlesOf owner (r.only owner n).length) (r.before n)
        ((r.only owner n).before (r.only owner n).length) := by
  induction n with
  | zero =>
    refine ⟨rfl, rfl, fun id => rfl, rfl, rfl, ?_, ?_⟩
    · intro id p t hp
      cases hp
    · intro id p t hp
      cases hp
  | succ n ih =>
    cases hn : r.deeds[n]? with
    | none =>
      have honly : r.only owner (n + 1) = r.only owner n := by simp [only, hn]
      rw [honly] at hd' ⊢
      rw [r.follows.of_none hn, handlesOf, callsOf, log_of_none hn]
      exact ih hd.of_succ hd'
    | some deed =>
      generalize hr' : r.only owner n = r' at ih
      cases hof : deed.of owner (r.handlesOf owner n) (r'.handlesOf owner r'.length) with
      | none =>
        have honly : r.only owner (n + 1) = r' := by simp [only, hn, hr', hof]
        rw [honly] at hd' ⊢
        obtain ⟨hseen, hbeside⟩ := ih hd.of_succ hd'
        obtain ⟨hskip, hnothing⟩ := hbeside.skip hof hs.quiet
          (fun call d c hc hne ha => by
            subst hc
            exact hs.others _ _ c hne (bound_of_asks ha))
          (fun f hf => hs.elsewhere f (hf ▸ List.mem_of_getElem? hn))
        rw [r.follows.succ hn, handlesOf_succ hn, callsOf_succ hn, hnothing, List.append_nil,
          List.flatMap_nil, List.append_nil]
        exact ⟨hseen, hskip⟩
      | some deed' =>
        have honly : r.only owner (n + 1) = r'.followed deed' := by simp [only, hn, hr', hof]
        rw [honly, length_followed] at hd' ⊢
        obtain ⟨hseen, hbeside⟩ := ih hd.of_succ hd'.of_followed
        have hnew := hd.handlesOf owner
        have hnew' := hd'.handlesOf owner
        rw [handlesOf_succ hn] at hnew
        rw [handlesOf_followed] at hnew'
        obtain ⟨hnext, hkeep⟩ := hbeside.keep hof hs.quiet
          (fun call d c hc howner ha => by
            subst hc howner
            exact hs.own _ c (bound_of_asks ha)) hnew hnew'
        rw [r.follows.succ hn, handlesOf_succ hn, callsOf_succ hn, before_followed_last,
          handlesOf_followed, callsOf_followed, List.map_append, List.map_append, hseen, hnext]
        exact ⟨rfl, hkeep⟩

/-- **Participants do not interfere.** Let the callbacks of `owner` share no state with the others,
and let no handle be handed out twice. Then at every time of a run the calls of `owner` have had the
same replies, have called the same callbacks with the same arguments, and have left its entries in
the same states as if everything that concerns others had never happened. -/
theorem same_alone (r : Run σ) (hs : r.Separate owner view) (n : Nat) (hd : r.Distinct n)
    (hd' : (r.only owner n).Distinct (r.only owner n).length) :
    (r.callsOf owner n).map Serving.seen =
        ((r.only owner n).callsOf owner (r.only owner n).length).map Serving.seen ∧
      ∀ id, (r.engine n).stateOf? ⟨owner, id⟩ =
        ((r.only owner n).engine (r.only owner n).length).stateOf? ⟨owner, id⟩ := by
  obtain ⟨hseen, hbeside⟩ := beside_only hs n hd hd'
  refine ⟨hseen, fun id => ?_⟩
  have hface := congrArg (Option.map fun p : Pending => p.cell.state) (hbeside.facing id)
  rw [Option.map_map, Option.map_map] at hface
  exact hface

/-! ## Two participants that share the numbers of their handles -/

/-- A state that shows only how many handles were handed out. -/
structure Handout where
  next : Ticket

instance : Journal Handout := ⟨fun _ s => s⟩

/-- A callback that hands out the next handle. -/
def promising : Callback Handout :=
  ⟨.ofAction (.deferred .unit), fun _ s => (.answered (.deferred (.awaiting s.next)), ⟨s.next + 1⟩)⟩

/-- A participant with that callback. -/
def promiser (owner : String) : Descriptor Handout :=
  ⟨owner, .shared, Slots.empty.insert .complete promising⟩

/-- The request to complete its part. -/
def promiserCall (owner : String) : Call := ⟨owner, .complete, ⟨"http://c/lra/1"⟩, none⟩

/-- Both are asked, one after the other, and the second is done when it is asked again. -/
def sharing : Run Handout :=
  ⟨.empty, ⟨0⟩, [.register (promiser "Hotel"), .register (promiser "Orders"),
    .call (promiserCall "Hotel"), .call (promiserCall "Orders"), .fulfil 1 .unit,
    .arrive [(promiserCall "Hotel").key, (promiserCall "Orders").key],
    .call (promiserCall "Orders")]⟩

theorem sharing_bound {owner : String} {op : Operation} {c : Callback Handout}
    (h : sharing.Bound owner op c) : c = promising := by
  obtain ⟨d, hd, hc⟩ := h
  have hpromiser : ∃ name, d = promiser name := by
    rcases hd with hd | ⟨hd, -⟩
    · cases hd
    · have hd : d = promiser "Hotel" ∨ d = promiser "Orders" := by simpa [sharing] using hd
      rcases hd with rfl | rfl
      · exact ⟨_, rfl⟩
      · exact ⟨_, rfl⟩
  obtain ⟨name, rfl⟩ := hpromiser
  cases op with
  | complete =>
    cases hc
    rfl
  | compensate | status | forget => cases hc

theorem sharing_separate : sharing.Separate "Orders" fun _ => () where
  quiet _ _ := rfl
  own op c hc := by
    rw [sharing_bound hc]
    intro args s s' _
    exact ⟨rfl, rfl⟩
  others _ _ _ _ _ _ _ := rfl
  elsewhere _ _ _ := rfl

/-- Alone the second would have the first handle, and nothing else would be different. -/
theorem sharing_same_alone :
    sharing.Separate "Orders" (fun _ => ()) ∧ sharing.Distinct 7 ∧
    (sharing.only "Orders" 7).Distinct (sharing.only "Orders" 7).length ∧
    sharing.handlesOf "Orders" 7 = [1] ∧
    (sharing.only "Orders" 7).handlesOf "Orders" (sharing.only "Orders" 7).length = [0] ∧
    (sharing.callsOf "Orders" 7).map Serving.seen =
      ((sharing.only "Orders" 7).callsOf "Orders" (sharing.only "Orders" 7).length).map
        Serving.seen := by
  have hd : sharing.Distinct 7 := by
    unfold Distinct
    decide +kernel
  have hd' : (sharing.only "Orders" 7).Distinct (sharing.only "Orders" 7).length := by
    unfold Distinct
    decide +kernel
  exact ⟨sharing_separate, hd, hd', by decide +kernel, by decide +kernel,
    (same_alone sharing sharing_separate 7 hd hd').1⟩

end Run

end Engine

end Saga
