import Saga.Proofs.Context.Codec
import Saga.Proofs.Context.Lifetime

/-!
# The context from message to message

A service takes a message over in a chain of its own and stamps another there. Taking over makes
the ids that the message carries active, each of them once (`active_foldl_push_none`), or it fails
and changes nothing (`receive_error`). What is active came from headers and so can be sent
(`Service.passes`), and each service on the way of a message is given the same actions as the one
before (`Service.readContext_route`, `hop_keeps_context`).
-/

set_option autoImplicit false

namespace Saga.Scopes

variable {α τ : Type} [Journal τ]

/-! ## Active ids -/

/-- Ids are made active in their order; one that is active already is passed over. -/
theorem Request.foldl_pushed (ids active : List ActionId) :
    ids.foldl onList.pushed active = active ++ (ids.filter fun id => id ∉ active).eraseDups := by
  induction ids generalizing active with
  | nil => simp
  | cons id ids ih =>
    rw [List.foldl_cons, ih]
    by_cases hid : id ∈ active
    · simp [onList.pushed, hid]
    · have hfilter : (ids.filter fun x => x ∉ active ++ [id]) =
          (ids.filter fun x => x ∉ active).filter fun x => !x == id := by
        rw [List.filter_filter]
        refine List.filter_congr fun x _ => ?_
        by_cases hx : x = id <;> simp [hx]
      rw [onList.pushed, if_neg hid, hfilter, List.filter_cons_of_pos (by simpa using hid),
        List.eraseDups_cons, List.append_assoc, List.singleton_append]

theorem active_foldl_push_none (ids : List ActionId) :
    (ids.foldl Chain.push (none : Chain α)).active = ids.eraseDups := by
  rw [Request.active_foldl_push, Request.foldl_pushed]
  simp

theorem eraseDups_of_nodup {β : Type} [DecidableEq β] {l : List β} (h : l.Nodup) :
    l.eraseDups = l := by
  induction l with
  | nil => rfl
  | cons b l ih =>
    obtain ⟨hb, hl⟩ := List.nodup_cons.1 h
    have hfilter : (l.filter fun x => !x == b) = l :=
      List.filter_eq_self.2 fun x hx => by simpa using ne_of_mem_of_not_mem hx hb
    rw [List.eraseDups_cons, hfilter, ih hl]

theorem eraseDups_eraseDups (ids : List ActionId) : ids.eraseDups.eraseDups = ids.eraseDups := by
  have hneat : (ids.foldl Chain.push (none : Chain Scratch)).Neat :=
    Request.neat_foldl_push ids .none
  exact eraseDups_of_nodup (active_foldl_push_none (α := Scratch) ids ▸ hneat.nodup)

/-! ## Taking over -/

/-- A message that is not taken over leaves everything as it was. -/
theorem receive_error {h : Headers} {s : Scopes α} {j : τ} {e : ScopeError}
    (he : (s.receive h j).1 = .error e) : (s.receive h j).2 = (s, j) := by
  cases hr : h.readContext with
  | error e' => rw [receive, hr]
  | ok ids =>
    cases s with
    | nil => cases ids <;> simp [receive, hr, pushAll, push, onChain]
    | cons c cs =>
      obtain ⟨j', hj⟩ := receive_cons (κ := Unit) h c cs j
      rw [hj, hr] at he
      cases he

/-- A message is not taken over just if its context can not be read, or there is no chain for the
ids that it carries. -/
theorem receive_fails_iff (h : Headers) (s : Scopes α) (j : τ) :
    (∃ e, (s.receive h j).1 = .error e) ↔
      (∃ e, h.readContext = .error e) ∨ s = [] ∧ ∃ ids, ids ≠ [] ∧ h.readContext = .ok ids := by
  cases hr : h.readContext with
  | error e => simp [receive, hr]
  | ok ids =>
    cases s with
    | nil => cases ids <;> simp [receive, hr, pushAll, push, onChain]
    | cons c cs =>
      obtain ⟨j', hj⟩ := receive_cons (κ := Unit) h c cs j
      simp [hj, hr]

/-- The context can not be read just if some value of it has a byte that is no text. -/
theorem readContext_fails_iff (h : Headers) :
    (∃ e, h.readContext = .error e) ↔
      ∃ value ∈ h.getAll Headers.contextName, ∃ b ∈ value, ¬ (b = 9 ∨ 32 ≤ b ∧ b ≤ 126) := by
  simp only [← Headers.isReadable_iff]
  rw [Headers.readContext_eq]
  split
  · rename_i hall
    simpa using hall
  · rename_i hall
    simpa using hall

/-! ## Services on the way of a message -/

/-- Where a service takes a message over, and the message that it stamps. -/
structure Service (α τ : Type) where
  around : Scopes α
  journal : τ
  out : Headers

namespace Service

/-- The service takes a message over in a chain of its own. -/
def take (v : Service α τ) (h : Headers) : Except ScopeError (List ActionId) × Scopes α × τ :=
  v.around.enter.receive h v.journal

/-- The message that the service sends when it has taken one over. -/
def sent (v : Service α τ) (h : Headers) : Headers := ((v.take h).2.1.stamp v.out).2

/-- The service is given `carried` by a message and passes `kept` on: these are the ids that are
active in its chain and the ones that its own message carries, which is as it was otherwise. -/
structure Passes (v : Service α τ) (h : Headers) (carried kept : List ActionId) : Prop where
  taken : (v.take h).1 = .ok carried
  active : (v.take h).2.1.active = kept
  stamped : ((v.take h).2.1.stamp v.out).1 = .ok ()
  read : (v.sent h).readContext = .ok kept
  others : ∀ name, name ≠ Headers.contextName → (v.sent h).getAll name = v.out.getAll name

/-- Each id that is read from a message is passed on once. -/
theorem passes (v : Service α τ) {h : Headers} {ids : List ActionId}
    (hr : h.readContext = .ok ids) : v.Passes h ids ids.eraseDups := by
  obtain ⟨j', hj⟩ := receive_cons (κ := Unit) h none v.around v.journal
  have htake : v.take h = (.ok ids, ids.foldl Chain.push none :: v.around, j') := by
    rw [take, enter, hj, Request.turn, hr]
  have hactive : (v.take h).2.1.active = ids.eraseDups := by
    rw [htake]
    exact active_foldl_push_none ids
  have hportable : ∀ id ∈ ids.eraseDups, id.Portable := fun id hid =>
    Headers.portable_of_readContext hr id (List.mem_eraseDups.1 hid)
  obtain ⟨hwrite, hread⟩ := v.out.readContext_writeContext hportable
  refine ⟨by rw [htake], hactive, ?_, ?_, fun name hn => ?_⟩
  · rw [stamp, hactive, hwrite]
  · rw [sent, stamp, hactive, hread]
  · rw [sent, stamp, Headers.getAll_writeContext, if_neg hn]

/-- The message that comes out when services pass one on, each to the next. -/
def route (h : Headers) (vs : List (Service α τ)) : Headers := vs.foldl (fun h v => v.sent h) h

theorem readContext_route {h : Headers} {ids : List ActionId} (hr : h.readContext = .ok ids)
    (hids : ids.eraseDups = ids) (vs : List (Service α τ)) :
    (route h vs).readContext = .ok ids := by
  induction vs generalizing h with
  | nil => exact hr
  | cons v vs ih => exact ih (hids ▸ (v.passes hr).read)

end Service

/-- **A hop keeps the context.** If the ids of a message can be read, a service that takes it over
is given all of them, in its chain each is active once, in the order in which they came first, and
any message that it stamps carries just these and is otherwise unchanged. So it goes on, however
many services pass it on: each is given these same ids and passes them on. A message is not taken
over just if some value of its context is no text, or it carries ids and there is no chain for
them, and then no chain is changed. -/
theorem hop_keeps_context (h : Headers) :
    (∀ ids, h.readContext = .ok ids → ∀ v : Service α τ,
      v.Passes h ids ids.eraseDups ∧
      ∀ (vs : List (Service α τ)) (w : Service α τ),
        w.Passes (Service.route (v.sent h) vs) ids.eraseDups ids.eraseDups) ∧
    ∀ (s : Scopes α) (j : τ),
      ((∃ e, (s.receive h j).1 = .error e) ↔
        (∃ value ∈ h.getAll Headers.contextName, ∃ b ∈ value, ¬ (b = 9 ∨ 32 ≤ b ∧ b ≤ 126)) ∨
          s = [] ∧ ∃ ids, ids ≠ [] ∧ h.readContext = .ok ids) ∧
      ∀ e, (s.receive h j).1 = .error e → (s.receive h j).2 = (s, j) := by
  refine ⟨fun ids hr v => ⟨v.passes hr, fun vs w => ?_⟩, fun s j => ⟨?_, fun e => receive_error⟩⟩
  · have hids := eraseDups_eraseDups ids
    have hroute := Service.readContext_route (v.passes hr).read hids vs
    have hw := w.passes hroute
    rwa [hids] at hw
  · rw [receive_fails_iff, readContext_fails_iff]

/-- A message with repeated values, a list with a blank item, and an id that comes twice. -/
def crowded : Headers :=
  .ofList [("Long-Running-Action", Text.utf8 "http://c/1, ,http://c/2"),
    ("accept", Text.utf8 "*/*"), ("long-running-action", Text.utf8 " http://c/1")]

theorem crowded_kept :
    (crowded.readContext = .ok [⟨"http://c/1"⟩, ⟨"http://c/2"⟩, ⟨"http://c/1"⟩] ∧
      ∀ v : Service Scratch (List Event), v.Passes crowded
        [⟨"http://c/1"⟩, ⟨"http://c/2"⟩, ⟨"http://c/1"⟩] [⟨"http://c/1"⟩, ⟨"http://c/2"⟩]) ∧
    (receive crowded ([] : Scopes) ([] : List Event)).1 = .error .noActiveChain ∧
      (receive crowded ([] : Scopes) ([] : List Event)).2 = ([], []) := by
  have hread : crowded.readContext = .ok [⟨"http://c/1"⟩, ⟨"http://c/2"⟩, ⟨"http://c/1"⟩] := by
    decide +kernel
  have hfails : (receive crowded ([] : Scopes) ([] : List Event)).1 = .error .noActiveChain := by
    rw [receive, hread]
    rfl
  exact ⟨⟨hread, fun v => ((hop_keeps_context crowded).1 _ hread v).1⟩, hfails,
    ((hop_keeps_context crowded).2 [] []).2 _ hfails⟩

end Saga.Scopes
