import Saga.Proofs.Locks.Cells

/-!
# Calls inside calls

A `Nesting` is what a computation in one thread does to the locks: calls one after the other, each
with a nesting of its own as its body, and looks at the number of keys in use. A body that breaks
down ends its call with the same breakdown, which whatever is around the call may catch or pass on.
`Nesting.go` carries it out and has no result if a call waits for a key that is held around it, for
nobody else is there to give the key back; `Nesting.tell` gives an account of every moment, with the
keys of the calls around it.

A call that finds no entry for its key makes a cell of its own, has the only references to it beside
the map, and takes all of it away at its end (`leave_inside`). So the keys of the calls around are
always held, and no others (`Around`), a call leaves the locks as it found them (`Around.holding`),
and both go through the whole tree by induction (`Nesting.runs`).
-/

set_option autoImplicit false

namespace Saga

namespace Locks

variable {α : Type} {l : Locks} {key : CallKey} {around : List CallKey}

/-! ## Calls -/

/-- Does a call for the key get its lock without waiting? -/
def Lockable (l : Locks) (key : CallKey) : Prop := (l.attach key).2.isFree (l.attach key).1 = true

instance (l : Locks) (key : CallKey) : Decidable (l.Lockable key) :=
  inferInstanceAs (Decidable (_ = true))

/-- The locks as the body of a call for the key finds them. -/
def inside (l : Locks) (key : CallKey) : Locks := (l.attach key).2.acquire (l.attach key).1

/-- What a call does once its body has come to an end. -/
def leave (l : Locks) (key : CallKey) (n : Nat) : Locks := ((l.release n).retire key n).detach n

theorem holding_eq (l : Locks) (key : CallKey) (body : Locks → α × Locks) :
    l.holding key body =
      ((body (l.inside key)).1, (body (l.inside key)).2.leave key (l.attach key).1) := rfl

/-- A call where there is no other thread. If it has to wait, or something in its body has to, there
is no result. -/
def holding? (l : Locks) (key : CallKey) (body : Locks → Option (α × Locks)) :
    Option (α × Locks) :=
  if l.Lockable key then
    let (result, l) := l.holding key fun l =>
      match body l with
      | some (a, l) => (some a, l)
      | none => (none, l)
    result.map fun a => (a, l)
  else none

/-! ## Nestings -/

/-- Calls one after the other, each with a nesting for its body, and looks at the number of keys in
use. What comes next may depend on what came of them. -/
inductive Nesting (ε : Type) : Type → Type 1
  | done {α : Type} (result : Except ε α) : Nesting ε α
  | look {α : Type} (next : Nat → Nesting ε α) : Nesting ε α
  | hold {α β : Type} (key : CallKey) (body : Nesting ε β) (next : Except ε β → Nesting ε α) :
    Nesting ε α

/-- A moment of a nesting: the keys of the calls around it, outermost first, and the locks. -/
structure Moment where
  around : List CallKey
  locks : Locks

namespace Nesting

variable {ε : Type}

/-- Carries out a nesting. -/
def go {α : Type} : Nesting ε α → Locks → Option (Except ε α × Locks)
  | done result, l => some (result, l)
  | look next, l => (next l.active).go l
  | hold key body next, l =>
    match l.holding? key body.go with
    | some (result, l) => (next result).go l
    | none => none

/-- What becomes of a nesting in so many calls, where a call gives what its body gives and a look
shows the number of calls around it. -/
def result {α : Type} : Nesting ε α → Nat → Except ε α
  | done result, _ => result
  | look next, depth => (next depth).result depth
  | hold _ body next, depth => (next (body.result (depth + 1))).result depth

/-- No call is for the key of a call around it. -/
def Apart {α : Type} : Nesting ε α → List CallKey → Locks → Prop
  | done _, _, _ => True
  | look next, around, l => (next l.active).Apart around l
  | hold key body next, around, l =>
    key ∉ around ∧ body.Apart (around ++ [key]) (l.inside key) ∧
      ∀ x ∈ l.holding? key body.go, (next x.1).Apart around x.2

instance decidableApart {α : Type} :
    ∀ (t : Nesting ε α) (around : List CallKey) (l : Locks), Decidable (t.Apart around l)
  | done _, _, _ => .isTrue trivial
  | look next, around, l => decidableApart (next l.active) around l
  | hold key body next, around, l =>
    have := decidableApart body (around ++ [key]) (l.inside key)
    have := fun x : Except ε _ × Locks => decidableApart (next x.1) around x.2
    inferInstanceAs (Decidable (key ∉ around ∧ body.Apart (around ++ [key]) (l.inside key) ∧
      ∀ x ∈ l.holding? key body.go, (next x.1).Apart around x.2))

/-- Gives an account of a nesting in the calls `around`: of every moment before a look or a call, of
those in the bodies, and of the end. -/
def tell {α : Type} : Nesting ε α → List CallKey → Locks → List Moment
  | done _, around, l => [⟨around, l⟩]
  | look next, around, l => ⟨around, l⟩ :: (next l.active).tell around l
  | hold key body next, around, l =>
    ⟨around, l⟩ :: body.tell (around ++ [key]) (l.inside key) ++
      match l.holding? key body.go with
      | some (result, l) => (next result).tell around l
      | none => []

end Nesting

/-! ## A call for a new key -/

theorem inside_new (h : l.entries.get? key = none) :
    l.inside key =
      ⟨l.entries.insert key l.fresh, l.cells.insert l.fresh ⟨2, true⟩, l.fresh + 1⟩ := by
  simp [inside, attach, h, acquire, Table.modify, Table.get?_insert, Table.insert_insert]

/-- A call for a new key takes away what it has brought, whatever numbers its body has used up. -/
theorem leave_inside (h : l.entries.get? key = none) (hc : l.cells.get? l.fresh = none) (f : Nat) :
    { l.inside key with fresh := f }.leave key l.fresh = { l with fresh := f } := by
  rw [inside_new h]
  have hrelease : release ⟨l.entries.insert key l.fresh, l.cells.insert l.fresh ⟨2, true⟩, f⟩
      l.fresh = ⟨l.entries.insert key l.fresh, l.cells.insert l.fresh ⟨2, false⟩, f⟩ := by
    simp [release, Table.modify, Table.get?_insert, Table.insert_insert]
  -- nobody but the map and the call refers to the cell, so the key goes and the map's reference too
  have hretire : retire ⟨l.entries.insert key l.fresh, l.cells.insert l.fresh ⟨2, false⟩, f⟩ key
      l.fresh = ⟨l.entries, l.cells.insert l.fresh ⟨1, false⟩, f⟩ := by
    simp [retire, drop, Table.get?_insert, Table.insert_insert, Table.erase_insert h]
  rw [leave, hrelease, hretire]
  simp [detach, drop, Table.get?_insert, Table.erase_insert hc]

/-- The keys that are held are those of the calls around. -/
structure Around (l : Locks) (around : List CallKey) : Prop where
  keys : l.entries.keys = around
  held : ∀ key n, l.entries.get? key = some n → n < l.fresh ∧ l.held n = true
  fresh : ∀ n, l.fresh ≤ n → l.cells.get? n = none

namespace Around

theorem empty : Around .empty [] where
  keys := rfl
  held _ _ h := by cases h
  fresh _ _ := rfl

variable (h : l.Around around)
include h

theorem active_eq : l.active = around.length := by
  rw [active, Table.size_eq_length_keys, h.keys]

theorem isSome_iff : (l.entries.get? key).isSome = true ↔ key ∈ around := by
  rw [← h.keys, ← Decidable.not_iff_not, ← Table.get?_eq_none_iff, Option.not_isSome_iff_eq_none]

theorem get?_eq_none (hk : key ∉ around) : l.entries.get? key = none := by
  rwa [Table.get?_eq_none_iff, h.keys]

/-- A key can be locked unless a call around holds it. -/
theorem lockable_iff : l.Lockable key ↔ key ∉ around := by
  rw [Lockable, isFree_eq]
  cases hk : l.entries.get? key with
  | none =>
    have hn : key ∉ around := by
      rw [← h.isSome_iff, hk]
      simp
    have hfst : (l.attach key).1 = l.fresh := by simp [attach, hk]
    simp [hfst, held_attach_new hk, hn]
  | some n =>
    have hm : key ∈ around := by
      rw [← h.isSome_iff, hk]
      rfl
    have hfst : (l.attach key).1 = n := by simp [attach, hk]
    simp [hfst, held_attach_known hk, (h.held key n hk).2, hm]

theorem renumbered {f : Nat} (hf : l.fresh ≤ f) : Around { l with fresh := f } around where
  keys := h.keys
  held key n hk := ⟨Nat.lt_of_lt_of_le (h.held key n hk).1 hf, (h.held key n hk).2⟩
  fresh n hn := h.fresh n (Nat.le_trans hf hn)

/-- The body of a call for a new key has the key around it as well. -/
theorem inside (hk : key ∉ around) : (l.inside key).Around (around ++ [key]) := by
  rw [inside_new (h.get?_eq_none hk)]
  refine ⟨?_, fun key' n hn => ?_, fun n hn => ?_⟩
  · rw [Table.keys_insert, h.keys, if_neg hk]
  · rw [Table.get?_insert] at hn
    split at hn
    · cases hn
      exact ⟨Nat.lt_succ_self _, by simp [Locks.held, Table.get?_insert]⟩
    · obtain ⟨hlt, hheld⟩ := h.held key' n hn
      refine ⟨Nat.lt_succ_of_lt hlt, ?_⟩
      rw [Locks.held, Table.get?_insert, if_neg (Nat.ne_of_gt hlt)]
      exact hheld
  · rw [Table.get?_insert, if_neg (Nat.ne_of_lt hn)]
    exact h.fresh n (Nat.le_of_lt hn)

/-- A call gives what its body gives and leaves the locks as they were. -/
theorem holding (hk : key ∉ around) {body : Locks → α × Locks} {a : α} {f : Nat}
    (hb : body (l.inside key) = (a, { l.inside key with fresh := f })) :
    l.holding key body = (a, { l with fresh := f }) := by
  have hnone := h.get?_eq_none hk
  have hfst : (l.attach key).1 = l.fresh := by simp [attach, hnone]
  rw [holding_eq, hb, hfst, leave_inside hnone (h.fresh _ (Nat.le_refl _))]

theorem holding? (hk : key ∉ around) {body : Locks → Option (α × Locks)} {a : α} {f : Nat}
    (hb : body (l.inside key) = some (a, { l.inside key with fresh := f })) :
    l.holding? key body = some (a, { l with fresh := f }) := by
  rw [Locks.holding?, if_pos (h.lockable_iff.2 hk),
    h.holding (a := some a) (f := f) hk (by rw [hb])]
  rfl

end Around

namespace Nesting

variable {ε : Type}

/-- From locks that hold the keys of the calls around, a nesting comes to its end with the locks as
they were, and they hold the keys of the calls around at every moment. -/
theorem runs (t : Nesting ε α) (h : l.Around around) (ht : t.Apart around l) :
    (∃ f, l.fresh ≤ f ∧ t.go l = some (t.result around.length, { l with fresh := f })) ∧
      ∀ m ∈ t.tell around l, m.locks.Around m.around := by
  induction t generalizing l around with
  | done result =>
    refine ⟨⟨l.fresh, Nat.le_refl _, rfl⟩, fun m hm => ?_⟩
    obtain rfl := List.mem_singleton.1 hm
    exact h
  | look next ih =>
    obtain ⟨hgo, htell⟩ := ih l.active h ht
    rw [h.active_eq] at hgo
    refine ⟨?_, fun m hm => ?_⟩
    · rwa [go, result, h.active_eq]
    · rcases List.mem_cons.1 hm with rfl | hm
      · exact h
      · exact htell m hm
  | hold key body next ihb ihn =>
    simp only [Apart] at ht
    obtain ⟨hk, hbody, hnext⟩ := ht
    obtain ⟨⟨f, hf, hgo⟩, htell⟩ := ihb (h.inside hk) hbody
    rw [List.length_append, List.length_singleton] at hgo
    have hcall := h.holding? hk hgo
    have hfresh : l.fresh ≤ f := by
      rw [inside_new (h.get?_eq_none hk)] at hf
      exact Nat.le_of_lt hf
    obtain ⟨⟨f', hf', hgo'⟩, htell'⟩ := ihn _ (h.renumbered hfresh) (hnext _ hcall)
    refine ⟨⟨f', Nat.le_trans hfresh hf', ?_⟩, fun m hm => ?_⟩
    · simp only [go, hcall, result]
      exact hgo'
    · simp only [tell, hcall, List.cons_append, List.mem_cons, List.mem_append] at hm
      rcases hm with rfl | hm | hm
      · exact h
      · exact htell m hm
      · exact htell' m hm

/-- **Calls inside calls are balanced.** If no call is for the key of a call around it, a nesting
never waits, whatever breaks down in it and wherever that is caught. Every call gives what its body
gives, value or breakdown. At every moment, before and after each call as well as in the bodies, as
many keys are in use as there are calls around, and exactly the keys of these can not be locked. In
the end no key is in use, and every key can be locked again. -/
theorem nested_calls_balanced {ε α : Type} (t : Nesting ε α) (h : t.Apart [] .empty) :
    (∃ l, t.go .empty = some (t.result 0, l) ∧ l.active = 0 ∧ ∀ key, l.Lockable key) ∧
    ∀ m ∈ t.tell [] .empty, m.locks.active = m.around.length ∧
      ∀ key, m.locks.Lockable key ↔ key ∉ m.around := by
  obtain ⟨⟨f, hf, hgo⟩, htell⟩ := t.runs .empty h
  have hend : Around { Locks.empty with fresh := f } [] := Around.empty.renumbered hf
  refine ⟨⟨_, hgo, hend.active_eq, fun key => hend.lockable_iff.2 nofun⟩, fun m hm => ?_⟩
  exact ⟨(htell m hm).active_eq, fun key => (htell m hm).lockable_iff⟩

/-- The innermost of three calls breaks down. The second does not catch it, but the first does, and
it locks the key again. -/
def caught : Nesting String Nat :=
  let broken : Nesting String Nat := .hold ⟨"Orders", ⟨"c"⟩⟩ (.done (.error "blew up")) .done
  let again : Nesting String Nat := .hold ⟨"Orders", ⟨"c"⟩⟩ (.look fun n => .done (.ok n)) .done
  .hold ⟨"Orders", ⟨"a"⟩⟩ (.hold ⟨"Orders", ⟨"b"⟩⟩ broken fun _ => again) .done

theorem caught_balanced : ∃ l, caught.go .empty = some (.ok 2, l) ∧ l.active = 0 := by
  have h : caught.Apart [] .empty := by decide +kernel
  obtain ⟨⟨l, hgo, hactive, -⟩, -⟩ := nested_calls_balanced caught h
  exact ⟨l, hgo, hactive⟩

end Nesting

end Locks

end Saga
