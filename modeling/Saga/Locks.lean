import Saga.ActionId
import Saga.Table

/-!
# Locks by key

Mutual exclusion per invocation key. The map holds a cell for a key while some caller is at it; a
cell counts its references, one from the map and one from each caller. A call goes through the
atomic steps `attach`, `acquire`, its body, `release`, `retire`, `detach`, and callers may come
between each other's steps. `holding` is the call of a caller whom nobody else meets.
-/

set_option autoImplicit false

namespace Saga

/-- One lock. -/
structure LockCell where
  /-- The references to the cell: the map's and the callers'. -/
  refs : Nat
  held : Bool
  deriving DecidableEq, Repr

/-- A lock for each key that somebody is at. -/
structure Locks where
  /-- The number of the cell that the map has for a key. -/
  entries : Table CallKey Nat
  cells : Table Nat LockCell
  /-- No cell has had this number or a later one. -/
  fresh : Nat

namespace Locks

def empty : Locks := ⟨∅, ∅, 0⟩

instance : Inhabited Locks := ⟨empty⟩

def active (l : Locks) : Nat := l.entries.size

/-- Gives one reference to the cell `n` back; a cell without references is gone. -/
def drop (l : Locks) (n : Nat) : Locks :=
  match l.cells.get? n with
  | some c =>
    if c.refs ≤ 1 then { l with cells := l.cells.erase n }
    else { l with cells := l.cells.insert n { c with refs := c.refs - 1 } }
  | none => l

/-- Finds or makes the cell for the key and takes a reference to it. -/
def attach (l : Locks) (key : CallKey) : Nat × Locks :=
  match l.entries.get? key with
  | some n => (n, { l with cells := l.cells.modify n fun c => { c with refs := c.refs + 1 } })
  | none =>
    (l.fresh, ⟨l.entries.insert key l.fresh, l.cells.insert l.fresh ⟨2, false⟩, l.fresh + 1⟩)

/-- Does nobody hold the cell `n`? -/
def isFree (l : Locks) (n : Nat) : Bool :=
  match l.cells.get? n with
  | some c => !c.held
  | none => true

/-- Takes the lock of the cell `n`; a caller does so only when it is free. -/
def acquire (l : Locks) (n : Nat) : Locks :=
  { l with cells := l.cells.modify n fun c => { c with held := true } }

def release (l : Locks) (n : Nat) : Locks :=
  { l with cells := l.cells.modify n fun c => { c with held := false } }

/-- Takes the key out of the map if only the map and the caller refer to the caller's cell. -/
def retire (l : Locks) (key : CallKey) (n : Nat) : Locks :=
  match l.cells.get? n, l.entries.get? key with
  | some c, some m => if c.refs = 2 then { l with entries := l.entries.erase key }.drop m else l
  | _, _ => l

/-- Gives the caller's reference back. -/
def detach (l : Locks) (n : Nat) : Locks := l.drop n

/-- Runs `body` while holding the lock of `key`. -/
def holding {α : Type} (l : Locks) (key : CallKey)
    (body : Locks → α × Locks) : α × Locks :=
  let (n, l) := l.attach key
  let (a, l) := body (l.acquire n)
  (a, ((l.release n).retire key n).detach n)

end Locks

end Saga
