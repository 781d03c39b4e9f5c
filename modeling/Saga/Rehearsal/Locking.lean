import Saga.Locks
import Saga.Rehearsal.Script

/-!
# Rehearsals of locking

Calls under locks by key, one inside the other. The body of a call runs the calls inside it, each
of which catches its own breakdown, and then yields a value or breaks down.
-/

set_option autoImplicit false

namespace Saga.Rehearsal

/-- A step of a locking rehearsal. -/
inductive LockStep (V : Type) where
  | lock (key : CallKey) (body : List (LockStep V)) (value : V) (breakdown : Option String)
  /-- A number of callers at one key of a lock set of their own. -/
  | contend (callers : Nat) (key : CallKey)

/-- What a locking rehearsal shows. -/
inductive LockEvent (V : Type) where
  | entered (path : Path) (key : CallKey) (active : Nat)
  | left (path : Path) (result : Except String V) (active : Nat)
  | contended (path : Path) (most total : Nat)

/-- The callers at one key, one after the other: the largest number inside at once, and the number
of bodies that ran. -/
def crowd (key : CallKey) : Nat → Locks → Nat × Nat
  | 0, _ => (0, 0)
  | n + 1, l =>
    let (inside, l) := l.holding key fun l => (1, l)
    let (most, total) := crowd key n l
    (Nat.max inside most, total + inside)

/-- The trace of a rehearsal, the latest entry first, and the locks. -/
abbrev LockRun (V : Type) := List (LockEvent V) × Locks

variable {V : Type}

mutual
/-- Plays a step at its place. -/
def LockStep.play (path : Path) : LockStep V → LockRun V → LockRun V
  | .lock key body value breakdown, (trace, locks) =>
    let (trace, locks) := locks.holding key fun locks =>
      LockStep.playAll path 0 body (.entered path key locks.active :: trace, locks)
    let result : Except String V :=
      match breakdown with
      | some text => .error text
      | none => .ok value
    (.left path result locks.active :: trace, locks)
  | .contend callers key, (trace, locks) =>
    let (most, total) := crowd key callers .empty
    (.contended path most total :: trace, locks)
/-- Plays steps one after the other; the first has the number `i` among those around it. -/
def LockStep.playAll (path : Path) (i : Nat) : List (LockStep V) → LockRun V → LockRun V
  | [], run => run
  | step :: steps, run => LockStep.playAll path (i + 1) steps (step.play (i :: path) run)
end

/-- Plays steps on locks that nobody is at; gives the trace and the number of keys held at the
end. -/
def playLocks (steps : List (LockStep V)) : List (LockEvent V) × Nat :=
  let (trace, locks) := LockStep.playAll [] 0 steps ([], .empty)
  (trace.reverse, locks.active)

end Saga.Rehearsal
