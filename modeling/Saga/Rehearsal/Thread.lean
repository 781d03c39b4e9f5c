import Saga.Context.Chain

/-!
# Computations that can be suspended

A thread acts on a state; it comes to its end, or is suspended with what is left of it, which then
goes on from the state of that moment. Lanes take turns: each has scopes of its own, and a turn
lasts until the lane is suspended again or at its end.
-/

set_option autoImplicit false

namespace Saga.Rehearsal

/-- A computation on a state `σ`, as far as it has come. -/
inductive Thread (σ : Type) where
  | done (state : σ)
  | suspended (state : σ) (resume : σ → Thread σ)

namespace Thread

variable {σ : Type}

/-- One computation after the other. -/
def andThen : Thread σ → (σ → Thread σ) → Thread σ
  | done s, next => next s
  | suspended s resume, next => suspended s fun s => (resume s).andThen next

/-- The state at the end, when every suspension is over at once. -/
def finish : Thread σ → σ
  | done s => s
  | suspended s resume => (resume s).finish

def suspend (s : σ) : Thread σ := suspended s done

end Thread

/-! ## Taking turns -/

/-- A computation that waits for its turn. -/
structure Lane (σ : Type) where
  scopes : Scopes
  resume : σ → Thread σ

namespace Lane

variable {σ : Type} [Located σ]

/-- A lane at its start, in a chain of its own. -/
def ofStart (start : σ → Thread σ) : Lane σ := ⟨Scopes.enter [], start⟩

/-- One turn; gives what is left of the lane. -/
def turn (lane : Lane σ) (s : σ) : Option (Lane σ) × σ :=
  let outer := Located.scopes s
  match lane.resume (Located.withScopes lane.scopes s) with
  | .done s => (none, Located.withScopes outer s)
  | .suspended s resume => (some ⟨Located.scopes s, resume⟩, Located.withScopes outer s)

/-- The turns of a schedule; numbers of lanes at their end, or of none, are passed over. -/
def turns : List Nat → List (Option (Lane σ)) → σ → List (Option (Lane σ)) × σ
  | [], lanes, s => (lanes, s)
  | i :: schedule, lanes, s =>
    match lanes[i]? with
    | some (some lane) =>
      let (lane, s) := lane.turn s
      turns schedule (lanes.set i lane) s
    | _ => turns schedule lanes s

/-- At most `n` rounds, in each of which every lane gets its turn. -/
def rounds : Nat → List (Option (Lane σ)) → σ → List (Option (Lane σ)) × σ
  | 0, lanes, s => (lanes, s)
  | n + 1, lanes, s =>
    if lanes.all Option.isNone then (lanes, s)
    else
      let (lanes, s) := turns (List.range lanes.length) lanes s
      rounds n lanes s

/-- Runs the lanes by a schedule and then, at most `n` times, in turn. -/
def run (n : Nat) (schedule : List Nat) (starts : List (σ → Thread σ)) (s : σ) : σ :=
  let (lanes, s) := turns schedule (starts.map fun start => some (ofStart start)) s
  (rounds n lanes s).2

end Lane

end Saga.Rehearsal
