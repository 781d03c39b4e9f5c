import Saga.Event

/-!
# A record beside a state

Whoever acts on a state can be made to write down what he does: he acts on the state with a record
beside it and adds what came of it (`Recorded.act`). Events go to the journal of the state.
-/

set_option autoImplicit false

namespace Saga

/-- A state with a record of what was done. -/
structure Recorded (ι σ : Type) where
  log : List ι
  state : σ

namespace Recorded

variable {ι σ β : Type}

instance [Journal σ] : Journal (Recorded ι σ) :=
  ⟨fun event w => { w with state := Journal.note event w.state }⟩

@[simp] theorem note_eq [Journal σ] (event : Event) (w : Recorded ι σ) :
    Journal.note event w = { w with state := Journal.note event w.state } := rfl

/-- Acts on the state, and writes down what came of it. -/
def act (f : σ → β × σ) (write : β → List ι) (w : Recorded ι σ) : β × Recorded ι σ :=
  let (b, s) := f w.state
  (b, ⟨w.log ++ write b, s⟩)

@[simp] theorem act_eq (f : σ → β × σ) (write : β → List ι) (w : Recorded ι σ) :
    act f write w = ((f w.state).1, ⟨w.log ++ write (f w.state).1, (f w.state).2⟩) := rfl

end Recorded

end Saga
