import Saga.Coordinator.Ending
import Saga.Orchestrator

/-!
# The coordinator as a client sees it

The requests of orchestrators, answered by a coordinator of the same process. They act on the
system beside the rest of the state.
-/

set_option autoImplicit false

namespace Saga.System

variable {E σ : Type}

def start (sys : System E) (now : Nat) (clientId : String) (parent : Option ActionId) :
    Except RequestError ActionId × System E :=
  let (result, c) := sys.coordinator.start now clientId parent
  (result, { sys with coordinator := c })

def join (sys : System E) (id : ActionId) (header : String) (recovery data : Option String) :
    Except RequestError String × System E :=
  let (result, c) := sys.coordinator.join id header recovery data
  (result, { sys with coordinator := c })

/-- The coordinator at the time `now`; it makes nothing of time limits. -/
def client [EndingEngine E σ] [Journal σ] [Located σ] (now : Nat) : Client (System E × σ) where
  start clientId _ parent s :=
    let (result, sys) := s.1.start now clientId parent
    (result, sys, s.2)
  join id _ header recovery data s :=
    let (result, sys) := s.1.join id header recovery data
    (result, sys, s.2)
  close id s := s.1.finish now .close id s.2
  cancel id s := s.1.finish now .cancel id s.2

end Saga.System
