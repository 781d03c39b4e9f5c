/-!
# Settings of an orchestrator
-/

set_option autoImplicit false

namespace Saga

/-- A span of time, in whole seconds and the nanoseconds beyond them. -/
structure Duration where
  secs : Nat
  nanos : Nat
  deriving DecidableEq, Repr

namespace Duration

def zero : Duration := ⟨0, 0⟩

def ofMillis (ms : Nat) : Duration := ⟨ms / 1000, ms % 1000 * 1000000⟩

def millis (d : Duration) : Nat := d.secs * 1000 + d.nanos / 1000000

end Duration

/-- What an orchestrator starts actions and enlists participants with. -/
structure Config where
  /-- The name under which the coordinator knows the client. -/
  clientId : String
  /-- The time limit of an action; none if it is zero. -/
  timeout : Duration
  /-- Where this service serves participant callbacks. -/
  baseUrl : String
  /-- Where participants want to be told about recovery. -/
  recoveryUrl : Option String
  deriving DecidableEq, Repr

/-- The settings that hold where none are given. -/
def Config.standard : Config := ⟨"icanact-saga-lra", .zero, "http://localhost:8080", none⟩

instance : Inhabited Config := ⟨Config.standard⟩

end Saga
