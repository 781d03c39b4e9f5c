import Saga.ActionId
import Saga.Answer
import Saga.Config
import Saga.Context.Chain
import Saga.Context.Frame
import Saga.Context.Headers
import Saga.Coordinator
import Saga.Coordinator.Ending
import Saga.Coordinator.Service
import Saga.Engine
import Saga.Error
import Saga.Event
import Saga.Json.Decode
import Saga.Json.Value
import Saga.Links
import Saga.Locks
import Saga.Orchestrator
import Saga.Participant
import Saga.Pending
import Saga.Proofs.Context.Chains
import Saga.Proofs.Context.Codec
import Saga.Proofs.Context.Hops
import Saga.Proofs.Context.Isolation
import Saga.Proofs.Context.Lifetime
import Saga.Proofs.Context.Requests
import Saga.Proofs.Context.Stamping
import Saga.Proofs.Coordinator.Advertised
import Saga.Proofs.Coordinator.Asking
import Saga.Proofs.Coordinator.Calm
import Saga.Proofs.Coordinator.Detached
import Saga.Proofs.Coordinator.Floor
import Saga.Proofs.Coordinator.Later
import Saga.Proofs.Coordinator.Lineage
import Saga.Proofs.Coordinator.Office
import Saga.Proofs.Coordinator.OneDirection
import Saga.Proofs.Coordinator.Outcome
import Saga.Proofs.Coordinator.Recovery
import Saga.Proofs.Coordinator.Refusals
import Saga.Proofs.Coordinator.StatusMachine
import Saga.Proofs.Coordinator.Unfinished
import Saga.Proofs.Coordinator.Verdict
import Saga.Proofs.Discovery
import Saga.Proofs.Engine.Aspect
import Saga.Proofs.Engine.DeclaredKinds
import Saga.Proofs.Engine.DeferredLifecycle
import Saga.Proofs.Engine.DeskOrder
import Saga.Proofs.Engine.Filing
import Saga.Proofs.Engine.Handles
import Saga.Proofs.Engine.Handover
import Saga.Proofs.Engine.Ledger
import Saga.Proofs.Engine.Log
import Saga.Proofs.Engine.Polling
import Saga.Proofs.Engine.Producers
import Saga.Proofs.Engine.Run
import Saga.Proofs.Engine.Separation
import Saga.Proofs.Engine.Serving
import Saga.Proofs.Engine.TakenAnswers
import Saga.Proofs.Engine.Watched
import Saga.Proofs.Links.CallbackUrl
import Saga.Proofs.Links.Entries
import Saga.Proofs.Links.Header
import Saga.Proofs.Locks.Cells
import Saga.Proofs.Locks.Contention
import Saga.Proofs.Locks.Exclusion
import Saga.Proofs.Locks.LeftBehind
import Saga.Proofs.Locks.Nesting
import Saga.Proofs.Occurrences
import Saga.Proofs.Orchestrator.Acts
import Saga.Proofs.Orchestrator.CallerChain
import Saga.Proofs.Orchestrator.Course
import Saga.Proofs.Orchestrator.EndToEnd
import Saga.Proofs.Orchestrator.EngineCalls
import Saga.Proofs.Orchestrator.Nested
import Saga.Proofs.Participants
import Saga.Proofs.Parties
import Saga.Proofs.Record
import Saga.Proofs.Replay
import Saga.Proofs.Texts
import Saga.Proofs.Validation
import Saga.Registry
import Saga.Rehearsal.Bench
import Saga.Rehearsal.Locking
import Saga.Rehearsal.Play
import Saga.Rehearsal.Script
import Saga.Rehearsal.Step
import Saga.Rehearsal.Thread
import Saga.Rehearsal.World
import Saga.Signature
import Saga.Status
import Saga.Table
import Saga.Termination
import Saga.Text.Blank
import Saga.Text.Percent
import Saga.Text.Printable
import Saga.Text.Quoted
