import ManagedCalls.Stateful
import ManagedCalls.Text.Invisible
import ManagedCalls.Text.Shown
import ManagedCalls.Blob.Bytes
import ManagedCalls.Blob.Cursor
import ManagedCalls.Blob.Compressed
import ManagedCalls.Token
import ManagedCalls.Table
import ManagedCalls.Signature
import ManagedCalls.Signature.Parts
import ManagedCalls.Signature.Text
import ManagedCalls.Signature.Decode
import ManagedCalls.Signature.Encode
import ManagedCalls.Method
import ManagedCalls.Assembly
import ManagedCalls.Float.Binary
import ManagedCalls.Float.Shortest
import ManagedCalls.Float.Text
import ManagedCalls.Value
import ManagedCalls.Fault
import ManagedCalls.Event
import ManagedCalls.Config
import ManagedCalls.Storage.Conversion
import ManagedCalls.Storage.Pool
import ManagedCalls.Storage.Slot
import ManagedCalls.Loading.Domain
import ManagedCalls.Thread.Frame
import ManagedCalls.Thread
import ManagedCalls.Machine
import ManagedCalls.Transition.Resolve
import ManagedCalls.Transition.Native
import ManagedCalls.Transition.Activate
import ManagedCalls.Transition
import ManagedCalls.Scheduler
import ManagedCalls.Thread.Text
import ManagedCalls.Interpreter.Instruction
import ManagedCalls.Interpreter.Script
import ManagedCalls.Interpreter.Context
import ManagedCalls.Session
import ManagedCalls.Proofs.TypeBudget
import ManagedCalls.Proofs.ReadingBack
import ManagedCalls.Proofs.SignatureRoundTrip
import ManagedCalls.Proofs.NestingLimit
import ManagedCalls.Proofs.PoolGrowth
import ManagedCalls.Proofs.PoolAccounting
import ManagedCalls.Proofs.Materialization
import ManagedCalls.Proofs.TransitionRules
import ManagedCalls.Proofs.DomainActions
import ManagedCalls.Proofs.HostActions
import ManagedCalls.Proofs.ThreadActions
import ManagedCalls.Proofs.FrameInvariants
import ManagedCalls.Proofs.InterpreterDiscipline
import ManagedCalls.Proofs.ErrorAtomicity
import ManagedCalls.Proofs.Fleet
import ManagedCalls.Proofs.SlotOwnership
import ManagedCalls.Proofs.FrameIsolation
import ManagedCalls.Proofs.LoadHistory
import ManagedCalls.Proofs.LoadSharing
import ManagedCalls.Proofs.TurnHistory
import ManagedCalls.Proofs.Roster
import ManagedCalls.Proofs.Rotation
import ManagedCalls.Proofs.AbortedThreads
import ManagedCalls.Proofs.CollectedLoads
import ManagedCalls.Proofs.LogBlindness
import ManagedCalls.Proofs.TransitionLimit
import ManagedCalls.Proofs.RepeatedCollection
import ManagedCalls.Proofs.ReentrantHosts
import ManagedCalls.Proofs.CallDepth
import ManagedCalls.Proofs.LoadPaths
import ManagedCalls.Proofs.Renaming
import ManagedCalls.Proofs.HostSight
import ManagedCalls.Proofs.Lockstep
import ManagedCalls.Proofs.ScheduleIndependence
import ManagedCalls.Proofs.StorageTables
import ManagedCalls.Proofs.StorageConversion
import ManagedCalls.Proofs.StaleHandles
import ManagedCalls.Proofs.Activation
import ManagedCalls.Proofs.Resolution
import ManagedCalls.Proofs.NativeInvocation
import ManagedCalls.Proofs.LifeActions
import ManagedCalls.Proofs.SlotVariables
import ManagedCalls.Proofs.ConsumedBytes
import ManagedCalls.Proofs.SignatureForms
import ManagedCalls.Proofs.SignatureArity
import ManagedCalls.Proofs.TypeTokens
import ManagedCalls.Proofs.MethodHeaders
import ManagedCalls.Proofs.RunComposition
import ManagedCalls.Proofs.CursorPlaces
import ManagedCalls.Proofs.CursorSafety
import ManagedCalls.Proofs.CompressedNumbers
import ManagedCalls.Proofs.EngineProgress
import ManagedCalls.Proofs.MethodRows
