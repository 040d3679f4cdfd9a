import ManagedCalls.Text.Shown

/-!
Limits and policies of a machine. A limit of zero means no limit, except for the
pool's budget.
-/

namespace ManagedCalls

structure Config where
  /-- Frames on one thread; looked at when a frame is resolved. -/
  maxCallDepth : Nat := 1024
  /-- Transitions in one step, after which the thread yields. -/
  maxTransitions : Nat := 100000
  maxPoolBytes : Nat := 64 * 1024 * 1024
  /-- Whether the scheduler releases what a failed thread owned. -/
  releaseOnAbort : Bool := false
  deriving DecidableEq

def Config.shown (c : Config) : String :=
  Shown.record "ExecutionConfig"
    [("limits",
        Shown.record "ExecutionLimits"
          [("max_call_depth", toString c.maxCallDepth),
            ("max_transitions_per_step", toString c.maxTransitions)]),
      ("memory", Shown.record "MemoryConfig" [("max_pool_bytes", toString c.maxPoolBytes)]),
      ("release_on_abort", Shown.bool c.releaseOnAbort)]

end ManagedCalls
