import ManagedCalls.Scheduler

/-!
The one-line texts of frames, threads, contexts and schedulers.
-/

namespace ManagedCalls

variable {κ : Type}

def Frame.shown (nameOf : Nat → String) (f : Frame κ) : String :=
  Shown.partialRecord "CallFrame"
    [("id", Shown.tuple "FrameId" [toString f.id]), ("method", f.method.shown),
      ("state", f.phase.name), ("calling_assembly", Shown.quoted (nameOf f.calling)),
      ("executing_assembly", Shown.option (f.executing.map fun a => Shown.quoted (nameOf a))),
      ("ip", toString f.ip), ("arguments", Shown.list (f.arguments.map Slot.shown)),
      ("locals", Shown.list (f.locals.map Slot.shown)), ("stack_base", toString f.stackBase)]

def Thread.shown (nameOf : Nat → String) (t : Thread κ) : String :=
  Shown.partialRecord "Thread"
    [("id", Shown.tuple "ThreadId" [toString t.id]),
      ("frames", Shown.list (t.frames.reverse.map (Frame.shown nameOf))),
      ("operand_stack", Shown.list (t.operands.reverse.map Value.shown))]

/-- The text of a context with the domain it works on. -/
def Context.shown (ctx : Context κ) (d : Domain) : String :=
  Shown.partialRecord "ExecutionContext" [("domain", d.shown), ("config", ctx.config.shown)]

def World.shown (ctx : Context κ) (w : World κ) : String :=
  let nameOf := fun n => (ctx.program.assembly n).name
  Shown.record "ThreadScheduler"
    [("context", ctx.shown w.domain),
      ("threads", Shown.list (w.scheduler.threads.map (Thread.shown nameOf))),
      ("finished", Shown.list (w.scheduler.finished.map (Thread.shown nameOf))),
      ("ticks", toString w.scheduler.ticks)]

end ManagedCalls
