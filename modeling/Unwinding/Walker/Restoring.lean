import Unwinding.Cursor
import Unwinding.FrameWalker

/-!
# Walking by restoring registers

This walker follows a cursor. A frame is known by its stack pointer, the
same in both phases since the cursor starts from the same registers. Resuming
in a frame leaves its registers, with what its personality wrote, as the
landing.
-/

namespace Unwinding

variable {arch : Arch}

structure RestoringWalker (arch : Arch) where
  program : Program
  /-- The registers of the frame that raises. -/
  origin : RegisterFile arch
  cursor : Cursor arch
  context : Context
  /-- The registers to resume with, once a frame was installed. -/
  landing : Option (RegisterFile arch)

namespace RestoringWalker

def start (program : Program) (origin : RegisterFile arch) : RestoringWalker arch :=
  ⟨program, origin, Cursor.start origin, Context.blank, none⟩

def rewind (walker : RestoringWalker arch) : RestoringWalker arch :=
  { walker with cursor := Cursor.start walker.origin, context := Context.blank, landing := none }

/-- The context of a frame with these registers, in a function described by `info`. -/
def contextOf (file : RegisterFile arch) (info : ProcInfo) : Context where
  ip := file.ip
  cfa := file.sp
  lsda := info.lsda.getD 0
  regionStart := info.startIp
  argsSize := info.argsSize
  signalFrame := info.signalFrame
  registers := Vector.ofFn fun (r : Fin 64) =>
    match file.get r with
    | .ok value => .kept value
    | .error _ => .absent
  ipWritten := false

/-- Takes a step. A frame without unwind information ends the walk. -/
def advance : Cursor.Walk arch (Option (ProcInfo × RegisterFile arch)) := do
  match ← Cursor.step with
  | .endOfStack => return none
  | .stepped =>
    let some info ← Cursor.procInfo | return none
    return some (info, (← get).file)

/-- Address zero stands for no personality. -/
def personality (info : ProcInfo) : Option Word :=
  info.personality.bind fun address => if address = 0 then none else some address

def next (walker : RestoringWalker arch) :
    Except WalkError (Option WalkFrame) × RestoringWalker arch :=
  match advance walker.program walker.cursor with
  | .error error cursor => (.error (.step error), { walker with cursor })
  | .ok none cursor => (.ok none, { walker with cursor })
  | .ok (some (info, file)) cursor =>
    (.ok (some ⟨file.sp, personality info⟩),
      { walker with cursor, context := contextOf file info })

/-- The registers of a frame after the writes to its context. When the
instruction pointer was written, too, the arguments of the call are taken off
the stack. -/
def written (file : RegisterFile arch) (context : Context) :
    Except RegisterError (RegisterFile arch) := do
  let file ← context.writtenRegisters.foldlM (fun file (r, value) => file.set r value) file
  if context.ipWritten then
    let file := file.setIp context.ip
    return file.setSp (file.sp + context.argsSize)
  else return file

def install (walker : RestoringWalker arch) : Except WalkError Unit × RestoringWalker arch :=
  match written walker.cursor.file walker.context with
  | .ok file => (.ok (), { walker with landing := some file })
  | .error error => (.error (.register error), walker)

instance : FrameWalker (RestoringWalker arch) where
  rewind := rewind
  next := next
  context := (·.context)
  setContext walker context := { walker with context }
  unwoundPast walker := (.ok (), walker)
  install := install

end RestoringWalker

end Unwinding
