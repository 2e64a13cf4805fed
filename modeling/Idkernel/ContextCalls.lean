import Idkernel.Kernel

/-!
# Process syscalls and the switch between tasks
-/
namespace Idkernel

open Address Traced Locks

variable {pg : Paging} {ε : Type}

namespace ProcCall

def mypid : KernelM pg SyscallError TaskId := currentTaskId

/-- The caller's guard lives to the end of the function, so the registry adds the child,
and locks the child's parent, while the parent's own lock is still held. -/
def spawn (env : Env pg) : KernelM pg SyscallError TaskId := do
  let t ← currentTask
  withGuard (.task t) .write do
    let task ← getTask t
    Comp.require (∃ x ∈ task.capabilities.handles, x.2.ctype = .processSpawn) .wrongCapability
    let cur ← currentTaskId
    let ⟨childId, child⟩ ← TaskContext.create env cur
    withGuard .registry .write (TaskRegistry.add child)
    return childId

/-- `find` by descriptor number, and the table with that handle replaced. -/
def findHandle (files : TaskFileStorage) (fd : Nat) :
    Option (FileHandle × (FileHandle → TaskFileStorage)) := do
  let index ← files.handles.findIdx? fun x => x.1.raw = fd
  let entry ← files.handles[index]?
  return (entry.2, fun h => { files with handles := files.handles.set index (entry.1, h) })

/-- The part of `exec` that runs with the child locked. -/
def execChild (env : Env pg) (procId : TaskId) (fd : Nat) : KernelM pg SyscallError Unit := do
  let proc ← getTask procId
  let cur ← currentTaskId
  Comp.require (proc.parent = some cur) .wrongProcess
  Comp.require (proc.userEntryPoint = .zero) .wrongProcess
  let c ← currentTask
  withGuard (.task c) .write do
    let curr ← getTask c
    let (handle, put) ← Comp.okOr (findHandle curr.files fd) .wrongDescriptor
    let (file, handle') ← Comp.unwrap (env.readFileToMemory handle)
    setTask c { curr with files := put handle' }
    let file ← Comp.ofExcept file
    let elf ← Comp.mapErr (fun _ => .fsNotExecutable) (Comp.ofExcept (Elf.new file))
    TaskContext.loadElf env procId elf
    withGuard .registry .write (TaskRegistry.queueForExecution proc.id)

def exec (env : Env pg) (procId fd : Nat) : KernelM pg SyscallError Unit := do
  let procId ← Comp.okOr (TaskId.new procId) .wrongParameters
  knownProcess procId
  withGuard (.task procId) .write (execChild env procId fd)

end ProcCall

/-! ## Switching -/

/-- Runs on the stack of the task switched to, with both tasks' locks still held from
before the switch. -/
def afterTaskSwitch : KernelM pg ε Unit := do
  let arcs ← Comp.read fun k => k.taskSwitchLocks
  Comp.write fun k => { k with taskSwitchLocks := none }
  let (farc, tarc) ← Comp.unwrap arcs
  let farc2 ← getTask farc
  if farc2.state = .dying then
    withGuard .registry .write (TaskRegistry.remove farc2.id)
    Comp.emit (.release (.task farc) .write)
    Comp.emit (.release (.task tarc) .write)
    -- the last pointer to the removed task goes away
    withGuard .frameAllocator .write
      (Comp.write fun k => { k with frames := pg.dropTable farc2.pageTable k.frames })
  else
    Comp.emit (.release (.task farc) .write)
    Comp.emit (.release (.task tarc) .write)

/-- `push_back` of a task that still wants the CPU. -/
def requeue {id : TaskId} (start : TaskContext pg id) : KernelM pg ε Unit :=
  Comp.write fun k =>
    if start.state = .user then { k with executableTasks := k.executableTasks ++ [id] } else k

/-- The front of the queue, or the first task when the queue is empty. -/
def popNext : KernelM pg ε TaskId := do
  let next ← Comp.read fun k => k.executableTasks.head?.getD initId
  Comp.write fun k => { k with executableTasks := k.executableTasks.tail }
  return next

/-- The guards are leaked over the switch, so acquisitions and releases are not nested
scopes here. -/
def switchToNextTask : KernelM pg ε Bool := do
  Comp.emit (.acquire .registry .write)
  let start ← currentTaskId
  let _ ← getTask start
  Comp.emit (.acquire (.task start) .write)
  let startTask ← getTask start
  requeue startTask
  let next ← popNext
  if next = start then
    Comp.emit (.release (.task start) .write)
    Comp.emit (.release .registry .write)
    return false
  else
    let _ ← getTask next
    Comp.emit (.release .registry .write)
    Comp.emit (.acquire (.task next) .write)
    setCurrentTaskId next
    Comp.write fun k => { k with taskSwitchLocks := some (start, next) }
    afterTaskSwitch
    return true

end Idkernel
