import Idkernel.CapabilityCalls
import Idkernel.ContextCalls
import Idkernel.FileCalls
import Idkernel.MemoryCalls

/-!
# The dispatcher, the boot sequence and the running kernel

One step of the machine is one syscall of the running task, the first
instructions of a new task, or one turn of the idle loop. A panic halts the
kernel, so it has no next state.
-/
namespace Idkernel

open Address Traced Locks

variable {pg : Paging} {ε : Type}

/-- The calls that have a handler of their own, with the arguments it is given. -/
inductive Handler where
  | clone (capHandle : Nat)
  | inspect (what index : Nat)
  | restrict (handle a b : Nat)
  | cdrop (handle : Nat)
  | processShareTransfer (proc capHandle : Nat) (transfer : Bool)
  | spawn
  | exec (procId fd : Nat)
  | openPath (pathPtr pathLen mode : Nat)
  | seek (fd index : Nat)
  | read (fd pos length : Nat)
  | close (fd : Nat)
  | mapVirt (pos len perms : Nat)
  | mapPhys (virtAt virtLen perms physAt : Nat)
  deriving DecidableEq, Repr

/-- The registers a successful call writes besides `rax`. -/
structure Reply where
  rdi : Option Nat := none
  rsi : Option Nat := none
  deriving DecidableEq, Repr

def Handler.call (env : Env pg) : Handler → KernelM pg SyscallError Reply
  | .clone capHandle => do return { rdi := some (← CapCall.clone env capHandle) }
  | .inspect what index => do
    let (x, y) ← CapCall.inspect what index
    return { rdi := some x, rsi := some y }
  | .restrict handle a b => do CapCall.restrict handle a b; return {}
  | .cdrop handle => do CapCall.cdrop handle; return {}
  | .processShareTransfer proc capHandle transfer => do
    CapCall.processShareTransfer env proc capHandle transfer
    return {}
  | .spawn => do return { rdi := some (← ProcCall.spawn env).raw }
  | .exec procId fd => do ProcCall.exec env procId fd; return {}
  | .openPath pathPtr pathLen mode => do
    return { rdi := some (← FileCall.openPath env pathPtr pathLen mode).raw }
  | .seek fd index => do FileCall.seek fd index; return {}
  | .read fd pos length => do return { rdi := some (← FileCall.read env fd pos length).length }
  | .close fd => do FileCall.close fd; return {}
  | .mapVirt pos len perms => do MemoryCall.mapVirt env pos len perms; return {}
  | .mapPhys virtAt virtLen perms physAt => do
    MemoryCall.mapPhys env virtAt virtLen perms physAt
    return {}

/-- Marking the running task before its last switch. -/
def markDying : KernelM pg ε Unit := do
  let t ← currentTask
  withGuard (.task t) .write do
    let task ← getTask t
    setTask t { task with state := .dying }

/-- What a syscall number asks for, with the arguments in their registers. -/
inductive Service where
  | exit
  | yield
  | mypid
  | unmap
  | handler : Handler → Service
  | unknown
  deriving DecidableEq, Repr

def SyscallCode.service (code : SyscallCode) (a b c d : Nat) : Service :=
  match code with
  | .exit => .exit
  | .yield => .yield
  | .fsOpen => .handler (.openPath a b c)
  | .fsHandleSeek => .handler (.seek a b)
  | .fsHandleRead => .handler (.read a b c)
  | .fsHandleClose => .handler (.close a)
  | .capabilityClone => .handler (.clone a)
  | .capabilityInspect => .handler (.inspect a b)
  | .capabilityRestrict => .handler (.restrict a b c)
  | .capabilityDrop => .handler (.cdrop a)
  | .processMyPid => .mypid
  | .processSpawn => .handler .spawn
  | .processCapShare => .handler (.processShareTransfer a b false)
  | .processCapTransfer => .handler (.processShareTransfer a b true)
  | .processExec => .handler (.exec a b)
  | .memoryMapVirt => .handler (.mapVirt a b c)
  | .memoryMapPhys => .handler (.mapPhys a b c d)
  | .memoryUnmap => .unmap
  | _ => .unknown

def Service.call (env : Env pg) : Service → KernelM pg SyscallError Reply
  | .exit => do
    markDying
    let _ ← switchToNextTask
    return {}
  | .yield => do
    let _ ← switchToNextTask
    return {}
  | .mypid => do return { rdi := some (← ProcCall.mypid).raw }
  | .unmap => return {}
  | .handler h => h.call env
  | .unknown => Comp.fail .unknownSyscall

def AllSavedRegisters.service (regs : AllSavedRegisters) : Service :=
  match SyscallCode.tryFrom regs.rax.toNat with
  | none => .unknown
  | some code => code.service regs.rdi.toNat regs.rsi.toNat regs.rdx.toNat regs.r10.toNat

/-- An error changes no register but `rax`. -/
def AllSavedRegisters.answer (regs : AllSavedRegisters) : Except SyscallError Reply → AllSavedRegisters
  | .ok reply => { regs with
      rax := 0
      rdi := (reply.rdi.map UInt64.ofNat).getD regs.rdi
      rsi := (reply.rsi.map UInt64.ofNat).getD regs.rsi }
  | .error e => { regs with rax := UInt64.ofNat e.code }

def onSymcall1 (env : Env pg) (regs : AllSavedRegisters) : KernelM pg ε AllSavedRegisters := do
  let result ← Comp.attempt (regs.service.call env)
  return regs.answer result

/-! ## Boot -/

/-- The first thing the first process runs, in kernel mode. -/
def startInitproc (env : Env pg) (initDir : InitDir) : KernelM pg ε VirtAddr := do
  let entry ← Comp.unwrap ((initDir.find? fun x => x.1 = "initproc".toList).map fun x => x.2)
  match entry with
  | .folder _ => Comp.abort
  | .file bytes =>
    let elf ← Comp.unwrap (Elf.new bytes).toOption
    let c ← currentTask
    withGuard (.task c) .write do
      TaskContext.loadElf env c elf
      let ctx ← getTask c
      return ctx.userEntryPoint

/-- The first thing every other task runs. -/
def jmpUserspace : KernelM pg ε VirtAddr := do
  let c ← currentTask
  withGuard (.task c) .read do
    let ctx ← getTask c
    return ctx.userEntryPoint

def ProcRootFs.mount (fs : ProcRootFs) (name : Str) (pathHandle : PathHandle) : ProcRootFs :=
  { fs with mounts := fs.mounts ++ [(name, pathHandle)] }

/-- What the statics hold before `run_executor`. -/
def Kernel.initial (pg : Paging) (frames : pg.Frames) (memory : Memory) : Kernel pg where
  tasks := ∅
  executableTasks := []
  taskId := none
  taskSwitchLocks := none
  nextPid := 2
  roots := ∅
  frames := frames
  memory := memory

/-- The source gives the first process the empty storage. `granted` stands for any other
initial assignment, since capabilities only ever come from others. -/
def runExecutor (env : Env pg) (table : pg.Table) (initDir : InitDir) (granted : TaskCapabilityStorage) :
    KernelM pg ε Unit := do
  Comp.write fun k => { k with roots := k.roots.insert initId ⟨initId, []⟩ }
  withGuard .registry .write (TaskRegistry.add (TaskContext.createInit table))
  setCurrentTaskId initId
  let ⟨ctxId, ctx⟩ ← TaskContext.create env initId
  withGuard (.rootFs ctxId) .write do
    let root ← getRoot ctxId
    let mounted := root.mount "init".toList (.initFs (.fromInitDir initDir "init".toList))
    Comp.write fun k => { k with roots := k.roots.insert ctxId mounted }
  withGuard .registry .write do
    let ctx : TaskContext pg ctxId := { ctx with capabilities := granted }
    TaskRegistry.add ctx
    TaskRegistry.queueForExecution ctxId

/-! ## The machine -/

/-- What can happen next on the CPU. -/
inductive Label (pg : Paging) where
  | idle
  | startInitproc : Env pg → InitDir → Label pg
  | jmpUserspace
  | syscall : Env pg → AllSavedRegisters → Label pg

def initprocId : TaskId := ⟨2, Nat.two_pos⟩

def settle {α : Type} (m : KernelM pg Empty α) (k : Kernel pg) : Option (Kernel pg) :=
  match (m k).outcome with
  | .ok _ => some (m k).state
  | .panic => none

/-- The first task only ever runs the idle loop; every other one runs user code. -/
def kernelStep (k : Kernel pg) : Label pg → Option (Kernel pg)
  | .idle => if k.taskId = some initId then settle switchToNextTask k else none
  | .startInitproc env initDir =>
    if k.taskId = some initprocId then settle (startInitproc env initDir) k else none
  | .jmpUserspace =>
    if k.taskId = some initId ∨ k.taskId = some initprocId then none else settle jmpUserspace k
  | .syscall env regs => if k.taskId = some initId then none else settle (onSymcall1 env regs) k

end Idkernel
