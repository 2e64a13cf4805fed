import Idkernel.Kernel

/-!
# Capability syscalls
-/
namespace Idkernel

open Address Traced Locks

variable {pg : Paging}

namespace CapCall

def clone (env : Env pg) (capHandle : CapabilityHandle) : KernelM pg SyscallError CapabilityHandle := do
  let t ← currentTask
  withGuard (.task t) .write do
    let task ← getTask t
    let cap ← Comp.okOr (task.capabilities.get capHandle) .wrongCapability
    Comp.require (cap.perms.contains .DUPLICATE = true) .wrongCapabilityPerms
    let (r, caps) ← Comp.unwrap (task.capabilities.insert env.arith env.tryReserve cap)
    setTask t { task with capabilities := caps }
    Comp.ofExcept r

def inspect (what index : Nat) : KernelM pg SyscallError (Nat × Nat) := do
  let t ← currentTask
  withGuard (.task t) .read do
    let task ← getTask t
    match what with
    | 0 => return (task.capabilities.handles.length, 0)
    | 1 =>
      Comp.okOr (task.capabilities.handles[index]?.map fun x => (x.1, x.2.ctype.capId)) .wrongParameters
    | 2 =>
      Comp.okOr ((task.capabilities.get index).map fun x => (x.perms.bits.toNat, x.ctype.capId))
        .wrongCapability
    | _ => Comp.fail .wrongParameters

def restrict (handle : CapabilityHandle) (a b : Nat) : KernelM pg SyscallError Unit := do
  let t ← currentTask
  withGuard (.task t) .write do
    let task ← getTask t
    let (cap, put) ← Comp.okOr (task.capabilities.getMut handle) .wrongCapability
    match cap.ctype with
    | .mapPhysical start stop => do
      Comp.require (a ≤ b) .wrongParameters
      let nstart ← Comp.okOr (PhysAddr.new a) .wrongParameters
      let nstop ← Comp.okOr (PhysAddr.new b) .wrongParameters
      Comp.require (start ≤ nstart ∧ nstop ≤ stop) .wrongParameters
      setTask t { task with capabilities := put ⟨cap.perms, .mapPhysical nstart nstop⟩ }
    | .mapVirtualToRam => Comp.fail .notImplemented
    | _ => Comp.fail .wrongParameters

def cdrop (handle : CapabilityHandle) : KernelM pg SyscallError Unit := do
  let t ← currentTask
  withGuard (.task t) .write do
    let task ← getTask t
    let (r, caps) := task.capabilities.delete handle
    setTask t { task with capabilities := caps }
    let _ ← Comp.ofExcept r
    return ()

/-- Taking the capability to hand over out of the caller's storage, before the target
has been looked at. -/
def takeTransferred (capHandle : CapabilityHandle) : KernelM pg SyscallError Capability := do
  let t ← currentTask
  withGuard (.task t) .write do
    let current ← getTask t
    let (r, caps) := current.capabilities.delete capHandle
    setTask t { current with capabilities := caps }
    Comp.ofExcept r

/-- Copying the capability to share. -/
def copyShared (capHandle : CapabilityHandle) : KernelM pg SyscallError Capability := do
  let t ← currentTask
  withGuard (.task t) .read do
    let current ← getTask t
    let cap ← Comp.okOr (current.capabilities.get capHandle) .wrongCapability
    Comp.require (cap.perms.contains .SHAREABLE = true) .wrongCapabilityPerms
    return cap

/-- Giving a capability to a child. -/
def giveTo (env : Env pg) (proc : TaskId) (cap : Capability) : KernelM pg SyscallError Unit := do
  knownProcess proc
  withGuard (.task proc) .write do
    let target ← getTask proc
    let cur ← currentTaskId
    Comp.require (target.parent = some cur) .wrongProcess
    let (r, caps) ← Comp.unwrap (target.capabilities.insert env.arith env.tryReserve cap)
    setTask proc { target with capabilities := caps }
    let _ ← Comp.ofExcept r
    return ()

def processShareTransfer (env : Env pg) (proc : Nat) (capHandle : CapabilityHandle) (transfer : Bool) :
    KernelM pg SyscallError Unit := do
  let proc ← Comp.okOr (TaskId.new proc) .wrongParameters
  let cur ← currentTaskId
  Comp.require (proc ≠ cur) .wrongProcess
  let cap ← if transfer then takeTransferred capHandle else copyShared capHandle
  giveTo env proc cap

end CapCall

end Idkernel
