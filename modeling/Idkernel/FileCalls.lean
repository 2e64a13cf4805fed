import Idkernel.ContextCalls

/-!
# File syscalls
-/
namespace Idkernel

open Address Traced Locks

variable {pg : Paging}

inductive PartialPathResult (path : Str) where
  | done : PathHandle → PartialPathResult path
  /-- A mounted handle and the rest of the path, which is shorter. -/
  | rest : PathHandle → (rem : Str) → rem.length < path.length → PartialPathResult path

/-- The walk of a process root up to its first named component. -/
def procScan (path : Str) :
    Except PathOpenError (Option (Str × { rem : Str // rem.length < path.length })) :=
  if h : path = [] then .ok none
  else
    have hlt := pathStep_shorter h
    match (pathStep path).1 with
    | .current =>
      (procScan (pathStep path).2).map fun o => o.map fun p => (p.1, ⟨p.2.1, Nat.lt_trans p.2.2 hlt⟩)
    | .parent => .error .parentingNotSupported
    | .relCh rel => .ok (some (rel, ⟨(pathStep path).2, hlt⟩))
termination_by path.length

def ProcRootFs.find (fs : ProcRootFs) (name : Str) : Option PathHandle :=
  (fs.mounts.find? fun x => x.1 = name).map fun x => x.2

def getRoot (root : TaskId) : KernelM pg ε ProcRootFs := do
  let fs ← Comp.read fun k => k.roots.lookup root
  Comp.unwrap fs

namespace PathHandle

def openDir (self : PathHandle) (path : Str) : KernelM pg PathOpenError (PartialPathResult path) :=
  match self with
  | .initFs folder => do
    let folder ← Comp.ofExcept (folder.openDir path)
    return .done (.initFs folder)
  | .procRoot root => do
    let named ← Comp.ofExcept (procScan path)
    match named with
    | none => return .done (.procRoot root)
    | some (rel, rem) =>
      withGuard (.rootFs root) .read do
        let fs ← getRoot root
        let ch ← Comp.okOr (fs.find rel) .invalidPath
        return .rest ch rem.1 rem.2

def read (self : PathHandle) : KernelM pg SyscallError FileHandle :=
  match self with
  | .initFs folder => return folder.read
  | .procRoot root =>
    withGuard (.rootFs root) .read do
      let fs ← getRoot root
      return dirNamesToHandle (fs.mounts.map fun x => x.1)

end PathHandle

def openPathFull (curr : PathHandle) (path : Str) : KernelM pg PathOpenError PathHandle := do
  let r ← curr.openDir path
  match r with
  | .done x => return x
  | .rest h rem _ => openPathFull h rem
termination_by path.length

theorem openPathFull_nil (root : TaskId) :
    (openPathFull (.procRoot root) [] : KernelM pg PathOpenError PathHandle) = pure (.procRoot root) := by
  rw [openPathFull, PathHandle.openDir, procScan]
  rfl

namespace FileCall

def FS_OPEN_WRITE : Nat := 0x2

def openPath (env : Env pg) (pathPtr pathLen mode : Nat) : KernelM pg SyscallError FileDescriptor := do
  Comp.ofExcept (checkAddrUserspace pathPtr)
  let stop ← Comp.unwrap (env.arith.add pathPtr pathLen)
  Comp.ofExcept (checkAddrUserspace stop)
  let path ← Comp.okOr (env.userString pathPtr pathLen) .stringNotUtf8
  Comp.expect (mode % 256 &&& FS_OPEN_WRITE = 0)
  let t ← currentTask
  withGuard (.task t) .write do
    let task ← getTask t
    let pathHandle ← Comp.mapErr (fun _ => .invalidPath) (openPathFull (.procRoot task.files.root) path)
    let fileHandle ← pathHandle.read
    let descriptor := task.files.nextDescriptor
    let next ← Comp.unwrap ((env.arith.add descriptor.raw 1).bind FileDescriptor.new)
    setTask t { task with files := { task.files with
      handles := task.files.handles ++ [(descriptor, fileHandle)]
      nextDescriptor := next } }
    return descriptor

def seekError : FileHandleError → SyscallError
  | .notSeekable => .fsNotSeekable
  | .seekOutOfRange => .fsSeekOutOfRange

def seek (fd index : Nat) : KernelM pg SyscallError Unit := do
  let t ← currentTask
  withGuard (.task t) .write do
    let task ← getTask t
    let (handle, put) ← Comp.okOr (ProcCall.findHandle task.files fd) .wrongDescriptor
    let handle ← Comp.mapErr seekError (Comp.ofExcept (handle.seek index))
    setTask t { task with files := put handle }

/-- The bytes are the ones written at the start of the user's buffer. -/
def read (env : Env pg) (fd pos length : Nat) : KernelM pg SyscallError (List UInt8) := do
  Comp.ofExcept (checkAddrUserspace pos)
  let stop ← Comp.unwrap (env.arith.add pos length)
  Comp.ofExcept (checkAddrUserspace stop)
  let t ← currentTask
  withGuard (.task t) .write do
    let task ← getTask t
    let (handle, put) ← Comp.okOr (ProcCall.findHandle task.files fd) .wrongDescriptor
    let (bytes, handle) ← Comp.unwrap (handle.read env.arith length)
    setTask t { task with files := put handle }
    return bytes

def close (fd : Nat) : KernelM pg SyscallError Unit := do
  let t ← currentTask
  withGuard (.task t) .write do
    let task ← getTask t
    let index ← Comp.okOr (task.files.handles.findIdx? fun x => x.1.raw = fd) .wrongDescriptor
    setTask t { task with files := { task.files with handles := task.files.handles.eraseIdx index } }

end FileCall

end Idkernel
