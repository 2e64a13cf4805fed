import Mathlib.Data.Finmap
import Idkernel.Capability
import Idkernel.Files
import Idkernel.Paging
import Idkernel.Elf

/-!
# Tasks, their registry and the kernel state

A task lock is named by its task's identifier, which is never given to a second
task. The identifier is an index of the context's type, so a task can only be
registered under its own. The state is what the kernel's statics and the objects
behind its shared pointers hold; saved registers and stacks are not part of it.
-/
namespace Idkernel

open Address Traced Locks

inductive TaskState where
  | sleepy | user | dying
  deriving DecidableEq, Repr

inductive PathHandle where
  | initFs : InitFsFolderHandle → PathHandle
  | procRoot : TaskId → PathHandle

structure ProcRootFs where
  proc : TaskId
  mounts : List (Str × PathHandle)

structure TaskFileStorage where
  root : TaskId
  handles : List (FileDescriptor × FileHandle)
  nextDescriptor : FileDescriptor

def TaskFileStorage.new (task : TaskId) : TaskFileStorage := ⟨task, [], ⟨1, Nat.one_pos⟩⟩

structure TaskContext (pg : Paging) (id : TaskId) where
  parent : Option TaskId
  children : List TaskId
  state : TaskState
  capabilities : TaskCapabilityStorage
  files : TaskFileStorage
  pageTable : pg.Table
  userEntryPoint : VirtAddr

def TaskContext.id {pg : Paging} {id : TaskId} (_ : TaskContext pg id) : TaskId := id

@[simp] theorem TaskContext.id_eq {pg : Paging} {id : TaskId} (task : TaskContext pg id) : task.id = id := rfl

/-- What a call meets outside the kernel's own state: the build, the allocator's
answers, the file contents and the caller's memory. -/
structure Env (pg : Paging) where
  arith : Arith
  tryReserve : Bool
  /-- The tables and stacks of a new task; `none` is a failed allocation, which panics. -/
  newTable : pg.Frames → Option (pg.Table × pg.Frames)
  readFileToMemory : FileHandle → Option (Except SyscallError (List UInt8) × FileHandle)
  /-- The string a user pointer and length denote, unless it is not UTF-8. -/
  userString : Nat → Nat → Option Str

structure Kernel (pg : Paging) where
  tasks : Finmap fun id : TaskId => TaskContext pg id
  executableTasks : List TaskId
  taskId : Option TaskId
  taskSwitchLocks : Option (TaskId × TaskId)
  nextPid : Nat
  roots : Finmap fun _ : TaskId => ProcRootFs
  frames : pg.Frames
  memory : Memory

abbrev KernelM (pg : Paging) (ε : Type) := Comp (Kernel pg) KEvent ε

variable {pg : Paging} {ε : Type}

def initId : TaskId := ⟨1, Nat.one_pos⟩

/-- Dereferencing the shared pointer of a task. -/
def getTask (id : TaskId) : KernelM pg ε (TaskContext pg id) := do
  let task ← Comp.read fun k => k.tasks.lookup id
  Comp.unwrap task

def setTask (id : TaskId) (task : TaskContext pg id) : KernelM pg ε Unit :=
  Comp.write fun k => { k with tasks := k.tasks.insert id task }

def currentTaskId : KernelM pg ε TaskId := do
  let id ← Comp.read fun k => k.taskId
  Comp.unwrap id

def setCurrentTaskId (id : TaskId) : KernelM pg ε Unit := Comp.write fun k => { k with taskId := some id }

def currentTask : KernelM pg ε TaskId :=
  withGuard .registry .read do
    let id ← currentTaskId
    let _ ← getTask id
    return id

theorem getTask_still (id : TaskId) : Comp.Still (getTask id : KernelM pg ε _) :=
  Comp.Still.bind (Comp.Still.read _) fun _ => Comp.Still.unwrap _

theorem currentTaskId_still : Comp.Still (currentTaskId : KernelM pg ε _) :=
  Comp.Still.bind (Comp.Still.read _) fun _ => Comp.Still.unwrap _

section Runs

variable {α : Type} {k : Kernel pg} {id : TaskId} {task : TaskContext pg id}

theorem getTask_ok (h : ((getTask id : KernelM pg ε _) k).outcome = .ok task) :
    k.tasks.lookup id = some task := by
  unfold getTask at h
  rw [Comp.read_bind] at h
  exact Comp.unwrap_ok h

theorem currentTaskId_ok (h : ((currentTaskId : KernelM pg ε _) k).outcome = .ok id) : k.taskId = some id := by
  unfold currentTaskId at h
  rw [Comp.read_bind] at h
  exact Comp.unwrap_ok h

theorem getTask_run (h : k.tasks.lookup id = some task) :
    (getTask id : KernelM pg ε _) k = ⟨.ok task, k, []⟩ := by
  unfold getTask
  rw [Comp.read_bind, h]
  rfl

theorem getTask_bind (h : k.tasks.lookup id = some task) (f : TaskContext pg id → KernelM pg ε α) :
    (getTask id >>= f) k = f task k := by
  rw [Comp.bind_run, getTask_run h]
  rfl

theorem getTask_missing (h : k.tasks.lookup id = none) (f : TaskContext pg id → KernelM pg ε α) :
    (getTask id >>= f) k = ⟨.panic, k, []⟩ := by
  unfold getTask
  rw [Comp.bind_assoc, Comp.read_bind, h]
  rfl

@[simp] theorem setTask_run : (setTask id task : KernelM pg ε Unit) k =
    ⟨.ok (), { k with tasks := k.tasks.insert id task }, []⟩ := rfl

@[simp] theorem setTask_bind (f : Unit → KernelM pg ε α) :
    (setTask id task >>= f) k = f () { k with tasks := k.tasks.insert id task } := rfl

theorem currentTaskId_bind (h : k.taskId = some id) (f : TaskId → KernelM pg ε α) :
    (currentTaskId >>= f) k = f id k := by
  unfold currentTaskId
  rw [Comp.bind_assoc, Comp.read_bind, h]
  rfl

theorem currentTaskId_missing (h : k.taskId = none) (f : TaskId → KernelM pg ε α) :
    (currentTaskId >>= f) k = ⟨.panic, k, []⟩ := by
  unfold currentTaskId
  rw [Comp.bind_assoc, Comp.read_bind, h]
  rfl

theorem currentTask_run (hcur : k.taskId = some id) (h : k.tasks.lookup id = some task) :
    (currentTask : KernelM pg ε _) k =
      ⟨.ok id, k, [.acquire .registry .read, .release .registry .read]⟩ := by
  unfold currentTask
  refine withGuard_ok [] ?_
  rw [currentTaskId_bind hcur, getTask_bind h]
  rfl

@[simp] theorem currentTask_state (k : Kernel pg) : ((currentTask : KernelM pg ε _) k).state = k := by
  have hstill : Comp.Still (currentTaskId >>= fun id => getTask id >>= fun _ => Comp.ret id : KernelM pg ε _) :=
    Comp.Still.bind currentTaskId_still fun id => Comp.Still.bind (getTask_still id) fun _ => Comp.Still.ret id
  exact (hstill k).1

theorem currentTask_notes (k : Kernel pg) : notes ((currentTask : KernelM pg ε _) k).events = [] := by
  have hstill : Comp.Still (currentTaskId >>= fun id => getTask id >>= fun _ => Comp.ret id : KernelM pg ε _) :=
    Comp.Still.bind currentTaskId_still fun id => Comp.Still.bind (getTask_still id) fun _ => Comp.Still.ret id
  exact (withGuard_notes _ _ _ k).trans (congrArg notes (hstill k).2)

theorem currentTask_ok (h : ((currentTask : KernelM pg ε _) k).outcome = .ok id) : k.taskId = some id := by
  obtain ⟨cur, hcur, hrest⟩ := Comp.bind_inv (withGuard_outcome _ _ _ k ▸ h)
  obtain ⟨_, _, hret⟩ := Comp.bind_inv hrest
  cases hret
  exact currentTaskId_ok hcur

theorem currentTask_missing (hcur : k.taskId = some id) (h : k.tasks.lookup id = none) :
    ((currentTask : KernelM pg ε _) k).outcome = .panic := by
  unfold currentTask
  rw [withGuard_outcome, currentTaskId_bind hcur, getTask_missing h]

theorem currentTask_bind (hcur : k.taskId = some id) (h : k.tasks.lookup id = some task)
    (f : TaskId → KernelM pg ε α) : (currentTask >>= f) k =
      (f id k).after [.acquire .registry .read, .release .registry .read] := by
  rw [Comp.bind_run, currentTask_run hcur h]

end Runs

/-- Looking a process up by its number, and keeping the shared pointer. -/
def knownProcess (id : TaskId) : KernelM pg SyscallError Unit :=
  withGuard .registry .read do
    let task ← Comp.read fun k => k.tasks.lookup id
    let _ ← Comp.okOr task .wrongProcess
    return ()

theorem knownProcess_bind {α : Type} {k : Kernel pg} {id : TaskId} {task : TaskContext pg id}
    (h : k.tasks.lookup id = some task) (f : Unit → KernelM pg SyscallError α) :
    (knownProcess id >>= f) k = (f () k).after [.acquire .registry .read, .release .registry .read] := by
  have hrun : knownProcess id k = ⟨.ok (), k, [.acquire .registry .read, .release .registry .read]⟩ := by
    refine withGuard_ok [] ?_
    rw [Comp.read_bind, h]
    rfl
  rw [Comp.bind_run, hrun]

theorem knownProcess_missing {α : Type} {k : Kernel pg} {id : TaskId} (h : k.tasks.lookup id = none)
    (f : Unit → KernelM pg SyscallError α) : (knownProcess id >>= f) k =
      ⟨.err .wrongProcess, k, [.acquire .registry .read, .release .registry .read]⟩ := by
  have hrun : knownProcess id k =
      ⟨.err .wrongProcess, k, [.acquire .registry .read, .release .registry .read]⟩ := by
    refine withGuard_err [] ?_
    rw [Comp.read_bind, h]
    rfl
  rw [Comp.bind_run, hrun]

@[simp] theorem knownProcess_state (k : Kernel pg) (id : TaskId) : (knownProcess id k).state = k :=
  (Comp.Still.bind (Comp.Still.read fun k : Kernel pg => k.tasks.lookup id) fun task =>
    Comp.Still.bind (Comp.Still.okOr task SyscallError.wrongProcess) fun _ => Comp.Still.ret () :
      Comp.Still _) k |>.1

/-- Work on the address space of a task whose context is locked. -/
def inTable {id : TaskId} (task : TaskContext pg id) (m : VmM pg ε α) : KernelM pg ε α :=
  Comp.zoom (fun k => ⟨task.pageTable, k.frames, k.memory⟩)
    (fun v k => { k with
      tasks := k.tasks.insert id { task with pageTable := v.table }
      frames := v.frames
      memory := v.memory }) m

/-- A child entered under its own identifier and in its parent's list. -/
def Kernel.adopt {id p : TaskId} (k : Kernel pg) (child : TaskContext pg id) (parent : TaskContext pg p) :
    Kernel pg :=
  { k with tasks := (k.tasks.insert id child).insert p { parent with children := parent.children ++ [id] } }

namespace TaskRegistry

def add {id : TaskId} (ctx : TaskContext pg id) : KernelM pg ε Unit := do
  let old ← Comp.read fun k => k.tasks.lookup id
  setTask id ctx
  Comp.expect (old.isNone = true)
  match ctx.parent with
  | none => return ()
  | some p => do
    let _ ← getTask p
    withGuard (.task p) .write do
      let parent ← getTask p
      setTask p { parent with children := parent.children ++ [ctx.id] }

theorem add_run {id p : TaskId} {ctx : TaskContext pg id} {parent : TaskContext pg p} {k : Kernel pg}
    (hctx : ctx.parent = some p) (hnew : k.tasks.lookup id = none) (hp : k.tasks.lookup p = some parent) :
    (add ctx k : Ran _ _ ε _) = ⟨.ok (), k.adopt ctx parent,
      [.acquire (.task p) .write, .release (.task p) .write]⟩ := by
  have hne : p ≠ id := by
    rintro rfl
    simp [hnew] at hp
  have hp' : (k.tasks.insert id ctx).lookup p = some parent := by
    rw [Finmap.lookup_insert_of_ne _ hne, hp]
  have hnone : (none : Option (TaskContext pg id)).isNone = true := rfl
  unfold add
  rw [Comp.read_bind, hnew, setTask_bind, Comp.expect_true hnone, Comp.ret_bind, hctx]
  dsimp only
  rw [getTask_bind hp']
  refine withGuard_ok [] ?_
  rw [getTask_bind hp']
  rfl

theorem add_root {id : TaskId} {ctx : TaskContext pg id} {k : Kernel pg} (hctx : ctx.parent = none)
    (hnew : k.tasks.lookup id = none) :
    (add ctx k : Ran _ _ ε _) = ⟨.ok (), { k with tasks := k.tasks.insert id ctx }, []⟩ := by
  have hnone : (none : Option (TaskContext pg id)).isNone = true := rfl
  unfold add
  rw [Comp.read_bind, hnew, setTask_bind, Comp.expect_true hnone, Comp.ret_bind, hctx]
  rfl

theorem add_panic {id : TaskId} {ctx : TaskContext pg id} {k : Kernel pg} (h : k.tasks.lookup id ≠ none) :
    (add ctx k : Ran _ _ ε _).outcome = .panic := by
  obtain ⟨old, hold⟩ := Option.ne_none_iff_exists'.mp h
  unfold add
  simp [hold, Comp.expect]

def remove (id : TaskId) : KernelM pg ε Unit := do
  let task ← Comp.read fun k => k.tasks.lookup id
  Comp.write fun k => { k with tasks := k.tasks.erase id }
  match task with
  | none => return ()
  | some task =>
    withGuard (.task id) .read do
      let parent ← Comp.read fun k => task.parent.bind fun p => (k.tasks.lookup p).map fun _ => p
      match parent with
      | none => return ()
      | some p =>
        withGuard (.task p) .write do
          let parent ← getTask p
          setTask p { parent with children := parent.children.erase task.id }

def queueForExecution (id : TaskId) : KernelM pg ε Unit :=
  Comp.write fun k => { k with executableTasks := k.executableTasks ++ [id] }

end TaskRegistry

def allocatePid : KernelM pg ε TaskId := do
  let raw ← Comp.read fun k => k.nextPid
  Comp.write fun k => { k with nextPid := (raw + 1) % 2 ^ 64 }
  Comp.expect (raw ≠ 2 ^ 64 - 1)
  Comp.unwrap (TaskId.new raw)

section Pids

variable {k : Kernel pg}

theorem allocatePid_run (hmax : k.nextPid ≠ 2 ^ 64 - 1) (hpos : 0 < k.nextPid) :
    (allocatePid : KernelM pg ε _) k =
      ⟨.ok ⟨k.nextPid, hpos⟩, { k with nextPid := (k.nextPid + 1) % 2 ^ 64 }, []⟩ := by
  have hnew : TaskId.new k.nextPid = some ⟨k.nextPid, hpos⟩ := dif_pos hpos
  unfold allocatePid
  rw [Comp.read_bind, Comp.write_bind, Comp.expect_true hmax, hnew]
  rfl

theorem allocatePid_panic (h : ¬ (k.nextPid ≠ 2 ^ 64 - 1 ∧ 0 < k.nextPid)) :
    ((allocatePid : KernelM pg ε _) k).outcome = .panic := by
  unfold allocatePid
  rw [Comp.read_bind, Comp.write_bind]
  by_cases hmax : k.nextPid ≠ 2 ^ 64 - 1
  · have hpos : ¬ 0 < k.nextPid := fun hpos => h ⟨hmax, hpos⟩
    have hnew : TaskId.new k.nextPid = none := dif_neg hpos
    rw [Comp.expect_true hmax, hnew]
    rfl
  · rw [Comp.expect_false hmax]
    rfl

end Pids

namespace TaskContext

def fresh (parent : TaskId) (id : TaskId) (table : pg.Table) : TaskContext pg id where
  parent := some parent
  children := []
  state := .user
  capabilities := .empty
  files := .new id
  pageTable := table
  userEntryPoint := .zero

/-- Mounting the new task's stack holds the frame allocator. -/
def create (env : Env pg) (parent : TaskId) : KernelM pg ε ((id : TaskId) × TaskContext pg id) := do
  let id ← allocatePid
  withGuard .frameAllocator .write do
    let made ← Comp.read fun k => env.newTable k.frames
    let (table, frames) ← Comp.unwrap made
    Comp.write fun k => { k with frames := frames, roots := k.roots.insert id ⟨id, []⟩ }
    return ⟨id, fresh parent id table⟩

end TaskContext

/-- What creating a task leaves behind before it is registered. -/
def Kernel.created (k : Kernel pg) (id : TaskId) (frames : pg.Frames) : Kernel pg :=
  { k with nextPid := (k.nextPid + 1) % 2 ^ 64, frames := frames, roots := k.roots.insert id ⟨id, []⟩ }

@[simp] theorem Kernel.created_tasks (k : Kernel pg) (id : TaskId) (frames : pg.Frames) :
    (k.created id frames).tasks = k.tasks := rfl

namespace TaskContext

/-- A task can be created as long as identifiers and memory last. -/
def CanCreate (env : Env pg) (k : Kernel pg) : Prop :=
  k.nextPid ≠ 2 ^ 64 - 1 ∧ 0 < k.nextPid ∧ (env.newTable k.frames).isSome

theorem create_run {env : Env pg} {parent id : TaskId} {k : Kernel pg} {table : pg.Table} {frames : pg.Frames}
    (hid : id.raw = k.nextPid) (hmax : k.nextPid ≠ 2 ^ 64 - 1)
    (hmade : env.newTable k.frames = some (table, frames)) :
    (create env parent k : Ran _ _ ε _) = ⟨.ok ⟨id, fresh parent id table⟩, k.created id frames,
        [.acquire .frameAllocator .write, .release .frameAllocator .write]⟩ := by
  have hpos : 0 < k.nextPid := hid ▸ id.nonzero
  obtain rfl : id = ⟨k.nextPid, hpos⟩ := TaskId.ext hid
  unfold create
  rw [Comp.bind_run, allocatePid_run hmax hpos]
  refine (after_nil _).trans (withGuard_ok [] ?_)
  rw [Comp.read_bind, hmade]
  rfl

theorem CanCreate.run {env : Env pg} {k : Kernel pg} (h : CanCreate env k) (parent : TaskId) :
    ∃ id table frames, id.raw = k.nextPid ∧ (create env parent k : Ran _ _ ε _) =
      ⟨.ok ⟨id, fresh parent id table⟩, k.created id frames,
        [.acquire .frameAllocator .write, .release .frameAllocator .write]⟩ := by
  obtain ⟨hmax, hpos, htable⟩ := h
  obtain ⟨⟨table, frames⟩, hmade⟩ := Option.isSome_iff_exists.mp htable
  exact ⟨⟨k.nextPid, hpos⟩, table, frames, rfl, create_run rfl hmax hmade⟩

theorem create_panic {env : Env pg} {parent : TaskId} {k : Kernel pg} (h : ¬ CanCreate env k) :
    (create env parent k : Ran _ _ ε _).outcome = .panic := by
  unfold create
  rw [Comp.bind_outcome]
  by_cases hpid : k.nextPid ≠ 2 ^ 64 - 1 ∧ 0 < k.nextPid
  · have hnone : env.newTable k.frames = none :=
      Option.not_isSome_iff_eq_none.mp fun htable => h ⟨hpid.1, hpid.2, htable⟩
    rw [allocatePid_run hpid.1 hpid.2]
    dsimp only
    rw [withGuard_outcome, Comp.read_bind, hnone]
    rfl
  · rw [allocatePid_panic hpid]

def createInit (table : pg.Table) : TaskContext pg initId where
  parent := none
  children := []
  state := .sleepy
  capabilities := .empty
  files := .new initId
  pageTable := table
  userEntryPoint := .zero

def loadElf (env : Env pg) (id : TaskId) (elf : Elf) : KernelM pg ε Unit := do
  let task ← getTask id
  inTable task (elf.mountInto env.arith)
  let entry ← Comp.unwrap (VirtAddr.new elf.header.eEntry)
  let task ← getTask id
  setTask id { task with userEntryPoint := entry }

end TaskContext

/-! ### A small system -/

/-- Nothing ever fails, and no file can be read into memory. -/
def Env.plain : Env .flat where
  arith := .checked
  tryReserve := true
  newTable n := some (fun _ => none, n)
  readFileToMemory h := some (.error .noMemory, h)
  userString _ _ := none

def parentId : TaskId := ⟨2, Nat.two_pos⟩
def childId : TaskId := ⟨3, by decide⟩

/-- A running parent, with some capabilities, and its child. -/
def Kernel.family (caps : TaskCapabilityStorage) : Kernel .flat :=
  let noTable : Paging.flat.Table := fun _ => none
  let child : TaskContext .flat childId := TaskContext.fresh parentId childId noTable
  let parent : TaskContext .flat parentId :=
    { TaskContext.fresh initId parentId noTable with children := [childId], capabilities := caps }
  { tasks := (Finmap.insert childId child ∅).insert parentId parent
    executableTasks := []
    taskId := some parentId
    taskSwitchLocks := none
    nextPid := 4
    roots := ∅
    frames := (256 : Nat)
    memory := fun _ => 0 }

/-- A range of two frames that may be copied. -/
def twoFrames : TaskCapabilityStorage :=
  ⟨1, [(0, ⟨.DUPLICATE, .mapPhysical ⟨0x1000, by decide⟩ ⟨0x2fff, by decide⟩⟩)]⟩

end Idkernel
