import Idkernel.Reachable

/-!
# The locks of the handlers

Every handler is walked along its guards. All of them respect the locks they
hold, in every state, except that `exec` needs its child to be another task
than its caller, and that `spawn` asks for its caller's lock twice.
-/
namespace Idkernel

open Address Traced Locks

variable {pg : Paging} {ε α : Type}

/-! ## Blocks without locks -/

theorem getTask_lockless (id : TaskId) : Lockless (getTask id : KernelM pg ε _) :=
  Lockless.still (getTask_still id)

theorem setTask_lockless (id : TaskId) (task : TaskContext pg id) :
    Lockless (setTask id task : KernelM pg ε Unit) := Lockless.silent fun _ => rfl

theorem currentTaskId_lockless : Lockless (currentTaskId : KernelM pg ε _) := Lockless.still currentTaskId_still

theorem getRoot_lockless (root : TaskId) : Lockless (getRoot root : KernelM pg ε _) :=
  Lockless.still (Comp.Still.bind (Comp.Still.read _) fun _ => Comp.Still.unwrap _)

theorem require_lockless {p : Prop} [Decidable p] {e : ε} : Lockless (Comp.require p e : KernelM pg ε Unit) :=
  Lockless.still Comp.Still.require

theorem expect_lockless {p : Prop} [Decidable p] : Lockless (Comp.expect p : KernelM pg ε Unit) :=
  Lockless.still Comp.Still.expect

theorem okOr_lockless (o : Option α) (e : ε) : Lockless (Comp.okOr o e : KernelM pg ε α) :=
  Lockless.still (Comp.Still.okOr o e)

theorem unwrap_lockless (o : Option α) : Lockless (Comp.unwrap o : KernelM pg ε α) :=
  Lockless.still (Comp.Still.unwrap o)

theorem ofExcept_lockless (r : Except ε α) : Lockless (Comp.ofExcept r : KernelM pg ε α) :=
  Lockless.still (Comp.Still.ofExcept r)

theorem ret_lockless (a : α) : Lockless (Comp.ret a : KernelM pg ε α) := Lockless.still (Comp.Still.ret a)

theorem allocateFrame_lockless : Lockless (allocateFrame : VmM pg ε _) :=
  Lockless.bind (Lockless.silent fun _ => rfl) fun _ =>
    Lockless.bind (Lockless.silent fun _ => rfl) fun _ => Lockless.silent fun _ => rfl

theorem mapTo_lockless (page : Page) (frame : PhysFrame) (flags parentFlags : PageTableFlags) :
    Lockless (mapTo page frame flags parentFlags : VmM pg ε _) :=
  Lockless.bind (Lockless.note _) fun _ => Lockless.bind (Lockless.silent fun _ => rfl) fun _ =>
    Lockless.bind (Lockless.silent fun _ => rfl) fun _ => Lockless.silent fun _ => rfl

/-! ## Blocks with locks -/

section Blocks

variable {held : Held LockName} {s : Kernel pg}

theorem currentTask_guarded (h : ¬ Conflicts held .registry .read) :
    Guarded held (currentTask : KernelM pg ε _) s := by
  refine Guarded.withGuard h (Lockless.guarded (Lockless.bind currentTaskId_lockless fun t => ?_) s)
  exact Lockless.bind (getTask_lockless t) fun _ => ret_lockless t

theorem knownProcess_guarded (id : TaskId) (h : ¬ Conflicts held .registry .read) :
    Guarded held (knownProcess id) s := by
  refine Guarded.withGuard h (Lockless.guarded (Lockless.bind (Lockless.silent fun _ => rfl) fun task => ?_) s)
  exact Lockless.bind (okOr_lockless task _) fun _ => ret_lockless ()

/-- The opening every handler that locks its caller has. -/
theorem locked_guarded {md : Mode} {body : (t : TaskId) → TaskContext pg t → KernelM pg ε α}
    (hbody : ∀ t task s, Guarded [(.task t, md)] (body t task) s) (s : Kernel pg) :
    Guarded [] (do
      let t ← currentTask
      withGuard (.task t) md do
        let task ← getTask t
        body t task) s := by
  apply Guarded.bind (currentTask_guarded (by simp [Conflicts]))
  intro t _
  apply Guarded.withGuard (by simp [Conflicts])
  exact Guarded.bind (Lockless.guarded (getTask_lockless t) _) fun task _ => hbody t task _

/-- The same, where the rest takes no lock. -/
theorem locked_lockless {md : Mode} {body : (t : TaskId) → TaskContext pg t → KernelM pg ε α}
    (hbody : ∀ t task, Lockless (body t task)) (s : Kernel pg) :
    Guarded [] (do
      let t ← currentTask
      withGuard (.task t) md do
        let task ← getTask t
        body t task) s := locked_guarded (fun t task s => (hbody t task).guarded s) s

end Blocks

/-! ## Capabilities -/

namespace CapCall

theorem clone_guarded (env : Env pg) (capHandle : CapabilityHandle) (s : Kernel pg) :
    Guarded [] (clone env capHandle) s := by
  unfold clone
  apply locked_lockless
  intro t task
  apply Lockless.bind (okOr_lockless _ _)
  intro cap
  apply Lockless.bind require_lockless
  intro _
  apply Lockless.bind (unwrap_lockless _)
  rintro ⟨r, caps⟩
  exact Lockless.bind (setTask_lockless t _) fun _ => ofExcept_lockless r

theorem inspect_guarded (what index : Nat) (s : Kernel pg) : Guarded [] (inspect what index) s := by
  unfold inspect
  apply locked_lockless
  intro t task
  split
  · exact ret_lockless _
  · exact okOr_lockless _ _
  · exact okOr_lockless _ _
  · exact Lockless.silent fun _ => rfl

theorem restrict_guarded (handle : CapabilityHandle) (a b : Nat) (s : Kernel pg) :
    Guarded [] (restrict handle a b) s := by
  unfold restrict
  apply locked_lockless
  intro t task
  apply Lockless.bind (okOr_lockless _ _)
  rintro ⟨⟨perms, ctype⟩, put⟩
  cases ctype with
  | mapPhysical start stop =>
    apply Lockless.bind require_lockless
    intro _
    apply Lockless.bind (okOr_lockless _ _)
    intro nstart
    apply Lockless.bind (okOr_lockless _ _)
    intro nstop
    exact Lockless.bind require_lockless fun _ => setTask_lockless t _
  | mapVirtualToRam => exact Lockless.silent fun _ => rfl
  | processSpawn => exact Lockless.silent fun _ => rfl
  | channelCreate => exact Lockless.silent fun _ => rfl

theorem cdrop_guarded (handle : CapabilityHandle) (s : Kernel pg) : Guarded [] (cdrop handle) s := by
  unfold cdrop
  apply locked_lockless
  intro t task
  exact Lockless.bind (setTask_lockless t _) fun _ =>
    Lockless.bind (ofExcept_lockless _) fun _ => ret_lockless ()

theorem takeTransferred_guarded (capHandle : CapabilityHandle) (s : Kernel pg) :
    Guarded [] (takeTransferred capHandle) s := by
  unfold takeTransferred
  apply locked_lockless
  intro t current
  exact Lockless.bind (setTask_lockless t _) fun _ => ofExcept_lockless _

theorem copyShared_guarded (capHandle : CapabilityHandle) (s : Kernel pg) :
    Guarded [] (copyShared capHandle) s := by
  unfold copyShared
  apply locked_lockless
  intro t current
  apply Lockless.bind (okOr_lockless _ _)
  intro cap
  exact Lockless.bind require_lockless fun _ => ret_lockless cap

/-- The lock of the caller has been given back before that of the target is taken. -/
theorem giveTo_guarded (env : Env pg) (proc : TaskId) (cap : Capability) (s : Kernel pg) :
    Guarded [] (giveTo env proc cap) s := by
  unfold giveTo
  apply Guarded.bind (knownProcess_guarded proc (by simp [Conflicts]))
  intro _ _
  apply Guarded.withGuard (by simp [Conflicts])
  apply Lockless.guarded
  apply Lockless.bind (getTask_lockless proc)
  intro target
  apply Lockless.bind currentTaskId_lockless
  intro cur
  apply Lockless.bind require_lockless
  intro _
  apply Lockless.bind (unwrap_lockless _)
  rintro ⟨r, caps⟩
  exact Lockless.bind (setTask_lockless proc _) fun _ =>
    Lockless.bind (ofExcept_lockless r) fun _ => ret_lockless ()

theorem processShareTransfer_guarded (env : Env pg) (proc : Nat) (capHandle : CapabilityHandle)
    (transfer : Bool) (s : Kernel pg) : Guarded [] (processShareTransfer env proc capHandle transfer) s := by
  unfold processShareTransfer
  apply Guarded.bind (Lockless.guarded (okOr_lockless _ _) s)
  intro proc _
  apply Guarded.bind (Lockless.guarded currentTaskId_lockless _)
  intro cur _
  apply Guarded.bind (Lockless.guarded require_lockless _)
  intro _ _
  cases transfer with
  | true => exact Guarded.bind (takeTransferred_guarded capHandle _) fun cap _ => giveTo_guarded env proc cap _
  | false => exact Guarded.bind (copyShared_guarded capHandle _) fun cap _ => giveTo_guarded env proc cap _

end CapCall

/-! ## Files -/

section Paths

variable {held : Held LockName}

theorem PathHandle.openDir_guarded (hroot : ∀ root, ¬ Conflicts held (.rootFs root) .read)
    (self : PathHandle) (path : Str) (s : Kernel pg) : Guarded held (self.openDir path) s := by
  cases self with
  | initFs folder =>
    exact Lockless.guarded (Lockless.bind (ofExcept_lockless _) fun _ => ret_lockless _) s
  | procRoot root =>
    apply Guarded.bind (Lockless.guarded (ofExcept_lockless _) s)
    intro named _
    cases named with
    | none => exact Lockless.guarded (ret_lockless _) _
    | some named =>
      refine Guarded.withGuard (hroot root) (Lockless.guarded (Lockless.bind (getRoot_lockless root) ?_) _)
      exact fun fs => Lockless.bind (okOr_lockless _ _) fun ch => ret_lockless _

theorem PathHandle.read_guarded (hroot : ∀ root, ¬ Conflicts held (.rootFs root) .read)
    (self : PathHandle) (s : Kernel pg) : Guarded held self.read s := by
  cases self with
  | initFs folder => exact Lockless.guarded (ret_lockless _) s
  | procRoot root =>
    refine Guarded.withGuard (hroot root) (Lockless.guarded (Lockless.bind (getRoot_lockless root) ?_) s)
    exact fun fs => ret_lockless _

/-- The root of one process is left before the next is entered. -/
theorem openPathFull_guarded (hroot : ∀ root, ¬ Conflicts held (.rootFs root) .read) (curr : PathHandle)
    (path : Str) (s : Kernel pg) : Guarded held (openPathFull curr path) s := by
  induction hn : path.length using Nat.strong_induction_on generalizing curr path s with
  | _ n ih =>
    rw [openPathFull]
    apply Guarded.bind (PathHandle.openDir_guarded hroot curr path s)
    intro r _
    cases r with
    | done x => exact Lockless.guarded (ret_lockless x) _
    | rest h rem hlt => exact ih rem.length (hn ▸ hlt) h rem _ rfl

end Paths

namespace FileCall

theorem openPath_guarded (env : Env pg) (pathPtr pathLen mode : Nat) (s : Kernel pg) :
    Guarded [] (openPath env pathPtr pathLen mode) s := by
  unfold openPath
  apply Guarded.bind (Lockless.guarded (ofExcept_lockless _) s)
  intro _ _
  apply Guarded.bind (Lockless.guarded (unwrap_lockless _) _)
  intro stop _
  apply Guarded.bind (Lockless.guarded (ofExcept_lockless _) _)
  intro _ _
  apply Guarded.bind (Lockless.guarded (okOr_lockless _ _) _)
  intro path _
  apply Guarded.bind (Lockless.guarded expect_lockless _)
  intro _ _
  apply locked_guarded
  intro t task s
  have hroot (root : TaskId) : ¬ Conflicts [(LockName.task t, Mode.write)] (.rootFs root) .read := by
    simp [Conflicts]
  apply Guarded.bind (Guarded.mapErr (openPathFull_guarded hroot _ path s))
  intro pathHandle _
  apply Guarded.bind (PathHandle.read_guarded hroot pathHandle _)
  intro fileHandle _
  apply Guarded.bind (Lockless.guarded (unwrap_lockless _) _)
  intro next _
  exact Lockless.guarded (Lockless.bind (setTask_lockless t _) fun _ => ret_lockless _) _

theorem seek_guarded (fd index : Nat) (s : Kernel pg) : Guarded [] (seek fd index) s := by
  unfold seek
  apply locked_lockless
  intro t task
  apply Lockless.bind (okOr_lockless _ _)
  rintro ⟨handle, put⟩
  exact Lockless.bind (Lockless.mapErr (Lockless.still (Comp.Still.ofExcept _))) fun _ => setTask_lockless t _

theorem read_guarded (env : Env pg) (fd pos length : Nat) (s : Kernel pg) :
    Guarded [] (read env fd pos length) s := by
  unfold read
  apply Guarded.bind (Lockless.guarded (ofExcept_lockless _) s)
  intro _ _
  apply Guarded.bind (Lockless.guarded (unwrap_lockless _) _)
  intro stop _
  apply Guarded.bind (Lockless.guarded (ofExcept_lockless _) _)
  intro _ _
  apply locked_lockless
  intro t task
  apply Lockless.bind (okOr_lockless _ _)
  rintro ⟨handle, put⟩
  apply Lockless.bind (unwrap_lockless _)
  rintro ⟨bytes, handle⟩
  exact Lockless.bind (setTask_lockless t _) fun _ => ret_lockless bytes

theorem close_guarded (fd : Nat) (s : Kernel pg) : Guarded [] (close fd) s := by
  unfold close
  apply locked_lockless
  intro t task
  exact Lockless.bind (okOr_lockless _ _) fun _ => setTask_lockless t _

end FileCall

/-! ## Memory -/

theorem mapVirtPage_lockless (flags : PageTableFlags) (page : Page) :
    Lockless (mapVirtPage flags page : VmM pg _ _) := by
  apply Lockless.bind allocateFrame_lockless
  intro frame
  apply Lockless.bind (Lockless.still (Comp.Still.okOr _ _))
  intro frame
  exact Lockless.bind (mapTo_lockless _ _ _ _) fun _ => Lockless.still (Comp.Still.ofExcept _)

theorem mapPhysPage_lockless (flags : PageTableFlags) (x : Page × PhysFrame) :
    Lockless (mapPhysPage flags x : VmM pg _ _) :=
  Lockless.bind (mapTo_lockless _ _ _ _) fun _ => Lockless.still (Comp.Still.ofExcept _)

/-- The tail of both mapping calls. -/
theorem mapRange_guarded {held : Held LockName} (h : ¬ Conflicts held .frameAllocator .write) {t : TaskId}
    (task : TaskContext pg t) (q : Prop) [Decidable q] (perms : Nat)
    {loop : PageTableFlags → VmM pg SyscallError Unit} (hloop : ∀ flags, Lockless (loop flags)) (s : Kernel pg) :
    Guarded held (do
      Comp.require q SyscallError.wrongCapability
      let flags ← Comp.ofExcept (memoryFlags perms)
      withGuard .frameAllocator .write (inTable task (loop flags))) s := by
  apply Guarded.bind (Lockless.guarded require_lockless s)
  intro _ _
  apply Guarded.bind (Lockless.guarded (ofExcept_lockless _) _)
  intro flags _
  exact Guarded.withGuard h (Lockless.guarded (Lockless.zoom (hloop flags)) _)

namespace MemoryCall

theorem mapVirt_guarded (env : Env pg) (pos len perms : Nat) (s : Kernel pg) :
    Guarded [] (mapVirt env pos len perms) s := by
  unfold mapVirt
  apply Guarded.bind (Lockless.guarded (Lockless.still (parsePageRange_still _ _ _)) s)
  rintro ⟨startPage, endPage⟩ _
  apply locked_guarded
  intro t task s
  apply mapRange_guarded (by simp [Conflicts])
  exact fun flags => Lockless.forEach fun page => mapVirtPage_lockless _ page

theorem mapPhys_guarded (env : Env pg) (virtAt virtLen perms physAt : Nat) (s : Kernel pg) :
    Guarded [] (mapPhys env virtAt virtLen perms physAt) s := by
  unfold mapPhys
  apply Guarded.bind (Lockless.guarded (Lockless.still (parsePageRange_still _ _ _)) s)
  rintro ⟨startPage, endPage⟩ _
  apply Guarded.bind (Lockless.guarded (Lockless.still (parseFrameRange_still _ _ _)) _)
  rintro ⟨physFrom, physTo, frame, endFrame⟩ _
  apply locked_guarded
  intro t task s
  apply mapRange_guarded (by simp [Conflicts])
  exact fun flags => Lockless.forEach fun x => mapPhysPage_lockless flags x

end MemoryCall

/-! ## Processes -/

theorem mountPage_lockless (data : List UInt8) (flags : PageTableFlags) (fileIndex : Int) (page : Page) :
    Lockless (Elf.mountPage data flags fileIndex page : VmM pg ε Unit) := by
  have hunwrap : ∀ o : Option PhysFrame, Lockless (Comp.unwrap o : VmM pg ε _) :=
    fun o => Lockless.still (Comp.Still.unwrap o)
  unfold Elf.mountPage
  apply Lockless.bind allocateFrame_lockless
  intro frame
  apply Lockless.bind (hunwrap frame)
  intro frame
  apply Lockless.bind (mapTo_lockless _ _ _ _)
  intro mapped
  apply Lockless.bind (Lockless.still Comp.Still.expect)
  intro _
  apply Lockless.bind (Lockless.silent fun _ => rfl)
  intro _
  dsimp only
  split
  · exact Lockless.silent fun _ => rfl
  · exact Lockless.silent fun _ => rfl

theorem mountSegment_lockless (ar : Arith) (header : ProgramHeader) (data : List UInt8) :
    Lockless (Elf.mountSegment ar header data : VmM pg ε Unit) := by
  unfold Elf.mountSegment
  apply Lockless.bind (Lockless.still (Comp.Still.unwrap _))
  intro start
  apply Lockless.bind (Lockless.still (Comp.Still.unwrap _))
  intro stop
  apply Lockless.bind (Lockless.still Comp.Still.expect)
  intro _
  apply Lockless.bind (Lockless.still Comp.Still.expect)
  intro _
  apply Lockless.bind (Lockless.still (Comp.Still.unwrap _))
  intro last
  apply Lockless.bind (Lockless.still (Comp.Still.unwrap _))
  intro flags
  exact Lockless.forEach fun page => mountPage_lockless data flags _ page

section Loading

variable {held : Held LockName}

theorem mountInto_guarded (h : ¬ Conflicts held .frameAllocator .write) (ar : Arith) (elf : Elf) (v : Vm pg) :
    Guarded held (elf.mountInto ar : VmM pg ε Unit) v := by
  apply Guarded.withGuard h
  apply Lockless.guarded
  apply Lockless.forEach
  intro header
  apply Lockless.bind (Lockless.still (Comp.Still.unwrap _))
  intro data
  split
  · exact mountSegment_lockless ar header data
  · exact Lockless.still (Comp.Still.ret ())

theorem loadElf_guarded (h : ¬ Conflicts held .frameAllocator .write) (env : Env pg) (id : TaskId) (elf : Elf)
    (s : Kernel pg) : Guarded held (TaskContext.loadElf env id elf : KernelM pg ε Unit) s := by
  unfold TaskContext.loadElf
  generalize VirtAddr.new elf.header.eEntry = made
  apply Guarded.bind (Lockless.guarded (getTask_lockless id) s)
  intro task _
  apply Guarded.bind (Guarded.zoom (mountInto_guarded h env.arith elf _))
  intro _ _
  apply Lockless.guarded
  apply Lockless.bind (unwrap_lockless made)
  intro entry
  exact Lockless.bind (getTask_lockless id) fun task => setTask_lockless id _

theorem create_guarded (h : ¬ Conflicts held .frameAllocator .write) (env : Env pg) (parent : TaskId)
    (s : Kernel pg) : Guarded held (TaskContext.create env parent : KernelM pg ε _) s := by
  have hpid : Lockless (allocatePid : KernelM pg ε TaskId) :=
    Lockless.bind (Lockless.silent fun _ => rfl) fun _ => Lockless.bind (Lockless.silent fun _ => rfl) fun _ =>
      Lockless.bind expect_lockless fun _ => unwrap_lockless _
  unfold TaskContext.create
  apply Guarded.bind (Lockless.guarded hpid s)
  intro id _
  apply Guarded.withGuard h
  apply Lockless.guarded
  apply Lockless.bind (Lockless.silent fun _ => rfl)
  intro made
  apply Lockless.bind (unwrap_lockless made)
  rintro ⟨table, frames⟩
  exact Lockless.bind (Lockless.silent fun _ => rfl) fun _ => ret_lockless _

end Loading

namespace ProcCall

/-- What `exec` does with both locks, whatever the state is by then. -/
theorem execLocked_guarded {held : Held LockName} (hreg : ¬ Conflicts held .registry .write)
    (hframe : ¬ Conflicts held .frameAllocator .write) (env : Env pg) (procId c : TaskId) (fd : Nat)
    (proc : TaskContext pg procId) (s : Kernel pg) : Guarded held (do
      let curr ← getTask c
      let (handle, put) ← Comp.okOr (findHandle curr.files fd) SyscallError.wrongDescriptor
      let (file, handle') ← Comp.unwrap (env.readFileToMemory handle)
      setTask c { curr with files := put handle' }
      let file ← Comp.ofExcept file
      let elf ← Comp.mapErr (fun _ => SyscallError.fsNotExecutable) (Comp.ofExcept (Elf.new file))
      TaskContext.loadElf env procId elf
      withGuard .registry .write (TaskRegistry.queueForExecution proc.id)) s := by
  apply Guarded.bind (Lockless.guarded (getTask_lockless c) s)
  intro curr _
  apply Guarded.bind (Lockless.guarded (okOr_lockless _ _) _)
  rintro ⟨handle, put⟩ _
  apply Guarded.bind (Lockless.guarded (unwrap_lockless _) _)
  rintro ⟨file, handle'⟩ _
  apply Guarded.bind (Lockless.guarded (setTask_lockless c _) _)
  intro _ _
  apply Guarded.bind (Lockless.guarded (ofExcept_lockless file) _)
  intro file _
  apply Guarded.bind (Lockless.guarded (Lockless.mapErr (Lockless.still (Comp.Still.ofExcept _))) _)
  intro elf _
  apply Guarded.bind (loadElf_guarded hframe env procId elf _)
  intro _ _
  exact Guarded.withGuard hreg (Lockless.guarded (Lockless.silent fun _ => rfl) _)

/-- The caller cannot be its own child, so the two locks are different. -/
theorem exec_guarded (env : Env pg) (procId fd : Nat) {s : Kernel pg} (hs : Sane s) :
    Guarded [] (exec env procId fd) s := by
  unfold exec
  apply Guarded.decide (Comp.Still.okOr _ _)
  intro id _
  apply Guarded.bind (knownProcess_guarded id (by simp [Conflicts]))
  intro _ hknown
  rw [knownProcess_state]
  apply Guarded.withGuard (by simp [Conflicts])
  unfold execChild
  apply Guarded.decide (getTask_still id)
  intro proc hproc
  apply Guarded.decide currentTaskId_still
  intro cur hcur
  apply Guarded.decide Comp.Still.require
  intro _ hparent
  apply Guarded.decide Comp.Still.require
  intro _ _
  apply Guarded.bind (currentTask_guarded (by simp [Conflicts]))
  intro c hc
  obtain rfl : cur = c := Option.some.inj ((currentTaskId_ok hcur).symm.trans (currentTask_ok hc))
  have hne : id ≠ cur := by
    rintro rfl
    exact hs.orphan id proc (getTask_ok hproc) (Comp.require_ok hparent)
  apply Guarded.withGuard (by simp [Conflicts, hne])
  exact execLocked_guarded (by simp [Conflicts]) (by simp [Conflicts]) env id cur fd proc _

/-- The running task may create a child, and there is room for one. -/
def SpawnsChild (env : Env pg) (k : Kernel pg) : Prop :=
  ∃ t task, k.taskId = some t ∧ k.tasks.lookup t = some task ∧
    (∃ x ∈ task.capabilities.handles, x.2.ctype = .processSpawn) ∧ TaskContext.CanCreate env k

/-- Registering the child asks for the lock of its parent, which is the caller's. -/
theorem spawn_stuck {env : Env pg} {k : Kernel pg} (hk : Sane k) (h : SpawnsChild env k) :
    Stuck [] (spawn env) k := by
  obtain ⟨t, task, hcur, hfound, hheld, hcan⟩ := h
  obtain ⟨id, table, frames, hid, hrun⟩ := hcan.run (ε := SyscallError) t
  have hnew : k.tasks.lookup id = none := by
    by_contra hsome
    obtain ⟨old, hold⟩ := Option.ne_none_iff_exists'.mp hsome
    have := hk.pids id old hold
    omega
  have hadd : Stuck [(LockName.registry, Mode.write), (.task t, .write)]
      (TaskRegistry.add (TaskContext.fresh t id table) : KernelM pg SyscallError Unit) (k.created id frames) := by
    have hrun : (TaskRegistry.add (TaskContext.fresh t id table) (k.created id frames) :
        Ran _ _ SyscallError Unit) = _ := TaskRegistry.add_run rfl hnew hfound
    unfold Stuck
    rw [hrun]
    exact replay_conflict (by simp [Conflicts]) _
  have hcurrent : (currentTask k : Ran _ _ SyscallError _).outcome = .ok t := by rw [currentTask_run hcur hfound]
  apply Stuck.right (currentTask_guarded (by simp [Conflicts])) hcurrent
  rw [currentTask_state]
  apply Stuck.inside (by simp [Conflicts])
  unfold Stuck
  rw [getTask_bind hfound, Comp.require_true hheld, Comp.ret_bind, currentTaskId_bind hcur]
  apply Stuck.right (create_guarded (by simp [Conflicts]) env t k) (by rw [hrun])
  rw [hrun]
  exact Stuck.left (Stuck.inside (by simp [Conflicts]) hadd)

/-- Every other outcome comes before that. -/
theorem spawn_guarded {env : Env pg} {k : Kernel pg} (h : ¬ SpawnsChild env k) : Guarded [] (spawn env) k := by
  unfold spawn
  apply Guarded.bind (currentTask_guarded (by simp [Conflicts]))
  intro t hcurrent
  have hcur := currentTask_ok hcurrent
  rw [currentTask_state]
  apply Guarded.withGuard (by simp [Conflicts])
  apply Guarded.decide (getTask_still t)
  intro task hfound
  apply Guarded.decide Comp.Still.require
  intro _ hheld
  apply Guarded.decide currentTaskId_still
  intro cur _
  apply Guarded.bind (create_guarded (by simp [Conflicts]) env cur k)
  intro made hmade
  have hcan : ¬ TaskContext.CanCreate env k := fun hcan =>
    h ⟨t, task, hcur, getTask_ok hfound, Comp.require_ok hheld, hcan⟩
  rw [TaskContext.create_panic hcan] at hmade
  cases hmade

end ProcCall

/-! ## All of them -/

theorem Handler.guarded {env : Env pg} {k : Kernel pg} (hk : Sane k) (h : Handler)
    (hspawn : ¬ (h = .spawn ∧ ProcCall.SpawnsChild env k)) : Guarded [] (h.call env) k := by
  have hret : ∀ {β : Type} {m : KernelM pg SyscallError β} (f : β → Reply),
      Guarded [] m k → Guarded [] (m >>= fun b => Comp.ret (f b)) k :=
    fun f hm => Guarded.bind hm fun b _ => (ret_lockless (f b)).guarded _
  cases h with
  | clone capHandle => exact hret _ (CapCall.clone_guarded env capHandle k)
  | inspect what index => exact hret _ (CapCall.inspect_guarded what index k)
  | restrict handle a b => exact hret _ (CapCall.restrict_guarded handle a b k)
  | cdrop handle => exact hret _ (CapCall.cdrop_guarded handle k)
  | processShareTransfer proc capHandle transfer =>
    exact hret _ (CapCall.processShareTransfer_guarded env proc capHandle transfer k)
  | spawn => exact hret _ (ProcCall.spawn_guarded fun h => hspawn ⟨rfl, h⟩)
  | exec procId fd => exact hret _ (ProcCall.exec_guarded env procId fd hk)
  | openPath pathPtr pathLen mode => exact hret _ (FileCall.openPath_guarded env pathPtr pathLen mode k)
  | seek fd index => exact hret _ (FileCall.seek_guarded fd index k)
  | read fd pos length => exact hret _ (FileCall.read_guarded env fd pos length k)
  | close fd => exact hret _ (FileCall.close_guarded fd k)
  | mapVirt pos len perms => exact hret _ (MemoryCall.mapVirt_guarded env pos len perms k)
  | mapPhys virtAt virtLen perms physAt =>
    exact hret _ (MemoryCall.mapPhys_guarded env virtAt virtLen perms physAt k)

/-- In every reachable state, whoever runs, the handlers respect the locks they hold and
give all of them back, unless the call creates a child. -/
theorem handlers_guarded {k : Kernel pg} (hk : Reachable k) (t : TaskId) (env : Env pg) (h : Handler) :
    Guarded [] (h.call env) { k with taskId := some t } ↔
      ¬ (h = .spawn ∧ ProcCall.SpawnsChild env { k with taskId := some t }) := by
  have hsane : Sane { k with taskId := some t } := hk.sane.fewer rfl fun id task hfound => ⟨task, hfound, rfl⟩
  constructor
  · rintro hguarded ⟨rfl, hspawn⟩
    exact hguarded.not_stuck (Stuck.left (ProcCall.spawn_stuck hsane hspawn))
  · exact Handler.guarded hsane h

theorem handlers_guarded_booted : Guarded [] (Handler.spawn.call .plain)
    { Kernel.plain .empty with taskId := some initprocId } ↔
    ¬ (Handler.spawn = .spawn ∧ ProcCall.SpawnsChild .plain
      { Kernel.plain .empty with taskId := some initprocId }) :=
  handlers_guarded ⟨_, [], Kernel.plain_booted .empty, rfl⟩ initprocId .plain .spawn

/-- Its first `spawn` waits for a lock that it holds. -/
theorem spawning_spins : Reachable Kernel.spawning ∧
    Stuck [] (Handler.spawn.call .plain) Kernel.spawning ∧
    ¬ Guarded [] (Handler.spawn.call .plain) Kernel.spawning := by
  have hstuck : Stuck [] (Handler.spawn.call .plain) Kernel.spawning := by
    unfold Stuck
    decide
  exact ⟨⟨_, [.idle], Kernel.plain_booted _, rfl⟩, hstuck, fun h => h.not_stuck hstuck⟩

end Idkernel
