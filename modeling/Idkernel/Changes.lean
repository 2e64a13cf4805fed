import Idkernel.Syscalls

/-!
# What a handler can change

A handler updates the running task or one of its children, or adds a child. That
is said once, as a relation between kernel states, so that an invariant of the
kernel only has to be checked against the two kinds of change. Panics are left
out, since nothing runs after one.
-/
namespace Idkernel

open Address Traced Locks

variable {pg : Paging} {α ε : Type}

/-- `G` are the capabilities that a storage may receive. -/
inductive Change (G : Capability → Prop) : Kernel pg → Kernel pg → Prop where
  | update {k : Kernel pg} {id cur : TaskId} {task task' : TaskContext pg id} {frames : pg.Frames}
      {memory : Memory} (current : k.taskId = some cur) (touched : id = cur ∨ task.parent = some cur)
      (found : k.tasks.lookup id = some task) (parent : task'.parent = task.parent)
      (children : task'.children = task.children) (state : task'.state = task.state)
      (caps : ∀ x ∈ task'.capabilities.handles, x ∈ task.capabilities.handles ∨ G x.2) :
      Change G k { k with tasks := k.tasks.insert id task', frames := frames, memory := memory }
  | spawned {k : Kernel pg} {id cur : TaskId} {child : TaskContext pg id} {task : TaskContext pg cur}
      {frames : pg.Frames} (current : k.taskId = some cur) (found : k.tasks.lookup cur = some task)
      (fresh : k.tasks.lookup id = none) (pid : id.raw = k.nextPid) (room : k.nextPid ≠ 2 ^ 64 - 1)
      (parent : child.parent = some cur) (state : child.state = .user)
      (caps : child.capabilities = .empty) :
      Change G k ((k.created id frames).adopt child task)

/-- An invariant whose states hold only capabilities in `G`, and which survives every change. -/
structure Kept (G : Capability → Prop) (I : Kernel pg → Prop) : Prop where
  change : ∀ k k', I k → Change G k k' → I k'
  held : ∀ k, I k → ∀ id task, k.tasks.lookup id = some task → ∀ x ∈ task.capabilities.handles, G x.2
  narrow : ∀ p f t f' t', G ⟨p, .mapPhysical f t⟩ → f ≤ f' → t' ≤ t → f' ≤ t' →
    G ⟨p, .mapPhysical f' t'⟩

/-- Errors leave a state in the invariant; a panic leaves nothing to say. -/
abbrev Keeps (I P : Kernel pg → Prop) (m : KernelM pg ε α) (Q : α → Kernel pg → Prop) : Prop :=
  Comp.Triple P m Q I fun _ => True

/-! ## Reading tasks -/

section Reading

variable {I P : Kernel pg → Prop}

theorem getTask_keeps (id : TaskId) :
    Keeps I P (getTask id : KernelM pg ε _) fun task s => P s ∧ s.tasks.lookup id = some task := by
  apply Comp.Triple.bind (Comp.Triple.read _)
  intro found
  refine Comp.Triple.conseq (Comp.Triple.unwrap fun _ _ => trivial) (fun _ h => h) ?_
    (fun _ h => h) (fun _ h => h)
  rintro task s ⟨⟨hs, hfound⟩, hsome⟩
  exact ⟨hs, hfound ▸ hsome⟩

theorem currentTaskId_keeps :
    Keeps I P (currentTaskId : KernelM pg ε _) fun t s => P s ∧ s.taskId = some t := by
  apply Comp.Triple.bind (Comp.Triple.read _)
  intro found
  refine Comp.Triple.conseq (Comp.Triple.unwrap fun _ _ => trivial) (fun _ h => h) ?_
    (fun _ h => h) (fun _ h => h)
  rintro t s ⟨⟨hs, hfound⟩, hsome⟩
  exact ⟨hs, hfound ▸ hsome⟩

theorem currentTask_keeps :
    Keeps I P (currentTask : KernelM pg ε _) fun t s => P s ∧ s.taskId = some t := by
  refine Triple.withGuard (Comp.Triple.bind currentTaskId_keeps fun t => ?_)
  apply Comp.Triple.bind (getTask_keeps t)
  intro task
  exact Comp.Triple.ret fun s h => h.1

theorem knownProcess_keeps (hPI : ∀ s, P s → I s) (id : TaskId) :
    Keeps I P (knownProcess id) fun _ => P := by
  apply Triple.withGuard
  apply Comp.Triple.bind (Comp.Triple.read _)
  intro task
  apply Comp.Triple.bind (Comp.Triple.okOr fun s h => hPI s h.1)
  intro _
  exact Comp.Triple.ret fun _ h => h.1.1

end Reading

/-! ## The handlers, one by one -/

section Handlers

variable {G : Capability → Prop} {I : Kernel pg → Prop}

/-- The running task, with its context at hand. -/
def Locked (I : Kernel pg → Prop) (t : TaskId) (task : TaskContext pg t) (s : Kernel pg) : Prop :=
  I s ∧ s.taskId = some t ∧ s.tasks.lookup t = some task

theorem Locked.inv {t : TaskId} {task : TaskContext pg t} {s : Kernel pg} (h : Locked I t task s) : I s := h.1

/-- The opening every handler that locks its caller has. -/
theorem locked_keeps {md : Mode} {body : (t : TaskId) → TaskContext pg t → KernelM pg ε α}
    {R : α → Kernel pg → Prop} (hbody : ∀ t task, Keeps I (Locked I t task) (body t task) R) :
    Keeps I I (do
      let t ← currentTask
      withGuard (.task t) md do
        let task ← getTask t
        body t task) R := by
  refine Comp.Triple.bind currentTask_keeps fun t => Triple.withGuard ?_
  apply Comp.Triple.bind (getTask_keeps t)
  intro task
  refine Comp.Triple.conseq (hbody t task) ?_ (fun _ _ h => h) (fun _ h => h) (fun _ h => h)
  rintro s ⟨⟨hI, ht⟩, hfound⟩
  exact ⟨hI, ht, hfound⟩

theorem setTask_keeps {P : Kernel pg → Prop} {id : TaskId} {task : TaskContext pg id}
    (h : ∀ s, P s → I { s with tasks := s.tasks.insert id task }) :
    Keeps I P (setTask id task : KernelM pg ε Unit) fun _ => I := Comp.Triple.write h

/-- The closing: the result of an operation that has already been stored. -/
theorem ofExcept_keeps (r : Except ε α) : Keeps I I (Comp.ofExcept r) fun _ => I :=
  Comp.Triple.conseq (Comp.Triple.ofExcept fun _ h => h) (fun _ h => h) (fun _ _ h => h.1)
    (fun _ h => h) (fun _ h => h)

theorem Kept.storage (inv : Kept G I) {t : TaskId} {task : TaskContext pg t} {s : Kernel pg}
    (h : Locked I t task s) {caps : TaskCapabilityStorage}
    (hcaps : ∀ x ∈ caps.handles, x ∈ task.capabilities.handles ∨ G x.2) :
    I { s with tasks := s.tasks.insert t { task with capabilities := caps } } :=
  inv.change s _ h.1 (.update h.2.1 (.inl rfl) h.2.2 rfl rfl rfl hcaps)

theorem Kept.files (inv : Kept G I) {t : TaskId} {task : TaskContext pg t} {s : Kernel pg}
    (h : Locked I t task s) (files : TaskFileStorage) :
    I { s with tasks := s.tasks.insert t { task with files := files } } :=
  inv.change s _ h.1 (.update h.2.1 (.inl rfl) h.2.2 rfl rfl rfl fun _ hx => .inl hx)

theorem Kept.heldBy (inv : Kept G I) {t : TaskId} {task : TaskContext pg t} {s : Kernel pg}
    (h : Locked I t task s) : ∀ x ∈ task.capabilities.handles, G x.2 := inv.held s h.1 t task h.2.2

/-- An insertion stores what was there and the inserted capability. -/
theorem mem_insert {ar : Arith} {reserve : Bool} {cap : Capability} {self caps : TaskCapabilityStorage}
    {r : Except SyscallError CapabilityHandle} (h : self.insert ar reserve cap = some (r, caps))
    (hG : G cap) : ∀ x ∈ caps.handles, x ∈ self.handles ∨ G x.2 := by
  intro x hx
  rcases TaskCapabilityStorage.insert_cases h with ⟨_, _, hc⟩ | ⟨_, _, hc⟩
  · rw [hc, List.mem_append, List.mem_singleton] at hx
    rcases hx with hx | rfl
    · exact .inl hx
    · exact .inr hG
  · exact .inl (hc ▸ hx)

/-- A deletion stores nothing new. -/
theorem mem_delete {handle : CapabilityHandle} {self caps : TaskCapabilityStorage}
    {r : Except SyscallError Capability} (h : self.delete handle = (r, caps)) :
    ∀ x ∈ caps.handles, x ∈ self.handles := by
  intro x hx
  rcases TaskCapabilityStorage.delete_cases h with ⟨_, _, rfl⟩ | ⟨cap, before, after, _, _, _, hs, hc⟩
  · exact hx
  · rw [hc, List.mem_append] at hx
    rw [hs, List.mem_append, List.mem_cons]
    tauto

namespace CapCall

theorem clone_keeps (inv : Kept G I) (env : Env pg) (capHandle : CapabilityHandle) :
    Keeps I I (clone env capHandle) fun _ => I := by
  unfold clone
  apply locked_keeps
  intro t task
  apply Comp.Triple.bind (Comp.Triple.okOr fun _ h => h.inv)
  intro cap
  apply Comp.Triple.bind (Comp.Triple.require fun _ h _ => h.1.inv)
  intro _
  apply Comp.Triple.bind (Comp.Triple.unwrap fun _ _ => trivial)
  intro r
  obtain ⟨r, caps⟩ := r
  refine Comp.Triple.bind (setTask_keeps ?_) fun _ => ofExcept_keeps r
  rintro s ⟨⟨⟨h, hcap⟩, _⟩, hins⟩
  have hG : G cap := inv.heldBy h _ (TaskCapabilityStorage.mem_of_get hcap)
  exact inv.storage h (mem_insert hins hG)

theorem inspect_keeps (what index : Nat) :
    Keeps I I (inspect what index : KernelM pg _ _) fun _ => I := by
  unfold inspect
  apply locked_keeps
  intro t task
  have hokOr : ∀ (o : Option (Nat × Nat)) (e : SyscallError),
      Keeps I (Locked I t task) (Comp.okOr o e) fun _ => I := fun o e =>
    Comp.Triple.conseq (Comp.Triple.okOr fun _ h => h.inv) (fun _ h => h) (fun _ _ h => h.1.inv)
      (fun _ h => h) (fun _ h => h)
  split
  · exact Comp.Triple.ret fun _ h => h.inv
  · exact hokOr _ _
  · exact hokOr _ _
  · exact Comp.Triple.fail fun _ h => h.inv

theorem restrict_keeps (inv : Kept G I) (handle : CapabilityHandle) (a b : Nat) :
    Keeps I I (restrict handle a b : KernelM pg _ _) fun _ => I := by
  unfold restrict
  apply locked_keeps
  intro t task
  apply Comp.Triple.bind (Comp.Triple.okOr fun _ h => h.inv)
  intro cp
  obtain ⟨⟨perms, ctype⟩, put⟩ := cp
  cases ctype with
  | mapPhysical start stop =>
    apply Comp.Triple.bind (Comp.Triple.require fun _ h _ => h.1.inv)
    intro _
    apply Comp.Triple.bind (Comp.Triple.okOr fun _ h => h.1.1.inv)
    intro nstart
    apply Comp.Triple.bind (Comp.Triple.okOr fun _ h => h.1.1.1.inv)
    intro nstop
    apply Comp.Triple.bind (Comp.Triple.require fun _ h _ => h.1.1.1.1.inv)
    intro _
    refine setTask_keeps ?_
    rintro s ⟨⟨⟨⟨⟨h, hget⟩, hab⟩, hna⟩, hnb⟩, hin⟩
    obtain ⟨before, after, hs, hput⟩ := TaskCapabilityStorage.getMut_cases hget
    have hle : nstart ≤ nstop := by
      have ha := PhysAddr.new_cases hna
      have hb := PhysAddr.new_cases hnb
      rw [PhysAddr.le_def]
      omega
    have hG := inv.heldBy h (handle, ⟨perms, .mapPhysical start stop⟩) (by rw [hs]; simp)
    refine inv.storage h fun x hx => ?_
    rw [hput, List.mem_append, List.mem_cons] at hx
    rw [hs, List.mem_append, List.mem_cons]
    rcases hx with hx | rfl | hx
    · exact .inl (.inl hx)
    · exact .inr (inv.narrow perms start stop nstart nstop hG hin.1 hin.2 hle)
    · exact .inl (.inr (.inr hx))
  | mapVirtualToRam => exact Comp.Triple.fail fun _ h => h.1.inv
  | processSpawn => exact Comp.Triple.fail fun _ h => h.1.inv
  | channelCreate => exact Comp.Triple.fail fun _ h => h.1.inv

theorem cdrop_keeps (inv : Kept G I) (handle : CapabilityHandle) :
    Keeps I I (cdrop handle : KernelM pg _ _) fun _ => I := by
  unfold cdrop
  apply locked_keeps
  intro t task
  rcases hd : task.capabilities.delete handle with ⟨r, caps⟩
  refine Comp.Triple.bind (setTask_keeps fun s h => ?_) fun _ =>
    Comp.Triple.bind (ofExcept_keeps r) fun _ => Comp.Triple.ret fun _ h => h
  exact inv.storage h fun x hx => .inl (mem_delete hd x hx)

/-- What is taken out had been held. -/
theorem takeTransferred_keeps (inv : Kept G I) (capHandle : CapabilityHandle) :
    Keeps I I (takeTransferred capHandle : KernelM pg _ _) fun cap s => I s ∧ G cap := by
  unfold takeTransferred
  apply locked_keeps
  intro t task
  rcases hd : task.capabilities.delete capHandle with ⟨r, caps⟩
  have hG : ∀ s, Locked I t task s → ∀ cap, r = .ok cap → G cap := by
    intro s h cap hr
    rcases TaskCapabilityStorage.delete_cases hd with ⟨_, hr', _⟩ | ⟨cap', before, after, _, hr', _, hs, _⟩
    · rw [hr] at hr'
      cases hr'
    · have hmem : (capHandle, cap') ∈ task.capabilities.handles := by rw [hs]; simp
      rw [hr] at hr'
      cases hr'
      exact inv.heldBy h _ hmem
  intro s h
  have hI : I { s with tasks := s.tasks.insert t { task with capabilities := caps } } :=
    inv.storage h fun x hx => .inl (mem_delete hd x hx)
  cases r with
  | ok cap => exact ⟨hI, hG s h cap rfl⟩
  | error e => exact hI

theorem copyShared_keeps (inv : Kept G I) (capHandle : CapabilityHandle) :
    Keeps I I (copyShared capHandle : KernelM pg _ _) fun cap s => I s ∧ G cap := by
  unfold copyShared
  apply locked_keeps
  intro t task
  apply Comp.Triple.bind (Comp.Triple.okOr fun _ h => h.inv)
  intro cap
  apply Comp.Triple.bind (Comp.Triple.require fun _ h _ => h.1.inv)
  intro _
  refine Comp.Triple.ret ?_
  rintro s ⟨⟨h, hcap⟩, _⟩
  exact ⟨h.inv, inv.heldBy h _ (TaskCapabilityStorage.mem_of_get hcap)⟩

theorem giveTo_keeps (inv : Kept G I) (env : Env pg) (proc : TaskId) {cap : Capability} (hG : G cap) :
    Keeps I I (giveTo env proc cap) fun _ => I := by
  unfold giveTo
  apply Comp.Triple.bind (knownProcess_keeps (fun _ h => h) proc)
  intro _
  apply Triple.withGuard
  apply Comp.Triple.bind (getTask_keeps proc)
  intro target
  apply Comp.Triple.bind currentTaskId_keeps
  intro cur
  apply Comp.Triple.bind (Comp.Triple.require fun _ h _ => h.1.1)
  intro _
  apply Comp.Triple.bind (Comp.Triple.unwrap fun _ _ => trivial)
  rintro ⟨r, caps⟩
  refine Comp.Triple.bind (setTask_keeps ?_) fun _ =>
    Comp.Triple.bind (ofExcept_keeps r) fun _ => Comp.Triple.ret fun _ h => h
  rintro s ⟨⟨⟨⟨hI, hfound⟩, hcur⟩, hparent⟩, hins⟩
  exact inv.change s _ hI (.update hcur (.inr hparent) hfound rfl rfl rfl (mem_insert hins hG))

theorem processShareTransfer_keeps (inv : Kept G I) (env : Env pg) (proc : Nat)
    (capHandle : CapabilityHandle) (transfer : Bool) :
    Keeps I I (processShareTransfer env proc capHandle transfer) fun _ => I := by
  unfold processShareTransfer
  apply Comp.Triple.bind (Comp.Triple.okOr fun _ h => h)
  intro proc
  apply Comp.Triple.bind currentTaskId_keeps
  intro cur
  apply Comp.Triple.bind (Comp.Triple.require fun _ h _ => h.1.1)
  intro _
  have hgive : ∀ cap, Keeps I (fun s => I s ∧ G cap) (giveTo env proc cap) fun _ => I :=
    fun cap s h => giveTo_keeps inv env proc h.2 s h.1
  intro s h
  cases transfer with
  | true => exact Comp.Triple.bind (takeTransferred_keeps inv capHandle) hgive s h.1.1.1
  | false => exact Comp.Triple.bind (copyShared_keeps inv capHandle) hgive s h.1.1.1

end CapCall

/-! ### Processes -/

/-- The child the running task is working on. -/
def Child (I : Kernel pg → Prop) (id : TaskId) (s : Kernel pg) : Prop :=
  I s ∧ ∃ cur task, s.taskId = some cur ∧ s.tasks.lookup id = some task ∧ task.parent = some cur

/-- A task whose own parent did not change leaves every child a child. -/
theorem child_insert {id c cur : TaskId} {task : TaskContext pg id} {curr : TaskContext pg c}
    (curr' : TaskContext pg c) {s : Kernel pg} (hc : s.tasks.lookup c = some curr)
    (hp : curr'.parent = curr.parent)
    (hid : s.tasks.lookup id = some task) (hchild : task.parent = some cur) :
    ∃ task' : TaskContext pg id, (s.tasks.insert c curr').lookup id = some task' ∧
      task'.parent = some cur := by
  by_cases he : id = c
  · subst he
    obtain rfl : curr = task := Option.some.inj (hc.symm.trans hid)
    exact ⟨curr', Finmap.lookup_insert _, hp.trans hchild⟩
  · exact ⟨task, by rw [Finmap.lookup_insert_of_ne _ he, hid], hchild⟩

namespace TaskContext

/-- Loading an image only sets one task's page table and entry point. -/
theorem loadElf_keeps {P : Kernel pg → Prop} (hPI : ∀ s, P s → I s) (env : Env pg) (id : TaskId) (elf : Elf)
    (hP : ∀ s (task : TaskContext pg id) table entry frames memory, P s → s.tasks.lookup id = some task →
      P { s with
        tasks := s.tasks.insert id { task with pageTable := table, userEntryPoint := entry }
        frames := frames
        memory := memory }) :
    Keeps I P (loadElf env id elf : KernelM pg ε Unit) fun _ => P := by
  unfold loadElf
  -- whichever address it is
  generalize VirtAddr.new elf.header.eEntry = made
  apply Comp.Triple.bind (getTask_keeps id)
  intro task
  have hmount : Keeps I (fun s => P s ∧ s.tasks.lookup id = some task)
      (inTable task (elf.mountInto env.arith) : KernelM pg ε Unit) fun _ => P := by
    apply Comp.Triple.zoom
    · rintro s v ⟨hs, hfound⟩
      exact hP s task v.table task.userEntryPoint v.frames v.memory hs hfound
    · exact hPI
    · exact fun _ _ => trivial
  apply Comp.Triple.bind hmount
  intro _
  apply Comp.Triple.bind (Comp.Triple.unwrap fun _ _ => trivial)
  intro entry
  apply Comp.Triple.bind (getTask_keeps id)
  intro task
  apply Comp.Triple.write
  rintro s ⟨⟨hs, _⟩, hfound⟩
  exact hP s task task.pageTable entry s.frames s.memory hs hfound

/-- Into a child of the running task. -/
theorem loadElf_child (inv : Kept G I) (env : Env pg) (id : TaskId) (elf : Elf) :
    Keeps I (Child I id) (loadElf env id elf : KernelM pg ε Unit) fun _ => Child I id := by
  refine loadElf_keeps (fun _ h => h.1) env id elf ?_
  rintro s task table entry frames memory ⟨hI, cur, task₀, hcur, hfound₀, hparent₀⟩ hfound
  obtain rfl : task = task₀ := Option.some.inj (hfound.symm.trans hfound₀)
  refine ⟨inv.change s _ hI (.update hcur (.inr hparent₀) hfound rfl rfl rfl fun x hx => .inl hx), ?_⟩
  exact ⟨cur, _, hcur, Finmap.lookup_insert _, hparent₀⟩

/-- Into the running task itself. -/
theorem loadElf_self (inv : Kept G I) (env : Env pg) (id : TaskId) (elf : Elf) :
    Keeps I (fun s => I s ∧ s.taskId = some id) (loadElf env id elf : KernelM pg ε Unit)
      fun _ s => I s ∧ s.taskId = some id := by
  refine loadElf_keeps (fun _ h => h.1) env id elf ?_
  rintro s task table entry frames memory ⟨hI, hcur⟩ hfound
  exact ⟨inv.change s _ hI (.update hcur (.inl rfl) hfound rfl rfl rfl fun x hx => .inl hx), hcur⟩

end TaskContext

namespace ProcCall

theorem spawn_keeps (inv : Kept G I) (env : Env pg) : Keeps I I (spawn env) fun _ => I := by
  unfold spawn
  apply locked_keeps
  intro t task
  apply Comp.Triple.bind (Comp.Triple.require fun _ h _ => h.inv)
  intro _
  apply Comp.Triple.bind currentTaskId_keeps
  rintro cur s ⟨⟨h, _⟩, hcur⟩
  obtain rfl : t = cur := Option.some.inj (h.2.1.symm.trans hcur)
  by_cases hcan : TaskContext.CanCreate env s
  · obtain ⟨id, table, frames, hid, hrun⟩ := hcan.run t
    rw [Comp.bind_run, hrun]
    simp only [after_outcome, after_state]
    by_cases hnew : s.tasks.lookup id = none
    · have hadd : (TaskRegistry.add (TaskContext.fresh t id table) (s.created id frames) :
          Ran _ _ SyscallError Unit) = _ := TaskRegistry.add_run rfl hnew h.2.2
      rw [Comp.bind_run, withGuard_ok _ hadd]
      exact inv.change s _ h.1 (.spawned hcur h.2.2 hnew hid hcan.1 rfl rfl rfl)
    · have hadd : (TaskRegistry.add (TaskContext.fresh t id table) (s.created id frames) :
          Ran _ _ SyscallError Unit).outcome = .panic := TaskRegistry.add_panic hnew
      rw [Comp.bind_outcome, withGuard_outcome, hadd]
      trivial
  · rw [Comp.bind_outcome, TaskContext.create_panic hcan]
    trivial

/-- Everything `exec` does before it queues the child keeps an invariant; what queueing
does to it is the caller's to say. -/
theorem execChild_keeps (inv : Kept G I) (env : Env pg) (procId : TaskId) (fd : Nat)
    {R : Kernel pg → Prop} (hpush : ∀ s, Child I procId s →
      R { s with executableTasks := s.executableTasks ++ [procId] }) :
    Keeps I I (execChild env procId fd) fun _ => R := by
  unfold execChild
  apply Comp.Triple.bind (getTask_keeps procId)
  intro proc
  apply Comp.Triple.bind currentTaskId_keeps
  intro cur
  apply Comp.Triple.bind (Comp.Triple.require fun _ h _ => h.1.1)
  intro _
  apply Comp.Triple.bind (Comp.Triple.require fun _ h _ => h.1.1.1)
  intro _
  apply Comp.Triple.bind currentTask_keeps
  intro c
  apply Triple.withGuard
  apply Comp.Triple.bind (getTask_keeps c)
  intro curr
  apply Comp.Triple.bind (Comp.Triple.okOr fun _ h => h.1.1.1.1.1.1)
  rintro ⟨handle, put⟩
  apply Comp.Triple.bind (Comp.Triple.unwrap fun _ _ => trivial)
  rintro ⟨file, handle'⟩
  apply Comp.Triple.bind (Q := fun _ => Child I procId)
  · apply Comp.Triple.write
    rintro s ⟨⟨⟨⟨⟨⟨⟨⟨hI, hproc⟩, hcur⟩, hparent⟩, _⟩, hc⟩, hcurr⟩, _⟩, _⟩
    obtain rfl : cur = c := Option.some.inj (hcur.symm.trans hc)
    obtain ⟨task', hfound, hchild⟩ := child_insert { curr with files := put handle' }
      hcurr rfl hproc hparent
    exact ⟨inv.files ⟨hI, hcur, hcurr⟩ _, cur, task', hcur, hfound, hchild⟩
  intro _
  apply Comp.Triple.bind (Comp.Triple.ofExcept fun _ h => h.1)
  intro file
  apply Comp.Triple.bind (Comp.Triple.mapErr (Comp.Triple.ofExcept fun _ h => h.1.1))
  intro elf
  apply Comp.Triple.bind (Q := fun _ => Child I procId)
  · exact fun s h => TaskContext.loadElf_child inv env procId elf s h.1.1
  intro _
  exact Triple.withGuard (Comp.Triple.write hpush)

theorem exec_keeps (inv : Kept G I) (env : Env pg) (procId fd : Nat) {R : Kernel pg → Prop}
    (hpush : ∀ id s, TaskId.new procId = some id → Child I id s →
      R { s with executableTasks := s.executableTasks ++ [id] }) :
    Keeps I I (exec env procId fd) fun _ => R := by
  unfold exec
  apply Comp.Triple.bind (Comp.Triple.okOr fun _ h => h)
  intro id
  apply Comp.Triple.bind (knownProcess_keeps (fun _ h => h.1) id)
  rintro _ s ⟨hI, hid⟩
  exact Triple.withGuard (execChild_keeps inv env id fd fun s h => hpush id s hid h) s hI

end ProcCall

/-! ### Files -/

theorem getRoot_keeps {P : Kernel pg → Prop} (root : TaskId) :
    Keeps I P (getRoot root : KernelM pg ε _) fun _ => P := by
  apply Comp.Triple.bind (Comp.Triple.read _)
  intro fs
  exact Comp.Triple.conseq (Comp.Triple.unwrap fun _ _ => trivial) (fun _ h => h) (fun _ _ h => h.1.1)
    (fun _ h => h) (fun _ h => h)

/-- Resolving a path reads mounts and nothing else. -/
theorem PathHandle.openDir_keeps {P : Kernel pg → Prop} (hPI : ∀ s, P s → I s) (self : PathHandle)
    (path : Str) : Keeps I P (self.openDir path) fun _ => P := by
  cases self with
  | initFs folder =>
    apply Comp.Triple.bind (Comp.Triple.ofExcept fun s h => hPI s h)
    intro folder
    exact Comp.Triple.ret fun _ h => h.1
  | procRoot root =>
    apply Comp.Triple.bind (Comp.Triple.ofExcept fun s h => hPI s h)
    intro named
    cases named with
    | none => exact Comp.Triple.ret fun _ h => h.1
    | some named =>
      apply Triple.withGuard
      apply Comp.Triple.bind (Q := fun _ => P)
      · exact fun s h => getRoot_keeps root s h.1
      intro fs
      apply Comp.Triple.bind (Comp.Triple.okOr fun s h => hPI s h)
      intro ch
      exact Comp.Triple.ret fun _ h => h.1

theorem PathHandle.read_keeps {P : Kernel pg → Prop} (self : PathHandle) :
    Keeps I P self.read fun _ => P := by
  cases self with
  | initFs folder => exact Comp.Triple.ret fun _ h => h
  | procRoot root =>
    apply Triple.withGuard
    apply Comp.Triple.bind (Q := fun _ => P)
    · exact getRoot_keeps root
    intro fs
    exact Comp.Triple.ret fun _ h => h

theorem openPathFull_keeps {P : Kernel pg → Prop} (hPI : ∀ s, P s → I s) (curr : PathHandle) (path : Str) :
    Keeps I P (openPathFull curr path) fun _ => P := by
  -- each mounted handle is walked with a shorter rest of the path
  induction hn : path.length using Nat.strong_induction_on generalizing curr path with
  | _ n ih =>
    rw [openPathFull]
    apply Comp.Triple.bind (PathHandle.openDir_keeps hPI curr path)
    intro r
    cases r with
    | done x => exact Comp.Triple.ret fun _ h => h
    | rest h rem hlt => exact ih rem.length (hn ▸ hlt) h rem rfl

namespace FileCall

theorem openPath_keeps (inv : Kept G I) (env : Env pg) (pathPtr pathLen mode : Nat) :
    Keeps I I (openPath env pathPtr pathLen mode) fun _ => I := by
  unfold openPath
  apply Comp.Triple.bind (ofExcept_keeps _)
  intro _
  apply Comp.Triple.bind (Comp.Triple.unwrap fun _ _ => trivial)
  intro stop
  apply Comp.Triple.bind (Q := fun _ => I)
  · exact fun s h => ofExcept_keeps _ s h.1
  intro _
  apply Comp.Triple.bind (Comp.Triple.okOr fun _ h => h)
  intro path
  apply Comp.Triple.bind (Q := fun _ => I)
  · exact Comp.Triple.conseq (Comp.Triple.expect fun _ _ _ => trivial) (fun _ h => h.1) (fun _ _ h => h.1)
      (fun _ h => h) (fun _ h => h)
  intro _
  apply locked_keeps
  intro t task
  apply Comp.Triple.bind (Comp.Triple.mapErr (openPathFull_keeps (fun _ h => h.inv) _ _))
  intro pathHandle
  apply Comp.Triple.bind (PathHandle.read_keeps pathHandle)
  intro fileHandle
  apply Comp.Triple.bind (Comp.Triple.unwrap fun _ _ => trivial)
  intro next
  apply Comp.Triple.bind (setTask_keeps fun _ h => inv.files h.1 _)
  intro _
  exact Comp.Triple.ret fun _ h => h

theorem seek_keeps (inv : Kept G I) (fd index : Nat) :
    Keeps I I (seek fd index : KernelM pg _ _) fun _ => I := by
  unfold seek
  apply locked_keeps
  intro t task
  apply Comp.Triple.bind (Comp.Triple.okOr fun _ h => h.inv)
  rintro ⟨handle, put⟩
  apply Comp.Triple.bind (Comp.Triple.mapErr (Comp.Triple.ofExcept fun _ h => h.1.inv))
  intro handle
  exact setTask_keeps fun _ h => inv.files h.1.1 _

theorem read_keeps (inv : Kept G I) (env : Env pg) (fd pos length : Nat) :
    Keeps I I (read env fd pos length) fun _ => I := by
  unfold read
  apply Comp.Triple.bind (ofExcept_keeps _)
  intro _
  apply Comp.Triple.bind (Comp.Triple.unwrap fun _ _ => trivial)
  intro stop
  apply Comp.Triple.bind (Q := fun _ => I)
  · exact fun s h => ofExcept_keeps _ s h.1
  intro _
  apply locked_keeps
  intro t task
  apply Comp.Triple.bind (Comp.Triple.okOr fun _ h => h.inv)
  rintro ⟨handle, put⟩
  apply Comp.Triple.bind (Comp.Triple.unwrap fun _ _ => trivial)
  rintro ⟨bytes, handle⟩
  apply Comp.Triple.bind (setTask_keeps fun _ h => inv.files h.1.1 _)
  intro _
  exact Comp.Triple.ret fun _ h => h

theorem close_keeps (inv : Kept G I) (fd : Nat) :
    Keeps I I (close fd : KernelM pg _ _) fun _ => I := by
  unfold close
  apply locked_keeps
  intro t task
  apply Comp.Triple.bind (Comp.Triple.okOr fun _ h => h.inv)
  intro index
  exact setTask_keeps fun _ h => inv.files h.1 _

end FileCall

/-! ### Memory -/

/-- The tail of both mapping calls, with the caller's capabilities only read. -/
theorem mapRange_keeps (inv : Kept G I) {t : TaskId} {task : TaskContext pg t} (q : Prop) [Decidable q]
    (perms : Nat) (loop : PageTableFlags → VmM pg SyscallError Unit) :
    Keeps I (Locked I t task) (do
      Comp.require q SyscallError.wrongCapability
      let flags ← Comp.ofExcept (memoryFlags perms)
      withGuard .frameAllocator .write (inTable task (loop flags))) fun _ => I := by
  apply Comp.Triple.bind (Comp.Triple.require fun _ h _ => h.inv)
  intro _
  apply Comp.Triple.bind (Comp.Triple.ofExcept fun _ h => h.1.inv)
  intro flags
  apply Triple.withGuard
  apply Comp.Triple.zoom
  · rintro s v ⟨⟨h, _⟩, _⟩
    exact inv.change s _ h.1 (.update h.2.1 (.inl rfl) h.2.2 rfl rfl rfl fun _ hx => .inl hx)
  · exact fun _ h => h
  · exact fun _ _ => trivial

namespace MemoryCall

theorem mapVirt_keeps (inv : Kept G I) (env : Env pg) (pos len perms : Nat) :
    Keeps I I (mapVirt env pos len perms) fun _ => I := by
  unfold mapVirt
  apply Comp.Triple.bind (Comp.Triple.steady (fun s => (parsePageRange_still _ _ _ s).1)
    (fun _ h => h) fun _ _ => trivial)
  rintro ⟨startPage, endPage⟩ s ⟨hI, _⟩
  exact locked_keeps (fun t task => mapRange_keeps inv _ perms _) s hI

theorem mapPhys_keeps (inv : Kept G I) (env : Env pg) (virtAt virtLen perms physAt : Nat) :
    Keeps I I (mapPhys env virtAt virtLen perms physAt) fun _ => I := by
  unfold mapPhys
  apply Comp.Triple.bind (Comp.Triple.steady (fun s => (parsePageRange_still _ _ _ s).1)
    (fun _ h => h) fun _ _ => trivial)
  rintro ⟨startPage, endPage⟩
  apply Comp.Triple.bind (Comp.Triple.steady (fun s => (parseFrameRange_still _ _ _ s).1)
    (fun _ h => h.1) fun _ _ => trivial)
  rintro ⟨physFrom, physTo, frame, endFrame⟩ s ⟨⟨hI, _⟩, _⟩
  exact locked_keeps (fun t task => mapRange_keeps inv _ perms _) s hI

end MemoryCall

/-- Every handler keeps an invariant that survives the changes; what queueing the child
of an `exec` does to it is the caller's to say. -/
theorem Handler.keeps (inv : Kept G I) (env : Env pg) (h : Handler) {R : Kernel pg → Prop} (hR : ∀ s, I s → R s)
    (hpush : ∀ procId fd id s, h = .exec procId fd → TaskId.new procId = some id → Child I id s →
      R { s with executableTasks := s.executableTasks ++ [id] }) :
    Keeps I I (h.call env) fun _ => R := by
  have hret : ∀ {β : Type} {m : KernelM pg SyscallError β} (f : β → Reply),
      Keeps I I m (fun _ => I) → Keeps I I (m >>= fun b => Comp.ret (f b)) fun _ => R :=
    fun f hm => Comp.Triple.bind hm fun b => Comp.Triple.ret hR
  cases h with
  | clone capHandle => exact hret _ (CapCall.clone_keeps inv env capHandle)
  | inspect what index => exact hret _ (CapCall.inspect_keeps what index)
  | restrict handle a b => exact hret _ (CapCall.restrict_keeps inv handle a b)
  | cdrop handle => exact hret _ (CapCall.cdrop_keeps inv handle)
  | processShareTransfer proc capHandle transfer =>
    exact hret _ (CapCall.processShareTransfer_keeps inv env proc capHandle transfer)
  | spawn => exact hret _ (ProcCall.spawn_keeps inv env)
  | exec procId fd =>
    have hexec := ProcCall.exec_keeps inv env procId fd fun id s hid hs => hpush procId fd id s rfl hid hs
    exact Comp.Triple.bind hexec fun _ => Comp.Triple.ret fun _ h => h
  | openPath pathPtr pathLen mode => exact hret _ (FileCall.openPath_keeps inv env pathPtr pathLen mode)
  | seek fd index => exact hret _ (FileCall.seek_keeps inv fd index)
  | read fd pos length => exact hret _ (FileCall.read_keeps inv env fd pos length)
  | close fd => exact hret _ (FileCall.close_keeps inv fd)
  | mapVirt pos len perms => exact hret _ (MemoryCall.mapVirt_keeps inv env pos len perms)
  | mapPhys virtAt virtLen perms physAt =>
    exact hret _ (MemoryCall.mapPhys_keeps inv env virtAt virtLen perms physAt)

/-! ## The first instructions of a task -/

theorem startInitproc_keeps (inv : Kept G I) (env : Env pg) (initDir : InitDir) :
    Keeps I I (startInitproc env initDir : KernelM pg ε VirtAddr) fun _ => I := by
  unfold startInitproc
  apply Comp.Triple.bind (Comp.Triple.unwrap fun _ _ => trivial)
  intro entry
  cases entry with
  | folder _ => exact Comp.Triple.abort fun _ _ => trivial
  | file bytes =>
    apply Comp.Triple.bind (Comp.Triple.unwrap fun _ _ => trivial)
    intro elf
    apply Comp.Triple.bind currentTask_keeps
    intro c
    apply Triple.withGuard
    apply Comp.Triple.bind (Q := fun _ s => I s ∧ s.taskId = some c)
    · exact fun s h => TaskContext.loadElf_self inv env c elf s ⟨h.1.1.1, h.2⟩
    intro _
    apply Comp.Triple.bind (getTask_keeps c)
    intro ctx
    exact Comp.Triple.ret fun _ h => h.1.1

theorem jmpUserspace_keeps : Keeps I I (jmpUserspace : KernelM pg ε VirtAddr) fun _ => I := by
  unfold jmpUserspace
  apply locked_keeps
  intro c ctx
  exact Comp.Triple.ret fun _ h => h.inv

end Handlers

end Idkernel
