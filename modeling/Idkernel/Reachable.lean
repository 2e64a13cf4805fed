import Idkernel.Changes
import Idkernel.HandOff
import Idkernel.Runs

/-!
# Reachable states

The state after boot is computed. From it every syscall, the first instructions
of every task and the idle loop keep the registry sane: identifiers stay below
the counter, and nobody is its own parent.
-/
namespace Idkernel

open Address Traced Locks

variable {pg : Paging} {ε α : Type}

/-! ## Boot -/

/-- The root of the first process, with the embedded files mounted. -/
def initRoot (initDir : InitDir) : ProcRootFs :=
  (⟨initprocId, []⟩ : ProcRootFs).mount "init".toList (.initFs (.fromInitDir initDir "init".toList))

/-- What the boot sequence leaves: the idle task running, the first process queued. -/
def Kernel.booted (initDir : InitDir) (granted : TaskCapabilityStorage) (initTable table : pg.Table)
    (frames : pg.Frames) (memory : Memory) : Kernel pg :=
  let init : TaskContext pg initId := TaskContext.createInit initTable
  let initproc : TaskContext pg initprocId :=
    { TaskContext.fresh initId initprocId table with capabilities := granted }
  { tasks := (Finmap.insert initprocId initproc (Finmap.insert initId init ∅)).insert initId
      { init with children := [initprocId] }
    executableTasks := [initprocId]
    taskId := some initId
    taskSwitchLocks := none
    nextPid := 3
    roots := ((Finmap.insert initId ⟨initId, []⟩ ∅).insert initprocId ⟨initprocId, []⟩).insert initprocId
      (initRoot initDir)
    frames := frames
    memory := memory }

/-- The state after some boot of the machine. -/
def Booted (k : Kernel pg) : Prop :=
  ∃ env table initDir granted frames memory,
    (runExecutor env table initDir granted (Kernel.initial pg frames memory) : Ran _ _ Empty Unit).outcome =
      .ok () ∧
    k = (runExecutor env table initDir granted (Kernel.initial pg frames memory) : Ran _ _ Empty Unit).state

section Boot

variable {env : Env pg} {initTable table : pg.Table} {frames frames' : pg.Frames}

theorem runExecutor_run (initTable : pg.Table) (initDir : InitDir) (granted : TaskCapabilityStorage)
    (memory : Memory)
    (htable : env.newTable frames = some (table, frames')) :
    Comp.Yields (runExecutor env initTable initDir granted : KernelM pg ε Unit)
      (Kernel.initial pg frames memory) () (.booted initDir granted initTable table frames' memory) := by
  let k₀ : Kernel pg := { Kernel.initial pg frames memory with roots := Finmap.insert initId ⟨initId, []⟩ ∅ }
  let k₁ : Kernel pg := { k₀ with
    tasks := Finmap.insert initId (TaskContext.createInit initTable) ∅, taskId := some initId }
  let k₂ : Kernel pg := { k₁.created initprocId frames' with
    roots := (k₁.created initprocId frames').roots.insert initprocId (initRoot initDir) }
  let ctx : TaskContext pg initprocId :=
    { TaskContext.fresh initId initprocId table with capabilities := granted }
  have hinit : (TaskRegistry.add (TaskContext.createInit initTable) k₀ : Ran _ _ ε Unit) = _ :=
    TaskRegistry.add_root rfl rfl
  have hmax : k₁.nextPid ≠ 2 ^ 64 - 1 := (by decide : 2 ≠ 2 ^ 64 - 1)
  have hcreate : (TaskContext.create env initId k₁ : Ran _ _ ε _) = _ :=
    TaskContext.create_run (show initprocId.raw = k₁.nextPid from rfl) hmax htable
  have hadd : (TaskRegistry.add ctx k₂ : Ran _ _ ε Unit) = _ := TaskRegistry.add_run rfl rfl rfl
  refine Comp.Yields.bind (Comp.Yields.of_eq (Comp.write_run _ _)) ?_
  refine Comp.Yields.bind (Yields.withGuard (Comp.Yields.of_eq hinit)) ?_
  refine Comp.Yields.bind (Comp.Yields.of_eq (Comp.write_run _ _)) ?_
  refine Comp.Yields.bind (Comp.Yields.of_eq hcreate) ?_
  refine Comp.Yields.bind (Yields.withGuard (Comp.Yields.of_eq rfl)) ?_
  refine Yields.withGuard (Comp.Yields.bind (Comp.Yields.of_eq hadd) ?_)
  exact Comp.Yields.of_eq rfl

/-- Without memory for the first process there is no boot. -/
theorem runExecutor_panic (initDir : InitDir) (granted : TaskCapabilityStorage) (memory : Memory)
    (htable : env.newTable frames = none) :
    (runExecutor env initTable initDir granted (Kernel.initial pg frames memory) : Ran _ _ ε Unit).outcome =
      .panic := by
  let k₀ : Kernel pg := { Kernel.initial pg frames memory with roots := Finmap.insert initId ⟨initId, []⟩ ∅ }
  have hinit : (TaskRegistry.add (TaskContext.createInit initTable) k₀ : Ran _ _ ε Unit) = _ :=
    TaskRegistry.add_root rfl rfl
  refine (Comp.Yields.bind_outcome (Comp.Yields.of_eq (Comp.write_run _ _))).trans ?_
  refine (Comp.Yields.bind_outcome (Yields.withGuard (Comp.Yields.of_eq hinit))).trans ?_
  refine (Comp.Yields.bind_outcome (Comp.Yields.of_eq (Comp.write_run _ _))).trans ?_
  rw [Comp.bind_outcome, TaskContext.create_panic]
  rintro ⟨_, _, hsome⟩
  have hnone : (env.newTable frames).isSome = true := hsome
  rw [htable] at hnone
  cases hnone

end Boot

theorem booted_cases {k : Kernel pg} (h : Booted k) : ∃ initDir granted initTable table frames memory,
    k = .booted initDir granted initTable table frames memory := by
  obtain ⟨env, initTable, initDir, granted, frames, memory, hok, rfl⟩ := h
  cases htable : env.newTable frames with
  | none =>
    rw [runExecutor_panic initDir granted memory htable] at hok
    cases hok
  | some made =>
    exact ⟨initDir, granted, initTable, made.1, made.2, memory,
      (runExecutor_run initTable initDir granted memory htable).state⟩

theorem booted_of {env : Env pg} {initTable table : pg.Table} {frames frames' : pg.Frames} (initDir : InitDir)
    (granted : TaskCapabilityStorage) (memory : Memory) (htable : env.newTable frames = some (table, frames')) :
    Booted (.booted initDir granted initTable table frames' memory) := by
  have hrun := runExecutor_run (ε := Empty) initTable initDir granted memory htable
  exact ⟨env, initTable, initDir, granted, frames, memory, hrun.outcome, hrun.state.symm⟩

/-- A boot without files, after which nothing fails. -/
def Kernel.plain (granted : TaskCapabilityStorage) : Kernel .flat :=
  let noTable : Paging.flat.Table := fun _ => none
  .booted [] granted noTable noTable (256 : Nat) fun _ => 0

theorem Kernel.plain_booted (granted : TaskCapabilityStorage) : Booted (Kernel.plain granted) :=
  @booted_of _ .plain _ _ _ _ [] granted _ rfl

def mayProcessSpawn : TaskCapabilityStorage := ⟨1, [(0, ⟨.DUPLICATE, .processSpawn⟩)]⟩

/-- The first process, running, with the right to spawn. -/
def Kernel.spawning : Kernel .flat := (Kernel.plain mayProcessSpawn).switched
    (TaskContext.createInit fun _ => none)

/-- A syscall that is answered is a step. -/
theorem kernelStep_yields {env : Env pg} {regs : AllSavedRegisters} {k k' : Kernel pg} {reply : Reply}
    (hbusy : k.taskId ≠ some initId) (h : Comp.Yields (regs.service.call env) k reply k') :
    kernelStep k (.syscall env regs) = some k' := by
  obtain ⟨es, hrun⟩ := h
  have hattempt : (Comp.attempt (regs.service.call env) k : Ran _ _ Empty _) = ⟨.ok (.ok reply), k', es⟩ := by
    unfold Comp.attempt
    rw [hrun]
  have hcall : (onSymcall1 env regs k : Ran _ _ Empty _) = ⟨.ok (regs.answer (.ok reply)), k', es ++ []⟩ := by
    unfold onSymcall1
    rw [Comp.bind_run, hattempt]
    rfl
  unfold kernelStep settle
  simp only [if_neg hbusy, hcall]

/-! ## The registry stays sane -/

structure Sane (k : Kernel pg) : Prop where
  orphan : ∀ id task, k.tasks.lookup id = some task → task.parent ≠ some id
  pids : ∀ id task, k.tasks.lookup id = some task → id.raw < k.nextPid
  room : k.nextPid < 2 ^ 64

/-- Updating tasks, or losing some, keeps a registry sane. -/
theorem Sane.fewer {k k' : Kernel pg} (h : Sane k) (hpid : k'.nextPid = k.nextPid)
    (hsub : ∀ id (task' : TaskContext pg id), k'.tasks.lookup id = some task' →
      ∃ task, k.tasks.lookup id = some task ∧ task'.parent = task.parent) : Sane k' where
  orphan id task' hfound' := by
    obtain ⟨task, hfound, hp⟩ := hsub id task' hfound'
    rw [hp]
    exact h.orphan id task hfound
  pids id task' hfound' := by
    obtain ⟨task, hfound, _⟩ := hsub id task' hfound'
    rw [hpid]
    exact h.pids id task hfound
  room := hpid ▸ h.room

/-- What is registered after one task's context was replaced. -/
theorem lookup_insert_parent {tasks : Finmap fun id => TaskContext pg id} {id : TaskId}
    {task task' : TaskContext pg id} (hfound : tasks.lookup id = some task) (hp : task'.parent = task.parent)
    (i : TaskId) (t' : TaskContext pg i) (h : (tasks.insert id task').lookup i = some t') :
    ∃ t, tasks.lookup i = some t ∧ t'.parent = t.parent := by
  by_cases hi : i = id
  · subst hi
    rw [Finmap.lookup_insert, Option.some.injEq] at h
    exact ⟨task, hfound, h ▸ hp⟩
  · rw [Finmap.lookup_insert_of_ne _ hi] at h
    exact ⟨t', h, rfl⟩

section Adopt

variable {k : Kernel pg} {id cur i : TaskId} {child : TaskContext pg id} {task : TaskContext pg cur}

/-- Registering a child adds that one. -/
theorem adopt_self (hne : id ≠ cur) : (k.adopt child task).tasks.lookup id = some child :=
  (Finmap.lookup_insert_of_ne _ hne).trans (Finmap.lookup_insert _)

/-- Every other task stays, with its parent and its state. -/
theorem adopt_other (child : TaskContext pg id) (found : k.tasks.lookup cur = some task) (hi : i ≠ id)
    {t : TaskContext pg i}
    (h : k.tasks.lookup i = some t) : ∃ t', (k.adopt child task).tasks.lookup i = some t' ∧
      t'.parent = t.parent ∧ t'.state = t.state := by
  by_cases hc : i = cur
  · subst hc
    obtain rfl : task = t := Option.some.inj (found.symm.trans h)
    exact ⟨_, Finmap.lookup_insert _, rfl, rfl⟩
  · refine ⟨t, ?_, rfl, rfl⟩
    exact (Finmap.lookup_insert_of_ne _ hc).trans ((Finmap.lookup_insert_of_ne _ hi).trans h)

/-- And nobody else comes. -/
theorem adopt_cases (found : k.tasks.lookup cur = some task) {t' : TaskContext pg i}
    (h : (k.adopt child task).tasks.lookup i = some t') :
    i = id ∧ t'.parent = child.parent ∨
      ∃ t, k.tasks.lookup i = some t ∧ t'.parent = t.parent ∧ t'.state = t.state := by
  by_cases hc : i = cur
  · subst hc
    have ht := Option.some.inj ((Finmap.lookup_insert _).symm.trans h)
    exact .inr ⟨task, found, ht ▸ rfl, ht ▸ rfl⟩
  have h' := (Finmap.lookup_insert_of_ne _ hc).symm.trans h
  by_cases hi : i = id
  · subst hi
    have ht := Option.some.inj ((Finmap.lookup_insert _).symm.trans h')
    exact .inl ⟨rfl, ht ▸ rfl⟩
  · exact .inr ⟨t', (Finmap.lookup_insert_of_ne _ hi).symm.trans h', rfl, rfl⟩

end Adopt

/-- A spawned child is nobody's parent yet. -/
theorem Sane.spawned {k : Kernel pg} (hk : Sane k) {id cur : TaskId} {child : TaskContext pg id}
    {task : TaskContext pg cur} {frames : pg.Frames} (found : k.tasks.lookup cur = some task)
    (fresh : k.tasks.lookup id = none) (pid : id.raw = k.nextPid) (room : k.nextPid ≠ 2 ^ 64 - 1)
    (parent : child.parent = some cur) : Sane ((k.created id frames).adopt child task) := by
  have hne : id ≠ cur := by
    rintro rfl
    rw [fresh] at found
    cases found
  have hlt := hk.room
  have hnext : ((k.created id frames).adopt child task).nextPid = k.nextPid + 1 :=
    Nat.mod_eq_of_lt (by omega)
  have hcases : ∀ i t', ((k.created id frames).adopt child task).tasks.lookup i = some t' →
      i = id ∧ t'.parent = child.parent ∨
        ∃ t, k.tasks.lookup i = some t ∧ t'.parent = t.parent ∧ t'.state = t.state :=
    fun i t' h => adopt_cases (k := k.created id frames) found h
  constructor
  · intro i t' h
    rcases hcases i t' h with ⟨rfl, hp⟩ | ⟨t, ht, hp, _⟩
    · rw [hp, parent]
      exact fun he => hne (Option.some.inj he).symm
    · rw [hp]
      exact hk.orphan i t ht
  · intro i t' h
    rw [hnext]
    rcases hcases i t' h with ⟨rfl, _⟩ | ⟨t, ht, _⟩
    · omega
    · have := hk.pids i t ht
      omega
  · omega

theorem sane_kept : Kept (fun _ => True) (Sane : Kernel pg → Prop) where
  change k k' hk hc := by
    cases hc with
    | @update id cur task task' frames memory current touched found parent children state caps =>
      exact hk.fewer rfl (lookup_insert_parent found parent)
    | spawned current found fresh pid room parent state caps =>
      exact hk.spawned found fresh pid room parent
  held _ _ _ _ _ _ _ := trivial
  narrow _ _ _ _ _ _ _ _ _ := trivial

/-- An invariant that only speaks of identifiers and parents. -/
structure Familial (I : Kernel pg → Prop) : Prop where
  kept : Kept (fun _ => True) I
  fewer : ∀ {k k' : Kernel pg}, I k → k'.nextPid = k.nextPid →
    (∀ id (task' : TaskContext pg id), k'.tasks.lookup id = some task' →
      ∃ task, k.tasks.lookup id = some task ∧ task'.parent = task.parent) → I k'

theorem sane_familial : Familial (Sane : Kernel pg → Prop) := ⟨sane_kept, fun hk hpid hsub => hk.fewer hpid hsub⟩

/-! ## One step of the machine -/

theorem settle_cases {m : KernelM pg Empty α} {k k' : Kernel pg} (h : settle m k = some k') :
    ∃ a, (m k).outcome = .ok a ∧ k' = (m k).state := by
  unfold settle at h
  cases ho : (m k).outcome with
  | ok a =>
    rw [ho] at h
    exact ⟨a, rfl, (Option.some.inj h).symm⟩
  | err e => exact e.elim
  | panic =>
    rw [ho] at h
    cases h

/-- The dispatcher adds nothing to what the service does. -/
theorem onSymcall1_cases {env : Env pg} {regs : AllSavedRegisters} {k k' : Kernel pg}
    (h : settle (onSymcall1 env regs) k = some k') :
    (regs.service.call env k).outcome ≠ .panic ∧ k' = (regs.service.call env k).state := by
  obtain ⟨a, ho, rfl⟩ := settle_cases h
  have hattempt : (Comp.attempt (regs.service.call env) k : Ran _ _ Empty _).state =
      (regs.service.call env k).state := Comp.attempt_state _ _
  unfold onSymcall1 at ho ⊢
  rw [Comp.bind_outcome] at ho
  rw [Comp.bind_state, hattempt]
  constructor
  · intro hs
    simp [Comp.attempt, hs] at ho
  · cases (Comp.attempt (regs.service.call env) k : Ran _ _ Empty _).outcome <;> rfl

/-- A task marked for its last switch. -/
def TaskContext.dying {id : TaskId} (task : TaskContext pg id) : TaskContext pg id :=
  { task with state := .dying }

def Kernel.marked {id : TaskId} (k : Kernel pg) (task : TaskContext pg id) : Kernel pg :=
  { k with tasks := k.tasks.insert id task.dying }

theorem markDying_run {k : Kernel pg} {t : TaskId} {task : TaskContext pg t} (hcur : k.taskId = some t)
    (hfound : k.tasks.lookup t = some task) : Comp.Yields (markDying : KernelM pg ε Unit) k ()
    (k.marked task) := by
  have hset : (getTask t >>= fun task => setTask t { task with state := .dying } : KernelM pg ε Unit) k =
      ⟨.ok (), k.marked task, []⟩ := by
    rw [getTask_bind hfound, setTask_run]
    rfl
  refine Comp.Yields.bind (Comp.Yields.of_eq (currentTask_run hcur hfound)) ?_
  exact Yields.withGuard (Comp.Yields.of_eq hset)

theorem markDying_cases {k : Kernel pg} (h : (markDying k : Ran _ _ ε Unit).outcome ≠ .panic) :
    ∃ t task, k.taskId = some t ∧ k.tasks.lookup t = some task ∧
      Comp.Yields (markDying : KernelM pg ε Unit) k () (k.marked task) := by
  by_cases hnone : k.taskId = none
  · have hpanic : (currentTask k : Ran _ _ ε _).outcome = .panic := by
      unfold currentTask
      rw [withGuard_outcome, currentTaskId_missing hnone]
    unfold markDying at h
    rw [Comp.bind_panic hpanic] at h
    exact absurd rfl h
  obtain ⟨t, hcur⟩ := Option.ne_none_iff_exists'.mp hnone
  cases hfound : k.tasks.lookup t with
  | none =>
    unfold markDying at h
    rw [Comp.bind_panic (currentTask_missing hcur hfound)] at h
    exact absurd rfl h
  | some task => exact ⟨t, task, hcur, hfound, markDying_run hcur hfound⟩

theorem Familial.switch {I : Kernel pg → Prop} (inv : Familial I) {k : Kernel pg} (hk : I k)
    (h : (switchToNextTask k : Ran _ _ ε Bool).outcome ≠ .panic) :
    I (switchToNextTask k : Ran _ _ ε Bool).state := by
  obtain ⟨start, task, hcur, hfound, ⟨_, hs⟩ | ⟨_, _, ⟨_, hs⟩ | ⟨_, hs⟩⟩⟩ := switch_cases h
  · rw [hs]
    exact inv.fewer hk rfl fun id t ht => ⟨t, ht, rfl⟩
  · rw [hs]
    exact inv.fewer hk rfl fun id t ht => ⟨t, ht, rfl⟩
  · rw [hs]
    refine inv.fewer hk (without_nextPid (k := k.switched task)) fun id t ht => ?_
    obtain ⟨_, t₀, children, h₀, rfl⟩ := without_lookup_cases (k := k.switched task) ht
    exact ⟨t₀, h₀, rfl⟩

/-- A switch with an answer after it is the switch. -/
theorem thenReply_outcome {m : KernelM pg ε α} {k : Kernel pg} {r : α → Reply}
    (h : ((m >>= fun a => Comp.ret (r a)) k).outcome ≠ .panic) : (m k).outcome ≠ .panic := by
  intro hp
  rw [Comp.bind_panic hp] at h
  exact h rfl

theorem thenReply_state (m : KernelM pg ε α) (k : Kernel pg) (r : α → Reply) :
    ((m >>= fun a => Comp.ret (r a)) k).state = (m k).state := by
  rw [Comp.bind_state]
  cases (m k).outcome <;> rfl

/-- The invariant half of a postcondition, at a run that did not panic. -/
theorem Keeps.state {I : Kernel pg → Prop} {m : KernelM pg ε α} (h : Keeps I I m fun _ => I) {k : Kernel pg}
    (hk : I k) (ho : (m k).outcome ≠ .panic) : I (m k).state := by
  have hm := h k hk
  cases hout : (m k).outcome with
  | ok a => rw [hout] at hm; exact hm
  | err e => rw [hout] at hm; exact hm
  | panic => exact absurd hout ho

/-- A call of the dispatcher that did not panic is a handler, a switch, a switch of a
task that is now dying, or changes nothing. -/
theorem service_cases {env : Env pg} {k : Kernel pg} {v : Service} (h : (v.call env k).outcome ≠ .panic) :
    (v ≠ .exit ∧ (v.call env k).state = k) ∨
      (∃ hd, v = .handler hd ∧ (hd.call env k).outcome ≠ .panic ∧ (v.call env k).state = (hd.call env k).state) ∨
      (v = .yield ∧ (switchToNextTask k : Ran _ _ SyscallError Bool).outcome ≠ .panic ∧
        (v.call env k).state = (switchToNextTask k : Ran _ _ SyscallError Bool).state) ∨
      (v = .exit ∧ ∃ t, ∃ task : TaskContext pg t, k.taskId = some t ∧ k.tasks.lookup t = some task ∧
        (switchToNextTask (k.marked task) : Ran _ _ SyscallError Bool).outcome ≠ .panic ∧
        (v.call env k).state = (switchToNextTask (k.marked task) : Ran _ _ SyscallError Bool).state) := by
  cases v with
  | exit =>
    have hcall : Service.call env .exit = (markDying >>= fun _ =>
        switchToNextTask >>= fun _ => Comp.ret {} : KernelM pg SyscallError Reply) := rfl
    rw [hcall] at h ⊢
    have hmark : (markDying k : Ran _ _ SyscallError Unit).outcome ≠ .panic := by
      intro hp
      rw [Comp.bind_panic hp] at h
      exact h rfl
    obtain ⟨t, task, hcur, hfound, hyield⟩ := markDying_cases hmark
    refine .inr (.inr (.inr ⟨rfl, t, task, hcur, hfound, ?_⟩))
    obtain ⟨es, hes⟩ := hyield
    rw [Comp.bind_run, hes] at h ⊢
    exact ⟨thenReply_outcome h, thenReply_state _ _ _⟩
  | yield => exact .inr (.inr (.inl ⟨rfl, thenReply_outcome h, thenReply_state _ _ _⟩))
  | mypid =>
    left
    refine ⟨by simp, ?_⟩
    refine (thenReply_state ProcCall.mypid k fun id => ({ rdi := some id.raw } : Reply)).trans ?_
    exact (Comp.Still.bind (fun s => ⟨rfl, rfl⟩) Comp.Still.unwrap k).1
  | unmap => exact .inl ⟨by simp, rfl⟩
  | unknown => exact .inl ⟨by simp, rfl⟩
  | handler hd => exact .inr (.inl ⟨hd, rfl, h, rfl⟩)

theorem Familial.service {I : Kernel pg → Prop} (inv : Familial I) {env : Env pg} {k : Kernel pg} (hk : I k)
    (v : Service) (h : (v.call env k).outcome ≠ .panic) : I (v.call env k).state := by
  rcases service_cases h with ⟨_, hs⟩ | ⟨hd, rfl, ho, hs⟩ | ⟨_, ho, hs⟩ | ⟨_, t, task, _, hfound, ho, hs⟩
  · rw [hs]
    exact hk
  · rw [hs]
    refine Keeps.state (Handler.keeps inv.kept env hd (fun _ h => h) ?_) hk ho
    exact fun _ _ id s _ _ hs => inv.fewer hs.1 rfl fun i t ht => ⟨t, ht, rfl⟩
  · rw [hs]
    exact inv.switch hk ho
  · rw [hs]
    exact inv.switch (inv.fewer hk rfl (lookup_insert_parent hfound rfl)) ho

theorem Familial.step {I : Kernel pg → Prop} (inv : Familial I) {k k' : Kernel pg} {l : Label pg} (hk : I k)
    (h : kernelStep k l = some k') : I k' := by
  unfold kernelStep at h
  cases l with
  | idle =>
    dsimp only at h
    split at h
    · obtain ⟨b, ho, rfl⟩ := settle_cases h
      exact inv.switch hk (by rw [ho]; simp)
    · cases h
  | startInitproc env initDir =>
    dsimp only at h
    split at h
    · obtain ⟨b, ho, rfl⟩ := settle_cases h
      exact Keeps.state (startInitproc_keeps inv.kept env initDir) hk (by rw [ho]; simp)
    · cases h
  | jmpUserspace =>
    dsimp only at h
    split at h
    · cases h
    · obtain ⟨b, ho, rfl⟩ := settle_cases h
      exact Keeps.state jmpUserspace_keeps hk (by rw [ho]; simp)
  | syscall env regs =>
    dsimp only at h
    split at h
    · cases h
    · obtain ⟨ho, rfl⟩ := onSymcall1_cases h
      exact inv.service hk _ ho

theorem booted_lookup {initDir : InitDir} {granted : TaskCapabilityStorage} {initTable table : pg.Table}
    {frames : pg.Frames} {memory : Memory} {id : TaskId} {task : TaskContext pg id}
    (h : (Kernel.booted initDir granted initTable table frames memory).tasks.lookup id = some task) :
    id = initId ∧ task.parent = none ∧ task.state = .sleepy ∧ task.capabilities = .empty ∨
      id = initprocId ∧ task.parent = some initId ∧ task.state = .user ∧ task.capabilities = granted := by
  by_cases h₁ : id = initId
  · subst h₁
    have ht := Option.some.inj ((Finmap.lookup_insert _).symm.trans h)
    exact .inl ⟨rfl, ht ▸ rfl, ht ▸ rfl, ht ▸ rfl⟩
  have h' := (Finmap.lookup_insert_of_ne _ h₁).symm.trans h
  by_cases h₂ : id = initprocId
  · subst h₂
    have ht := Option.some.inj ((Finmap.lookup_insert _).symm.trans h')
    exact .inr ⟨rfl, ht ▸ rfl, ht ▸ rfl, ht ▸ rfl⟩
  have hnone := (Finmap.lookup_insert_of_ne _ h₂).symm.trans h'
  rw [Finmap.lookup_insert_of_ne _ h₁, Finmap.lookup_empty] at hnone
  cases hnone

theorem Booted.sane {k : Kernel pg} (h : Booted k) : Sane k := by
  obtain ⟨initDir, granted, initTable, table, frames, memory, rfl⟩ := booted_cases h
  constructor
  · intro id task hfound
    rcases booted_lookup hfound with ⟨_, hp, _⟩ | ⟨rfl, hp, _⟩
    · simp [hp]
    · rw [hp]
      decide
  · intro id task hfound
    rcases booted_lookup hfound with ⟨rfl, _⟩ | ⟨rfl, _⟩
    · exact (by decide : 1 < 3)
    · exact (by decide : 2 < 3)
  · exact (by decide : 3 < 2 ^ 64)

/-- A state that some run from boot goes through. -/
def Reachable (k : Kernel pg) : Prop := ∃ k₀ ls, Booted k₀ ∧ Runs.run kernelStep k₀ ls = some k

/-- An invariant of the booted registry is one of every reachable one. -/
theorem Familial.reachable {I : Kernel pg → Prop} (inv : Familial I) (hboot : ∀ k, Booted k → I k) {k : Kernel pg}
    (h : Reachable k) : I k := by
  obtain ⟨k₀, ls, hk₀, hrun⟩ := h
  exact Runs.run_invariant (fun _ _ _ hI hs => inv.step hI hs) (hboot k₀ hk₀) hrun

theorem Reachable.sane {k : Kernel pg} (h : Reachable k) : Sane k :=
  sane_familial.reachable (fun _ hk => hk.sane) h

/-- Every parent, registered or gone, has been given its identifier. -/
structure Numbered (k : Kernel pg) : Prop where
  sane : Sane k
  parents : ∀ id task p, k.tasks.lookup id = some task → task.parent = some p → p.raw < k.nextPid

theorem numbered_familial : Familial (Numbered : Kernel pg → Prop) where
  kept := {
    change := by
      intro k k' hk hc
      refine ⟨sane_kept.change k k' hk.sane hc, ?_⟩
      cases hc with
      | @update id cur task task' frames memory current touched found parent children state caps =>
        intro i t' p h hp
        obtain ⟨t, ht, hpar⟩ := lookup_insert_parent found parent i t' h
        exact hk.parents i t p ht (hpar ▸ hp)
      | @spawned id cur child task frames current found fresh pid room parent state caps =>
        intro i t' p h hp
        have hlt := hk.sane.room
        have hnext : ((k.created id frames).adopt child task).nextPid = k.nextPid + 1 :=
          Nat.mod_eq_of_lt (by omega)
        rw [hnext]
        rcases adopt_cases (k := k.created id frames) found h with ⟨_, hpar⟩ | ⟨t, ht, hpar, _⟩
        · obtain rfl : cur = p := Option.some.inj (parent.symm.trans (hpar.symm.trans hp))
          have := hk.sane.pids cur task found
          omega
        · have := hk.parents i t p ht (hpar ▸ hp)
          omega
    held := fun _ _ _ _ _ _ _ => trivial
    narrow := fun _ _ _ _ _ _ _ _ _ => trivial }
  fewer hk hpid hsub := by
    refine ⟨hk.sane.fewer hpid hsub, ?_⟩
    intro i t' p h hp
    obtain ⟨t, ht, hpar⟩ := hsub i t' h
    rw [hpid]
    exact hk.parents i t p ht (hpar ▸ hp)

theorem Booted.numbered {k : Kernel pg} (h : Booted k) : Numbered k := by
  refine ⟨h.sane, ?_⟩
  obtain ⟨initDir, granted, initTable, table, frames, memory, rfl⟩ := booted_cases h
  intro id task p hfound hp
  rcases booted_lookup hfound with ⟨_, hpar, _⟩ | ⟨_, hpar, _⟩
  · rw [hpar] at hp
    cases hp
  · obtain rfl : initId = p := Option.some.inj (hpar.symm.trans hp)
    exact (by decide : 1 < 3)

theorem Reachable.numbered {k : Kernel pg} (h : Reachable k) : Numbered k :=
  numbered_familial.reachable (fun _ hk => hk.numbered) h

end Idkernel
