import Idkernel.ContextCalls

/-!
# The lock hand-off of a context switch

A switch takes the registry and both tasks' locks, and the task switched to
gives the two task locks back. What a switch does is computed for every kernel
state. Removing a dying task asks for a lock that the switch still holds.
-/
namespace Idkernel

open Address Traced Locks

variable {pg : Paging} {ε α : Type}

/-! ## What a switch does -/

/-- The lock operations of a switch that comes back to the same task. -/
def backLog (start : TaskId) : List KEvent :=
  [.acquire .registry .write, .acquire (.task start) .write,
    .release (.task start) .write, .release .registry .write]

/-- Those of a switch between two tasks that both stay. -/
def aliveLog (start next : TaskId) : List KEvent :=
  [.acquire .registry .write, .acquire (.task start) .write, .release .registry .write,
    .acquire (.task next) .write, .release (.task start) .write, .release (.task next) .write]

theorem replay_backLog (start : TaskId) : replay [] (backLog start) = some [] := by
  simp [backLog, replay, replayStep, Conflicts]

theorem replay_aliveLog {start next : TaskId} (hne : next ≠ start) :
    replay [] (aliveLog start next) = some [] := by
  simp [aliveLog, replay, replayStep, Conflicts, hne, Ne.symm hne]

/-- The queue after the running task has been put back into it. -/
def Kernel.candidates {id : TaskId} (k : Kernel pg) (start : TaskContext pg id) : List TaskId :=
  if start.state = .user then k.executableTasks ++ [id] else k.executableTasks

def Kernel.nextTask {id : TaskId} (k : Kernel pg) (start : TaskContext pg id) : TaskId :=
  (k.candidates start).head?.getD initId

/-- The state after that choice. -/
def Kernel.popped {id : TaskId} (k : Kernel pg) (start : TaskContext pg id) : Kernel pg :=
  { k with executableTasks := (k.candidates start).tail }

@[simp] theorem Kernel.popped_tasks {id : TaskId} (k : Kernel pg) (start : TaskContext pg id) :
    (k.popped start).tasks = k.tasks := rfl

/-- The state in which the next task runs, when the last one stays. -/
def Kernel.switched {id : TaskId} (k : Kernel pg) (start : TaskContext pg id) : Kernel pg :=
  { k.popped start with taskId := some (k.nextTask start), taskSwitchLocks := none }

/-- A registry without a task, and without it in its parent's list. -/
def Kernel.without {id : TaskId} (k : Kernel pg) (task : TaskContext pg id) : Kernel pg :=
  match task.parent with
  | none => { k with tasks := k.tasks.erase id }
  | some p => match (k.tasks.erase id).lookup p with
    | none => { k with tasks := k.tasks.erase id }
    | some parent =>
      { k with tasks := (k.tasks.erase id).insert p { parent with children := parent.children.erase id } }

/-- The state in which the next task runs, when the last one is gone. -/
def Kernel.buried {id : TaskId} (k : Kernel pg) (start : TaskContext pg id) : Kernel pg :=
  let left := (k.switched start).without start
  { left with frames := pg.dropTable start.pageTable left.frames }

section Without

variable {k : Kernel pg} {id p : TaskId} {task : TaskContext pg id}

theorem without_root (hp : task.parent = none) : k.without task = { k with tasks := k.tasks.erase id } := by
  simp only [Kernel.without, hp]

theorem without_orphan (hp : task.parent = some p) (hl : (k.tasks.erase id).lookup p = none) :
    k.without task = { k with tasks := k.tasks.erase id } := by
  simp only [Kernel.without, hp, hl]

theorem without_child {parent : TaskContext pg p} (hp : task.parent = some p)
    (hl : (k.tasks.erase id).lookup p = some parent) :
    k.without task = { k with
      tasks := (k.tasks.erase id).insert p { parent with children := parent.children.erase id } } := by
  simp only [Kernel.without, hp, hl]

@[simp] theorem without_taskId : (k.without task).taskId = k.taskId := by
  unfold Kernel.without
  split
  · rfl
  · split <;> rfl

@[simp] theorem without_queue : (k.without task).executableTasks = k.executableTasks := by
  unfold Kernel.without
  split
  · rfl
  · split <;> rfl

@[simp] theorem without_nextPid : (k.without task).nextPid = k.nextPid := by
  unfold Kernel.without
  split
  · rfl
  · split <;> rfl

theorem without_tasks (k : Kernel pg) (task : TaskContext pg id) : (k.without task).tasks = k.tasks.erase id ∨
    ∃ p parent, (k.tasks.erase id).lookup p = some parent ∧
      (k.without task).tasks =
        (k.tasks.erase id).insert p { parent with children := parent.children.erase id } := by
  cases hp : task.parent with
  | none => exact .inl (by rw [without_root hp])
  | some p =>
    cases hl : (k.tasks.erase id).lookup p with
    | none => exact .inl (by rw [without_orphan hp hl])
    | some parent => exact .inr ⟨p, parent, hl, by rw [without_child hp hl]⟩

/-- Removing a task removes that one. -/
@[simp] theorem without_lookup_self : (k.without task).tasks.lookup id = none := by
  rcases without_tasks k task with ht | ⟨p, parent, hl, ht⟩
  · rw [ht, Finmap.lookup_erase]
  · have hp : id ≠ p := by
      rintro rfl
      rw [Finmap.lookup_erase] at hl
      cases hl
    rw [ht, Finmap.lookup_insert_of_ne _ hp, Finmap.lookup_erase]

/-- Every other task stays, the parent without the child in its list. -/
theorem without_lookup_other (task : TaskContext pg id) {i : TaskId} {t : TaskContext pg i} (hi : i ≠ id)
    (h : k.tasks.lookup i = some t) : (k.without task).tasks.lookup i =
      some { t with children := if task.parent = some i then t.children.erase id else t.children } := by
  have herase : (k.tasks.erase id).lookup i = some t := by rw [Finmap.lookup_erase_ne hi, h]
  by_cases hp : task.parent = some i
  · rw [without_child hp herase, Finmap.lookup_insert, if_pos hp]
  rw [if_neg hp]
  cases hq : task.parent with
  | none => rw [without_root hq, herase]
  | some q =>
    have hiq : i ≠ q := fun he => hp (he ▸ hq)
    cases hl : (k.tasks.erase id).lookup q with
    | none => rw [without_orphan hq hl, herase]
    | some parent => rw [without_child hq hl, Finmap.lookup_insert_of_ne _ hiq, herase]

/-- And nobody new comes. -/
theorem without_lookup_cases {i : TaskId} {t' : TaskContext pg i}
    (h : (k.without task).tasks.lookup i = some t') :
    i ≠ id ∧ ∃ t children, k.tasks.lookup i = some t ∧ t' = { t with children := children } := by
  have hi : i ≠ id := by
    rintro rfl
    rw [without_lookup_self] at h
    cases h
  refine ⟨hi, ?_⟩
  cases hk : k.tasks.lookup i with
  | some t =>
    exact ⟨t, _, rfl, Option.some.inj (h.symm.trans (without_lookup_other task hi hk))⟩
  | none =>
    have herase : (k.tasks.erase id).lookup i = none := by rw [Finmap.lookup_erase_ne hi, hk]
    rcases without_tasks k task with ht | ⟨p, parent, hl, ht⟩
    · rw [ht, herase] at h
      cases h
    · have hip : i ≠ p := by
        rintro rfl
        rw [herase] at hl
        cases hl
      rw [ht, Finmap.lookup_insert_of_ne _ hip, herase] at h
      cases h

end Without

/-- Reading the dying task's context comes before anything of its parent. -/
theorem remove_run {id : TaskId} {k : Kernel pg} {task : TaskContext pg id}
    (h : k.tasks.lookup id = some task) :
    ∃ es, (TaskRegistry.remove id k : Ran _ _ ε Unit) =
      ⟨.ok (), k.without task, .acquire (.task id) .read :: es⟩ := by
  unfold TaskRegistry.remove
  rw [Comp.read_bind, Comp.write_bind, h]
  cases hp : task.parent with
  | none =>
    rw [without_root hp]
    refine ⟨_, withGuard_ok [] ?_⟩
    rw [Comp.read_bind, hp]
    rfl
  | some p =>
    cases hl : (k.tasks.erase id).lookup p with
    | none =>
      rw [without_orphan hp hl]
      refine ⟨_, withGuard_ok [] ?_⟩
      rw [Comp.read_bind, hp, Option.bind_some, hl]
      rfl
    | some parent =>
      rw [without_child hp hl]
      refine ⟨_, withGuard_ok [.acquire (.task p) .write, .release (.task p) .write] ?_⟩
      rw [Comp.read_bind, hp, Option.bind_some, hl]
      refine withGuard_ok [] ?_
      rw [getTask_bind hl]
      rfl

theorem requeue_run {id : TaskId} (start : TaskContext pg id) (k : Kernel pg) :
    (requeue start k : Ran _ _ ε Unit) = ⟨.ok (), { k with executableTasks := k.candidates start }, []⟩ := by
  unfold requeue Kernel.candidates
  rw [Comp.write_run]
  split <;> rfl

theorem chooseNext_bind {id : TaskId} (start : TaskContext pg id) (f : TaskId → KernelM pg ε α) (k : Kernel pg) :
    (requeue start >>= fun _ => popNext >>= f) k =
      f (k.nextTask start) (k.popped start) := by
  rw [Comp.bind_run, requeue_run]
  rfl

section Switch

variable {k : Kernel pg} {start : TaskId} {task : TaskContext pg start}

/-- With the queue empty and nobody else to run, the task goes on. -/
theorem switch_back (hcur : k.taskId = some start) (hfound : k.tasks.lookup start = some task)
    (hnext : k.nextTask task = start) :
    (switchToNextTask k : Ran _ _ ε Bool) =
      ⟨.ok false, k.popped task, backLog start⟩ := by
  unfold switchToNextTask
  rw [Comp.emit_bind, currentTaskId_bind hcur, getTask_bind hfound, Comp.emit_bind, getTask_bind hfound,
    chooseNext_bind, if_pos hnext]
  rfl

/-- A queued task that is not registered is a panic. -/
theorem switch_missing (hcur : k.taskId = some start) (hfound : k.tasks.lookup start = some task)
    (hne : k.nextTask task ≠ start) (hnext : k.tasks.lookup (k.nextTask task) = none) :
    (switchToNextTask k : Ran _ _ ε Bool) =
      ⟨.panic, k.popped task, [.acquire .registry .write, .acquire (.task start) .write]⟩ := by
  have hmissing : (k.popped task).tasks.lookup (k.nextTask task) = none := hnext
  unfold switchToNextTask
  rw [Comp.emit_bind, currentTaskId_bind hcur, getTask_bind hfound, Comp.emit_bind, getTask_bind hfound,
    chooseNext_bind, if_neg hne, getTask_missing hmissing]
  rfl

theorem afterTaskSwitch_alive {k : Kernel pg} {farc tarc : TaskId} {task : TaskContext pg farc}
    (hlocks : k.taskSwitchLocks = some (farc, tarc)) (hfound : k.tasks.lookup farc = some task)
    (halive : task.state ≠ .dying) :
    (afterTaskSwitch k : Ran _ _ ε Unit) = ⟨.ok (), { k with taskSwitchLocks := none },
      [.release (.task farc) .write, .release (.task tarc) .write]⟩ := by
  have hfound' : ({ k with taskSwitchLocks := none } : Kernel pg).tasks.lookup farc = some task := hfound
  unfold afterTaskSwitch
  rw [Comp.read_bind, Comp.write_bind, hlocks, Comp.unwrap_some, Comp.ret_bind]
  dsimp only
  rw [getTask_bind hfound', if_neg halive]
  rfl

theorem afterTaskSwitch_dying {k : Kernel pg} {farc tarc : TaskId} {task : TaskContext pg farc}
    (hlocks : k.taskSwitchLocks = some (farc, tarc)) (hfound : k.tasks.lookup farc = some task)
    (hdying : task.state = .dying) :
    ∃ es, (afterTaskSwitch k : Ran _ _ ε Unit) = ⟨.ok (),
      let left := Kernel.without { k with taskSwitchLocks := none } task
      { left with frames := pg.dropTable task.pageTable left.frames },
      .acquire .registry .write :: .acquire (.task farc) .read :: es⟩ := by
  have hfound' : ({ k with taskSwitchLocks := none } : Kernel pg).tasks.lookup farc = some task := hfound
  obtain ⟨es, hrun⟩ := remove_run (ε := ε) hfound'
  unfold afterTaskSwitch
  rw [Comp.read_bind, Comp.write_bind, hlocks, Comp.unwrap_some, Comp.ret_bind]
  dsimp only
  rw [getTask_bind hfound', if_pos hdying, TaskContext.id_eq, Comp.bind_run, withGuard_ok _ hrun]
  exact ⟨_, rfl⟩

/-- Another task comes next: it is locked, and the rest is the switch itself. -/
theorem switch_away (hcur : k.taskId = some start) (hfound : k.tasks.lookup start = some task)
    {next : TaskContext pg (k.nextTask task)} (hne : k.nextTask task ≠ start)
    (hnext : k.tasks.lookup (k.nextTask task) = some next) :
    (switchToNextTask k : Ran _ _ ε Bool) =
      ((afterTaskSwitch >>= fun _ => Comp.ret true) { k.popped task with
        taskId := some (k.nextTask task)
        taskSwitchLocks := some (start, k.nextTask task) }).after
      [.acquire .registry .write, .acquire (.task start) .write, .release .registry .write,
        .acquire (.task (k.nextTask task)) .write] := by
  have hnext' : (k.popped task).tasks.lookup (k.nextTask task) = some next := hnext
  unfold switchToNextTask setCurrentTaskId
  rw [Comp.emit_bind, currentTaskId_bind hcur, getTask_bind hfound, Comp.emit_bind, getTask_bind hfound,
    chooseNext_bind, if_neg hne, getTask_bind hnext', Comp.emit_bind, Comp.emit_bind, Comp.write_bind,
    Comp.write_bind]
  rfl

theorem switch_alive (hcur : k.taskId = some start) (hfound : k.tasks.lookup start = some task)
    {next : TaskContext pg (k.nextTask task)} (hne : k.nextTask task ≠ start)
    (hnext : k.tasks.lookup (k.nextTask task) = some next) (halive : task.state ≠ .dying) :
    (switchToNextTask k : Ran _ _ ε Bool) =
      ⟨.ok true, k.switched task, aliveLog start (k.nextTask task)⟩ := by
  have hafter : (afterTaskSwitch { k.popped task with
      taskId := some (k.nextTask task)
      taskSwitchLocks := some (start, k.nextTask task) } : Ran _ _ ε Unit) = _ :=
    afterTaskSwitch_alive rfl hfound halive
  rw [switch_away hcur hfound hne hnext, Comp.bind_run, hafter]
  rfl

theorem switch_dying (hcur : k.taskId = some start) (hfound : k.tasks.lookup start = some task)
    {next : TaskContext pg (k.nextTask task)} (hne : k.nextTask task ≠ start)
    (hnext : k.tasks.lookup (k.nextTask task) = some next) (hdying : task.state = .dying) :
    ∃ es, (switchToNextTask k : Ran _ _ ε Bool) = ⟨.ok true, k.buried task,
      .acquire .registry .write :: .acquire (.task start) .write :: .release .registry .write ::
        .acquire (.task (k.nextTask task)) .write :: .acquire .registry .write ::
        .acquire (.task start) .read :: es⟩ := by
  obtain ⟨es, hafter⟩ := afterTaskSwitch_dying (ε := ε) (k := { k.popped task with
      taskId := some (k.nextTask task)
      taskSwitchLocks := some (start, k.nextTask task) }) rfl hfound hdying
  refine ⟨es ++ [], ?_⟩
  rw [switch_away hcur hfound hne hnext, Comp.bind_run, hafter]
  rfl

/-- Nobody runs, or somebody who is not registered. -/
theorem switch_nobody (h : k.taskId = none ∨ ∃ start, k.taskId = some start ∧ k.tasks.lookup start = none) :
    (switchToNextTask k : Ran _ _ ε Bool) = ⟨.panic, k, [.acquire .registry .write]⟩ := by
  unfold switchToNextTask
  rw [Comp.emit_bind]
  rcases h with hcur | ⟨start, hcur, hmissing⟩
  · rw [currentTaskId_missing hcur]
    rfl
  · rw [currentTaskId_bind hcur, getTask_missing hmissing]
    rfl

/-- All a switch can do, short of a panic. -/
theorem switch_cases (h : (switchToNextTask k : Ran _ _ ε Bool).outcome ≠ .panic) :
    ∃ start task, k.taskId = some start ∧ k.tasks.lookup start = some task ∧
      (k.nextTask task = start ∧ (switchToNextTask k : Ran _ _ ε Bool).state = k.popped task ∨
        k.nextTask task ≠ start ∧ (∃ next, k.tasks.lookup (k.nextTask task) = some next) ∧
          (task.state ≠ .dying ∧ (switchToNextTask k : Ran _ _ ε Bool).state = k.switched task ∨
            task.state = .dying ∧ (switchToNextTask k : Ran _ _ ε Bool).state = k.buried task)) := by
  cases hcur : k.taskId with
  | none =>
    rw [switch_nobody (.inl hcur)] at h
    exact absurd rfl h
  | some start =>
    cases hfound : k.tasks.lookup start with
    | none =>
      rw [switch_nobody (.inr ⟨start, hcur, hfound⟩)] at h
      exact absurd rfl h
    | some task =>
      refine ⟨start, task, rfl, hfound, ?_⟩
      by_cases hne : k.nextTask task = start
      · exact .inl ⟨hne, by rw [switch_back hcur hfound hne]⟩
      cases hnext : k.tasks.lookup (k.nextTask task) with
      | none =>
        rw [switch_missing hcur hfound hne hnext] at h
        exact absurd rfl h
      | some next =>
        refine .inr ⟨hne, ⟨next, rfl⟩, ?_⟩
        by_cases hdying : task.state = .dying
        · obtain ⟨es, hrun⟩ := switch_dying (ε := ε) hcur hfound hne hnext hdying
          exact .inr ⟨hdying, by rw [hrun]⟩
        · exact .inl ⟨hdying, by rw [switch_alive hcur hfound hne hnext hdying]⟩

end Switch

/-! ## The hand-off -/

def ReleasedOnce (events : List KEvent) (l : LockName) : Prop := events.count (.release l .write) = 1

/-- Neither registered nor in the list of its parent. -/
def Gone {id : TaskId} (task : TaskContext pg id) (k : Kernel pg) : Prop :=
  k.tasks.lookup id = none ∧
    ∀ p parent, task.parent = some p → k.tasks.lookup p = some parent → id ∉ parent.children

/-- The switch comes to its end without asking for a lock that the CPU holds. Then none is held, each of
the three has been given back once, and a dying task is gone. -/
structure HandsOff (k : Kernel pg) (r : Ran (Kernel pg) KEvent ε Bool) : Prop where
  grants : replay [] r.events ≠ none
  ends : r.outcome ≠ .panic
  done : ∃ start task, k.taskId = some start ∧ k.tasks.lookup start = some task ∧ replay [] r.events = some [] ∧
    ReleasedOnce r.events .registry ∧ ReleasedOnce r.events (.task start) ∧
    ReleasedOnce r.events (.task (k.nextTask task)) ∧ (task.state = .dying → Gone task r.state)

/-- The running task is registered and not dying. It wants the CPU and nobody waits for it, or the front of
the queue, the idle task where the queue is empty, is registered. -/
def CanHandOff (k : Kernel pg) : Prop :=
  ∃ start task, k.taskId = some start ∧ k.tasks.lookup start = some task ∧ task.state ≠ .dying ∧
    (task.state = .user ∧ k.executableTasks = [] ∨ k.tasks.lookup (k.executableTasks.head?.getD initId) ≠ none)

theorem nextTask_dying {k : Kernel pg} {start : TaskId} {task : TaskContext pg start}
    (h : task.state = .dying) : k.nextTask task = k.executableTasks.head?.getD initId := by
  simp [Kernel.nextTask, Kernel.candidates, h]

section Cases

variable {k : Kernel pg} {start : TaskId} {task : TaskContext pg start} (hcur : k.taskId = some start)
  (hfound : k.tasks.lookup start = some task)

include hcur hfound

/-- The task that comes next is registered. -/
theorem canHandOff_iff : CanHandOff k ↔ task.state ≠ .dying ∧ k.tasks.lookup (k.nextTask task) ≠ none := by
  have hnext : k.tasks.lookup (k.nextTask task) ≠ none ↔ task.state = .user ∧ k.executableTasks = [] ∨
      k.tasks.lookup (k.executableTasks.head?.getD initId) ≠ none := by
    by_cases huser : task.state = .user
    · cases hqueue : k.executableTasks with
      | nil =>
        have hsame : k.nextTask task = start := by simp [Kernel.nextTask, Kernel.candidates, huser, hqueue]
        rw [hsame, hfound]
        simp [huser]
      | cons i rest =>
        have hfront : k.nextTask task = i := by simp [Kernel.nextTask, Kernel.candidates, huser, hqueue]
        rw [hfront]
        simp
    · have hfront : k.nextTask task = k.executableTasks.head?.getD initId := by
        simp [Kernel.nextTask, Kernel.candidates, huser]
      rw [hfront]
      simp [huser]
  rw [hnext]
  constructor
  · rintro ⟨start', task', hcur', hfound', h⟩
    obtain rfl : start = start' := Option.some.inj (hcur.symm.trans hcur')
    obtain rfl : task = task' := Option.some.inj (hfound.symm.trans hfound')
    exact h
  · intro h
    exact ⟨start, task, hcur, hfound, h⟩

/-- A task that is its own successor stays registered, so it must not be dying. -/
theorem switch_back_handsOff (hsame : k.nextTask task = start) :
    HandsOff k (switchToNextTask k : Ran _ _ ε Bool) ↔ task.state ≠ .dying := by
  rw [switch_back hcur hfound hsame]
  have hreplay : replay [] (backLog start) = some [] := replay_backLog start
  constructor
  · intro h hdying
    obtain ⟨start', task', hcur', hfound', _, _, _, _, hgone⟩ := h.done
    obtain rfl : start = start' := Option.some.inj (hcur.symm.trans hcur')
    obtain rfl : task = task' := Option.some.inj (hfound.symm.trans hfound')
    have hleft := (hgone hdying).1
    rw [Kernel.popped_tasks, hfound] at hleft
    cases hleft
  · intro halive
    refine ⟨by rw [hreplay]; simp, by simp, start, task, hcur, hfound, hreplay, ?_, ?_, ?_, ?_⟩
    · simp [ReleasedOnce, backLog]
    · simp [ReleasedOnce, backLog]
    · simp [ReleasedOnce, backLog, hsame]
    · exact fun hdying => absurd hdying halive

theorem switch_away_handsOff (hne : k.nextTask task ≠ start) {next : TaskContext pg (k.nextTask task)}
    (hnext : k.tasks.lookup (k.nextTask task) = some next) :
    HandsOff k (switchToNextTask k : Ran _ _ ε Bool) ↔ task.state ≠ .dying := by
  by_cases hdying : task.state = .dying
  · obtain ⟨es, hrun⟩ := switch_dying (ε := ε) hcur hfound hne hnext hdying
    rw [hrun]
    refine iff_of_false (fun h => h.grants ?_) (not_not_intro hdying)
    simp [replay, replayStep, Conflicts]
  · rw [switch_alive hcur hfound hne hnext hdying]
    have hreplay : replay [] (aliveLog start (k.nextTask task)) = some [] := replay_aliveLog hne
    refine iff_of_true ⟨by rw [hreplay]; simp, by simp, ?_⟩ hdying
    refine ⟨start, task, hcur, hfound, hreplay, ?_, ?_, ?_, fun h => absurd h hdying⟩
    · simp [ReleasedOnce, aliveLog]
    · simp [ReleasedOnce, aliveLog, hne]
    · simp [ReleasedOnce, aliveLog, Ne.symm hne]

end Cases

/-- The hand-off works exactly when a registered task that is not dying hands over to a registered one. -/
theorem switch_hands_off (k : Kernel pg) :
    HandsOff k (switchToNextTask k : Ran _ _ ε Bool) ↔ CanHandOff k := by
  have hnobody (h : k.taskId = none ∨ ∃ start, k.taskId = some start ∧ k.tasks.lookup start = none) :
      ¬ HandsOff k (switchToNextTask k : Ran _ _ ε Bool) := by
    rw [switch_nobody h]
    exact fun hoff => hoff.ends rfl
  cases hcur : k.taskId with
  | none =>
    refine iff_of_false (hnobody (.inl hcur)) ?_
    rintro ⟨start, task, hcur', _⟩
    simp [hcur] at hcur'
  | some start =>
    cases hfound : k.tasks.lookup start with
    | none =>
      refine iff_of_false (hnobody (.inr ⟨start, hcur, hfound⟩)) ?_
      rintro ⟨start', task, hcur', hfound', _⟩
      obtain rfl : start = start' := Option.some.inj (hcur.symm.trans hcur')
      simp [hfound] at hfound'
    | some task =>
      rw [canHandOff_iff hcur hfound]
      by_cases hne : k.nextTask task = start
      · rw [switch_back_handsOff hcur hfound hne, hne, hfound]
        simp
      cases hnext : k.tasks.lookup (k.nextTask task) with
      | none =>
        rw [switch_missing hcur hfound hne hnext]
        exact iff_of_false (fun hoff => hoff.ends rfl) (by simp)
      | some next =>
        rw [switch_away_handsOff hcur hfound hne hnext]
        simp

/-- A parent that has exited, with its child waiting to run. -/
def Kernel.exiting : Kernel .flat :=
  let dying : TaskContext .flat parentId :=
    { TaskContext.fresh initId parentId (fun _ => none) with state := .dying, children := [childId] }
  { Kernel.family .empty with
    tasks := (Kernel.family .empty).tasks.insert parentId dying
    executableTasks := [childId] }

/-- The switch asks to read the dying task's context while it holds it for writing. -/
theorem exiting_spins : Stuck [] (switchToNextTask : KernelM .flat Empty Bool) .exiting ∧
    ¬ HandsOff .exiting (switchToNextTask .exiting : Ran _ _ Empty Bool) := by
  have hstuck : replay [] (switchToNextTask .exiting : Ran (Kernel .flat) KEvent Empty Bool).events = none := by
    decide
  exact ⟨hstuck, fun h => h.grants hstuck⟩

end Idkernel
