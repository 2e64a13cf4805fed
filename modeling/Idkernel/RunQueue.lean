import Idkernel.Reachable
import Idkernel.RoundRobin

/-!
# The run queue

Every step of the kernel is a sequence of moves of a round-robin scheduler, as
long as no child is queued that already waits. The only call that could do so is
`exec`, whose test for an entry point that is still zero lets a child through
again after an image that starts at address zero.
-/
namespace Idkernel

open Address Traced Locks RoundRobin

variable {pg : Paging} {ε α : Type}

/-! ## What a scheduler sees of the kernel -/

structure Shows (k : Kernel pg) (s : State TaskId) : Prop where
  wants : ∀ id, s.wants id = (k.tasks.lookup id).map fun task => decide (task.state = .user)
  queue : k.executableTasks = s.queue
  current : k.taskId = some s.current
  left : ∀ id ∈ s.left, id.raw < k.nextPid
  init : ∀ id task, id = initId → k.tasks.lookup id = some task → task.parent = none ∧ task.state = .sleepy
  sane : Sane k

/-- The state after the last switch of a task. -/
def Kernel.departed {id : TaskId} (k : Kernel pg) (task : TaskContext pg id) : Kernel pg :=
  (k.marked task).buried task.dying

section Departed

variable {k : Kernel pg} {id i : TaskId} {task : TaskContext pg id}

theorem departed_self : (k.departed task).tasks.lookup id = none :=
  without_lookup_self (k := (k.marked task).switched task.dying)

theorem departed_cases {t' : TaskContext pg i} (h : (k.departed task).tasks.lookup i = some t') :
    i ≠ id ∧ ∃ t, k.tasks.lookup i = some t ∧ t'.parent = t.parent ∧ t'.state = t.state := by
  obtain ⟨hi, t, children, ht, rfl⟩ := without_lookup_cases (k := (k.marked task).switched task.dying) h
  exact ⟨hi, t, (Finmap.lookup_insert_of_ne _ hi).symm.trans ht, rfl, rfl⟩

theorem departed_other (task : TaskContext pg id) (hi : i ≠ id) {t : TaskContext pg i}
    (h : k.tasks.lookup i = some t) :
    ∃ t', (k.departed task).tasks.lookup i = some t' ∧ t'.state = t.state := by
  exact ⟨_, without_lookup_other (k := (k.marked task).switched task.dying) task.dying hi
    ((Finmap.lookup_insert_of_ne k.tasks hi).trans h), rfl⟩

theorem departed_queue : (k.departed task).executableTasks = k.executableTasks.tail :=
  without_queue (k := (k.marked task).switched task.dying)

theorem departed_nextPid : (k.departed task).nextPid = k.nextPid :=
  without_nextPid (k := (k.marked task).switched task.dying)

theorem departed_taskId : (k.departed task).taskId = some (k.executableTasks.head?.getD initId) :=
  without_taskId (k := (k.marked task).switched task.dying)

end Departed

/-- The same tasks, with the same families and states. -/
def SameTasks (k k' : Kernel pg) : Prop :=
  (∀ id task', k'.tasks.lookup id = some task' →
    ∃ task, k.tasks.lookup id = some task ∧ task'.parent = task.parent ∧ task'.state = task.state) ∧
  ∀ id, k.tasks.lookup id ≠ none → k'.tasks.lookup id ≠ none

section Shows

variable {k k' : Kernel pg} {s : State TaskId}

theorem Shows.absent (h : Shows k s) {id : TaskId} : s.wants id = none ↔ k.tasks.lookup id = none := by
  rw [h.wants id, Option.map_eq_none_iff]

theorem Shows.found (h : Shows k s) {id : TaskId} (hw : s.wants id ≠ none) :
    ∃ task, k.tasks.lookup id = some task ∧ s.wants id = some (decide (task.state = .user)) := by
  obtain ⟨task, hfound⟩ := Option.ne_none_iff_exists'.mp fun hnone => hw (h.absent.mpr hnone)
  exact ⟨task, hfound, by rw [h.wants id, hfound, Option.map_some]⟩

theorem Shows.same (h : Shows k s) (hsame : SameTasks k k') (hqueue : k'.executableTasks = k.executableTasks)
    (hcur : k'.taskId = k.taskId) (hpid : k'.nextPid = k.nextPid) : Shows k' s where
  wants id := by
    rw [h.wants id]
    cases hfound' : k'.tasks.lookup id with
    | some task' =>
      obtain ⟨task, hfound, _, hstate⟩ := hsame.1 id task' hfound'
      simp [hfound, hstate]
    | none =>
      cases hfound : k.tasks.lookup id with
      | none => rfl
      | some task => exact absurd hfound' (hsame.2 id (by simp [hfound]))
  queue := hqueue.trans h.queue
  current := hcur.trans h.current
  left := hpid ▸ h.left
  init id task' hid hfound' := by
    obtain ⟨task, hfound, hparent, hstate⟩ := hsame.1 id task' hfound'
    rw [hparent, hstate]
    exact h.init id task hid hfound
  sane := h.sane.fewer hpid fun id task' hfound' => by
    obtain ⟨task, hfound, hparent, _⟩ := hsame.1 id task' hfound'
    exact ⟨task, hfound, hparent⟩

/-- The running task is registered, and not dying. -/
theorem Shows.running (h : Shows k s) (hs : Sound initId s) :
    ∃ task, k.tasks.lookup s.current = some task ∧ task.state ≠ .dying ∧
      s.wants s.current = some (decide (task.state = .user)) := by
  obtain ⟨task, hfound, hw⟩ := h.found hs.present
  refine ⟨task, hfound, ?_, hw⟩
  intro hdying
  by_cases hc : s.current = initId
  · rw [(h.init s.current task hc hfound).2] at hdying
    cases hdying
  · have hwilling := hs.others s.current hc
    rw [hw, hdying] at hwilling
    exact hwilling rfl

/-- The kernel and the scheduler choose the same task. -/
theorem Shows.candidates (h : Shows k s) {task : TaskContext pg s.current}
    (hw : s.wants s.current = some (decide (task.state = .user))) : k.candidates task = s.candidates := by
  unfold Kernel.candidates State.candidates
  rw [h.queue, hw]
  by_cases hu : task.state = .user <;> simp [hu]

/-- A switch is the scheduler's, and never a panic. -/
theorem Shows.switch (h : Shows k s) (hs : Sound initId s) :
    (switchToNextTask k : Ran _ _ ε Bool).outcome ≠ .panic ∧
      Shows (switchToNextTask k : Ran _ _ ε Bool).state (s.switch initId) := by
  obtain ⟨task, hfound, halive, hw⟩ := h.running hs
  have hcand := h.candidates hw
  have hnext : k.nextTask task = s.next initId := by
    unfold Kernel.nextTask State.next
    rw [hcand]
  have hshows : ∀ k' : Kernel pg, k'.tasks = k.tasks → k'.executableTasks = (k.candidates task).tail →
      k'.taskId = some (k.nextTask task) → k'.nextPid = k.nextPid → Shows k' (s.switch initId) := by
    intro k' htasks hqueue hcur hpid
    exact ⟨by rw [htasks]; exact h.wants, by rw [hqueue, hcand]; rfl, by rw [hcur, hnext]; rfl,
      by rw [hpid]; exact h.left, by rw [htasks]; exact h.init,
      h.sane.fewer hpid fun id t ht => ⟨t, by rw [← htasks]; exact ht, rfl⟩⟩
  by_cases hne : k.nextTask task = s.current
  · rw [switch_back h.current hfound hne]
    exact ⟨by simp, hshows _ rfl rfl (by rw [hne]; exact h.current) rfl⟩
  · have hpresent : s.wants (k.nextTask task) ≠ none := by
      rw [hnext]
      exact hs.next_present
    obtain ⟨next, hnextFound, _⟩ := h.found hpresent
    rw [switch_alive h.current hfound hne hnextFound halive]
    exact ⟨by simp, hshows _ rfl rfl rfl rfl⟩

theorem Shows.departed (h : Shows k s) {task : TaskContext pg s.current}
    (hfound : k.tasks.lookup s.current = some task) : Shows (k.departed task) (s.leave initId) where
  wants id := by
    by_cases hid : id = s.current
    · subst hid
      rw [State.leave_wants_self, departed_self]
      rfl
    rw [State.leave_wants_other hid, h.wants id]
    cases hk : k.tasks.lookup id with
    | some t =>
      obtain ⟨t', ht', hst⟩ := departed_other task hid hk
      simp [ht', hst]
    | none =>
      cases hb : (k.departed task).tasks.lookup id with
      | none => rfl
      | some t' =>
        obtain ⟨_, t, ht, _⟩ := departed_cases hb
        rw [hk] at ht
        cases ht
  queue := by
    rw [departed_queue, h.queue]
    rfl
  current := by
    rw [departed_taskId, h.queue]
    rfl
  left id hid := by
    rw [departed_nextPid]
    by_cases hc : id = s.current
    · subst hc
      exact h.sane.pids _ task hfound
    · exact h.left id (Set.mem_of_mem_insert_of_ne hid hc)
  init id t' hid ht' := by
    obtain ⟨_, t, ht, hp, hst⟩ := departed_cases ht'
    rw [hp, hst]
    exact h.init id t hid ht
  sane := h.sane.fewer departed_nextPid fun id t' ht' => by
    obtain ⟨_, t, ht, hp, _⟩ := departed_cases ht'
    exact ⟨t, ht, hp⟩

/-- The last switch of a task is its leaving, and never a panic. -/
theorem Shows.leave (h : Shows k s) (hs : Sound initId s) (hbusy : s.current ≠ initId)
    {task : TaskContext pg s.current} (hfound : k.tasks.lookup s.current = some task) :
    (switchToNextTask (k.marked task) : Ran _ _ ε Bool).outcome ≠ .panic ∧
      Shows (switchToNextTask (k.marked task) : Ran _ _ ε Bool).state (s.leave initId) := by
  have hnext : (k.marked task).nextTask task.dying = s.queue.head?.getD initId := by
    rw [nextTask_dying rfl, ← h.queue]
    rfl
  have hpresent : s.wants (s.queue.head?.getD initId) ≠ none := (State.first hs.idles hs.waiting hs.once).1
  have hne : s.queue.head?.getD initId ≠ s.current := by
    cases hq : s.queue with
    | nil => exact hbusy.symm
    | cons i rest =>
      rintro rfl
      exact hs.running (by simp [hq])
  rw [← hnext] at hpresent hne
  obtain ⟨next, hfoundNext, _⟩ := h.found hpresent
  have hother : (k.marked task).tasks.lookup _ = some next :=
    (Finmap.lookup_insert_of_ne k.tasks hne).trans hfoundNext
  have hlast : (k.marked task).tasks.lookup s.current = some task.dying := Finmap.lookup_insert _
  obtain ⟨es, hrun⟩ := switch_dying (ε := ε) (k := k.marked task) h.current hlast hne hother rfl
  rw [hrun]
  exact ⟨by simp, h.departed hfound⟩

end Shows

/-! ## Handlers -/

/-- The scheduler has moved on from `s` to what the kernel shows, with the queue as it was. -/
def Follows (s : State TaskId) (q : List TaskId) (k : Kernel pg) : Prop :=
  ∃ s', Relation.ReflTransGen (Move initId) s s' ∧ Shows k s' ∧ s'.queue = q

theorem sameTasks_insert {k : Kernel pg} {id : TaskId} {task task' : TaskContext pg id}
    (hfound : k.tasks.lookup id = some task) (hp : task'.parent = task.parent) (hst : task'.state = task.state)
    (frames : pg.Frames) (memory : Memory) :
    SameTasks k { k with tasks := k.tasks.insert id task', frames := frames, memory := memory } := by
  constructor
  · intro i t' h
    by_cases hi : i = id
    · subst hi
      have ht := Option.some.inj ((Finmap.lookup_insert _).symm.trans h)
      exact ⟨task, hfound, ht ▸ hp, ht ▸ hst⟩
    · exact ⟨t', (Finmap.lookup_insert_of_ne _ hi).symm.trans h, rfl, rfl⟩
  · intro i hi
    by_cases he : i = id
    · subst he
      simp
    · simpa [Finmap.lookup_insert_of_ne _ he] using hi

theorem Shows.spawned {k : Kernel pg} {s : State TaskId} (h : Shows k s) (hs : Sound initId s) {id cur : TaskId}
    {child : TaskContext pg id} {task : TaskContext pg cur} {frames : pg.Frames}
    (found : k.tasks.lookup cur = some task) (fresh : k.tasks.lookup id = none) (pid : id.raw = k.nextPid)
    (room : k.nextPid ≠ 2 ^ 64 - 1) (parent : child.parent = some cur) (state : child.state = .user) :
    Shows ((k.created id frames).adopt child task) (s.add id) where
  wants i := by
    by_cases hi : i = id
    · subst hi
      have hne : i ≠ cur := by
        rintro rfl
        rw [fresh] at found
        cases found
      rw [State.add_wants_self, adopt_self hne, Option.map_some, state]
      rfl
    rw [State.add_wants_other hi, h.wants i]
    cases hk : k.tasks.lookup i with
    | some t =>
      obtain ⟨t', ht', _, hst⟩ := adopt_other (k := k.created id frames) child found hi hk
      rw [ht', Option.map_some, Option.map_some, hst]
    | none =>
      cases hb : ((k.created id frames).adopt child task).tasks.lookup i with
      | none => rfl
      | some t' =>
        rcases adopt_cases (k := k.created id frames) found hb with ⟨he, _⟩ | ⟨t, ht, _⟩
        · exact absurd he hi
        · cases ht.symm.trans hk
  queue := h.queue
  current := h.current
  left i hi := by
    have hlt := h.sane.room
    have hnext : ((k.created id frames).adopt child task).nextPid = k.nextPid + 1 :=
      Nat.mod_eq_of_lt (by omega)
    have := h.left i hi
    omega
  init i t' hi ht' := by
    rcases adopt_cases (k := k.created id frames) found ht' with ⟨rfl, _⟩ | ⟨t, ht, hp, hst⟩
    · have hidle := hs.idles
      rw [← hi, h.absent.mpr fresh] at hidle
      cases hidle
    · rw [hp, hst]
      exact h.init i t hi ht
  sane := h.sane.spawned found fresh pid room parent

theorem follows_kept {s : State TaskId} (hs : Sound initId s) (q : List TaskId) :
    Kept (fun _ => True) (Follows s q : Kernel pg → Prop) where
  change k k' := by
    rintro ⟨s', hmoves, hshows, hq⟩ hc
    cases hc with
    | @update id cur task task' frames memory current touched found parent children state caps =>
      exact ⟨s', hmoves, hshows.same (sameTasks_insert found parent state frames memory) rfl rfl rfl, hq⟩
    | @spawned id cur child task frames current found fresh pid room parent state caps =>
      have hnew : id ∉ s'.left := by
        intro hmem
        have := hshows.left id hmem
        omega
      exact ⟨s'.add id, hmoves.tail (.add (hshows.absent.mpr fresh) hnew),
        hshows.spawned (hs.moves hmoves) found fresh
        pid room parent state, hq⟩
  held _ _ _ _ _ _ _ := trivial
  narrow _ _ _ _ _ _ _ _ _ := trivial

namespace ProcCall

/-- `exec` comes to queueing the child: the caller's child has an entry point of zero, and
the descriptor gives an image. -/
def Accepts (env : Env pg) (procId fd : Nat) (k : Kernel pg) (id : TaskId) : Prop :=
  TaskId.new procId = some id ∧ ∃ cur proc caller file bytes, k.taskId = some cur ∧
    k.tasks.lookup id = some proc ∧ proc.parent = some cur ∧ proc.userEntryPoint = .zero ∧
    k.tasks.lookup cur = some caller ∧ (findHandle caller.files fd).map (fun x => x.1) = some file ∧
    (env.readFileToMemory file).map (fun x => x.1) = some (.ok bytes) ∧ (Elf.new bytes).isOk = true

/-- It only succeeds through all of its tests. -/
theorem exec_accepts {env : Env pg} {procId fd : Nat} {k : Kernel pg} {u : Unit}
    (h : (exec env procId fd k).outcome = .ok u) : ∃ id, Accepts env procId fd k id := by
  unfold exec at h
  obtain ⟨id, hid, h⟩ := (Comp.Still.okOr _ _).bind_inv h
  obtain ⟨_, _, h⟩ := Comp.bind_inv h
  rw [knownProcess_state, withGuard_outcome] at h
  unfold execChild at h
  obtain ⟨proc, hproc, h⟩ := (getTask_still id).bind_inv h
  obtain ⟨cur, hcur, h⟩ := currentTaskId_still.bind_inv h
  obtain ⟨_, hparent, h⟩ := Comp.Still.require.bind_inv h
  obtain ⟨_, hentry, h⟩ := Comp.Still.require.bind_inv h
  obtain ⟨c, hc, h⟩ := Comp.bind_inv h
  have hc' := currentTask_ok hc
  obtain rfl : cur = c := Option.some.inj ((currentTaskId_ok hcur).symm.trans hc')
  rw [currentTask_state, withGuard_outcome] at h
  obtain ⟨caller, hcaller, h⟩ := (getTask_still cur).bind_inv h
  obtain ⟨⟨file, put⟩, hfile, h⟩ := (Comp.Still.okOr _ _).bind_inv h
  obtain ⟨⟨bytes, file'⟩, hbytes, h⟩ := (Comp.Still.unwrap _).bind_inv h
  obtain ⟨_, _, h⟩ := Comp.bind_inv h
  obtain ⟨bytes, hok, h⟩ := (Comp.Still.ofExcept _).bind_inv h
  obtain ⟨elf, helf, _⟩ := Comp.bind_inv h
  refine ⟨id, Comp.okOr_ok hid, cur, proc, caller, file, bytes, hc', getTask_ok hproc, Comp.require_ok hparent,
    Comp.require_ok hentry, getTask_ok hcaller, ?_, ?_, ?_⟩
  · rw [Comp.okOr_ok hfile, Option.map_some]
  · rw [Comp.unwrap_ok hbytes, Option.map_some, Comp.ofExcept_ok_inv hok]
  · rw [Comp.ofExcept_ok_inv (Comp.mapErr_ok helf)]
    rfl

end ProcCall

/-- The syscall queues a child that already waits. -/
def Requeues (env : Env pg) (regs : AllSavedRegisters) (k : Kernel pg) : Prop :=
  ∃ procId fd id, regs.service = .handler (.exec procId fd) ∧ ProcCall.Accepts env procId fd k id ∧
    id ∈ k.executableTasks

section Steps

variable {k k' : Kernel pg} {s : State TaskId}

theorem Follows.here (h : Shows k s) : Follows s s.queue k := ⟨s, .refl, h, rfl⟩

/-- A child of the running task that does not wait yet is queued by a move. -/
theorem Shows.pushed (h : Shows k s) (hs : Sound initId s) {id cur : TaskId} {task : TaskContext pg id}
    (hcur : k.taskId = some cur) (hfound : k.tasks.lookup id = some task) (hparent : task.parent = some cur)
    (hnew : id ∉ s.queue) :
    Move initId s (s.push id) ∧
      Shows { k with executableTasks := k.executableTasks ++ [id] } (s.push id) := by
  have hne : id ≠ s.current := by
    intro heq
    subst heq
    obtain rfl : s.current = cur := Option.some.inj (h.current.symm.trans hcur)
    exact h.sane.orphan _ task hfound hparent
  have hbusy : id ≠ initId := by
    intro heq
    rw [(h.init _ task heq hfound).1] at hparent
    cases hparent
  have hwilling : s.wants id = some true := by
    have hw := hs.others id hbusy
    rw [h.wants id, hfound, Option.map_some] at hw ⊢
    simpa using hw
  refine ⟨.push hwilling hne hnew, h.wants, ?_, h.current, h.left, h.init, ?_⟩
  · exact congrArg (· ++ [id]) h.queue
  · exact h.sane.fewer rfl fun i t ht => ⟨t, ht, rfl⟩

/-- Any other handler, and any other `exec`, makes moves of the scheduler. -/
theorem handler_follows (h : Shows k s) (hs : Sound initId s) (env : Env pg) (hd : Handler)
    (hexec : ∀ procId fd id, hd = .exec procId fd → ProcCall.Accepts env procId fd k id → id ∉ k.executableTasks)
    (ho : (hd.call env k).outcome ≠ .panic) :
    ∃ s', Relation.ReflTransGen (Move initId) s s' ∧ Shows (hd.call env k).state s' := by
  -- what queueing the child leaves behind is a move if the child was not waiting
  let R : Kernel pg → Prop := fun k' =>
    (∀ procId fd id, hd = .exec procId fd → TaskId.new procId = some id → id ∉ s.queue) →
      ∃ s', Relation.ReflTransGen (Move initId) s s' ∧ Shows k' s'
  have hR : ∀ k', Follows s s.queue k' → R k' := by
    rintro k' ⟨s', hmoves, hshows, _⟩ _
    exact ⟨s', hmoves, hshows⟩
  have hpush : ∀ procId fd id k', hd = .exec procId fd → TaskId.new procId = some id →
      Child (Follows s s.queue) id k' → R { k' with executableTasks := k'.executableTasks ++ [id] } := by
    rintro procId fd id k' hexec hid ⟨⟨s', hmoves, hshows, hqueue⟩, cur, task, hcur, hfound, hparent⟩ hnew
    have hwaits : id ∉ s'.queue := hqueue ▸ hnew procId fd id hexec hid
    obtain ⟨hmove, hpushed⟩ := hshows.pushed (hs.moves hmoves) hcur hfound hparent hwaits
    exact ⟨s'.push id, hmoves.tail hmove, hpushed⟩
  have hkeeps := Handler.keeps (follows_kept hs s.queue) env hd hR hpush k (Follows.here h)
  cases hout : (hd.call env k).outcome with
  | ok reply =>
    rw [hout] at hkeeps
    refine hkeeps fun procId fd id hexec' hid => ?_
    subst hexec'
    obtain ⟨u, hu, _⟩ := Comp.bind_inv hout
    obtain ⟨id', haccepts⟩ := ProcCall.exec_accepts hu
    obtain rfl : id' = id := Option.some.inj (haccepts.1.symm.trans hid)
    rw [← h.queue]
    exact hexec procId fd id' rfl haccepts
  | err e =>
    rw [hout] at hkeeps
    obtain ⟨s', hmoves, hshows, _⟩ := hkeeps
    exact ⟨s', hmoves, hshows⟩
  | panic => exact absurd hout ho

/-- A syscall of a task that is not the idle one is a sequence of moves, unless it queues a child twice; a
task that calls `exit` leaves. -/
theorem service_moves (h : Shows k s) (hs : Sound initId s) {env : Env pg} {regs : AllSavedRegisters}
    (hbusy : k.taskId ≠ some initId) (ho : (regs.service.call env k).outcome ≠ .panic)
    (honce : ¬ Requeues env regs k) :
    ∃ s', Relation.ReflTransGen (Move initId) s s' ∧ Shows (regs.service.call env k).state s' ∧
      (regs.service = .exit → s.current ∈ s'.left) := by
  rcases service_cases ho with ⟨hv, hstate⟩ | ⟨hd, hv, ho, hstate⟩ | ⟨hv, ho, hstate⟩ |
    ⟨_, t, task, hcur, hfound, ho, hstate⟩
  · rw [hstate]
    exact ⟨s, .refl, h, fun hexit => absurd hexit hv⟩
  · have hexec : ∀ procId fd id, hd = .exec procId fd → ProcCall.Accepts env procId fd k id →
        id ∉ k.executableTasks := by
      rintro procId fd id rfl haccepts hmem
      exact honce ⟨procId, fd, id, hv, haccepts, hmem⟩
    obtain ⟨s', hmoves, hshows⟩ := handler_follows h hs env hd hexec ho
    rw [hstate]
    exact ⟨s', hmoves, hshows, fun hexit => by rw [hv] at hexit; cases hexit⟩
  · rw [hstate]
    exact ⟨s.switch initId, .single .switch, (h.switch hs).2, fun hexit => by rw [hv] at hexit; cases hexit⟩
  · obtain rfl : s.current = t := Option.some.inj (h.current.symm.trans hcur)
    have hne : s.current ≠ initId := fun he => hbusy (he ▸ h.current)
    rw [hstate]
    exact ⟨s.leave initId, .single (.leave hne), (h.leave hs hne hfound).2, fun _ => Set.mem_insert _ _⟩

/-- One step of the machine is a sequence of moves, unless it queues a child twice; a task
that calls `exit` leaves. -/
theorem kernelStep_moves (h : Shows k s) (hs : Sound initId s) {l : Label pg} (hstep : kernelStep k l = some k')
    (hl : ∀ env regs, l = .syscall env regs → ¬ Requeues env regs k) :
    ∃ s', Relation.ReflTransGen (Move initId) s s' ∧ Shows k' s' ∧
      ∀ env regs, l = .syscall env regs → regs.service = .exit → s.current ∈ s'.left := by
  have hfollow : ∀ k' : Kernel pg, Follows s s.queue k' →
    ∃ s', Relation.ReflTransGen (Move initId) s s' ∧ Shows k' s' := by
    rintro k' ⟨s', hmoves, hshows, _⟩
    exact ⟨s', hmoves, hshows⟩
  cases l with
  | idle =>
    simp only [kernelStep] at hstep
    split at hstep
    · obtain ⟨b, ho, rfl⟩ := settle_cases hstep
      exact ⟨s.switch initId, .single .switch, (h.switch hs).2, fun _ _ hl => by cases hl⟩
    · cases hstep
  | startInitproc env initDir =>
    simp only [kernelStep] at hstep
    split at hstep
    · obtain ⟨b, ho, rfl⟩ := settle_cases hstep
      have hkeeps := Keeps.state (startInitproc_keeps (follows_kept hs s.queue) env initDir) (Follows.here h)
        (by rw [ho]; simp)
      obtain ⟨s', hmoves, hshows⟩ := hfollow _ hkeeps
      exact ⟨s', hmoves, hshows, fun _ _ hl => by cases hl⟩
    · cases hstep
  | jmpUserspace =>
    simp only [kernelStep] at hstep
    split at hstep
    · cases hstep
    · obtain ⟨b, ho, rfl⟩ := settle_cases hstep
      have hkeeps := Keeps.state (I := Follows s s.queue) jmpUserspace_keeps (Follows.here h) (by rw [ho]; simp)
      obtain ⟨s', hmoves, hshows⟩ := hfollow _ hkeeps
      exact ⟨s', hmoves, hshows, fun _ _ hl => by cases hl⟩
  | syscall env regs =>
    simp only [kernelStep] at hstep
    split at hstep
    · cases hstep
    next hbusy =>
    obtain ⟨ho, rfl⟩ := onSymcall1_cases hstep
    obtain ⟨s', hmoves, hshows, hleft⟩ := service_moves h hs hbusy ho (hl env regs rfl)
    refine ⟨s', hmoves, hshows, fun env' regs' heq hexit => ?_⟩
    cases heq
    exact hleft hexit

end Steps

/-! ## Runs -/

/-- The task made an `exit` syscall on the way. -/
def Exited (k₀ : Kernel pg) (ls : List (Label pg)) (id : TaskId) : Prop :=
  ∃ as env regs bs t, ls = as ++ .syscall env regs :: bs ∧ Runs.run kernelStep k₀ as = some t ∧
    t.taskId = some id ∧ regs.service = .exit

/-- No step of the run queues a child that already waits. -/
def QueuesOnce (k₀ : Kernel pg) (ls : List (Label pg)) : Prop :=
  ∀ as env regs bs t, ls = as ++ .syscall env regs :: bs → Runs.run kernelStep k₀ as = some t →
    ¬ Requeues env regs t

theorem QueuesOnce.front {k₀ : Kernel pg} {ls : List (Label pg)} {l : Label pg} (h : QueuesOnce k₀ (ls ++ [l])) :
    QueuesOnce k₀ ls := by
  rintro as env regs bs t rfl
  exact h as env regs (bs ++ [l]) t (by simp)

/-- The step that was made last, or an earlier one. -/
theorem Exited.snoc {k₀ k : Kernel pg} {ls : List (Label pg)} {l : Label pg} {id : TaskId}
    (hrun : Runs.run kernelStep k₀ ls = some k) (h : Exited k₀ (ls ++ [l]) id) : Exited k₀ ls id ∨
      ∃ env regs, l = .syscall env regs ∧ k.taskId = some id ∧ regs.service = .exit := by
  obtain ⟨as, env, regs, bs, t, hls, ht, hcur, hexit⟩ := h
  rcases List.eq_nil_or_concat bs with rfl | ⟨bs, b, rfl⟩
  · obtain ⟨rfl, hl⟩ := List.append_inj' hls rfl
    obtain rfl : k = t := Option.some.inj (hrun.symm.trans ht)
    exact .inr ⟨env, regs, List.singleton_inj.mp hl, hcur, hexit⟩
  · left
    have hsplit : ls ++ [l] = (as ++ .syscall env regs :: bs) ++ [b] := by simp [hls]
    obtain ⟨rfl, _⟩ := List.append_inj' hsplit rfl
    exact ⟨as, env, regs, bs, t, rfl, ht, hcur, hexit⟩

def bootState : State TaskId where
  wants := fun id => if id = initId then some false else if id = initprocId then some true else none
  queue := [initprocId]
  current := initId
  left := ∅

theorem booted_shows {k : Kernel pg} (h : Booted k) : Shows k bootState := by
  have hsane := h.sane
  obtain ⟨initDir, granted, initTable, table, frames, memory, rfl⟩ := booted_cases h
  refine ⟨fun id => ?_, rfl, rfl, fun id hid => absurd hid (Set.notMem_empty id), ?_, hsane⟩
  · unfold Kernel.booted bootState
    by_cases h₁ : id = initId
    · subst h₁
      simp [TaskContext.createInit]
    rw [Finmap.lookup_insert_of_ne _ h₁]
    by_cases h₂ : id = initprocId
    · subst h₂
      simp [h₁, TaskContext.fresh]
    · rw [Finmap.lookup_insert_of_ne _ h₂, Finmap.lookup_insert_of_ne _ h₁]
      simp [h₁, h₂]
  · intro id task hid hfound
    rcases booted_lookup hfound with ⟨_, hparent, hstate, _⟩ | ⟨he, _⟩
    · exact ⟨hparent, hstate⟩
    · rw [hid] at he
      cases he

theorem bootState_sound : Sound initId bootState where
  once := List.nodup_singleton _
  waiting id hid := by
    rw [List.mem_singleton.mp hid]
    decide
  present := by decide
  running := by decide
  idles := by decide
  others id hid := by
    by_cases h : id = initprocId
    · subst h
      simp [bootState, hid]
    · simp [bootState, hid, h]
  gone id hid := absurd hid (Set.notMem_empty id)

/-- Every run is one of the scheduler, in which those have left who made their `exit`. -/
theorem run_moves {k₀ : Kernel pg} (hboot : Booted k₀) (ls : List (Label pg)) (k : Kernel pg)
    (hrun : Runs.run kernelStep k₀ ls = some k) (honce : QueuesOnce k₀ ls) :
    ∃ s, Relation.ReflTransGen (Move initId) bootState s ∧ Shows k s ∧ ∀ id, Exited k₀ ls id → id ∈ s.left := by
  refine Runs.run_induction (I := fun ls k => QueuesOnce k₀ ls →
    ∃ s, Relation.ReflTransGen (Move initId) bootState s ∧ Shows k s ∧ ∀ id, Exited k₀ ls id → id ∈ s.left)
    ?_ ?_ ls k hrun honce
  · refine fun _ => ⟨bootState, .refl, booted_shows hboot, ?_⟩
    rintro id ⟨as, env, regs, bs, t, hls, _⟩
    simp at hls
  · intro ls t l u ht ih hstep honce
    obtain ⟨s, hmoves, hshows, hleft⟩ := ih honce.front
    have hl : ∀ env regs, l = .syscall env regs → ¬ Requeues env regs t := by
      rintro env regs rfl
      exact honce ls env regs [] t rfl ht
    obtain ⟨s', hmoves', hshows', hexit⟩ := kernelStep_moves hshows (bootState_sound.moves hmoves) hstep hl
    refine ⟨s', hmoves.trans hmoves', hshows', fun id hid => ?_⟩
    rcases Exited.snoc ht hid with hid | ⟨env, regs, rfl, hcur, hex⟩
    · exact left_moves hmoves' (hleft id hid)
    · obtain rfl : s.current = id := Option.some.inj (hshows.current.symm.trans hcur)
      exact hexit env regs rfl hex

/-- What the run queue is to be like in a state that a run has led to. -/
structure QueueSound (k₀ : Kernel pg) (ls : List (Label pg)) (k : Kernel pg) : Prop where
  once : k.executableTasks.Nodup
  registered : ∀ id ∈ k.executableTasks, ∃ task, k.tasks.lookup id = some task ∧ task.state = .user
  running : ∀ id, k.taskId = some id → id ∉ k.executableTasks
  /-- The next switch finds the task to switch to, also when it is the last one of a task. -/
  switches : (switchToNextTask k : Ran _ _ Empty Bool).outcome ≠ .panic
  exits : k.taskId ≠ some initId → ∀ env, (Service.exit.call env k).outcome ≠ .panic
  gone : ∀ id, Exited k₀ ls id → k.taskId ≠ some id

/-- The run queue stays sound as long as no child is queued twice. -/
theorem run_queue_sound {k₀ k : Kernel pg} {ls : List (Label pg)} (hboot : Booted k₀)
    (hrun : Runs.run kernelStep k₀ ls = some k) (honce : QueuesOnce k₀ ls) : QueueSound k₀ ls k := by
  obtain ⟨s, hmoves, hshows, hleft⟩ := run_moves hboot ls k hrun honce
  have hs : Sound initId s := bootState_sound.moves hmoves
  exact
    { once := by
        rw [hshows.queue]
        exact hs.once
      registered := by
        intro id hid
        rw [hshows.queue] at hid
        have hw := hs.waiting id hid
        obtain ⟨task, hfound, hstate⟩ := hshows.found (hw ▸ Option.some_ne_none true)
        rw [hw] at hstate
        exact ⟨task, hfound, by simpa using hstate.symm⟩
      running := by
        intro id hcur
        obtain rfl : s.current = id := Option.some.inj (hshows.current.symm.trans hcur)
        rw [hshows.queue]
        exact hs.running
      switches := (hshows.switch hs).1
      exits := by
        intro hbusy env
        have hne : s.current ≠ initId := fun he => hbusy (he ▸ hshows.current)
        obtain ⟨task, hfound, _⟩ := hshows.running hs
        have hmark := markDying_run (ε := SyscallError) hshows.current hfound
        have hswitch := (hshows.leave (ε := SyscallError) hs hne hfound).1
        have hcall : (Service.exit.call env k).outcome = ((switchToNextTask >>= fun _ => Comp.ret {} :
            KernelM pg SyscallError Reply) (k.marked task)).outcome := hmark.bind_outcome
        rw [hcall, Comp.bind_outcome]
        cases ho : (switchToNextTask (k.marked task) : Ran _ _ SyscallError Bool).outcome with
        | panic => exact absurd ho hswitch
        | _ => simp
      gone := by
        intro id hid hcur
        obtain rfl : s.current = id := Option.some.inj (hshows.current.symm.trans hcur)
        exact hs.present (hs.gone _ (hleft _ hid)) }

/-! ### An image that starts at zero -/

/-- An empty program with an entry point of zero. -/
def zeroImage : List UInt8 := ELFMAG ++ List.replicate 61 0

/-- Every file is that image, and every path is empty. -/
def Env.zeroes : Env .flat :=
  { Env.plain with
    readFileToMemory := fun h => some (.ok zeroImage, h)
    userString := fun _ _ => some [] }

/-- The first process opens the file, spawns a child and executes the image in it twice. -/
def execTwice : List (Label .flat) :=
  [.idle, .syscall .zeroes (.request 0x200 0 0), .syscall .zeroes (.request 0x401 0 0),
    .syscall .zeroes (.request 0x404 3 1), .syscall .zeroes (.request 0x404 3 1)]

/-- The first process with the file open. -/
def Kernel.opened : Kernel .flat :=
  let task : TaskContext .flat initprocId :=
    { TaskContext.fresh initId initprocId (fun _ => none) with
      capabilities := mayProcessSpawn
      files := ⟨initprocId, [(⟨1, Nat.one_pos⟩, dirNamesToHandle ["init".toList])], ⟨2, Nat.two_pos⟩⟩ }
  { Kernel.spawning with tasks := Kernel.spawning.tasks.insert initprocId task }

theorem spawning_opens : Comp.Yields (FileCall.openPath .zeroes 0 0 0) Kernel.spawning
    ⟨1, Nat.one_pos⟩ Kernel.opened := by
  unfold FileCall.openPath
  iterate 6 refine Comp.Yields.bind (Comp.Yields.of_eq rfl) ?_
  refine Yields.withGuard (Comp.Yields.bind (Comp.Yields.of_eq rfl) ?_)
  rw [openPathFull_nil]
  exact Comp.Yields.of_eq rfl

theorem spawning_step :
    kernelStep Kernel.spawning (.syscall .zeroes (.request 0x200 0 0)) = some Kernel.opened := by
  let reply (fd : FileDescriptor) : KernelM .flat SyscallError Reply := Comp.ret { rdi := some fd.raw }
  have hcall : Comp.Yields (Service.call .zeroes (AllSavedRegisters.request 0x200 0 0).service) Kernel.spawning
      { rdi := some 1 } Kernel.opened := Comp.Yields.bind (f := reply) spawning_opens (Comp.Yields.of_eq rfl)
  exact kernelStep_yields (by decide) hcall

/-! ### A child that runs and exits -/

/-- The rest of a run starts in the state behind its first step. -/
theorem QueuesOnce.cons {k₀ k : Kernel pg} {l : Label pg} {ls : List (Label pg)} (hstep : kernelStep k₀ l = some k)
    (hfirst : ∀ env regs, l = .syscall env regs → ¬ Requeues env regs k₀) (hrest : QueuesOnce k ls) :
    QueuesOnce k₀ (l :: ls) := by
  intro as env regs bs t hls ht
  cases as with
  | nil =>
    cases hls
    cases ht
    exact hfirst env regs rfl
  | cons a as =>
    cases hls
    rw [Runs.run, hstep, Option.bind_some] at ht
    exact hrest as env regs bs t rfl ht

theorem QueuesOnce.syscall {k₀ k : Kernel pg} {env : Env pg} {regs : AllSavedRegisters} {ls : List (Label pg)}
    (hstep : kernelStep k₀ (.syscall env regs) = some k) (hfirst : ¬ Requeues env regs k₀) (hrest : QueuesOnce k ls) :
    QueuesOnce k₀ (.syscall env regs :: ls) := by
  refine .cons hstep (fun env' regs' hl => ?_) hrest
  cases hl
  exact hfirst

theorem QueuesOnce.nil (k₀ : Kernel pg) : QueuesOnce k₀ [] := by
  intro as env regs bs t hls
  simp at hls

/-- Where nobody waits, nobody waits twice. -/
theorem not_requeues_empty {env : Env pg} {regs : AllSavedRegisters} {k : Kernel pg} (h : k.executableTasks = []) :
    ¬ Requeues env regs k := by
  rintro ⟨procId, fd, id, _, _, hid⟩
  rw [h] at hid
  cases hid

theorem not_requeues_other {env : Env pg} {regs : AllSavedRegisters} {k : Kernel pg}
    (h : ∀ procId fd, regs.service ≠ .handler (.exec procId fd)) : ¬ Requeues env regs k := by
  rintro ⟨procId, fd, id, hexec, _⟩
  exact h procId fd hexec

/-- The first process opens the file, spawns a child, executes the image in it and yields. The child
starts and exits, and its parent after it. -/
def childLives : List (Label .flat) :=
  [.idle, .syscall .zeroes (.request 0x200 0 0), .syscall .zeroes (.request 0x401 0 0),
    .syscall .zeroes (.request 0x404 3 1), .syscall .zeroes (.request 0x1 0 0), .jmpUserspace,
    .syscall .zeroes (.request 0x0 0 0), .syscall .zeroes (.request 0x0 0 0)]

/-- From the open file on, the child waits when its parent yields, and nobody waits when it is executed. -/
theorem opened_queuesOnce : QueuesOnce Kernel.opened (childLives.drop 2) := by
  refine .syscall rfl (not_requeues_empty rfl) ?_
  refine .syscall rfl (not_requeues_empty rfl) ?_
  refine .syscall rfl (not_requeues_other fun _ _ => nofun) ?_
  refine .cons rfl (fun env regs hl => ?_) ?_
  · cases hl
  refine .syscall rfl (not_requeues_other fun _ _ => nofun) ?_
  exact .syscall rfl (not_requeues_other fun _ _ => nofun) (.nil _)

theorem run_queue_sound_childLives : ∃ k, Runs.run kernelStep (Kernel.plain mayProcessSpawn) childLives = some k ∧
    k.taskId = some initId ∧ QueueSound (Kernel.plain mayProcessSpawn) childLives k := by
  have hrest : ∃ k, Runs.run kernelStep Kernel.opened (childLives.drop 2) = some k ∧ k.taskId = some initId :=
    ⟨_, rfl, rfl⟩
  obtain ⟨k, hrun, hcur⟩ := hrest
  have hidle : kernelStep (Kernel.plain mayProcessSpawn) .idle = some Kernel.spawning := rfl
  have hall : Runs.run kernelStep (Kernel.plain mayProcessSpawn) childLives = some k := by
    rw [childLives, Runs.run, hidle, Option.bind_some, Runs.run, spawning_step, Option.bind_some]
    exact hrun
  refine ⟨k, hall, hcur, run_queue_sound (Kernel.plain_booted _) hall ?_⟩
  refine .cons hidle (fun env regs hl => ?_) ?_
  · cases hl
  exact .syscall spawning_step (not_requeues_empty rfl) opened_queuesOnce

/-! ### A child that waits twice -/

/-- The child waits twice, and the first test of the run queue fails. -/
theorem execTwice_queues : Booted (Kernel.plain mayProcessSpawn) ∧ ∃ k,
    Runs.run kernelStep (Kernel.plain mayProcessSpawn) execTwice = some k ∧
      k.executableTasks = [childId, childId] ∧ ¬ QueueSound (Kernel.plain mayProcessSpawn) execTwice k := by
  have hrest : ∃ k, Runs.run kernelStep Kernel.opened (execTwice.drop 2) = some k ∧
      k.executableTasks = [childId, childId] := ⟨_, rfl, rfl⟩
  obtain ⟨k, hrun, hqueue⟩ := hrest
  have hidle : kernelStep (Kernel.plain mayProcessSpawn) .idle = some Kernel.spawning := rfl
  refine ⟨Kernel.plain_booted _, k, ?_, hqueue, fun h => ?_⟩
  · rw [execTwice, Runs.run, hidle, Option.bind_some, Runs.run, spawning_step,
      Option.bind_some]
    exact hrun
  · have honce := h.once
    rw [hqueue] at honce
    exact absurd honce (by decide)

end Idkernel
