import Mathlib.Data.List.Rotate
import Idkernel.HandOff
import Idkernel.Runs

/-!
# Waiting for the processor

A switch takes the first task of the queue, and others only join at its end, so
how long a task waits is where it stands. When everybody only yields, the
running task and the queue turn as one ring.
-/
namespace Idkernel

open Address Traced Locks Runs

variable {pg : Paging}

/-! ## Scheduling calls -/

/-- Whoever runs gives up the processor, a task is queued, or a task's state is set, which may be that of the
running task. -/
inductive ScheduleOp where
  | switch : ScheduleOp
  | queue : TaskId → ScheduleOp
  | become : TaskId → TaskState → ScheduleOp

def scheduleStep (k : Kernel pg) : ScheduleOp → Option (Kernel pg)
  | .switch =>
    let r : Ran _ _ Empty Bool := switchToNextTask k
    match r.outcome with
    | .ok _ => some r.state
    | _ => none
  | .queue id =>
    if (k.tasks.lookup id).isSome ∧ id ∉ k.executableTasks ∧ k.taskId ≠ some id then
      let r : Ran _ _ Empty Unit := TaskRegistry.queueForExecution id k
      some r.state
    else none
  | .become id state =>
    (k.tasks.lookup id).map fun task => { k with tasks := k.tasks.insert id { task with state := state } }

/-- The number of switches among some calls. -/
def switches : List ScheduleOp → Nat
  | [] => 0
  | .switch :: ops => switches ops + 1
  | _ :: ops => switches ops

/-- Nobody waits twice, everybody who waits is registered, and so is the running task, which does not wait. -/
structure QueueReady (k : Kernel pg) : Prop where
  once : k.executableTasks.Nodup
  registered : ∀ t ∈ k.executableTasks, ∃ task, k.tasks.lookup t = some task
  running : ∃ c task, k.taskId = some c ∧ k.tasks.lookup c = some task ∧ c ∉ k.executableTasks

/-! ## One call -/

section Calls

variable {k k' : Kernel pg} {c t : TaskId} {task : TaskContext pg c} {rest : List TaskId}

/-- The next task takes over, and nobody else leaves than the last one, if it was dying. -/
theorem switch_over (hcur : k.taskId = some c) (hfound : k.tasks.lookup c = some task)
    {next : TaskContext pg (k.nextTask task)} (hne : k.nextTask task ≠ c)
    (hnext : k.tasks.lookup (k.nextTask task) = some next) :
    ∃ k', (switchToNextTask k : Ran _ _ Empty Bool).outcome = .ok true ∧ scheduleStep k .switch = some k' ∧
      k'.taskId = some (k.nextTask task) ∧ k'.executableTasks = (k.candidates task).tail ∧
      ∀ i other, i ≠ c ∨ task.state ≠ .dying → k.tasks.lookup i = some other →
        ∃ other', k'.tasks.lookup i = some other' := by
  by_cases hdying : task.state = .dying
  · obtain ⟨es, hrun⟩ := switch_dying (ε := Empty) hcur hfound hne hnext hdying
    refine ⟨k.buried task, by rw [hrun], by simp only [scheduleStep, hrun], ?_, ?_, ?_⟩
    · exact without_taskId (k := k.switched task)
    · exact without_queue (k := k.switched task)
    · intro i other hi hlookup
      have hic : i ≠ c := hi.resolve_right fun h => h hdying
      exact ⟨_, without_lookup_other (k := k.switched task) task hic hlookup⟩
  · have hrun := switch_alive (ε := Empty) hcur hfound hne hnext hdying
    exact ⟨k.switched task, by rw [hrun], by simp only [scheduleStep, hrun], rfl, rfl,
      fun i other _ hlookup => ⟨other, hlookup⟩⟩

theorem candidates_cons (task : TaskContext pg c) (hqueue : k.executableTasks = t :: rest) :
    k.candidates task = t :: (rest ++ if task.state = .user then [c] else []) := by
  unfold Kernel.candidates
  by_cases h : task.state = .user <;> simp [h, hqueue]

/-- The first task of the queue runs next, whatever becomes of the one that runs. -/
theorem switch_front (hready : QueueReady k) (hqueue : k.executableTasks = t :: rest) :
    ∃ k', (switchToNextTask k : Ran _ _ Empty Bool).outcome = .ok true ∧ scheduleStep k .switch = some k' ∧
      k'.taskId = some t ∧ (∃ back, k'.executableTasks = rest ++ back) ∧ QueueReady k' := by
  obtain ⟨c, task, hcur, hfound, haway⟩ := hready.running
  have hall := hready.registered
  have honce := hready.once
  rw [hqueue] at haway hall honce
  obtain ⟨htrest, hrest⟩ := List.nodup_cons.mp honce
  obtain ⟨htc, hcrest⟩ : c ≠ t ∧ c ∉ rest := by simpa using haway
  have hcandidates := candidates_cons task hqueue
  obtain rfl : k.nextTask task = t := by rw [Kernel.nextTask, hcandidates]; rfl
  obtain ⟨next, hnext⟩ := hall (k.nextTask task) (by simp)
  obtain ⟨k', hrun, hstep, hcur', hqueue', hkept⟩ := switch_over hcur hfound htc.symm hnext
  rw [hcandidates, List.tail_cons] at hqueue'
  -- the last task is only behind the others if it stays
  have hback : ∀ i ∈ (if task.state = .user then [c] else []), i = c ∧ task.state = .user := by
    intro i hi
    by_cases hu : task.state = .user
    · exact ⟨by simpa [hu] using hi, hu⟩
    · simp [hu] at hi
  refine ⟨k', hrun, hstep, hcur', ⟨_, hqueue'⟩, ?_, ?_, ?_⟩
  · rw [hqueue', List.nodup_append]
    refine ⟨hrest, by split <;> simp, ?_⟩
    intro i hi j hj he
    exact hcrest ((hback j hj).1 ▸ he ▸ hi)
  · intro i hi
    rw [hqueue'] at hi
    rcases List.mem_append.mp hi with hi | hi
    · obtain ⟨other, hother⟩ := hall i (List.mem_cons_of_mem _ hi)
      exact hkept i other (.inl fun he => hcrest (he ▸ hi)) hother
    · obtain ⟨rfl, hu⟩ := hback i hi
      exact hkept i task (.inr (by simp [hu])) hfound
  · obtain ⟨next', hnext'⟩ := hkept _ next (.inl htc.symm) hnext
    refine ⟨_, next', hcur', hnext', ?_⟩
    rw [hqueue']
    intro hi
    rcases List.mem_append.mp hi with hi | hi
    · exact htrest hi
    · exact htc (hback _ hi).1.symm

/-- Queueing puts a task behind the others. -/
theorem queue_back (hready : QueueReady k) (hstep : scheduleStep k (.queue t) = some k') :
    k'.taskId = k.taskId ∧ k'.executableTasks = k.executableTasks ++ [t] ∧ QueueReady k' := by
  simp only [scheduleStep] at hstep
  split at hstep
  · next hnew =>
    obtain ⟨hregistered, honce, hcur⟩ := hnew
    obtain rfl := Option.some.inj hstep
    obtain ⟨c, task, hc, hfound, haway⟩ := hready.running
    have hct : c ≠ t := fun he => hcur (he ▸ hc)
    refine ⟨rfl, rfl, ?_, ?_, c, task, hc, hfound, ?_⟩
    · exact List.nodup_append.mpr ⟨hready.once, List.nodup_singleton t, by
        intro i hi j hj he
        exact honce (List.mem_singleton.mp hj ▸ he ▸ hi)⟩
    · intro i hi
      rcases List.mem_append.mp hi with hi | hi
      · exact hready.registered i hi
      · obtain rfl := List.mem_singleton.mp hi
        exact Option.isSome_iff_exists.mp hregistered
    · exact fun hi => (List.mem_append.mp hi).elim haway fun hi => hct (List.mem_singleton.mp hi)
  · cases hstep

/-- A new state does not move a task. -/
theorem become_stays (hready : QueueReady k) {state : TaskState} (hstep : scheduleStep k (.become t state) = some k') :
    k'.taskId = k.taskId ∧ k'.executableTasks = k.executableTasks ∧ QueueReady k' := by
  obtain ⟨old, hold, rfl⟩ := Option.map_eq_some_iff.mp hstep
  have hkept : ∀ i other, k.tasks.lookup i = some other →
      ∃ other', (k.tasks.insert t { old with state := state }).lookup i = some other' := by
    intro i other hother
    by_cases hi : i = t
    · subst hi
      exact ⟨_, Finmap.lookup_insert _⟩
    · exact ⟨other, (Finmap.lookup_insert_of_ne _ hi).trans hother⟩
  obtain ⟨c, task, hc, hfound, haway⟩ := hready.running
  obtain ⟨task', hfound'⟩ := hkept c task hfound
  refine ⟨rfl, rfl, hready.once, ?_, c, task', hc, hfound', haway⟩
  intro i hi
  obtain ⟨other, hother⟩ := hready.registered i hi
  exact hkept i other hother

end Calls

/-! ## Waiting -/

/-- Without a switch, the running task goes on. -/
theorem no_switch_stays {ops : List ScheduleOp} {k k' : Kernel pg} (hready : QueueReady k)
    (hrun : run scheduleStep k ops = some k') (hnone : switches ops = 0) : k'.taskId = k.taskId := by
  induction ops generalizing k with
  | nil =>
    obtain rfl := Option.some.inj hrun
    rfl
  | cons op ops ih =>
    obtain ⟨k₁, hstep, hrest⟩ := Option.bind_eq_some_iff.mp hrun
    cases op with
    | switch => simp [switches] at hnone
    | queue t =>
      obtain ⟨hcur, _, hready₁⟩ := queue_back hready hstep
      exact (ih hready₁ hrest hnone).trans hcur
    | become t state =>
      obtain ⟨hcur, _, hready₁⟩ := become_stays hready hstep
      exact (ih hready₁ hrest hnone).trans hcur

/-- After fewer switches than its place in the queue the task waits closer to the front by their number; one
more, and it runs. -/
theorem place_kept {ops : List ScheduleOp} {k k' : Kernel pg} (hready : QueueReady k)
    (hrun : run scheduleStep k ops = some k') {i : Nat} {t : TaskId} (hi : k.executableTasks[i]? = some t) :
    (switches ops ≤ i → QueueReady k' ∧ k'.executableTasks[i - switches ops]? = some t) ∧
      (switches ops = i + 1 → k'.taskId = some t) := by
  induction ops generalizing k i with
  | nil =>
    obtain rfl := Option.some.inj hrun
    exact ⟨fun _ => ⟨hready, hi⟩, fun h => by simp [switches] at h⟩
  | cons op ops ih =>
    obtain ⟨k₁, hstep, hrest⟩ := Option.bind_eq_some_iff.mp hrun
    cases op with
    | queue u =>
      obtain ⟨_, hqueue, hready₁⟩ := queue_back hready hstep
      have hlt := (List.getElem?_eq_some_iff.mp hi).1
      exact ih hready₁ hrest (by rw [hqueue, List.getElem?_append_left hlt, hi])
    | become u state =>
      obtain ⟨_, hqueue, hready₁⟩ := become_stays hready hstep
      exact ih hready₁ hrest (by rw [hqueue, hi])
    | switch =>
      cases hqueue : k.executableTasks with
      | nil => simp [hqueue] at hi
      | cons u rest =>
        obtain ⟨k₂, _, hstep', hcur, ⟨back, hback⟩, hready₁⟩ := switch_front hready hqueue
        obtain rfl := Option.some.inj (hstep.symm.trans hstep')
        rw [hqueue] at hi
        simp only [switches]
        cases i with
        | zero =>
          obtain rfl := Option.some.inj hi
          refine ⟨fun h => by omega, fun h => ?_⟩
          exact (no_switch_stays hready₁ hrest (by omega)).trans hcur
        | succ i =>
          rw [List.getElem?_cons_succ] at hi
          have hlt := (List.getElem?_eq_some_iff.mp hi).1
          have hwaits := ih hready₁ hrest (by rw [hback, List.getElem?_append_left hlt, hi])
          refine ⟨fun h => ?_, fun h => hwaits.2 (by omega)⟩
          have hplace : i + 1 - (switches ops + 1) = i - switches ops := by omega
          rw [hplace]
          exact hwaits.1 (by omega)

/-! ## Turning -/

/-- All of these tasks are registered and want the processor. -/
def Users (k : Kernel pg) (ts : List TaskId) : Prop :=
  ∀ t ∈ ts, ∃ task, k.tasks.lookup t = some task ∧ task.state = .user

/-- A yield turns the ring by one. -/
theorem yield_turns {k : Kernel pg} {ring : List TaskId} (honce : ring.Nodup) (husers : Users k ring)
    (hcur : k.taskId = ring.head?) (hqueue : k.executableTasks = ring.tail) (hne : ring ≠ []) :
    ∃ k', scheduleStep k .switch = some k' ∧ k'.tasks = k.tasks ∧ k'.taskId = (ring.rotate 1).head? ∧
      k'.executableTasks = (ring.rotate 1).tail := by
  cases ring with
  | nil => exact absurd rfl hne
  | cons c q =>
    obtain ⟨task, hfound, huser⟩ := husers c (by simp)
    rw [List.head?_cons] at hcur
    rw [List.tail_cons] at hqueue
    have hcandidates : k.candidates task = q ++ [c] := by simp [Kernel.candidates, huser, hqueue]
    rw [List.rotate_cons_succ, List.rotate_zero]
    cases q with
    | nil =>
      have hback := switch_back (ε := Empty) hcur hfound (by simp [Kernel.nextTask, hcandidates])
      refine ⟨k.popped task, by simp only [scheduleStep, hback], rfl, hcur, ?_⟩
      simp [Kernel.popped, hcandidates]
    | cons t rest =>
      have hnext : k.nextTask task = t := by simp [Kernel.nextTask, hcandidates]
      subst hnext
      obtain ⟨next, hlookup, _⟩ := husers (k.nextTask task) (by simp)
      have hct : k.nextTask task ≠ c := fun he => by simp [← he] at honce
      have hrun := switch_alive (ε := Empty) hcur hfound hct hlookup (by simp [huser])
      refine ⟨k.switched task, by simp only [scheduleStep, hrun], rfl, rfl, ?_⟩
      simp [Kernel.switched, Kernel.popped, hcandidates]

theorem yields_turn {k : Kernel pg} {ring : List TaskId} (honce : ring.Nodup) (husers : Users k ring)
    (hcur : k.taskId = ring.head?) (hqueue : k.executableTasks = ring.tail) (hne : ring ≠ []) (n : Nat) :
    ∃ k', run scheduleStep k (List.replicate n .switch) = some k' ∧ k'.tasks = k.tasks ∧
      k'.taskId = (ring.rotate n).head? ∧ k'.executableTasks = (ring.rotate n).tail := by
  induction n generalizing k ring with
  | zero => exact ⟨k, rfl, rfl, by rw [List.rotate_zero, hcur], by rw [List.rotate_zero, hqueue]⟩
  | succ n ih =>
    obtain ⟨k₁, hstep, htasks, hcur₁, hqueue₁⟩ := yield_turns honce husers hcur hqueue hne
    have husers₁ : Users k₁ (ring.rotate 1) := fun t ht => htasks ▸ husers t (List.mem_rotate.mp ht)
    obtain ⟨k', hrun, htasks', hcur', hqueue'⟩ :=
      ih (List.nodup_rotate.mpr honce) husers₁ hcur₁ hqueue₁ (by simpa using hne)
    rw [List.rotate_rotate, Nat.add_comm] at hcur' hqueue'
    refine ⟨k', ?_, htasks'.trans htasks, hcur', hqueue'⟩
    rw [List.replicate_succ, run, hstep, Option.bind_some, hrun]

/-! ## Progress -/

/-- A queued task runs after exactly as many switches as it has tasks in front of it, and one more, which all
succeed; tasks that only yield come back to where they were. -/
structure Progresses (k : Kernel pg) : Prop where
  waits : ∀ ops k' (i : Nat) t, run scheduleStep k ops = some k' → k.executableTasks[i]? = some t →
    switches ops ≤ i → k'.taskId ≠ some t ∧ (switchToNextTask k' : Ran _ _ Empty Bool).outcome = .ok true
  runs : ∀ ops k' (i : Nat) t, run scheduleStep k ops = some k' → k.executableTasks[i]? = some t →
    switches ops = i + 1 → k'.taskId = some t
  turns : ∀ c, k.taskId = some c → Users k (c :: k.executableTasks) →
    ∃ k', run scheduleStep k (List.replicate (k.executableTasks.length + 1) .switch) = some k' ∧
      k'.taskId = some c ∧ k'.executableTasks = k.executableTasks

theorem round_robin_progress (k : Kernel pg) (hready : QueueReady k) : Progresses k where
  waits := by
    intro ops k' i t hrun hi hle
    obtain ⟨hready', hplace⟩ := (place_kept hready hrun hi).1 hle
    obtain ⟨c, task, hcur, _, haway⟩ := hready'.running
    refine ⟨?_, ?_⟩
    · rw [hcur]
      rintro ⟨⟩
      exact haway (List.mem_of_getElem? hplace)
    · cases hqueue : k'.executableTasks with
      | nil => simp [hqueue] at hplace
      | cons u rest =>
        obtain ⟨_, hswitch, _⟩ := switch_front hready' hqueue
        exact hswitch
  runs := fun _ _ _ _ hrun hi => (place_kept hready hrun hi).2
  turns := by
    intro c hcur husers
    obtain ⟨c', _, hcur', _, haway⟩ := hready.running
    obtain rfl := Option.some.inj (hcur.symm.trans hcur')
    have honce : (c :: k.executableTasks).Nodup := List.nodup_cons.mpr ⟨haway, hready.once⟩
    obtain ⟨k', hrun, _, hcurrent, hqueue⟩ :=
      yields_turn honce husers hcur rfl (List.cons_ne_nil _ _) (k.executableTasks.length + 1)
    rw [← List.length_cons (a := c), List.rotate_length] at hcurrent hqueue
    exact ⟨k', hrun, hcurrent, hqueue⟩

/-- A parent that has exited is followed by its child. -/
theorem round_robin_progress_exiting : Progresses Kernel.exiting := by
  have hparent : Kernel.exiting.tasks.lookup parentId = some _ := Finmap.lookup_insert _
  have hchild : Kernel.exiting.tasks.lookup childId = some _ :=
    (Finmap.lookup_insert_of_ne _ (by decide)).trans
      ((Finmap.lookup_insert_of_ne _ (by decide)).trans (Finmap.lookup_insert _))
  exact round_robin_progress _
    { once := List.nodup_singleton _
      registered := fun t ht => by
        obtain rfl := List.mem_singleton.mp ht
        exact ⟨_, hchild⟩
      running := ⟨parentId, _, rfl, hparent, by decide⟩ }

end Idkernel
