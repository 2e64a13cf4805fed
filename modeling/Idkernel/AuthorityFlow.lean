import Idkernel.Deeds
import Idkernel.Reachable

/-!
# Capabilities flow from parents to children

A capability reaches a task by being spawned with it, which never happens, or by
being given to it by its parent. So a set of tasks that contains the parents of its
members never comes to hold anything that it did not hold before, in whatever
order all tasks of the machine take their steps.
-/
namespace Idkernel

open Address Traced Locks

variable {pg : Paging} {U : Set TaskId}

/-! ## What one turn makes of the holdings -/

/-- Every task that is there had no less before. -/
def Sheds (k k' : Kernel pg) : Prop :=
  ∀ i (task' : TaskContext pg i), k'.tasks.lookup i = some task' →
    ∃ task, k.tasks.lookup i = some task ∧ task.capabilities.Lessens task'.capabilities

/-- What a task holds now descends from what it held, or is what its parent held. -/
def Inherits (k k' : Kernel pg) : Prop :=
  ∀ i, ∀ x ∈ k'.heldBy i, (∃ y ∈ k.heldBy i, x.2.Descends y.2) ∨
    ∃ p task, k.tasks.lookup i = some task ∧ task.parent = some p ∧ ∃ y ∈ k.heldBy p, x.2.Descends y.2

section Holdings

variable {k k' : Kernel pg}

theorem Sheds.of_tasks (h : k'.tasks = k.tasks) : Sheds k k' :=
  fun _ task' hin => ⟨task', h ▸ hin, lessens_refl _⟩

/-- One context is replaced by one that holds no more. -/
theorem Sheds.insert {a : TaskId} {task task' : TaskContext pg a} (hk : k'.tasks = k.tasks.insert a task')
    (hfound : k.tasks.lookup a = some task) (hless : task.capabilities.Lessens task'.capabilities) : Sheds k k' := by
  intro i t' hin
  rw [hk] at hin
  by_cases hi : i = a
  · subst hi
    obtain rfl : task' = t' := Option.some.inj ((Finmap.lookup_insert _).symm.trans hin)
    exact ⟨task, hfound, hless⟩
  · exact ⟨t', (Finmap.lookup_insert_of_ne _ hi).symm.trans hin, lessens_refl _⟩

theorem Sheds.trans {k₁ : Kernel pg} (h : Sheds k k₁) (h' : Sheds k₁ k') : Sheds k k' := by
  intro i t₂ hin
  obtain ⟨t₁, hin₁, hless₁⟩ := h' i t₂ hin
  obtain ⟨t, hfound, hless⟩ := h i t₁ hin₁
  refine ⟨t, hfound, fun x hx => ?_⟩
  obtain ⟨y, hy, hxy⟩ := hless₁ x hx
  obtain ⟨z, hz, hyz⟩ := hless y hy
  exact ⟨z, hz, Capability.descends_trans hxy hyz⟩

theorem Sheds.inherits (h : Sheds k k') : Inherits k k' := by
  intro i x hx
  cases hin : k'.tasks.lookup i with
  | none =>
    rw [heldBy_missing hin] at hx
    cases hx
  | some task' =>
    obtain ⟨task, hfound, hless⟩ := h i task' hin
    rw [heldBy_found hin] at hx
    rw [heldBy_found hfound]
    exact .inl (hless x hx)

/-- A departed task takes what it held with it. -/
theorem sheds_buried {a : TaskId} (task : TaskContext pg a) : Sheds k (k.buried task) := by
  intro i t' hin
  obtain ⟨_, t, children, ht, rfl⟩ := without_lookup_cases (k := k.switched task) hin
  exact ⟨t, ht, lessens_refl _⟩

theorem sheds_withFiles {a : TaskId} {task : TaskContext pg a} (hfound : k.tasks.lookup a = some task)
    (files : TaskFileStorage) : Sheds k (k.withFiles task files) := by
  have hk : (k.withFiles task files).tasks = k.tasks.insert a { task with files := files } := rfl
  exact .insert hk hfound (lessens_refl _)

theorem sheds_withSpace {a : TaskId} {task task₁ : TaskContext pg a} (hfound : k.tasks.lookup a = some task)
    (hsame : task₁.capabilities = task.capabilities) (v : Vm pg) : Sheds k (k.withSpace task₁ v) := by
  have hk : (k.withSpace task₁ v).tasks = k.tasks.insert a { task₁ with pageTable := v.table } := rfl
  exact .insert hk hfound (hsame ▸ lessens_refl _)

theorem sheds_marked {a : TaskId} {task : TaskContext pg a} (hfound : k.tasks.lookup a = some task) :
    Sheds k (k.marked task) := by
  have hk : (k.marked task).tasks = k.tasks.insert a task.dying := rfl
  exact .insert hk hfound (lessens_refl _)

theorem Deed.inherits {env : Env pg} {a : TaskId} {h : Handler} (hdeed : Deed env a k h k') : Inherits k k' := by
  cases hdeed with
  | nothing => exact (Sheds.of_tasks rfl).inherits
  | lessened found less => exact (Sheds.insert rfl found less).inherits
  | filed found change => exact (sheds_withFiles found _).inherits
  | mappedVirt admitted => exact (sheds_withSpace admitted.found rfl _).inherits
  | mappedPhys found covered => exact (sheds_withSpace found rfl _).inherits
  | @loaded b fd task files target elf entry queue foundCaller change found parent =>
    have hsame : (target.entering entry).capabilities = target.capabilities := rfl
    have hsheds := (sheds_withFiles foundCaller files).trans (sheds_withSpace found hsame
      (elf.mountInto env.arith ((k.withFiles task files).space target) : Ran _ KEvent SyscallError Unit).state)
    exact (hsheds.trans (.of_tasks rfl)).inherits
  | @given b _ _ cap k₁ target caps parted held other found parent more =>
    have hsheds : Sheds k k₁ := by
      rcases parted with rfl | ⟨task, caps₁, hfound, hless, rfl⟩
      · exact .of_tasks rfl
      · exact .insert rfl hfound hless
    have hsame : k₁.tasks.lookup b = k.tasks.lookup b := by
      rcases parted with rfl | ⟨task, caps₁, hfound, hless, rfl⟩
      · rfl
      · exact Finmap.lookup_insert_of_ne _ other
    intro i x hx
    by_cases hi : i = b
    · subst hi
      rw [heldBy_found (Finmap.lookup_insert _)] at hx
      rcases more x hx with hx | rfl
      · exact .inl ⟨x, by rwa [heldBy_found (hsame ▸ found)], x.2.descends_refl⟩
      · obtain ⟨y, hy, hcap⟩ := held
        exact .inr ⟨a, target, hsame ▸ found, parent, y, hy, hcap ▸ y.2.descends_refl⟩
    · refine hsheds.inherits i x ?_
      rwa [heldBy_congr (Finmap.lookup_insert_of_ne _ hi)] at hx
  | @spawned id task table frames found fresh pid room made =>
    have hne : id ≠ a := by
      rintro rfl
      rw [fresh] at found
      cases found
    intro i x hx
    by_cases hi : i = id
    · -- a newcomer holds nothing
      subst hi
      rw [heldBy_found (adopt_self hne)] at hx
      cases hx
    by_cases ha : i = a
    · subst ha
      rw [heldBy_found (Finmap.lookup_insert _)] at hx
      exact .inl ⟨x, by rwa [heldBy_found found], x.2.descends_refl⟩
    · have hsame : ((k.created id frames).adopt (TaskContext.fresh a id table) task).tasks.lookup i =
          k.tasks.lookup i := (Finmap.lookup_insert_of_ne _ ha).trans (Finmap.lookup_insert_of_ne _ hi)
      rw [heldBy_congr hsame] at hx
      exact .inl ⟨x, hx, x.2.descends_refl⟩

theorem Turn.inherits {l : Label pg} (h : Turn k l k') : Inherits k k' := by
  cases h with
  | nothing => exact (Sheds.of_tasks rfl).inherits
  | called current service deed => exact deed.inherits
  | switched current found left =>
    rcases left with rfl | rfl | ⟨_, rfl⟩
    · exact (Sheds.of_tasks rfl).inherits
    · exact (Sheds.of_tasks rfl).inherits
    · exact (sheds_buried _).inherits
  | departed current found left =>
    rcases left with rfl | rfl
    · exact (sheds_marked found).inherits
    · exact ((sheds_marked found).trans (sheds_buried _)).inherits
  | @mounted env initDir task elf entry current found =>
    have hsame : (task.entering entry).capabilities = task.capabilities := rfl
    exact (sheds_withSpace found hsame _).inherits

end Holdings

/-! ## Sets of tasks with their parents -/

/-- The parent of a registered member is a member. -/
def UpwardClosed (U : Set TaskId) (k : Kernel pg) : Prop :=
  ∀ i ∈ U, ∀ task p, k.tasks.lookup i = some task → task.parent = some p → p ∈ U

/-- A closed set of tasks that are no newcomers. -/
structure Elders (U : Set TaskId) (k : Kernel pg) : Prop where
  sane : Sane k
  old : ∀ i ∈ U, i.raw < k.nextPid
  closed : UpwardClosed U k

theorem elders_familial : Familial (Elders U : Kernel pg → Prop) where
  kept := {
    change := by
      intro k k' hk hc
      have hsane := sane_kept.change k k' hk.sane hc
      cases hc with
      | update current touched found parent children state caps =>
        refine ⟨hsane, hk.old, fun i hi t' p h hp => ?_⟩
        obtain ⟨t, ht, hpar⟩ := lookup_insert_parent found parent i t' h
        exact hk.closed i hi t p ht (hpar ▸ hp)
      | @spawned id cur child task frames current found fresh pid room parent state caps =>
        have hlt := hk.sane.room
        have hnext : ((k.created id frames).adopt child task).nextPid = k.nextPid + 1 :=
          Nat.mod_eq_of_lt (by omega)
        refine ⟨hsane, fun i hi => ?_, fun i hi t' p h hp => ?_⟩
        · have := hk.old i hi
          omega
        · rcases adopt_cases (k := k.created id frames) found h with ⟨rfl, _⟩ | ⟨t, ht, hpar, _⟩
          · have := hk.old i hi
            omega
          · exact hk.closed i hi t p ht (hpar ▸ hp)
    held := fun _ _ _ _ _ _ _ => trivial
    narrow := fun _ _ _ _ _ _ _ _ _ => trivial }
  fewer hk hpid hsub := by
    refine ⟨hk.sane.fewer hpid hsub, fun i hi => hpid ▸ hk.old i hi, fun i hi t' p h hp => ?_⟩
    obtain ⟨t, ht, hpar⟩ := hsub i t' h
    exact hk.closed i hi t p ht (hpar ▸ hp)

/-- What a member holds descends from what some member held at the start. -/
def FlowsWithin (U : Set TaskId) (k₀ k : Kernel pg) : Prop :=
  ∀ i ∈ U, ∀ x ∈ k.heldBy i, ∃ j ∈ U, ∃ y ∈ k₀.heldBy j, x.2.Descends y.2

/-- A turn of anybody brings nothing into a closed set. -/
theorem FlowsWithin.turn {k₀ k k' : Kernel pg} {l : Label pg} (hk : FlowsWithin U k₀ k) (hclosed : UpwardClosed U k)
    (h : Turn k l k') : FlowsWithin U k₀ k' := by
  intro i hi x hx
  rcases h.inherits i x hx with ⟨y, hy, hxy⟩ | ⟨p, task, hfound, hp, y, hy, hxy⟩
  · obtain ⟨j, hj, z, hz, hyz⟩ := hk i hi y hy
    exact ⟨j, hj, z, hz, Capability.descends_trans hxy hyz⟩
  · obtain ⟨j, hj, z, hz, hyz⟩ := hk p (hclosed i hi task p hfound hp) y hy
    exact ⟨j, hj, z, hz, Capability.descends_trans hxy hyz⟩

/-- In every run of the machine, whoever runs when, tasks that are closed under parents hold
only what descends from what they held. -/
theorem authority_flows_down {k₀ k : Kernel pg} {ls : List (Label pg)} (hk : Reachable k₀)
    (old : ∀ i ∈ U, i.raw < k₀.nextPid) (closed : UpwardClosed U k₀) (h : Runs.run kernelStep k₀ ls = some k) :
    ∀ i ∈ U, ∀ x ∈ k.heldBy i, ∃ j ∈ U, ∃ y ∈ k₀.heldBy j, x.2.Descends y.2 := by
  have hinv : Elders U k ∧ FlowsWithin U k₀ k := by
    refine Runs.run_invariant (I := fun k => Elders U k ∧ FlowsWithin U k₀ k) (fun t l u ht hstep => ?_)
      ⟨⟨hk.sane, old, closed⟩, fun i hi x hx => ⟨i, hi, x, hx, x.2.descends_refl⟩⟩ h
    exact ⟨elders_familial.step ht.1 hstep, ht.2.turn ht.1.closed (kernelStep_turn hstep)⟩
  exact hinv.2

/-- The right to spawn, and memory that may be shared. -/
def sharesOne : TaskCapabilityStorage := ⟨2, [(0, ⟨.DUPLICATE, .processSpawn⟩), (1, ⟨.SHAREABLE, .mapVirtualToRam⟩)]⟩

def spawnFirst : List (Label .flat) := [.idle, .syscall .plain (.request 0x401 0 0)]

/-- The first process has a child. -/
def Kernel.withChild : Kernel .flat :=
  (Runs.run kernelStep (Kernel.plain sharesOne) spawnFirst).getD (Kernel.plain sharesOne)

/-- One capability is shared, then both are given away. -/
def giveAll : List (Label .flat) :=
  [.syscall .plain (.request 0x402 3 1), .syscall .plain (.request 0x403 3 0), .syscall .plain (.request 0x403 3 1)]

/-- The child comes to hold what its parent held. -/
theorem authority_flows_down_spawning : ∃ k, Runs.run kernelStep Kernel.withChild giveAll = some k ∧
    Kernel.withChild.heldBy childId = [] ∧ (k.heldBy childId).length = 3 ∧
    ∀ i ∈ ({initId, initprocId, childId} : Set TaskId), ∀ x ∈ k.heldBy i,
      ∃ j ∈ ({initId, initprocId, childId} : Set TaskId),
        ∃ y ∈ Kernel.withChild.heldBy j, x.2.Descends y.2 := by
  have hspawn : Runs.run kernelStep (Kernel.plain sharesOne) spawnFirst = some Kernel.withChild := rfl
  have hreach : Reachable Kernel.withChild := ⟨_, spawnFirst, Kernel.plain_booted _, hspawn⟩
  obtain ⟨k, hrun, hbefore, hafter⟩ : ∃ k, Runs.run kernelStep Kernel.withChild giveAll = some k ∧
      Kernel.withChild.heldBy childId = [] ∧ (k.heldBy childId).length = 3 := ⟨_, rfl, rfl, rfl⟩
  refine ⟨k, hrun, hbefore, hafter, authority_flows_down hreach ?_ ?_ hrun⟩
  · rintro i (rfl | rfl | rfl) <;> decide
  · rintro i (rfl | rfl | rfl) task p hfound hp
    · obtain rfl := Option.some.inj hfound
      cases hp
    · obtain rfl := Option.some.inj hfound
      cases hp
      exact .inl rfl
    · obtain rfl := Option.some.inj hfound
      cases hp
      exact .inr (.inl rfl)

end Idkernel
