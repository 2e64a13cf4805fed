import Idkernel.Reachable

/-!
# The family tree of the registry

Parents are kept in the children and children in the parents. The two agree in
every state that adding and removing tasks can lead to: since a number is never
given out twice, nobody is taken for the child of a task that is gone.
-/
namespace Idkernel

open Address Traced Locks

variable {pg : Paging} {ε : Type}

/-- Creating a task and registering it, as `spawn` and `run_executor` do. -/
def createAndAdd (env : Env pg) (parent : TaskId) : KernelM pg ε TaskId := do
  let ⟨id, ctx⟩ ← TaskContext.create env parent
  withGuard .registry .write (TaskRegistry.add ctx)
  return id

/-- The kernel, and the tasks it has ever registered, in that order. -/
structure Grown (pg : Paging) where
  kernel : Kernel pg
  added : List TaskId

inductive FamilyOp (pg : Paging) where
  | add : Env pg → TaskId → FamilyOp pg
  | remove : TaskId → FamilyOp pg

/-- The parent is registered when its child is created. Nothing follows a panic. -/
def FamilyOp.step (g : Grown pg) : FamilyOp pg → Option (Grown pg)
  | .add env parent =>
    if (g.kernel.tasks.lookup parent).isSome then
      match (createAndAdd env parent g.kernel : Ran _ _ Empty TaskId).outcome with
      | .ok id => some ⟨(createAndAdd env parent g.kernel : Ran _ _ Empty TaskId).state, g.added ++ [id]⟩
      | .panic => none
    else none
  | .remove id =>
    (settle (withGuard .registry .write (TaskRegistry.remove id)) g.kernel).map fun k => ⟨k, g.added⟩

/-- The first task has been registered, and nothing else. -/
def Planted (g : Grown pg) : Prop :=
  ∃ table frames memory, g = ⟨{ Kernel.initial pg frames memory with
    tasks := Finmap.insert initId (TaskContext.createInit table) ∅ }, [initId]⟩

/-- A state that creations, additions and removals lead to. -/
def Grown.Reachable (g : Grown pg) : Prop := ∃ g₀ ops, Planted g₀ ∧ Runs.run FamilyOp.step g₀ ops = some g

/-! ## Parents and children agree -/

/-- Registered, with `p` as its parent. -/
def Kernel.isChild (k : Kernel pg) (p id : TaskId) : Bool :=
  (k.tasks.lookup id).any fun task => task.parent = some p

theorem isChild_found {k : Kernel pg} {p id : TaskId} {task : TaskContext pg id}
    (h : k.tasks.lookup id = some task) :
    k.isChild p id = decide (task.parent = some p) := by
  simp [Kernel.isChild, h]

theorem isChild_missing {k : Kernel pg} {p id : TaskId} (h : k.tasks.lookup id = none) :
    k.isChild p id = false := by
  simp [Kernel.isChild, h]

theorem isChild_iff {k : Kernel pg} {p id : TaskId} :
    k.isChild p id = true ↔ ∃ task, k.tasks.lookup id = some task ∧ task.parent = some p := by
  simp [Kernel.isChild, Option.any_eq_true]

structure Family (g : Grown pg) : Prop where
  known : ∀ id task, g.kernel.tasks.lookup id = some task → id ∈ g.added
  parents : ∀ id task p, g.kernel.tasks.lookup id = some task → task.parent = some p → p.raw < g.kernel.nextPid
  numbered : ∀ id ∈ g.added, id.raw < g.kernel.nextPid
  nodup : g.added.Nodup
  positive : 0 < g.kernel.nextPid
  room : g.kernel.nextPid < 2 ^ 64
  children : ∀ p task, g.kernel.tasks.lookup p = some task → task.children = g.added.filter (g.kernel.isChild p)

theorem Planted.family {g : Grown pg} (h : Planted g) : Family g := by
  obtain ⟨table, frames, memory, rfl⟩ := h
  have hcases : ∀ id (task : TaskContext pg id),
      (Finmap.insert initId (TaskContext.createInit table) ∅ : Finmap fun id => TaskContext pg id).lookup
        id = some task →
        id = initId ∧ task.parent = none ∧ task.children = [] := by
    intro id task h
    by_cases hid : id = initId
    · subst hid
      rw [Finmap.lookup_insert, Option.some.injEq] at h
      exact ⟨rfl, h ▸ rfl, h ▸ rfl⟩
    · rw [Finmap.lookup_insert_of_ne _ hid, Finmap.lookup_empty] at h
      cases h
  exact
    { known := by
        intro id task h
        rw [(hcases id task h).1]
        exact List.mem_singleton.mpr rfl
      parents := by
        intro id task p h hp
        rw [(hcases id task h).2.1] at hp
        cases hp
      numbered := by
        intro id hid
        rw [List.mem_singleton.mp hid]
        exact (by decide : 1 < 2)
      nodup := List.nodup_singleton _
      positive := (by decide : 0 < 2)
      room := (by decide : 2 < 2 ^ 64)
      children := by
        intro p task h
        obtain ⟨rfl, _, hchildren⟩ := hcases p task h
        rw [hchildren]
        rfl }

section Steps

variable {g : Grown pg} {id p : TaskId}

/-- The next number is new to the registry. -/
theorem Family.fresh (hg : Family g) (hid : id.raw = g.kernel.nextPid) : g.kernel.tasks.lookup id = none := by
  by_contra hne
  obtain ⟨task, htask⟩ := Option.ne_none_iff_exists'.mp hne
  have := hg.numbered id (hg.known id task htask)
  omega

theorem Family.not_added (hg : Family g) (hid : id.raw = g.kernel.nextPid) : id ∉ g.added := by
  intro hi
  have := hg.numbered id hi
  omega

section Adoption

variable {frames : pg.Frames} {table : pg.Table} {parent : TaskContext pg p}

theorem Family.parent_ne (hg : Family g) (hid : id.raw = g.kernel.nextPid)
    (hfound : g.kernel.tasks.lookup p = some parent) : id ≠ p := by
  rintro rfl
  exact hg.not_added hid (hg.known id parent hfound)

theorem adopted_other {i : TaskId} (hi : i ≠ id) (hip : i ≠ p) :
    ((g.kernel.created id frames).adopt (TaskContext.fresh p id table) parent).tasks.lookup i =
      g.kernel.tasks.lookup i :=
  (Finmap.lookup_insert_of_ne _ hip).trans (Finmap.lookup_insert_of_ne _ hi)

theorem adopted_parent :
    ((g.kernel.created id frames).adopt (TaskContext.fresh p id table) parent).tasks.lookup p =
      some { parent with children := parent.children ++ [id] } :=
  Finmap.lookup_insert _

/-- Of the tasks added so far, none changes its parent. -/
theorem Family.adopted_isChild (hg : Family g) (hid : id.raw = g.kernel.nextPid)
    (hfound : g.kernel.tasks.lookup p = some parent) (q : TaskId) {i : TaskId} (hi : i ∈ g.added) :
    ((g.kernel.created id frames).adopt (TaskContext.fresh p id table) parent).isChild q i = g.kernel.isChild q i := by
  have hne : i ≠ id := by
    rintro rfl
    exact hg.not_added hid hi
  by_cases hip : i = p
  · subst hip
    rw [isChild_found adopted_parent, isChild_found hfound]
  · rw [Kernel.isChild, adopted_other hne hip, Kernel.isChild]

/-- The new task comes last in its parent's list. -/
theorem Family.adopted_filter (hg : Family g) (hid : id.raw = g.kernel.nextPid)
    (hfound : g.kernel.tasks.lookup p = some parent) (q : TaskId) :
    (g.added ++ [id]).filter
        (((g.kernel.created id frames).adopt (TaskContext.fresh p id table) parent).isChild q) =
      g.added.filter (g.kernel.isChild q) ++ if p = q then [id] else [] := by
  have hlast : ((g.kernel.created id frames).adopt (TaskContext.fresh p id table) parent).isChild q id =
      decide (p = q) := by
    rw [isChild_found (adopt_self (hg.parent_ne hid hfound))]
    simp [TaskContext.fresh]
  rw [List.filter_append, List.filter_congr fun i hi => hg.adopted_isChild hid hfound q hi, List.filter_singleton,
    hlast]
  by_cases hpq : p = q <;> simp [hpq]

/-- Nobody has the new task as its parent yet. -/
theorem Family.no_child (hg : Family g) (hid : id.raw = g.kernel.nextPid) :
    g.added.filter (g.kernel.isChild id) = [] := by
  refine List.filter_eq_nil_iff.mpr fun i _ hi => ?_
  obtain ⟨t, ht, hp⟩ := isChild_iff.mp hi
  have hlt := hg.parents i t id ht hp
  omega

theorem Family.adopted (hg : Family g) (hid : id.raw = g.kernel.nextPid) (hmax : g.kernel.nextPid ≠ 2 ^ 64 - 1)
    (hfound : g.kernel.tasks.lookup p = some parent) :
    Family ⟨(g.kernel.created id frames).adopt (TaskContext.fresh p id table) parent, g.added ++ [id]⟩ := by
  have hpid : p.raw < g.kernel.nextPid := hg.numbered p (hg.known p parent hfound)
  have hne : id ≠ p := hg.parent_ne hid hfound
  have hroom := hg.room
  have hnext : ((g.kernel.created id frames).adopt (TaskContext.fresh p id table) parent).nextPid =
      g.kernel.nextPid + 1 := Nat.mod_eq_of_lt (by omega)
  exact
    { known := by
        intro i t' h
        rcases adopt_cases (k := g.kernel.created id frames) hfound h with ⟨rfl, _⟩ | ⟨t, ht, _⟩
        · simp
        · exact List.mem_append_left _ (hg.known i t ht)
      parents := by
        intro i t' q h hq
        rw [hnext]
        rcases adopt_cases (k := g.kernel.created id frames) hfound h with ⟨_, hp⟩ | ⟨t, ht, hp, _⟩
        · obtain rfl : p = q := Option.some.inj (hp.symm.trans hq)
          omega
        · have hlt := hg.parents i t q ht (hp ▸ hq)
          omega
      numbered := by
        intro i hi
        rw [hnext]
        cases List.mem_append.mp hi with
        | inl hi =>
          have hlt := hg.numbered i hi
          omega
        | inr hi =>
          rw [List.mem_singleton.mp hi]
          omega
      nodup := by
        refine List.nodup_append.mpr ⟨hg.nodup, List.nodup_singleton _, ?_⟩
        intro i hi j hj heq
        rw [heq, List.mem_singleton.mp hj] at hi
        exact hg.not_added hid hi
      positive := by
        rw [hnext]
        omega
      room := by
        rw [hnext]
        omega
      children := by
        intro q t' h
        rw [hg.adopted_filter hid hfound q]
        by_cases hq : q = id
        · subst hq
          obtain rfl : _ = t' := Option.some.inj ((adopt_self hne).symm.trans h)
          rw [if_neg (Ne.symm hne), List.append_nil, hg.no_child hid]
          rfl
        by_cases hqp : q = p
        · subst hqp
          obtain rfl : _ = t' := Option.some.inj (adopted_parent.symm.trans h)
          rw [if_pos rfl, ← hg.children q parent hfound]
        · rw [if_neg (Ne.symm hqp), List.append_nil]
          exact hg.children q t' ((adopted_other hq hqp).symm.trans h) }

end Adoption

theorem isChild_without {k : Kernel pg} {task : TaskContext pg id} (q i : TaskId) :
    (k.without task).isChild q i = (k.isChild q i && decide (i ≠ id)) := by
  by_cases hi : i = id
  · subst hi
    rw [isChild_missing without_lookup_self]
    simp
  cases hk : k.tasks.lookup i with
  | none =>
    have hnone : (k.without task).tasks.lookup i = none := by
      by_contra hne
      obtain ⟨t', ht'⟩ := Option.ne_none_iff_exists'.mp hne
      obtain ⟨_, t, _, ht, _⟩ := without_lookup_cases ht'
      rw [hk] at ht
      cases ht
    rw [isChild_missing hnone, isChild_missing hk, Bool.false_and]
  | some t =>
    rw [isChild_found (without_lookup_other task hi hk), isChild_found hk]
    simp [hi]

/-- The task that is removed leaves the list of its parent, and was in no other. -/
theorem Family.removed_filter (hg : Family g) {task : TaskContext pg id}
    (hfound : g.kernel.tasks.lookup id = some task) (q : TaskId) :
    g.added.filter ((g.kernel.without task).isChild q) =
      if task.parent = some q then (g.added.filter (g.kernel.isChild q)).erase id
      else g.added.filter (g.kernel.isChild q) := by
  have hfilter : g.added.filter ((g.kernel.without task).isChild q) =
      (g.added.filter (g.kernel.isChild q)).filter fun i => i ≠ id := by
    rw [List.filter_filter]
    refine List.filter_congr fun i _ => ?_
    rw [isChild_without, Bool.and_comm]
  have hnodup : (g.added.filter (g.kernel.isChild q)).Nodup := hg.nodup.filter _
  rw [hfilter]
  by_cases hparent : task.parent = some q
  · rw [if_pos hparent, hnodup.erase_eq_filter]
    exact List.filter_congr fun i _ => Bool.eq_iff_iff.mpr (by simp)
  · rw [if_neg hparent]
    refine List.filter_eq_self.mpr fun i hi => ?_
    have hchild : g.kernel.isChild q i = true := (List.mem_filter.mp hi).2
    refine decide_eq_true fun he => ?_
    subst he
    rw [isChild_found hfound] at hchild
    exact hparent (of_decide_eq_true hchild)

theorem Family.removed (hg : Family g) {task : TaskContext pg id}
    (hfound : g.kernel.tasks.lookup id = some task) :
    Family ⟨g.kernel.without task, g.added⟩ where
  known := by
    intro i t' h
    obtain ⟨_, t, _, ht, _⟩ := without_lookup_cases h
    exact hg.known i t ht
  parents := by
    intro i t' p h hp
    obtain ⟨_, t, children, ht, rfl⟩ := without_lookup_cases h
    rw [without_nextPid]
    exact hg.parents i t p ht hp
  numbered := by
    intro i hi
    rw [without_nextPid]
    exact hg.numbered i hi
  nodup := hg.nodup
  positive := by
    rw [without_nextPid]
    exact hg.positive
  room := by
    rw [without_nextPid]
    exact hg.room
  children := by
    intro q t' h
    obtain ⟨hq, t, _, ht, _⟩ := without_lookup_cases h
    obtain rfl : _ = t' := Option.some.inj ((without_lookup_other task hq ht).symm.trans h)
    dsimp only
    rw [hg.removed_filter hfound, hg.children q t ht]

/-- Only what is registered matters, and the next number. -/
theorem Family.same (hg : Family g) {k' : Kernel pg} (hk : ∀ i, k'.tasks.lookup i = g.kernel.tasks.lookup i)
    (hpid : k'.nextPid = g.kernel.nextPid) : Family ⟨k', g.added⟩ := by
  have hchild : ∀ q, k'.isChild q = g.kernel.isChild q := by
    intro q
    funext i
    rw [Kernel.isChild, hk, Kernel.isChild]
  exact
    { known := fun i t h => hg.known i t ((hk i).symm.trans h)
      parents := by
        intro i t p h hp
        rw [hpid]
        exact hg.parents i t p ((hk i).symm.trans h) hp
      numbered := by
        intro i hi
        rw [hpid]
        exact hg.numbered i hi
      nodup := hg.nodup
      positive := by
        rw [hpid]
        exact hg.positive
      room := by
        rw [hpid]
        exact hg.room
      children := by
        intro q t h
        dsimp only
        rw [hchild q]
        exact hg.children q t ((hk q).symm.trans h) }

end Steps

/-! ## What the operations do -/

section Operations

variable {g g' : Grown pg} {p : TaskId}

/-- A task that could be created can be registered. -/
theorem Family.createAndAdd (hg : Family g) {env : Env pg} (hcan : TaskContext.CanCreate env g.kernel)
    {parent : TaskContext pg p} (hfound : g.kernel.tasks.lookup p = some parent) :
    ∃ id table frames, id.raw = g.kernel.nextPid ∧
    Comp.Yields (createAndAdd env p : KernelM pg ε TaskId) g.kernel id
      ((g.kernel.created id frames).adopt (TaskContext.fresh p id table) parent) := by
  obtain ⟨id, table, frames, hid, hrun⟩ := hcan.run p
  have hadd : (TaskRegistry.add (TaskContext.fresh p id table)
    (g.kernel.created id frames) : Ran _ _ ε Unit) = _ :=
    TaskRegistry.add_run rfl (hg.fresh hid) hfound
  refine ⟨id, table, frames, hid, Comp.Yields.bind (Comp.Yields.of_eq hrun) ?_⟩
  exact Comp.Yields.bind (Yields.withGuard (Comp.Yields.of_eq hadd)) (Comp.Yields.of_eq rfl)

theorem createAndAdd_panic {env : Env pg} {k : Kernel pg} (h : ¬ TaskContext.CanCreate env k) :
    (Idkernel.createAndAdd env p k : Ran _ _ ε TaskId).outcome = .panic := by
  unfold Idkernel.createAndAdd
  rw [Comp.bind_outcome, TaskContext.create_panic h]

/-- A step registers a new child of a registered task, takes out a task, or finds none to take out. -/
theorem Family.step_cases (hg : Family g) {op : FamilyOp pg} (h : op.step g = some g') :
    (∃ (p id : TaskId) (parent : TaskContext pg p) (table : pg.Table) (frames : pg.Frames),
        g.kernel.tasks.lookup p = some parent ∧ id.raw = g.kernel.nextPid ∧ g.kernel.nextPid ≠ 2 ^ 64 - 1 ∧
        g' = ⟨(g.kernel.created id frames).adopt (TaskContext.fresh p id table) parent, g.added ++ [id]⟩) ∨
      (∃ (id : TaskId) (task : TaskContext pg id), g.kernel.tasks.lookup id = some task ∧
        g' = ⟨g.kernel.without task, g.added⟩) ∨
      ∃ k', (∀ i, k'.tasks.lookup i = g.kernel.tasks.lookup i) ∧ k'.nextPid = g.kernel.nextPid ∧
      g' = ⟨k', g.added⟩ := by
  cases op with
  | add env p =>
    unfold FamilyOp.step at h
    dsimp only at h
    split at h
    · next hsome =>
      obtain ⟨parent, hfound⟩ := Option.isSome_iff_exists.mp hsome
      by_cases hcan : TaskContext.CanCreate env g.kernel
      · obtain ⟨id, table, frames, hid, hrun⟩ := hg.createAndAdd (ε := Empty) hcan hfound
        rw [hrun.outcome, hrun.state] at h
        exact .inl ⟨p, id, parent, table, frames, hfound, hid, hcan.1, (Option.some.inj h).symm⟩
      · rw [createAndAdd_panic hcan] at h
        cases h
    · cases h
  | remove id =>
    right
    obtain ⟨k', hk', rfl⟩ := Option.map_eq_some_iff.mp h
    obtain ⟨_, _, rfl⟩ := settle_cases hk'
    rw [withGuard_state]
    cases hfound : g.kernel.tasks.lookup id with
    | some task =>
      obtain ⟨es, hrun⟩ := remove_run (ε := Empty) hfound
      exact .inl ⟨id, task, hfound, by rw [hrun]⟩
    | none =>
      right
      refine ⟨_, fun i => ?_, ?_, rfl⟩
      · unfold TaskRegistry.remove
        rw [Comp.read_bind, Comp.write_bind, hfound]
        by_cases hi : i = id
        · subst hi
          exact (Finmap.lookup_erase _ _).trans hfound.symm
        · exact Finmap.lookup_erase_ne hi
      · unfold TaskRegistry.remove
        rw [Comp.read_bind, Comp.write_bind, hfound]
        rfl

theorem Family.step (hg : Family g) {op : FamilyOp pg} (h : op.step g = some g') : Family g' := by
  rcases hg.step_cases h with ⟨p, id, parent, table, frames, hfound, hid, hmax, rfl⟩ | ⟨id, task, hfound, rfl⟩ |
    ⟨k', hk, hpid, rfl⟩
  · exact hg.adopted hid hmax hfound
  · exact hg.removed hfound
  · exact hg.same hk hpid

theorem Grown.Reachable.family (h : g.Reachable) : Family g := by
  obtain ⟨g₀, ops, hplanted, hrun⟩ := h
  exact Runs.run_invariant (fun _ _ _ hI hs => hI.step hs) hplanted.family hrun

/-! ## Later states -/

/-- Whoever was known before and is still registered has the parent it had. -/
structure Later (g g' : Grown pg) : Prop where
  family : Family g'
  grows : g.kernel.nextPid ≤ g'.kernel.nextPid
  kept : ∀ i, i.raw < g.kernel.nextPid → ∀ t', g'.kernel.tasks.lookup i = some t' →
    ∃ t, g.kernel.tasks.lookup i = some t ∧ t'.parent = t.parent

theorem Later.step {g₀ : Grown pg} (hl : Later g₀ g) {op : FamilyOp pg} (h : op.step g = some g') :
    Later g₀ g' := by
  have hfamily := hl.family.step h
  rcases hl.family.step_cases h with ⟨p, id, parent, table, frames, hfound, hid, hmax, rfl⟩ |
    ⟨id, task, hfound, rfl⟩ |
    ⟨k', hk, hpid, rfl⟩
  · have hroom := hl.family.room
    have hnext : ((g.kernel.created id frames).adopt (TaskContext.fresh p id table) parent).nextPid =
        g.kernel.nextPid + 1 := Nat.mod_eq_of_lt (by omega)
    have hgrows := hl.grows
    refine ⟨hfamily, by dsimp only; omega, fun i hi t' ht' => ?_⟩
    rcases adopt_cases (k := g.kernel.created id frames) hfound ht' with ⟨rfl, _⟩ | ⟨t, ht, hp, _⟩
    · omega
    · obtain ⟨t₀, ht₀, hp₀⟩ := hl.kept i hi t ht
      exact ⟨t₀, ht₀, hp.trans hp₀⟩
  · refine ⟨hfamily, ?_, fun i hi t' ht' => ?_⟩
    · dsimp only
      rw [without_nextPid]
      exact hl.grows
    · obtain ⟨_, t, children, ht, rfl⟩ := without_lookup_cases ht'
      exact hl.kept i hi t ht
  · refine ⟨hfamily, hpid ▸ hl.grows, fun i hi t' ht' => ?_⟩
    exact hl.kept i hi t' ((hk i).symm.trans ht')

theorem Family.later (hg : Family g) {ops : List (FamilyOp pg)} (h : Runs.run FamilyOp.step g ops = some g') :
    Later g g' := by
  refine Runs.run_invariant (I := Later g) (fun _ _ _ hl hs => hl.step hs) ⟨hg, Nat.le_refl _, ?_⟩ h
  exact fun i _ t ht => ⟨t, ht, rfl⟩

/-- An orphan is in nobody's list, ever. -/
theorem Family.orphan_adopted_by_nobody (hg : Family g) {o : TaskId} {orphan : TaskContext pg o}
    (ho : g.kernel.tasks.lookup o = some orphan) (hp : orphan.parent = some p)
    (hgone : g.kernel.tasks.lookup p = none)
    {ops : List (FamilyOp pg)} (h : Runs.run FamilyOp.step g ops = some g') {q : TaskId} {task : TaskContext pg q}
    (hq : g'.kernel.tasks.lookup q = some task) : o ∉ task.children := by
  intro hmem
  have hl := hg.later h
  rw [hl.family.children q task hq] at hmem
  obtain ⟨t', ht', hparent⟩ := isChild_iff.mp (List.mem_filter.mp hmem).2
  obtain ⟨t, ht, hsame⟩ := hl.kept o (hg.numbered o (hg.known o orphan ho)) t' ht'
  obtain rfl : orphan = t := Option.some.inj (ho.symm.trans ht)
  obtain rfl : p = q := Option.some.inj (hp.symm.trans (hsame.symm.trans hparent))
  obtain ⟨t₀, ht₀, _⟩ := hl.kept p (hg.parents o orphan p ho hp) task hq
  rw [hgone] at ht₀
  cases ht₀

end Operations

/-- In every state that creations, additions and removals lead to: a task's list holds its
registered children, each once, in the order they were added; a task that was created for a
registered parent can be added; and no later state lists an orphan as anybody's child. -/
theorem family_tree_consistent (g : Grown pg) (h : g.Reachable) :
    (∀ p task, g.kernel.tasks.lookup p = some task → task.children.Nodup ∧ task.children.Sublist g.added ∧
      ∀ id, id ∈ task.children ↔ ∃ child, g.kernel.tasks.lookup id = some child ∧ child.parent = some p) ∧
    (∀ (env : Env pg) (p id : TaskId) ctx, g.kernel.tasks.lookup p ≠ none →
      (TaskContext.create env p g.kernel : Ran _ _ ε _).outcome = .ok ⟨id, ctx⟩ →
      (TaskRegistry.add ctx (TaskContext.create env p g.kernel : Ran _ _ ε _).state : Ran _ _
      ε Unit).outcome = .ok ()) ∧
    ∀ o orphan p, g.kernel.tasks.lookup o = some orphan → orphan.parent = some p →
    g.kernel.tasks.lookup p = none →
      ∀ ops g', Runs.run FamilyOp.step g ops = some g' →
        ∀ q task, g'.kernel.tasks.lookup q = some task → o ∉ task.children := by
  have hg := h.family
  refine ⟨fun p task hp => ?_, ?_, ?_⟩
  · rw [hg.children p task hp]
    refine ⟨hg.nodup.filter _, List.filter_sublist, fun id => ?_⟩
    rw [List.mem_filter, isChild_iff]
    refine ⟨fun h => h.2, fun hchild => ⟨?_, hchild⟩⟩
    obtain ⟨child, hfound, _⟩ := hchild
    exact hg.known id child hfound
  · intro env p id ctx hp hok
    by_cases hcan : TaskContext.CanCreate env g.kernel
    · obtain ⟨id', table, frames, hid, hrun⟩ := hcan.run (ε := ε) p
      rw [hrun] at hok ⊢
      cases hok
      obtain ⟨parent, hfound⟩ := Option.ne_none_iff_exists'.mp hp
      have hadd : (TaskRegistry.add (TaskContext.fresh p id table)
        (g.kernel.created id frames) : Ran _ _ ε Unit) = _ :=
        TaskRegistry.add_run rfl (hg.fresh hid) hfound
      rw [hadd]
    · rw [TaskContext.create_panic hcan] at hok
      cases hok
  · intro o orphan p ho hparent hgone ops g' hrun q task hq
    exact hg.orphan_adopted_by_nobody ho hparent hgone hrun hq

/-- Only the first task. -/
def Grown.planted : Grown .flat :=
  ⟨{ Kernel.initial .flat (256 : Nat) fun _ => 0 with
    tasks := Finmap.insert initId (TaskContext.createInit fun _ => none) ∅ }, [initId]⟩

/-- A child and a grandchild, and the child goes. -/
def orphaning : List (FamilyOp .flat) := [.add .plain initId, .add .plain initprocId, .remove initprocId]

theorem family_tree_orphaning : ∃ g, Runs.run FamilyOp.step Grown.planted orphaning = some g ∧
    g.kernel.tasks.lookup childId ≠ none ∧
    ∀ p task, g.kernel.tasks.lookup p = some task → task.children.Nodup ∧ task.children.Sublist g.added ∧
      ∀ id, id ∈ task.children ↔ ∃ child, g.kernel.tasks.lookup id = some child ∧ child.parent = some p := by
  have hrun : ∃ g, Runs.run FamilyOp.step Grown.planted orphaning = some g ∧
    g.kernel.tasks.lookup childId ≠ none :=
    ⟨_, rfl, Option.some_ne_none _⟩
  obtain ⟨g, hg, horphan⟩ := hrun
  exact ⟨g, hg, horphan, (family_tree_consistent (ε := Empty) g ⟨_, orphaning, ⟨_, _, _, rfl⟩, hg⟩).1⟩

end Idkernel
