import Idkernel.CapabilityCalls

/-!
# Sharing and transferring as one operation

The capability leaves the caller before the target is looked at. The call is
all or nothing except where a transfer finds its target missing, not a child of
the caller, or without room.
-/
namespace Idkernel

open Address Traced Locks

variable {pg : Paging}

/-- The list of (handle, capability) pairs of a task. -/
def Kernel.handlesOf (k : Kernel pg) (id : TaskId) : Option (List (CapabilityHandle × Capability)) :=
  (k.tasks.lookup id).map fun task => task.capabilities.handles

theorem handlesOf_insert {k k' : Kernel pg} {id : TaskId} {task task' : TaskContext pg id}
    (hk : k'.tasks = k.tasks.insert id task') (hfound : k.tasks.lookup id = some task)
    (hsame : task'.capabilities.handles = task.capabilities.handles) (i : TaskId) :
    k'.handlesOf i = k.handlesOf i := by
  unfold Kernel.handlesOf
  rw [hk]
  by_cases hi : i = id
  · subst hi
    rw [Finmap.lookup_insert, hfound, Option.map_some, Option.map_some, hsame]
  · rw [Finmap.lookup_insert_of_ne _ hi]

/-- What a task holds; nothing if it is not registered. -/
def Kernel.heldBy (k : Kernel pg) (id : TaskId) : List (CapabilityHandle × Capability) := (k.handlesOf id).getD []

section Held

variable {k k' : Kernel pg} {id : TaskId}

theorem heldBy_found {task : TaskContext pg id} (h : k.tasks.lookup id = some task) :
    k.heldBy id = task.capabilities.handles := by
  simp [Kernel.heldBy, Kernel.handlesOf, h]

theorem heldBy_missing (h : k.tasks.lookup id = none) : k.heldBy id = [] := by
  simp [Kernel.heldBy, Kernel.handlesOf, h]

theorem heldBy_congr (h : k'.tasks.lookup id = k.tasks.lookup id) : k'.heldBy id = k.heldBy id := by
  simp [Kernel.heldBy, Kernel.handlesOf, h]

end Held

/-- What a successful call does: one capability, the one the caller had under the handle,
is appended to the target's list; a transfer takes exactly that entry from the caller. -/
def Delivered (k k' : Kernel pg) (cur target : TaskId) (capHandle : CapabilityHandle) (transfer : Bool) :
    Prop :=
  ∃ cap before after hs new,
    k.handlesOf cur = some (before ++ (capHandle, cap) :: after) ∧ (∀ e ∈ before, e.1 ≠ capHandle) ∧
    k'.handlesOf cur = some (if transfer then before ++ after else before ++ (capHandle, cap) :: after) ∧
    k.handlesOf target = some hs ∧ k'.handlesOf target = some (hs ++ [(new, cap)]) ∧
    ∀ id, id ≠ cur → id ≠ target → k'.tasks.lookup id = k.tasks.lookup id

/-- All or nothing. A panic stops the kernel, so nothing is asked of it. -/
def AllOrNothing (k : Kernel pg) (proc : Nat) (capHandle : CapabilityHandle) (transfer : Bool)
    (r : Ran (Kernel pg) KEvent SyscallError Unit) : Prop :=
  match r.outcome with
  | .err _ => ∀ id, r.state.handlesOf id = k.handlesOf id
  | .ok _ => ∃ cur target, k.taskId = some cur ∧ target.raw = proc ∧ cur ≠ target ∧
      Delivered k r.state cur target capHandle transfer
  | .panic => True

/-! ## The two halves -/

/-- The target is missing, is not the caller's child, or has no room. -/
def Refuses (env : Env pg) (k : Kernel pg) (cur proc : TaskId) : Prop :=
  k.tasks.lookup proc = none ∨ ∃ target, k.tasks.lookup proc = some target ∧
    (target.parent ≠ some cur ∨
      env.tryReserve = false ∧ env.arith.add target.capabilities.nextHandle 1 ≠ none)

section Giving

variable {env : Env pg} {k : Kernel pg} {cur proc : TaskId}

theorem giveTo_missing (cap : Capability) (h : k.tasks.lookup proc = none) :
    (CapCall.giveTo env proc cap k).outcome = .err .wrongProcess ∧ (CapCall.giveTo env proc cap k).state = k := by
  unfold CapCall.giveTo
  rw [knownProcess_missing h]
  exact ⟨rfl, rfl⟩

theorem giveTo_wrongParent (cap : Capability) {target : TaskContext pg proc} (hcur : k.taskId = some cur)
    (h : k.tasks.lookup proc = some target) (hp : target.parent ≠ some cur) :
    (CapCall.giveTo env proc cap k).outcome = .err .wrongProcess ∧ (CapCall.giveTo env proc cap k).state = k := by
  unfold CapCall.giveTo
  rw [knownProcess_bind h, after_outcome, after_state, withGuard_outcome, withGuard_state, getTask_bind h,
    currentTaskId_bind hcur, Comp.require_false hp]
  exact ⟨rfl, rfl⟩

theorem giveTo_overflow {cap : Capability} {target : TaskContext pg proc} (hcur : k.taskId = some cur)
    (h : k.tasks.lookup proc = some target) (hp : target.parent = some cur)
    (hins : target.capabilities.insert env.arith env.tryReserve cap = none) :
    (CapCall.giveTo env proc cap k).outcome = .panic := by
  unfold CapCall.giveTo
  rw [knownProcess_bind h, after_outcome, withGuard_outcome, getTask_bind h, currentTaskId_bind hcur,
    Comp.require_true hp, Comp.ret_bind, hins]
  rfl

theorem giveTo_inserted {cap : Capability} {target : TaskContext pg proc}
    {r : Except SyscallError CapabilityHandle}
    {caps : TaskCapabilityStorage} (hcur : k.taskId = some cur) (h : k.tasks.lookup proc = some target)
    (hp : target.parent = some cur)
    (hins : target.capabilities.insert env.arith env.tryReserve cap = some (r, caps)) :
    (CapCall.giveTo env proc cap k).outcome = Outcome.ofExcept (r.map fun _ => ()) ∧
      (CapCall.giveTo env proc cap k).state =
        { k with tasks := k.tasks.insert proc { target with capabilities := caps } } := by
  unfold CapCall.giveTo
  rw [knownProcess_bind h, after_outcome, after_state, withGuard_outcome, withGuard_state, getTask_bind h,
    currentTaskId_bind hcur, Comp.require_true hp, Comp.ret_bind, hins]
  cases r with
  | ok handle => exact ⟨rfl, rfl⟩
  | error e => exact ⟨rfl, rfl⟩

/-- A target that refuses leaves every list as it was. -/
theorem giveTo_refused (cap : Capability) (hcur : k.taskId = some cur) (h : Refuses env k cur proc) :
    (∃ e, (CapCall.giveTo env proc cap k).outcome = .err e) ∧
      ∀ id, (CapCall.giveTo env proc cap k).state.handlesOf id = k.handlesOf id := by
  rcases h with hnone | ⟨target, hfound, hbad⟩
  · obtain ⟨ho, hs⟩ := giveTo_missing cap hnone
    exact ⟨⟨_, ho⟩, fun id => by rw [hs]⟩
  by_cases hp : target.parent = some cur
  · obtain ⟨hres, hadd⟩ := hbad.resolve_left (not_not_intro hp)
    obtain ⟨next, hnext⟩ := Option.ne_none_iff_exists'.mp hadd
    have hins : target.capabilities.insert env.arith env.tryReserve cap =
        some (.error .noMemory, ⟨next, target.capabilities.handles⟩) := by
      simp [TaskCapabilityStorage.insert, hnext, hres]
    obtain ⟨ho, hs⟩ := giveTo_inserted hcur hfound hp hins
    exact ⟨⟨_, ho⟩, handlesOf_insert (congrArg Kernel.tasks hs) hfound rfl⟩
  · obtain ⟨ho, hs⟩ := giveTo_wrongParent cap hcur hfound hp
    exact ⟨⟨_, ho⟩, fun id => by rw [hs]⟩

/-- A target that does not refuse gets exactly the capability, unless its handle counter
overflows. -/
theorem giveTo_accepted (cap : Capability) (hcur : k.taskId = some cur) (h : ¬ Refuses env k cur proc) :
    (CapCall.giveTo env proc cap k).outcome = .panic ∨
      (CapCall.giveTo env proc cap k).outcome = .ok () ∧ ∃ hs new, k.handlesOf proc = some hs ∧
        (CapCall.giveTo env proc cap k).state.handlesOf proc = some (hs ++ [(new, cap)]) ∧
        ∀ id, id ≠ proc → (CapCall.giveTo env proc cap k).state.tasks.lookup id = k.tasks.lookup id := by
  obtain ⟨target, hfound⟩ := Option.ne_none_iff_exists'.mp fun hnone => h (.inl hnone)
  have hp : target.parent = some cur := by
    by_contra hp
    exact h (.inr ⟨target, hfound, .inl hp⟩)
  cases hins : target.capabilities.insert env.arith env.tryReserve cap with
  | none => exact .inl (giveTo_overflow hcur hfound hp hins)
  | some rc =>
    right
    obtain ⟨r, caps⟩ := rc
    obtain ⟨ho, hs⟩ := giveTo_inserted hcur hfound hp hins
    rcases TaskCapabilityStorage.insert_cases hins with ⟨_, rfl, hc⟩ | ⟨hres, _, _⟩
    · refine ⟨ho, target.capabilities.handles, target.capabilities.nextHandle, ?_, ?_, ?_⟩
      · simp [Kernel.handlesOf, hfound]
      · simp [Kernel.handlesOf, hs, hc]
      · intro id hid
        rw [hs]
        exact Finmap.lookup_insert_of_ne _ hid
    · exfalso
      refine h (.inr ⟨target, hfound, .inr ⟨hres, fun hnone => ?_⟩⟩)
      simp [TaskCapabilityStorage.insert, hnone] at hins

end Giving

section Taking

variable {k : Kernel pg} {cur : TaskId} {task : TaskContext pg cur}

theorem takeTransferred_run {capHandle : CapabilityHandle} (hcur : k.taskId = some cur)
    (h : k.tasks.lookup cur = some task)
    {r : Except SyscallError Capability} {caps : TaskCapabilityStorage}
    (hd : task.capabilities.delete capHandle = (r, caps)) :
    (CapCall.takeTransferred capHandle k).outcome = Outcome.ofExcept r ∧
      (CapCall.takeTransferred capHandle k).state =
        { k with tasks := k.tasks.insert cur { task with capabilities := caps } } := by
  unfold CapCall.takeTransferred
  rw [currentTask_bind hcur h, after_outcome, after_state, withGuard_outcome, withGuard_state,
    getTask_bind h, hd]
  cases r with
  | ok cap => exact ⟨rfl, rfl⟩
  | error e => exact ⟨rfl, rfl⟩

/-- Copying never changes the state, and copies what the caller holds. -/
theorem copyShared_run (capHandle : CapabilityHandle) (hcur : k.taskId = some cur)
    (h : k.tasks.lookup cur = some task) :
    (CapCall.copyShared capHandle k).state = k ∧
      ((∃ e, (CapCall.copyShared capHandle k).outcome = .err e) ∨
        ∃ cap, (CapCall.copyShared capHandle k).outcome = .ok cap ∧
          task.capabilities.get capHandle = some cap) := by
  unfold CapCall.copyShared
  rw [currentTask_bind hcur h, after_outcome, after_state, withGuard_outcome, withGuard_state, getTask_bind h]
  cases hg : task.capabilities.get capHandle with
  | none => exact ⟨rfl, .inl ⟨_, rfl⟩⟩
  | some cap =>
    rw [Comp.okOr_some, Comp.ret_bind]
    by_cases hs : cap.perms.contains .SHAREABLE = true
    · rw [Comp.require_true hs]
      exact ⟨rfl, .inr ⟨cap, rfl, rfl⟩⟩
    · rw [Comp.require_false hs]
      exact ⟨rfl, .inl ⟨_, rfl⟩⟩

end Taking

/-! ## The whole call -/

theorem processShareTransfer_run {env : Env pg} {k : Kernel pg} {cur target : TaskId} (hcur : k.taskId = some cur)
    (hne : target ≠ cur) (capHandle : CapabilityHandle) (transfer : Bool) :
    CapCall.processShareTransfer env target.raw capHandle transfer k =
      ((if transfer then CapCall.takeTransferred capHandle else CapCall.copyShared capHandle) >>=
        CapCall.giveTo env target) k := by
  have hnew : TaskId.new target.raw = some target := dif_pos target.nonzero
  unfold CapCall.processShareTransfer
  rw [hnew, Comp.okOr_some, Comp.ret_bind, currentTaskId_bind hcur, Comp.require_true hne, Comp.ret_bind]
  cases transfer <;> rfl

/-- The transfers that lose the capability: the caller has it and the target refuses it. -/
def LosesCapability (env : Env pg) (k : Kernel pg) (proc : Nat) (capHandle : CapabilityHandle)
    (transfer : Bool) : Prop :=
  transfer = true ∧ ∃ cur target task, k.taskId = some cur ∧ target.raw = proc ∧ target ≠ cur ∧
    k.tasks.lookup cur = some task ∧ task.capabilities.get capHandle ≠ none ∧ Refuses env k cur target

section Whole

variable {env : Env pg} {k : Kernel pg} {cur target : TaskId} {task : TaskContext pg cur}
  {capHandle : CapabilityHandle}

/-- Sharing is all or nothing: the copy is only ever added at the end. -/
theorem share_all_or_nothing (hcur : k.taskId = some cur) (hne : target ≠ cur)
    (hfound : k.tasks.lookup cur = some task) :
    AllOrNothing k target.raw capHandle false
      ((CapCall.copyShared capHandle >>= CapCall.giveTo env target) k) := by
  obtain ⟨hstate, ⟨e, ho⟩ | ⟨cap, ho, hget⟩⟩ := copyShared_run capHandle hcur hfound
  · rw [Comp.bind_err ho, hstate]
    exact fun _ => rfl
  rw [Comp.bind_ok ho, hstate]
  by_cases href : Refuses env k cur target
  · obtain ⟨⟨e, he⟩, hsame⟩ := giveTo_refused cap hcur href
    simp only [AllOrNothing, after_outcome, after_state, he]
    exact hsame
  rcases giveTo_accepted cap hcur href with hp | ⟨hok, hs, new, hold, hnew, hrest⟩
  · simp only [AllOrNothing, after_outcome, hp]
  simp only [AllOrNothing, after_outcome, after_state, hok]
  obtain ⟨before, after, hsplit, hb⟩ := TaskCapabilityStorage.get_cases hget
  have hlist : k.handlesOf cur = some (before ++ (capHandle, cap) :: after) := by
    simp [Kernel.handlesOf, hfound, hsplit]
  refine ⟨cur, target, hcur, rfl, hne.symm, cap, before, after, hs, new, hlist, hb, ?_, hold, hnew, ?_⟩
  · rw [Kernel.handlesOf, hrest cur hne.symm]
    exact hlist
  · exact fun id _ hid => hrest id hid

/-- A transfer is all or nothing unless the capability is gone when the target refuses. -/
theorem transfer_all_or_nothing (hcur : k.taskId = some cur) (hne : target ≠ cur)
    (hfound : k.tasks.lookup cur = some task) :
    AllOrNothing k target.raw capHandle true
        ((CapCall.takeTransferred capHandle >>= CapCall.giveTo env target) k) ↔
      ¬ (task.capabilities.get capHandle ≠ none ∧ Refuses env k cur target) := by
  rcases hd : task.capabilities.delete capHandle with ⟨r, caps⟩
  obtain ⟨ho, hstate⟩ := takeTransferred_run hcur hfound hd
  rcases TaskCapabilityStorage.delete_cases hd with
    ⟨hnone, rfl, rfl⟩ | ⟨cap, before, after, hget, rfl, hb, hsplit, hrem⟩
  · have hsame : ∀ id, (CapCall.takeTransferred capHandle k).state.handlesOf id = k.handlesOf id :=
      handlesOf_insert (congrArg Kernel.tasks hstate) hfound rfl
    rw [Comp.bind_err ho]
    simp only [AllOrNothing, hnone]
    exact ⟨fun _ h => h.1 rfl, fun _ => hsame⟩
  have hlist : k.handlesOf cur = some (before ++ (capHandle, cap) :: after) := by
    simp [Kernel.handlesOf, hfound, hsplit]
  -- the state the target is looked up in
  generalize hk₁ : (CapCall.takeTransferred capHandle k).state = k₁ at hstate
  have hcur₁ : k₁.taskId = some cur := by rw [hstate]; exact hcur
  have hother : ∀ id, id ≠ cur → k₁.tasks.lookup id = k.tasks.lookup id := by
    intro id hid
    rw [hstate]
    exact Finmap.lookup_insert_of_ne _ hid
  have hlist₁ : k₁.handlesOf cur = some (before ++ after) := by
    simp [Kernel.handlesOf, hstate, hrem]
  have href₁ : Refuses env k₁ cur target ↔ Refuses env k cur target := by
    unfold Refuses
    rw [hother target hne]
  rw [Comp.bind_ok ho, hk₁]
  simp only [AllOrNothing, after_outcome, after_state, hget, ne_eq, reduceCtorEq, not_false_eq_true, true_and]
  by_cases href : Refuses env k cur target
  · obtain ⟨⟨e, he⟩, hsame⟩ := giveTo_refused cap hcur₁ (href₁.mpr href)
    simp only [he, href, not_true_eq_false, iff_false]
    intro hall
    have hboth := (hall cur).symm.trans (hsame cur)
    rw [hlist, hlist₁] at hboth
    have hlen := congrArg List.length (Option.some.inj hboth)
    simp at hlen
  · simp only [href, not_false_eq_true, iff_true]
    rcases giveTo_accepted cap hcur₁ (fun h => href (href₁.mp h)) with
      hp | ⟨hok, hs, new, hold, hnew, hrest⟩
    · simp only [hp]
    simp only [hok]
    refine ⟨cur, target, hcur, rfl, hne.symm, cap, before, after, hs, new, hlist, hb, ?_, ?_, hnew, ?_⟩
    · rw [Kernel.handlesOf, hrest cur hne.symm]
      exact hlist₁
    · rw [← hold, Kernel.handlesOf, Kernel.handlesOf, hother target hne]
    · exact fun id hid hid' => (hrest id hid').trans (hother id hid)

end Whole

/-- Every list is unchanged after an error, and exactly one capability has moved or been
copied after a success, if and only if the call is not a transfer that its target refuses. -/
theorem processShareTransfer_all_or_nothing (env : Env pg) (k : Kernel pg) (proc : Nat)
    (capHandle : CapabilityHandle) (transfer : Bool) :
    AllOrNothing k proc capHandle transfer (CapCall.processShareTransfer env proc capHandle transfer k) ↔
      ¬ LosesCapability env k proc capHandle transfer := by
  by_cases hpos : 0 < proc
  · obtain ⟨target, rfl⟩ : ∃ target : TaskId, target.raw = proc := ⟨⟨proc, hpos⟩, rfl⟩
    have hnew : TaskId.new target.raw = some target := dif_pos hpos
    cases hcur : k.taskId with
    | none =>
      have hrun : (CapCall.processShareTransfer env target.raw capHandle transfer k).outcome = .panic := by
        unfold CapCall.processShareTransfer
        rw [hnew, Comp.okOr_some, Comp.ret_bind, currentTaskId_missing hcur]
      simp [AllOrNothing, hrun, LosesCapability, hcur]
    | some cur =>
      by_cases hne : target = cur
      · have hrun : CapCall.processShareTransfer env target.raw capHandle transfer k =
            ⟨.err .wrongProcess, k, []⟩ := by
          unfold CapCall.processShareTransfer
          rw [hnew, Comp.okOr_some, Comp.ret_bind, currentTaskId_bind hcur,
            Comp.require_false (not_not_intro hne)]
          rfl
        simp only [AllOrNothing, hrun, implies_true, true_iff]
        rintro ⟨_, cur', target', _, hcur', hraw, hne', _⟩
        obtain rfl : cur = cur' := Option.some.inj (hcur.symm.trans hcur')
        exact hne' ((TaskId.ext hraw).trans hne)
      · rw [processShareTransfer_run hcur hne]
        cases hfound : k.tasks.lookup cur with
        | none =>
          have hpanic : ((if transfer then CapCall.takeTransferred capHandle else CapCall.copyShared capHandle) k
              : Ran _ _ SyscallError Capability).outcome = .panic := by
            have hmissing := currentTask_missing (ε := SyscallError) hcur hfound
            cases transfer with
            | true => exact congrArg Ran.outcome (Comp.bind_panic hmissing)
            | false => exact congrArg Ran.outcome (Comp.bind_panic hmissing)
          rw [Comp.bind_panic hpanic]
          simp only [AllOrNothing, true_iff]
          rintro ⟨_, cur', _, _, hcur', _, _, hfound', _⟩
          obtain rfl : cur = cur' := Option.some.inj (hcur.symm.trans hcur')
          rw [hfound] at hfound'
          cases hfound'
        | some task =>
          cases transfer with
          | false => exact iff_of_true (share_all_or_nothing hcur hne hfound) fun h => Bool.noConfusion h.1
          | true =>
            refine (transfer_all_or_nothing hcur hne hfound).trans (not_congr ⟨?_, ?_⟩)
            · rintro ⟨hget, href⟩
              exact ⟨rfl, cur, target, task, hcur, rfl, hne, hfound, hget, href⟩
            · rintro ⟨_, cur', target', task', hcur', hraw, _, hfound', hget, href⟩
              obtain rfl : cur = cur' := Option.some.inj (hcur.symm.trans hcur')
              obtain rfl : target' = target := TaskId.ext hraw
              obtain rfl : task = task' := Option.some.inj (hfound.symm.trans hfound')
              exact ⟨hget, href⟩
  · have hnew : TaskId.new proc = none := dif_neg hpos
    have hrun : CapCall.processShareTransfer env proc capHandle transfer k = ⟨.err .wrongParameters, k, []⟩ := by
      unfold CapCall.processShareTransfer
      rw [hnew]
      rfl
    simp only [AllOrNothing, hrun, implies_true, true_iff]
    rintro ⟨_, cur, target, _, _, rfl, _⟩
    exact hpos target.nonzero

/-- The only channel of a task that offers it to a process that does not exist is gone. -/
theorem transfer_to_nobody_loses :
    let k := Kernel.family ⟨1, [(0, ⟨.TRANSFER, .channelCreate⟩)]⟩
    let r := CapCall.processShareTransfer .plain 9 0 true k
    r.outcome = .err .wrongProcess ∧ k.handlesOf parentId = some [(0, ⟨.TRANSFER, .channelCreate⟩)] ∧
      r.state.handlesOf parentId = some [] ∧ ¬ AllOrNothing k 9 0 true r := by
  refine ⟨rfl, rfl, rfl, fun h => ?_⟩
  exact absurd (h parentId) (by decide)

end Idkernel
