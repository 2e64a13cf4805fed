import Idkernel.Reachable
import Idkernel.ShareTransfer

/-!
# What a call leaves behind

A handler works on one context at a time: on its caller's, and for a share, a
transfer or an `exec` on one of the caller's children afterwards. Which of them
it works on, and what it may do there, is collected into one relation between
the states before and after a call.
-/
namespace Idkernel

open Address Traced Locks

variable {pg : Paging} {α ε : Type}

/-! ## One context at a time -/

/-- The context of `a` is replaced by one that `R` relates to it. -/
structure Touches (a : TaskId) (R : TaskContext pg a → TaskContext pg a → Prop) (k k' : Kernel pg) : Prop where
  others : ∀ i, i ≠ a → k'.tasks.lookup i = k.tasks.lookup i
  related : ∃ task task', k.tasks.lookup a = some task ∧ k'.tasks.lookup a = some task' ∧ R task task'

section Touching

variable {a : TaskId} {R : TaskContext pg a → TaskContext pg a → Prop} {k k' : Kernel pg}

theorem Touches.insert {task task' : TaskContext pg a} (hfound : k.tasks.lookup a = some task)
    (hk : k'.tasks = k.tasks.insert a task') (h : R task task') : Touches a R k k' where
  others i hi := by rw [hk, Finmap.lookup_insert_of_ne _ hi]
  related := ⟨task, task', hfound, by rw [hk, Finmap.lookup_insert], h⟩

/-- What is known of the context that is replaced. -/
theorem Touches.here {task task' : TaskContext pg a} (h : Touches a R k k')
    (hfound : k.tasks.lookup a = some task)
    (hfound' : k'.tasks.lookup a = some task') : R task task' := by
  obtain ⟨t, t', ht, ht', hrel⟩ := h.related
  obtain rfl : task = t := Option.some.inj (hfound.symm.trans ht)
  obtain rfl : task' = t' := Option.some.inj (hfound'.symm.trans ht')
  exact hrel

theorem Touches.mono {R' : TaskContext pg a → TaskContext pg a → Prop} (h : Touches a R k k')
    (hR : ∀ task task', R task task' → R' task task') : Touches a R' k k' := by
  obtain ⟨others, task, task', hfound, hfound', hrel⟩ := h
  exact ⟨others, task, task', hfound, hfound', hR task task' hrel⟩

end Touching

/-- A newcomer that starts with nothing leaves what everybody holds as it was. -/
theorem adopt_heldBy {k : Kernel pg} {id a : TaskId} {child : TaskContext pg id} {task : TaskContext pg a}
    {frames : pg.Frames} (found : k.tasks.lookup a = some task) (fresh : k.tasks.lookup id = none)
    (caps : child.capabilities = .empty) (i : TaskId) :
    ((k.created id frames).adopt child task).heldBy i = k.heldBy i := by
  by_cases ha : i = a
  · subst ha
    have hparent : ((k.created id frames).adopt child task).tasks.lookup i =
        some { task with children := task.children ++ [id] } := Finmap.lookup_insert _
    rw [heldBy_found hparent, heldBy_found found]
  by_cases hi : i = id
  · subst hi
    have hself : ((k.created i frames).adopt child task).tasks.lookup i = some child := adopt_self ha
    rw [heldBy_found hself, heldBy_missing fresh, caps]
    rfl
  · exact heldBy_congr ((Finmap.lookup_insert_of_ne _ ha).trans (Finmap.lookup_insert_of_ne _ hi))

abbrev Handles := List (CapabilityHandle × Capability)

/-- What a task can do to its own list of capabilities. -/
inductive OwnStep : Handles → Handles → Prop where
  | refl (hs : Handles) : OwnStep hs hs
  | cloned {hs : Handles} {old new : CapabilityHandle} {cap : Capability} (held : (old, cap) ∈ hs)
      (may : cap.perms.contains .DUPLICATE = true) : OwnStep hs (hs ++ [(new, cap)])
  | narrowed {before after : Handles} {handle : CapabilityHandle} {cap cap' : Capability}
      (perms : cap'.perms = cap.perms) (kind : cap'.ctype.capId = cap.ctype.capId) :
      OwnStep (before ++ (handle, cap) :: after) (before ++ (handle, cap') :: after)
  | removed {before after : Handles} {x : CapabilityHandle × Capability} :
      OwnStep (before ++ x :: after) (before ++ after)

def Own {a : TaskId} (task task' : TaskContext pg a) : Prop :=
  OwnStep task.capabilities.handles task'.capabilities.handles

/-- The caller's own part. -/
def Works (a : TaskId) (k k' : Kernel pg) : Prop := k' = k ∨ Touches a Own k k'

/-- The capability has left its holder. -/
def TakenOut {a : TaskId} (handle : CapabilityHandle) (cap : Capability) (task task' : TaskContext pg a) : Prop :=
  task.capabilities.get handle = some cap ∧ ∃ before after,
    task.capabilities.handles = before ++ (handle, cap) :: after ∧ task'.capabilities.handles = before ++ after

/-- What the caller of a share or a transfer has done when the target's turn comes. -/
inductive Parted (a : TaskId) (handle : CapabilityHandle) (cap : Capability) (k : Kernel pg) :
    Bool → Kernel pg → Prop where
  | copied {task : TaskContext pg a} (found : k.tasks.lookup a = some task)
      (held : task.capabilities.get handle = some cap) (may : cap.perms.contains .SHAREABLE = true) :
      Parted a handle cap k false k
  | moved {k₁ : Kernel pg} (taken : Touches a (TakenOut handle cap) k k₁) : Parted a handle cap k true k₁

theorem Parted.works {a : TaskId} {handle : CapabilityHandle} {cap : Capability} {transfer : Bool}
    {k k₁ : Kernel pg} (h : Parted a handle cap k transfer k₁) : Works a k k₁ := by
  cases h with
  | copied => exact .inl rfl
  | moved taken =>
    refine .inr (taken.mono ?_)
    rintro task task' ⟨_, before, after, hs, hc⟩
    rw [Own, hs, hc]
    exact .removed

/-- A child of `a` that was given a capability, or had no room and has only counted up its handles. -/
def Given (env : Env pg) (a : TaskId) (cap : Capability) {b : TaskId}
    (target target' : TaskContext pg b) : Prop :=
  target.parent = some a ∧ (∃ caps, target' = { target with capabilities := caps }) ∧
    (target'.capabilities.handles = target.capabilities.handles ∨
      env.tryReserve = true ∧ ∃ new, target'.capabilities.handles = target.capabilities.handles ++ [(new, cap)])

/-- A child of `a` that an image was loaded into, perhaps not to the end. -/
def LoadedBy (a : TaskId) {b : TaskId} (target target' : TaskContext pg b) : Prop :=
  target.parent = some a ∧ target.userEntryPoint = .zero ∧
    ∃ table entry, target' = { target with pageTable := table, userEntryPoint := entry }

/-- What a call by `a` leaves behind, returned or failed. -/
inductive Effect (env : Env pg) (a : TaskId) (k : Kernel pg) : Handler → Kernel pg → Prop where
  | works {h : Handler} {k' : Kernel pg} (own : Works a k k') : Effect env a k h k'
  | given {b : TaskId} {handle : CapabilityHandle} {transfer : Bool} {cap : Capability} {k₁ k' : Kernel pg}
      (other : b ≠ a) (parted : Parted a handle cap k transfer k₁) (given : Touches b (Given env a cap) k₁ k') :
      Effect env a k (.processShareTransfer b.raw handle transfer) k'
  | spawned {id : TaskId} {child : TaskContext pg id} {task : TaskContext pg a} {frames : pg.Frames}
      (found : k.tasks.lookup a = some task) (fresh : k.tasks.lookup id = none) (pid : id.raw = k.nextPid)
      (parent : child.parent = some a) (caps : child.capabilities = .empty) :
        Effect env a k .spawn ((k.created id frames).adopt child task)
  | loaded {b : TaskId} {fd : Nat} {k₁ k' : Kernel pg} (own : Works a k k₁)
      (loaded : Touches b (LoadedBy a) k₁ k') : Effect env a k (.exec b.raw fd) k'

/-! ## The handlers, one by one -/

/-- From `k`, every end but a panic leaves a state with `D`. -/
abbrev From (k : Kernel pg) (m : KernelM pg ε α) (D : Kernel pg → Prop) : Prop :=
  Comp.Triple (fun s => s = k) m (fun _ => D) D fun _ => True

section Handlers

variable {a : TaskId} {k : Kernel pg}

/-- The opening every handler that locks its caller has. -/
theorem locked_from {md : Mode} {body : (t : TaskId) → TaskContext pg t → KernelM pg ε α}
    {Q : α → Kernel pg → Prop} {E : Kernel pg → Prop} (hcur : k.taskId = some a)
    (hbody : ∀ task, k.tasks.lookup a = some task →
      Comp.Triple (fun s => s = k) (body a task) Q E fun _ => True) :
    Comp.Triple (fun s => s = k) (do
      let t ← currentTask
      withGuard (.task t) md do
        let task ← getTask t
        body t task) Q E fun _ => True := by
  rintro s rfl
  cases hfound : s.tasks.lookup a with
  | none =>
    rw [Comp.bind_outcome, currentTask_missing hcur hfound]
    trivial
  | some task =>
    rw [currentTask_bind hcur hfound, after_outcome, after_state, withGuard_outcome, withGuard_state,
      getTask_bind hfound]
    exact hbody task hfound s rfl

theorem Works.storage {task : TaskContext pg a} {caps : TaskCapabilityStorage}
    (hfound : k.tasks.lookup a = some task)
    (h : OwnStep task.capabilities.handles caps.handles) :
    Works a k { k with tasks := k.tasks.insert a { task with capabilities := caps } } :=
  .inr (.insert hfound rfl h)

theorem Works.files {task : TaskContext pg a} (hfound : k.tasks.lookup a = some task) (files : TaskFileStorage) :
    Works a k { k with tasks := k.tasks.insert a { task with files := files } } :=
  .inr (.insert hfound rfl (.refl _))

/-- What an insertion of a copy stores. -/
theorem insert_own {ar : Arith} {reserve : Bool} {handle : CapabilityHandle} {cap : Capability}
    {self caps : TaskCapabilityStorage} {r : Except SyscallError CapabilityHandle}
    (hget : self.get handle = some cap) (hmay : cap.perms.contains .DUPLICATE = true)
    (h : self.insert ar reserve cap = some (r, caps)) : OwnStep self.handles caps.handles := by
  rcases TaskCapabilityStorage.insert_cases h with ⟨_, _, hc⟩ | ⟨_, _, hc⟩
  · rw [hc]
    exact .cloned (TaskCapabilityStorage.mem_of_get hget) hmay
  · rw [hc]
    exact .refl _

theorem delete_own {handle : CapabilityHandle} {self caps : TaskCapabilityStorage}
    {r : Except SyscallError Capability} (h : self.delete handle = (r, caps)) :
    OwnStep self.handles caps.handles := by
  rcases TaskCapabilityStorage.delete_cases h with ⟨_, _, rfl⟩ | ⟨cap, before, after, _, _, _, hs, hc⟩
  · exact .refl _
  · rw [hs, hc]
    exact .removed

namespace CapCall

theorem clone_from (hcur : k.taskId = some a) (env : Env pg) (capHandle : CapabilityHandle) :
    From k (clone env capHandle) (Works a k) := by
  refine locked_from hcur fun task hfound => ?_
  apply Comp.Triple.bind (Comp.Triple.okOr fun _ h => .inl h)
  intro cap
  apply Comp.Triple.bind (Comp.Triple.require fun _ h _ => .inl h.1)
  intro _
  apply Comp.Triple.bind (Comp.Triple.unwrap fun _ _ => trivial)
  intro rc
  refine Comp.Triple.bind (Comp.Triple.write ?_) fun _ => ofExcept_keeps rc.1
  rintro s ⟨⟨⟨rfl, hget⟩, hmay⟩, hins⟩
  exact Works.storage hfound (insert_own hget hmay hins)

theorem inspect_from (hcur : k.taskId = some a) (what index : Nat) :
    From k (inspect what index : KernelM pg _ _) (Works a k) := by
  refine locked_from hcur fun task hfound => ?_
  have hokOr : ∀ (o : Option (Nat × Nat)) (e : SyscallError), From k (Comp.okOr o e) (Works a k) :=
    fun o e => Comp.Triple.conseq (Comp.Triple.okOr fun _ h => .inl h) (fun _ h => h) (fun _ _ h => .inl h.1)
      (fun _ h => h) (fun _ h => h)
  split
  · exact Comp.Triple.ret fun _ h => .inl h
  · exact hokOr _ _
  · exact hokOr _ _
  · exact Comp.Triple.fail fun _ h => .inl h

theorem restrict_from (hcur : k.taskId = some a) (handle : CapabilityHandle) (x y : Nat) :
    From k (restrict handle x y : KernelM pg _ _) (Works a k) := by
  refine locked_from hcur fun task hfound => ?_
  apply Comp.Triple.bind (Comp.Triple.okOr fun _ h => .inl h)
  rintro ⟨⟨perms, ctype⟩, put⟩
  cases ctype with
  | mapPhysical start stop =>
    apply Comp.Triple.bind (Comp.Triple.require fun _ h _ => .inl h.1)
    intro _
    apply Comp.Triple.bind (Comp.Triple.okOr fun _ h => .inl h.1.1)
    intro nstart
    apply Comp.Triple.bind (Comp.Triple.okOr fun _ h => .inl h.1.1.1)
    intro nstop
    apply Comp.Triple.bind (Comp.Triple.require fun _ h _ => .inl h.1.1.1.1)
    intro _
    apply Comp.Triple.write
    rintro s ⟨⟨⟨⟨⟨rfl, hget⟩, _⟩, _⟩, _⟩, _⟩
    obtain ⟨before, after, hs, hput⟩ := TaskCapabilityStorage.getMut_cases hget
    refine Works.storage hfound ?_
    rw [hs, hput]
    exact .narrowed rfl rfl
  | mapVirtualToRam => exact Comp.Triple.fail fun _ h => .inl h.1
  | processSpawn => exact Comp.Triple.fail fun _ h => .inl h.1
  | channelCreate => exact Comp.Triple.fail fun _ h => .inl h.1

theorem cdrop_from (hcur : k.taskId = some a) (handle : CapabilityHandle) :
    From k (cdrop handle : KernelM pg _ _) (Works a k) := by
  refine locked_from hcur fun task hfound => ?_
  rcases hd : task.capabilities.delete handle with ⟨r, caps⟩
  refine Comp.Triple.bind (Comp.Triple.write ?_) fun _ =>
    Comp.Triple.bind (ofExcept_keeps r) fun _ => Comp.Triple.ret fun _ h => h
  rintro s rfl
  exact Works.storage hfound (delete_own hd)

theorem takeTransferred_from (hcur : k.taskId = some a) (capHandle : CapabilityHandle) :
    Comp.Triple (fun s => s = k) (takeTransferred capHandle : KernelM pg _ _)
      (fun cap s => s.taskId = some a ∧ Parted a capHandle cap k true s) (Works a k) fun _ => True := by
  refine locked_from hcur fun task hfound => ?_
  rintro s rfl
  rcases hd : task.capabilities.delete capHandle with ⟨r, caps⟩
  rcases TaskCapabilityStorage.delete_cases hd with ⟨_, rfl, _⟩ | ⟨cap, before, after, hget, rfl, _, hs, hc⟩
  · exact Works.storage hfound (delete_own hd)
  · exact ⟨hcur, .moved (.insert hfound rfl ⟨hget, before, after, hs, hc⟩)⟩

theorem copyShared_from (hcur : k.taskId = some a) (capHandle : CapabilityHandle) :
    Comp.Triple (fun s => s = k) (copyShared capHandle : KernelM pg _ _)
      (fun cap s => s.taskId = some a ∧ Parted a capHandle cap k false s) (Works a k) fun _ => True := by
  refine locked_from hcur fun task hfound => ?_
  rintro s rfl
  cases hget : task.capabilities.get capHandle with
  | none => exact .inl rfl
  | some cap =>
    rw [Comp.okOr_some, Comp.ret_bind]
    by_cases hmay : cap.perms.contains .SHAREABLE = true
    · rw [Comp.require_true hmay]
      exact ⟨hcur, .copied hfound hget hmay⟩
    · rw [Comp.require_false hmay]
      exact .inl rfl

theorem giveTo_from {b : TaskId} (hother : b ≠ a) (env : Env pg) (capHandle : CapabilityHandle) (cap : Capability)
    (transfer : Bool) :
    Comp.Triple (fun s => s.taskId = some a ∧ Parted a capHandle cap k transfer s) (giveTo env b cap)
      (fun _ => Effect env a k (.processShareTransfer b.raw capHandle transfer))
      (Effect env a k (.processShareTransfer b.raw capHandle transfer)) fun _ => True := by
  unfold giveTo
  apply Comp.Triple.bind (knownProcess_keeps (fun _ h => .works h.2.works) b)
  intro _
  apply Triple.withGuard
  apply Comp.Triple.bind (getTask_keeps b)
  intro target
  apply Comp.Triple.bind currentTaskId_keeps
  intro cur
  apply Comp.Triple.bind (Comp.Triple.require fun _ h _ => .works h.1.1.2.works)
  intro _
  apply Comp.Triple.bind (Comp.Triple.unwrap fun _ _ => trivial)
  rintro ⟨r, caps⟩
  refine Comp.Triple.bind (Comp.Triple.write ?_) fun _ =>
    Comp.Triple.bind (ofExcept_keeps r) fun _ => Comp.Triple.ret fun _ h => h
  rintro s ⟨⟨⟨⟨⟨hs, hparted⟩, hfound⟩, hcur⟩, hparent⟩, hins⟩
  obtain rfl : a = cur := Option.some.inj (hs.symm.trans hcur)
  refine .given hother hparted (.insert hfound rfl ⟨hparent, ⟨caps, rfl⟩, ?_⟩)
  rcases TaskCapabilityStorage.insert_cases hins with ⟨hreserve, _, hc⟩ | ⟨_, _, hc⟩
  · exact .inr ⟨hreserve, _, hc⟩
  · exact .inl hc

theorem processShareTransfer_from (hcur : k.taskId = some a) (env : Env pg) (proc : Nat)
    (capHandle : CapabilityHandle) (transfer : Bool) :
    From k (processShareTransfer env proc capHandle transfer)
      (Effect env a k (.processShareTransfer proc capHandle transfer)) := by
  unfold processShareTransfer
  apply Comp.Triple.bind (Comp.Triple.okOr fun _ h => .works (.inl h))
  intro b
  apply Comp.Triple.bind currentTaskId_keeps
  intro cur
  apply Comp.Triple.bind (Comp.Triple.require fun _ h _ => .works (.inl h.1.1))
  rintro _ s ⟨⟨⟨rfl, hnew⟩, hcur'⟩, hother⟩
  obtain rfl : a = cur := Option.some.inj (hcur.symm.trans hcur')
  obtain rfl : b.raw = proc := TaskId.raw_of_new hnew
  have hgive := fun cap => giveTo_from (k := s) hother env capHandle cap transfer
  cases transfer with
  | true =>
    refine Comp.Triple.bind (P := fun t => t = s) ?_ hgive s rfl
    exact Comp.Triple.conseq (takeTransferred_from hcur capHandle) (fun _ h => h) (fun _ _ h => h)
      (fun _ h => .works h) fun _ h => h
  | false =>
    refine Comp.Triple.bind (P := fun t => t = s) ?_ hgive s rfl
    exact Comp.Triple.conseq (copyShared_from hcur capHandle) (fun _ h => h) (fun _ _ h => h)
      (fun _ h => .works h) fun _ h => h

end CapCall

namespace ProcCall

theorem spawn_from (hcur : k.taskId = some a) (env : Env pg) : From k (spawn env) (Effect env a k .spawn) := by
  refine locked_from hcur fun task hfound => ?_
  apply Comp.Triple.bind (Comp.Triple.require fun _ h _ => .works (.inl h))
  intro _
  apply Comp.Triple.bind currentTaskId_keeps
  rintro cur s ⟨⟨rfl, _⟩, hcur'⟩
  obtain rfl : a = cur := Option.some.inj (hcur.symm.trans hcur')
  by_cases hcan : TaskContext.CanCreate env s
  · obtain ⟨id, table, frames, hid, hrun⟩ := hcan.run a
    rw [Comp.bind_run, hrun]
    simp only [after_outcome, after_state]
    by_cases hnew : s.tasks.lookup id = none
    · have hadd : (TaskRegistry.add (TaskContext.fresh a id table) (s.created id frames) :
          Ran _ _ SyscallError Unit) = _ := TaskRegistry.add_run rfl hnew hfound
      rw [Comp.bind_run, withGuard_ok _ hadd]
      exact .spawned hfound hnew hid rfl rfl
    · have hadd : (TaskRegistry.add (TaskContext.fresh a id table) (s.created id frames) :
          Ran _ _ SyscallError Unit).outcome = .panic := TaskRegistry.add_panic hnew
      rw [Comp.bind_outcome, withGuard_outcome, hadd]
      trivial
  · rw [Comp.bind_outcome, TaskContext.create_panic hcan]
    trivial

/-- From the caller's own part on, an image goes into the child. -/
theorem loadElf_from {b : TaskId} {k₁ : Kernel pg} {target : TaskContext pg b} (hown : Works a k k₁)
    (hfound : k₁.tasks.lookup b = some target) (hparent : target.parent = some a)
    (hentry : target.userEntryPoint = .zero) (env : Env pg) (elf : Elf) (fd : Nat) :
    Comp.Triple (fun s => s = k₁) (TaskContext.loadElf env b elf : KernelM pg SyscallError Unit)
      (fun _ s => Touches b (LoadedBy a) k₁ s) (Effect env a k (.exec b.raw fd)) fun _ => True := by
  have hload := TaskContext.loadElf_keeps (ε := SyscallError) (I := Effect env a k (.exec b.raw fd))
    (P := Touches b (LoadedBy a) k₁) (fun _ h => .loaded hown h) env b elf ?_
  · refine Comp.Triple.conseq hload ?_ (fun _ _ h => h) (fun _ h => h) fun _ h => h
    rintro s rfl
    exact ⟨fun _ _ => rfl, target, target, hfound, hfound, hparent, hentry, _, _, rfl⟩
  rintro s task table entry frames memory ⟨others, t, t', ht, ht', hp, hz, table₀, entry₀, rfl⟩ hs
  obtain rfl : _ = task := Option.some.inj (ht'.symm.trans hs)
  refine ⟨fun i hi => ?_, t, _, ht, Finmap.lookup_insert _, hp, hz, table, entry, rfl⟩
  exact (Finmap.lookup_insert_of_ne _ hi).trans (others i hi)

theorem execChild_from (hcur : k.taskId = some a) (env : Env pg) (b : TaskId) (fd : Nat) :
    From k (execChild env b fd) (Effect env a k (.exec b.raw fd)) := by
  unfold execChild
  apply Comp.Triple.bind (getTask_keeps b)
  intro target
  apply Comp.Triple.bind currentTaskId_keeps
  intro cur
  apply Comp.Triple.bind (Comp.Triple.require fun _ h _ => .works (.inl h.1.1))
  intro _
  apply Comp.Triple.bind (Comp.Triple.require fun _ h _ => .works (.inl h.1.1.1))
  rintro _ s ⟨⟨⟨⟨rfl, hfound⟩, hcur'⟩, hparent⟩, hentry⟩
  obtain rfl : a = cur := Option.some.inj (hcur.symm.trans hcur')
  refine locked_from hcur (fun curr hcurr => ?_) s rfl
  apply Comp.Triple.bind (Comp.Triple.okOr fun _ h => .works (.inl h))
  rintro ⟨handle, put⟩
  apply Comp.Triple.bind (Comp.Triple.unwrap fun _ _ => trivial)
  rintro ⟨file, handle'⟩
  let k₁ : Kernel pg := { s with tasks := s.tasks.insert a { curr with files := put handle' } }
  have hown : Works a s k₁ := Works.files hcurr _
  obtain ⟨target₁, hfound₁, hparent₁, hentry₁⟩ : ∃ target₁, k₁.tasks.lookup b = some target₁ ∧
      target₁.parent = some a ∧ target₁.userEntryPoint = .zero := by
    by_cases hb : b = a
    · subst hb
      obtain rfl : curr = target := Option.some.inj (hcurr.symm.trans hfound)
      exact ⟨_, Finmap.lookup_insert _, hparent, hentry⟩
    · exact ⟨target, (Finmap.lookup_insert_of_ne _ hb).trans hfound, hparent, hentry⟩
  apply Comp.Triple.bind (Q := fun _ s' => s' = k₁)
  · apply Comp.Triple.write
    rintro s' ⟨⟨rfl, _⟩, _⟩
    rfl
  intro _
  apply Comp.Triple.bind (Comp.Triple.ofExcept fun _ h => .works (h ▸ hown))
  intro bytes
  apply Comp.Triple.bind (Comp.Triple.mapErr (Comp.Triple.ofExcept fun _ h => .works (h.1 ▸ hown)))
  intro elf
  apply Comp.Triple.bind (Q := fun _ => Touches b (LoadedBy a) k₁)
  · exact fun s' h => loadElf_from hown hfound₁ hparent₁ hentry₁ env elf fd s' h.1.1
  intro _
  refine Triple.withGuard (Comp.Triple.write fun s' h => ?_)
  exact .loaded hown ⟨h.others, h.related⟩

theorem exec_from (hcur : k.taskId = some a) (env : Env pg) (procId fd : Nat) :
    From k (exec env procId fd) (Effect env a k (.exec procId fd)) := by
  unfold exec
  apply Comp.Triple.bind (Comp.Triple.okOr fun _ h => .works (.inl h))
  intro b
  apply Comp.Triple.bind (knownProcess_keeps (fun _ h => .works (.inl h.1)) b)
  rintro _ s ⟨rfl, hnew⟩
  obtain rfl : b.raw = procId := TaskId.raw_of_new hnew
  exact Triple.withGuard (execChild_from hcur env b fd) s rfl

end ProcCall

namespace FileCall

theorem openPath_from (hcur : k.taskId = some a) (env : Env pg) (pathPtr pathLen mode : Nat) :
    From k (openPath env pathPtr pathLen mode) (Works a k) := by
  unfold openPath
  apply Comp.Triple.bind (Comp.Triple.ofExcept fun _ h => .inl h)
  intro _
  apply Comp.Triple.bind (Comp.Triple.unwrap fun _ _ => trivial)
  intro stop
  apply Comp.Triple.bind (Comp.Triple.ofExcept fun _ h => .inl h.1.1)
  intro _
  apply Comp.Triple.bind (Comp.Triple.okOr fun _ h => .inl h.1.1.1)
  intro path
  apply Comp.Triple.bind (Comp.Triple.expect fun _ _ _ => trivial)
  rintro _ s ⟨⟨⟨⟨⟨rfl, _⟩, _⟩, _⟩, _⟩, _⟩
  refine locked_from hcur (fun task hfound => ?_) s rfl
  apply Comp.Triple.bind (Comp.Triple.mapErr (openPathFull_keeps (fun _ h => .inl h) _ _))
  intro pathHandle
  apply Comp.Triple.bind (PathHandle.read_keeps pathHandle)
  intro fileHandle
  apply Comp.Triple.bind (Comp.Triple.unwrap fun _ _ => trivial)
  intro next
  refine Comp.Triple.bind (Comp.Triple.write ?_) fun _ => Comp.Triple.ret fun _ h => h
  rintro s' ⟨rfl, _⟩
  exact Works.files hfound _

theorem seek_from (hcur : k.taskId = some a) (fd index : Nat) :
    From k (seek fd index : KernelM pg _ _) (Works a k) := by
  refine locked_from hcur fun task hfound => ?_
  apply Comp.Triple.bind (Comp.Triple.okOr fun _ h => .inl h)
  rintro ⟨handle, put⟩
  apply Comp.Triple.bind (Comp.Triple.mapErr (Comp.Triple.ofExcept fun _ h => .inl h.1))
  intro handle
  apply Comp.Triple.write
  rintro s ⟨⟨rfl, _⟩, _⟩
  exact Works.files hfound _

theorem read_from (hcur : k.taskId = some a) (env : Env pg) (fd pos length : Nat) :
    From k (read env fd pos length) (Works a k) := by
  unfold read
  apply Comp.Triple.bind (Comp.Triple.ofExcept fun _ h => .inl h)
  intro _
  apply Comp.Triple.bind (Comp.Triple.unwrap fun _ _ => trivial)
  intro stop
  apply Comp.Triple.bind (Comp.Triple.ofExcept fun _ h => .inl h.1.1)
  rintro _ s ⟨⟨⟨rfl, _⟩, _⟩, _⟩
  refine locked_from hcur (fun task hfound => ?_) s rfl
  apply Comp.Triple.bind (Comp.Triple.okOr fun _ h => .inl h)
  rintro ⟨handle, put⟩
  apply Comp.Triple.bind (Comp.Triple.unwrap fun _ _ => trivial)
  rintro ⟨bytes, handle⟩
  refine Comp.Triple.bind (Comp.Triple.write ?_) fun _ => Comp.Triple.ret fun _ h => h
  rintro s' ⟨⟨rfl, _⟩, _⟩
  exact Works.files hfound _

theorem close_from (hcur : k.taskId = some a) (fd : Nat) : From k (close fd : KernelM pg _ _) (Works a k) := by
  refine locked_from hcur fun task hfound => ?_
  apply Comp.Triple.bind (Comp.Triple.okOr fun _ h => .inl h)
  intro index
  apply Comp.Triple.write
  rintro s ⟨rfl, _⟩
  exact Works.files hfound _

end FileCall

/-- The tail of both mapping calls. -/
theorem mapRange_from {task : TaskContext pg a} (hfound : k.tasks.lookup a = some task) (q : Prop) [Decidable q]
    (perms : Nat) (loop : PageTableFlags → VmM pg SyscallError Unit) :
    From k (do
      Comp.require q SyscallError.wrongCapability
      let flags ← Comp.ofExcept (memoryFlags perms)
      withGuard .frameAllocator .write (inTable task (loop flags))) (Works a k) := by
  apply Comp.Triple.bind (Comp.Triple.require fun _ h _ => .inl h)
  intro _
  apply Comp.Triple.bind (Comp.Triple.ofExcept fun _ h => .inl h.1)
  intro flags
  apply Triple.withGuard
  apply Comp.Triple.zoom
  · rintro s v ⟨⟨rfl, _⟩, _⟩
    exact .inr (.insert hfound rfl (.refl _))
  · exact fun _ h => h
  · exact fun _ _ => trivial

namespace MemoryCall

theorem mapVirt_from (hcur : k.taskId = some a) (env : Env pg) (pos len perms : Nat) :
    From k (mapVirt env pos len perms) (Works a k) := by
  unfold mapVirt
  apply Comp.Triple.bind (Comp.Triple.steady (fun s => (parsePageRange_still _ _ _ s).1) (fun _ h => .inl h)
    fun _ _ => trivial)
  rintro ⟨startPage, endPage⟩ s ⟨rfl, _⟩
  exact locked_from hcur (fun task hfound => mapRange_from hfound _ perms _) s rfl

theorem mapPhys_from (hcur : k.taskId = some a) (env : Env pg) (virtAt virtLen perms physAt : Nat) :
    From k (mapPhys env virtAt virtLen perms physAt) (Works a k) := by
  unfold mapPhys
  apply Comp.Triple.bind (Comp.Triple.steady (fun s => (parsePageRange_still _ _ _ s).1) (fun _ h => .inl h)
    fun _ _ => trivial)
  rintro ⟨startPage, endPage⟩
  apply Comp.Triple.bind (Comp.Triple.steady (fun s => (parseFrameRange_still _ _ _ s).1) (fun _ h => .inl h.1)
    fun _ _ => trivial)
  rintro ⟨physFrom, physTo, frame, endFrame⟩ s ⟨⟨rfl, _⟩, _⟩
  exact locked_from hcur (fun task hfound => mapRange_from hfound _ perms _) s rfl

end MemoryCall

/-- Every handler has its effect. -/
theorem Handler.effect (hcur : k.taskId = some a) (env : Env pg) (h : Handler) :
    From k (h.call env) (Effect env a k h) := by
  have hret : ∀ {β : Type} {m : KernelM pg SyscallError β} (f : β → Reply),
      From k m (Effect env a k h) → From k (m >>= fun b => Comp.ret (f b)) (Effect env a k h) :=
    fun f hm => Comp.Triple.bind hm fun b => Comp.Triple.ret fun _ h => h
  have hown : ∀ {β : Type} {m : KernelM pg SyscallError β}, From k m (Works a k) → From k m (Effect env a k h) :=
    fun hm => Comp.Triple.conseq hm (fun _ h => h) (fun _ _ h => .works h) (fun _ h => .works h) fun _ h => h
  cases h with
  | clone capHandle => exact hret _ (hown (CapCall.clone_from hcur env capHandle))
  | inspect what index => exact hret _ (hown (CapCall.inspect_from hcur what index))
  | restrict handle x y => exact hret _ (hown (CapCall.restrict_from hcur handle x y))
  | cdrop handle => exact hret _ (hown (CapCall.cdrop_from hcur handle))
  | processShareTransfer proc capHandle transfer =>
    exact hret _ (CapCall.processShareTransfer_from hcur env proc capHandle transfer)
  | spawn => exact hret _ (ProcCall.spawn_from hcur env)
  | exec procId fd => exact hret _ (ProcCall.exec_from hcur env procId fd)
  | openPath pathPtr pathLen mode => exact hret _ (hown (FileCall.openPath_from hcur env pathPtr pathLen mode))
  | seek fd index => exact hret _ (hown (FileCall.seek_from hcur fd index))
  | read fd pos length => exact hret _ (hown (FileCall.read_from hcur env fd pos length))
  | close fd => exact hret _ (hown (FileCall.close_from hcur fd))
  | mapVirt pos len perms => exact hret _ (hown (MemoryCall.mapVirt_from hcur env pos len perms))
  | mapPhys virtAt virtLen perms physAt =>
    exact hret _ (hown (MemoryCall.mapPhys_from hcur env virtAt virtLen perms physAt))

/-- What the state is after a call that did not panic. -/
theorem Handler.effect_state (hcur : k.taskId = some a) (env : Env pg) (h : Handler)
    (ho : (h.call env k).outcome ≠ .panic) : Effect env a k h (h.call env k).state := by
  have heffect := h.effect hcur env k rfl
  cases hout : (h.call env k).outcome with
  | ok r => simpa only [hout] using heffect
  | err e => simpa only [hout] using heffect
  | panic => exact absurd hout ho

end Handlers

end Idkernel
