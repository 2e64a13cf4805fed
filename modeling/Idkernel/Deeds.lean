import Idkernel.Attenuation
import Idkernel.Descriptors
import Idkernel.FrameLeaks
import Idkernel.PhysAuthority

/-!
# What a call has done

One relation between the state in which a call was made and the state that it
left, with every part of a context that may have changed. Runs of the whole
machine are followed through it, so that no handler has to be opened again.
-/
namespace Idkernel

open Address Traced Locks

variable {pg : Paging} {α : Type}

/-! ## Parts of a context -/

/-- What is in the later storage descends from what was in the earlier one. -/
def TaskCapabilityStorage.Lessens (caps caps' : TaskCapabilityStorage) : Prop :=
  ∀ x ∈ caps'.handles, ∃ y ∈ caps.handles, x.2.Descends y.2

def Kernel.holding {a : TaskId} (k : Kernel pg) (task : TaskContext pg a) (caps : TaskCapabilityStorage) :
    Kernel pg :=
  { k with tasks := k.tasks.insert a { task with capabilities := caps } }

def TaskContext.entering {id : TaskId} (task : TaskContext pg id) (entry : VirtAddr) : TaskContext pg id :=
  { task with userEntryPoint := entry }

/-- A path from the root leads to what the handle reads. -/
def Offers (k : Kernel pg) (root : TaskId) (handle : FileHandle) : Prop :=
  ∃ path node, (openPathFull (.procRoot root) path k).outcome = .ok node ∧
    (PathHandle.read node k).outcome = .ok handle

/-- What a call makes of its caller's table of open files. -/
inductive Refiles (env : Env pg) (k : Kernel pg) : Handler → TaskFileStorage → TaskFileStorage → Prop where
  | opened {pathPtr pathLen mode : Nat} {files : TaskFileStorage} {handle : FileHandle} {next : FileDescriptor}
      (offered : Offers k files.root handle)
      (counted : (env.arith.add files.nextDescriptor.raw 1).bind FileDescriptor.new = some next) :
      Refiles env k (.openPath pathPtr pathLen mode) files
        ⟨files.root, files.handles ++ [(files.nextDescriptor, handle)], next⟩
  | sought {fd index : Nat} {files : TaskFileStorage} {handle handle' : FileHandle}
      {put : FileHandle → TaskFileStorage} (found : ProcCall.findHandle files fd = some (handle, put))
      (moved : handle.seek index = .ok handle') : Refiles env k (.seek fd index) files (put handle')
  | read {fd pos length : Nat} {files : TaskFileStorage} {handle handle' : FileHandle} {bytes : List UInt8}
      {put : FileHandle → TaskFileStorage} (found : ProcCall.findHandle files fd = some (handle, put))
      (got : handle.read env.arith length = some (bytes, handle')) :
      Refiles env k (.read fd pos length) files (put handle')
  | closed {fd index : Nat} {files : TaskFileStorage}
      (found : (files.handles.findIdx? fun x => decide (x.1.raw = fd)) = some index) :
      Refiles env k (.close fd) files { files with handles := files.handles.eraseIdx index }
  | loaded {procId fd : Nat} {files : TaskFileStorage} {handle handle' : FileHandle}
      {put : FileHandle → TaskFileStorage} {r : Except SyscallError (List UInt8)}
      (found : ProcCall.findHandle files fd = some (handle, put))
      (got : env.readFileToMemory handle = some (r, handle')) :
      Refiles env k (.exec procId fd) files (put handle')

/-- One of the capabilities covers every frame of the mappings. -/
def TaskCapabilityStorage.Authorises (caps : TaskCapabilityStorage) (xs : List (Page × PhysFrame)) : Prop :=
  ∃ x ∈ caps.handles, ∃ f t, x.2.ctype = .mapPhysical f t ∧
    ∀ y ∈ xs, f.raw ≤ y.2.start.raw ∧ y.2.start.raw + 4095 ≤ t.raw

/-! ## The relation -/

/-- What a call by `a` has done when it comes back, with an answer or with an error. -/
inductive Deed (env : Env pg) (a : TaskId) (k : Kernel pg) : Handler → Kernel pg → Prop where
  | nothing {h : Handler} : Deed env a k h k
  | lessened {h : Handler} {task : TaskContext pg a} {caps : TaskCapabilityStorage}
      (found : k.tasks.lookup a = some task) (less : task.capabilities.Lessens caps) :
      Deed env a k h (k.holding task caps)
  | given {b : TaskId} {handle : CapabilityHandle} {transfer : Bool} {cap : Capability} {k₁ : Kernel pg}
      {target : TaskContext pg b} {caps : TaskCapabilityStorage}
      (parted : k₁ = k ∨ ∃ (task : TaskContext pg a) (caps₁ : TaskCapabilityStorage),
        k.tasks.lookup a = some task ∧ task.capabilities.Lessens caps₁ ∧ k₁ = k.holding task caps₁)
      (held : ∃ x ∈ k.heldBy a, x.2 = cap) (other : b ≠ a) (found : k₁.tasks.lookup b = some target)
      (parent : target.parent = some a)
      (more : ∀ x ∈ caps.handles, x ∈ target.capabilities.handles ∨ x.2 = cap) :
      Deed env a k (.processShareTransfer b.raw handle transfer) (k₁.holding target caps)
  | filed {h : Handler} {task : TaskContext pg a} {files : TaskFileStorage}
      (found : k.tasks.lookup a = some task) (change : Refiles env k h task.files files) :
      Deed env a k h (k.withFiles task files)
  | spawned {id : TaskId} {task : TaskContext pg a} {table : pg.Table} {frames : pg.Frames}
      (found : k.tasks.lookup a = some task) (fresh : k.tasks.lookup id = none) (pid : id.raw = k.nextPid)
      (room : k.nextPid ≠ 2 ^ 64 - 1) (made : env.newTable k.frames = some (table, frames)) :
      Deed env a k .spawn ((k.created id frames).adopt (TaskContext.fresh a id table) task)
  | loaded {b : TaskId} {fd : Nat} {task : TaskContext pg a} {files : TaskFileStorage} {target : TaskContext pg b}
      {elf : Elf} {entry : VirtAddr} {queue : List TaskId} (foundCaller : k.tasks.lookup a = some task)
      (change : Refiles env k (.exec b.raw fd) task.files files)
      (found : (k.withFiles task files).tasks.lookup b = some target) (parent : target.parent = some a) :
      Deed env a k (.exec b.raw fd)
        { (k.withFiles task files).withSpace (target.entering entry)
            (elf.mountInto env.arith ((k.withFiles task files).space target) :
              Ran _ KEvent SyscallError Unit).state with
          executableTasks := queue }
  | mappedVirt {pos len perms : Nat} {task : TaskContext pg a} {p q : Page} {flags : PageTableFlags}
      (admitted : Admitted env pos len perms k a task p q flags) :
      Deed env a k (.mapVirt pos len perms)
        (k.withSpace task (mapLoop env p q flags (k.space task)).state)
  | mappedPhys {virtAt virtLen perms physAt : Nat} {task : TaskContext pg a} {xs : List (Page × PhysFrame)}
      {flags : PageTableFlags} (found : k.tasks.lookup a = some task) (covered : task.capabilities.Authorises xs) :
      Deed env a k (.mapPhys virtAt virtLen perms physAt)
        (k.withSpace task (Comp.forEach xs (mapPhysPage flags) (k.space task)).state)

/-! ## The handlers, one by one -/

section Handlers

variable {a : TaskId} {k : Kernel pg}

theorem lessens_refl (caps : TaskCapabilityStorage) : caps.Lessens caps :=
  fun x hx => ⟨x, hx, x.2.descends_refl⟩

/-- An insertion stores a copy of what was there already. -/
theorem insert_lessens {ar : Arith} {reserve : Bool} {handle : CapabilityHandle} {cap : Capability}
    {self caps : TaskCapabilityStorage} {r : Except SyscallError CapabilityHandle}
    (hget : self.get handle = some cap) (h : self.insert ar reserve cap = some (r, caps)) : self.Lessens caps := by
  intro x hx
  rcases mem_insert (G := fun c => c = cap) h rfl x hx with hx | hcap
  · exact ⟨x, hx, x.2.descends_refl⟩
  · exact ⟨_, TaskCapabilityStorage.mem_of_get hget, hcap ▸ x.2.descends_refl⟩

theorem delete_lessens {handle : CapabilityHandle} {self caps : TaskCapabilityStorage}
    {r : Except SyscallError Capability} (h : self.delete handle = (r, caps)) : self.Lessens caps :=
  fun x hx => ⟨x, mem_delete h x hx, x.2.descends_refl⟩

/-- A narrower range in the place of the old one. -/
theorem narrow_lessens {handle : CapabilityHandle} {p : CapabilityPerms} {f t f' t' : PhysAddr}
    {self caps : TaskCapabilityStorage} {before after : List (CapabilityHandle × Capability)}
    (hs : self.handles = before ++ (handle, ⟨p, .mapPhysical f t⟩) :: after)
    (hc : caps.handles = before ++ (handle, ⟨p, .mapPhysical f' t'⟩) :: after) (hf : f ≤ f') (ht : t' ≤ t)
    (hft : f' ≤ t') : self.Lessens caps := by
  intro x hx
  rw [hc, List.mem_append, List.mem_cons] at hx
  rcases hx with hx | rfl | hx
  · exact ⟨x, by rw [hs]; exact List.mem_append_left _ hx, x.2.descends_refl⟩
  · exact ⟨_, by rw [hs]; exact List.mem_append_right _ (List.mem_cons_self ..), Capability.descends_narrow p hf ht hft⟩
  · exact ⟨x, by rw [hs]; exact List.mem_append_right _ (List.mem_cons_of_mem _ hx), x.2.descends_refl⟩

namespace CapCall

theorem clone_deed (hcur : k.taskId = some a) (env : Env pg) (capHandle : CapabilityHandle) :
    From k (clone env capHandle) (Deed env a k (.clone capHandle)) := by
  apply locked_from hcur
  intro task hfound
  apply Comp.Triple.bind (Comp.Triple.okOr fun _ h => h ▸ .nothing)
  intro cap
  apply Comp.Triple.bind (Comp.Triple.require fun _ h _ => h.1 ▸ .nothing)
  intro _
  apply Comp.Triple.bind (Comp.Triple.unwrap fun _ _ => trivial)
  intro rc
  apply Comp.Triple.bind (Comp.Triple.write ?_) fun _ => ofExcept_keeps rc.1
  intro s ⟨⟨⟨hs, hget⟩, _⟩, hins⟩
  subst hs
  exact .lessened hfound (insert_lessens hget hins)

theorem inspect_deed (a : TaskId) (k : Kernel pg) (env : Env pg) (what index : Nat) :
    From k (inspect what index : KernelM pg _ _) (Deed env a k (.inspect what index)) := by
  have hkeep := inspect_keeps (I := fun s : Kernel pg => s = k) what index
  exact Comp.Triple.conseq hkeep (fun _ h => h) (fun _ _ h => h ▸ .nothing) (fun _ h => h ▸ .nothing) fun _ h => h

theorem restrict_deed (hcur : k.taskId = some a) (env : Env pg) (handle : CapabilityHandle) (x y : Nat) :
    From k (restrict handle x y : KernelM pg _ _) (Deed env a k (.restrict handle x y)) := by
  apply locked_from hcur
  intro task hfound
  apply Comp.Triple.bind (Comp.Triple.okOr fun _ h => h ▸ .nothing)
  intro ⟨⟨perms, ctype⟩, put⟩
  cases ctype with
  | mapPhysical start stop =>
    apply Comp.Triple.bind (Comp.Triple.require fun _ h _ => h.1 ▸ .nothing)
    intro _
    apply Comp.Triple.bind (Comp.Triple.okOr fun _ h => h.1.1 ▸ .nothing)
    intro nstart
    apply Comp.Triple.bind (Comp.Triple.okOr fun _ h => h.1.1.1 ▸ .nothing)
    intro nstop
    apply Comp.Triple.bind (Comp.Triple.require fun _ h _ => h.1.1.1.1 ▸ .nothing)
    intro _
    apply Comp.Triple.write
    intro s ⟨⟨⟨⟨⟨hs, hget⟩, hle⟩, hx⟩, hy⟩, hstart, hstop⟩
    subst hs
    obtain ⟨before, after, hs, hput⟩ := TaskCapabilityStorage.getMut_cases hget
    have hle' : nstart ≤ nstop := by
      have hnx := PhysAddr.new_cases hx
      have hny := PhysAddr.new_cases hy
      rw [PhysAddr.le_def]
      omega
    exact .lessened hfound (narrow_lessens hs (hput _) hstart hstop hle')
  | mapVirtualToRam => exact Comp.Triple.fail fun _ h => h.1 ▸ .nothing
  | processSpawn => exact Comp.Triple.fail fun _ h => h.1 ▸ .nothing
  | channelCreate => exact Comp.Triple.fail fun _ h => h.1 ▸ .nothing

theorem cdrop_deed (hcur : k.taskId = some a) (env : Env pg) (handle : CapabilityHandle) :
    From k (cdrop handle : KernelM pg _ _) (Deed env a k (.cdrop handle)) := by
  apply locked_from hcur
  intro task hfound
  cases hd : task.capabilities.delete handle with
  | mk r caps =>
    apply Comp.Triple.bind (Comp.Triple.write ?_) fun _ =>
      Comp.Triple.bind (ofExcept_keeps r) fun _ => Comp.Triple.ret fun _ h => h
    intro s hs
    subst hs
    exact .lessened hfound (delete_lessens hd)

theorem takeTransferred_deed (hcur : k.taskId = some a) (env : Env pg) {h : Handler}
    (capHandle : CapabilityHandle) :
    Comp.Triple (fun s => s = k) (takeTransferred capHandle : KernelM pg _ _)
      (fun cap s => s.taskId = some a ∧ (∃ x ∈ k.heldBy a, x.2 = cap) ∧
        ∃ (task : TaskContext pg a) (caps : TaskCapabilityStorage), k.tasks.lookup a = some task ∧
          task.capabilities.Lessens caps ∧ s = k.holding task caps)
      (Deed env a k h) fun _ => True := by
  apply locked_from hcur
  intro task hfound s hs
  subst hs
  cases hd : task.capabilities.delete capHandle with
  | mk r caps =>
    rcases TaskCapabilityStorage.delete_cases hd with ⟨_, rfl, _⟩ | ⟨cap, _, _, hget, rfl, _⟩
    · exact .lessened hfound (delete_lessens hd)
    · refine ⟨hcur, ⟨(capHandle, cap), ?_, rfl⟩, task, caps, hfound, delete_lessens hd, rfl⟩
      rw [heldBy_found hfound]
      exact TaskCapabilityStorage.mem_of_get hget

theorem copyShared_deed (hcur : k.taskId = some a) (env : Env pg) {h : Handler} (capHandle : CapabilityHandle) :
    Comp.Triple (fun s => s = k) (copyShared capHandle : KernelM pg _ _)
      (fun cap s => s.taskId = some a ∧ (∃ x ∈ k.heldBy a, x.2 = cap) ∧ s = k) (Deed env a k h)
      fun _ => True := by
  apply locked_from hcur
  intro task hfound
  apply Comp.Triple.bind (Comp.Triple.okOr fun _ h => h ▸ .nothing)
  intro cap
  apply Comp.Triple.bind (Comp.Triple.require fun _ h _ => h.1 ▸ .nothing)
  intro _
  apply Comp.Triple.ret
  intro s ⟨⟨hs, hget⟩, _⟩
  subst hs
  refine ⟨hcur, ⟨(capHandle, cap), ?_, rfl⟩, rfl⟩
  rw [heldBy_found hfound]
  exact TaskCapabilityStorage.mem_of_get hget

/-- The caller's part of a share or a transfer, by itself. -/
theorem parted_deed {env : Env pg} {h : Handler} {k₁ : Kernel pg}
    (hk : k₁ = k ∨ ∃ (task : TaskContext pg a) (caps₁ : TaskCapabilityStorage),
      k.tasks.lookup a = some task ∧ task.capabilities.Lessens caps₁ ∧ k₁ = k.holding task caps₁) :
    Deed env a k h k₁ := by
  rcases hk with rfl | ⟨task, caps, hfound, hless, rfl⟩
  · exact .nothing
  · exact .lessened hfound hless

theorem giveTo_deed {b : TaskId} (hother : b ≠ a) (env : Env pg) (capHandle : CapabilityHandle) {cap : Capability}
    (transfer : Bool) (hheld : ∃ x ∈ k.heldBy a, x.2 = cap) {k₁ : Kernel pg} (hcur : k₁.taskId = some a)
    (hparted : k₁ = k ∨ ∃ (task : TaskContext pg a) (caps₁ : TaskCapabilityStorage),
      k.tasks.lookup a = some task ∧ task.capabilities.Lessens caps₁ ∧ k₁ = k.holding task caps₁) :
    Comp.Triple (fun s => s = k₁) (giveTo env b cap)
      (fun _ => Deed env a k (.processShareTransfer b.raw capHandle transfer))
      (Deed env a k (.processShareTransfer b.raw capHandle transfer)) fun _ => True := by
  have hfail : ∀ s, s = k₁ → Deed env a k (.processShareTransfer b.raw capHandle transfer) s :=
    fun s hs => hs ▸ parted_deed hparted
  unfold giveTo
  apply Comp.Triple.bind (knownProcess_keeps hfail b)
  intro _
  apply Triple.withGuard
  apply Comp.Triple.bind (getTask_keeps b)
  intro target
  apply Comp.Triple.bind currentTaskId_keeps
  intro cur
  apply Comp.Triple.bind (Comp.Triple.require fun s h _ => hfail s h.1.1)
  intro _
  apply Comp.Triple.bind (Comp.Triple.unwrap fun _ _ => trivial)
  intro rc
  apply Comp.Triple.bind (Comp.Triple.write ?_) fun _ =>
    Comp.Triple.bind (ofExcept_keeps rc.1) fun _ => Comp.Triple.ret fun _ h => h
  intro s ⟨⟨⟨⟨hs, hfound⟩, hcur'⟩, hparent⟩, hins⟩
  subst hs
  obtain rfl : a = cur := Option.some.inj (hcur.symm.trans hcur')
  exact .given hparted hheld hother hfound hparent (mem_insert (G := fun c => c = cap) hins rfl)

theorem processShareTransfer_deed (hcur : k.taskId = some a) (env : Env pg) (proc : Nat)
    (capHandle : CapabilityHandle) (transfer : Bool) :
    From k (processShareTransfer env proc capHandle transfer)
      (Deed env a k (.processShareTransfer proc capHandle transfer)) := by
  unfold processShareTransfer
  apply Comp.Triple.bind (Comp.Triple.okOr fun _ h => h ▸ .nothing)
  intro b
  apply Comp.Triple.bind currentTaskId_keeps
  intro cur
  apply Comp.Triple.bind (Comp.Triple.require fun _ h _ => h.1.1 ▸ .nothing)
  intro _ s ⟨⟨⟨hs, hnew⟩, hcur'⟩, hother⟩
  subst hs
  obtain rfl : a = cur := Option.some.inj (hcur.symm.trans hcur')
  obtain rfl : b.raw = proc := TaskId.raw_of_new hnew
  cases transfer with
  | true =>
    refine Comp.Triple.bind (takeTransferred_deed hcur env capHandle) (fun cap => ?_) s rfl
    intro t ⟨ht, hheld, hparted⟩
    exact giveTo_deed hother env capHandle true hheld ht (.inr hparted) t rfl
  | false =>
    refine Comp.Triple.bind (copyShared_deed hcur env capHandle) (fun cap => ?_) s rfl
    intro t ⟨ht, hheld, hsame⟩
    exact giveTo_deed hother env capHandle false hheld ht (.inl hsame) t rfl

end CapCall

namespace ProcCall

theorem spawn_deed (hcur : k.taskId = some a) (env : Env pg) : From k (spawn env) (Deed env a k .spawn) := by
  apply locked_from hcur
  intro task hfound
  apply Comp.Triple.bind (Comp.Triple.require fun _ h _ => h ▸ .nothing)
  intro _
  apply Comp.Triple.bind currentTaskId_keeps
  intro cur s ⟨⟨hs, _⟩, hcur'⟩
  subst hs
  obtain rfl : a = cur := Option.some.inj (hcur.symm.trans hcur')
  by_cases hcan : TaskContext.CanCreate env s
  · obtain ⟨made, hmade⟩ := Option.isSome_iff_exists.mp hcan.2.2
    obtain ⟨table, frames⟩ := made
    let id : TaskId := ⟨s.nextPid, hcan.2.1⟩
    have hrun : (TaskContext.create env a s : Ran _ _ SyscallError _) = _ :=
      TaskContext.create_run (Eq.refl id.raw) hcan.1 hmade
    rw [Comp.bind_run, hrun]
    simp only [after_outcome, after_state]
    by_cases hnew : s.tasks.lookup id = none
    · have hadd : (TaskRegistry.add (TaskContext.fresh a id table) (s.created id frames) :
          Ran _ _ SyscallError Unit) = _ := TaskRegistry.add_run rfl hnew hfound
      rw [Comp.bind_run, withGuard_ok _ hadd]
      exact .spawned hfound hnew rfl hcan.1 hmade
    · have hadd : (TaskRegistry.add (TaskContext.fresh a id table) (s.created id frames) :
          Ran _ _ SyscallError Unit).outcome = .panic := TaskRegistry.add_panic hnew
      rw [Comp.bind_outcome, withGuard_outcome, hadd]
      trivial
  · rw [Comp.bind_outcome, TaskContext.create_panic hcan]
    trivial

/-- What loading an image leaves, whether it comes to the entry point or not. -/
theorem loadElf_runs {ε : Type} {b : TaskId} {k₁ : Kernel pg} {target : TaskContext pg b}
    (hfound : k₁.tasks.lookup b = some target) (env : Env pg) (elf : Elf) {Q : Kernel pg → Prop}
    (hQ : ∀ entry, Q (k₁.withSpace (target.entering entry)
      (elf.mountInto env.arith (k₁.space target) : Ran _ KEvent ε Unit).state)) :
    Comp.Triple (fun s => s = k₁) (TaskContext.loadElf env b elf : KernelM pg ε Unit) (fun _ => Q) Q
      fun _ => True := by
  let v := (elf.mountInto env.arith (k₁.space target) : Ran _ KEvent ε Unit).state
  have hloaded : Comp.Triple (fun s => s = k₁) (inTable target (elf.mountInto env.arith) : KernelM pg ε Unit)
      (fun _ s => s = k₁.withSpace target v) (fun s => s = k₁.withSpace target v)
      fun s => s = k₁.withSpace target v := by
    apply Comp.Triple.ofState
    intro s hs
    subst hs
    rfl
  unfold TaskContext.loadElf
  apply Comp.Triple.bind (getTask_keeps b)
  intro task s ⟨hs, hfound'⟩
  subst hs
  obtain rfl : target = task := Option.some.inj (hfound.symm.trans hfound')
  refine Comp.Triple.bind (Comp.Triple.conseq hloaded (fun _ h => h) (fun _ _ h => h)
    (fun _ h => h ▸ hQ target.userEntryPoint) fun _ _ => trivial) (fun _ => ?_) s rfl
  apply Comp.Triple.bind (Comp.Triple.unwrap fun _ _ => trivial)
  intro entry
  apply Comp.Triple.bind (getTask_keeps b)
  intro task
  apply Comp.Triple.write
  intro t ⟨⟨ht, _⟩, htask⟩
  subst ht
  have hmounted := Option.some.inj ((Finmap.lookup_insert _).symm.trans htask)
  have hinsert : (s.tasks.insert b { target with pageTable := v.table }).insert b
        { task with userEntryPoint := entry } =
      s.tasks.insert b { target.entering entry with pageTable := v.table } := by
    rw [Finmap.insert_insert, ← hmounted]
    rfl
  have hstate := hQ entry
  unfold Kernel.withSpace at hstate ⊢
  rw [hinsert]
  exact hstate

theorem execChild_deed (hcur : k.taskId = some a) (env : Env pg) (b : TaskId) (fd : Nat) :
    From k (execChild env b fd) (Deed env a k (.exec b.raw fd)) := by
  unfold execChild
  apply Comp.Triple.bind (getTask_keeps b)
  intro target
  apply Comp.Triple.bind currentTaskId_keeps
  intro cur
  apply Comp.Triple.bind (Comp.Triple.require fun _ h _ => h.1.1 ▸ .nothing)
  intro _
  apply Comp.Triple.bind (Comp.Triple.require fun _ h _ => h.1.1.1 ▸ .nothing)
  intro _ s ⟨⟨⟨⟨hs, hfound⟩, hcur'⟩, hparent⟩, _⟩
  subst hs
  obtain rfl : a = cur := Option.some.inj (hcur.symm.trans hcur')
  refine locked_from hcur (fun task htask => ?_) s rfl
  apply Comp.Triple.bind (Comp.Triple.okOr fun _ h => h ▸ .nothing)
  intro ⟨handle, put⟩
  apply Comp.Triple.bind (Comp.Triple.unwrap fun _ _ => trivial)
  intro ⟨r, handle'⟩
  -- the child may be the caller itself, whose files have changed by now
  obtain ⟨target₁, hfound₁, hparent₁⟩ : ∃ target₁ : TaskContext pg b,
      (s.withFiles task (put handle')).tasks.lookup b = some target₁ ∧ target₁.parent = some a := by
    by_cases hb : b = a
    · subst hb
      obtain rfl : task = target := Option.some.inj (htask.symm.trans hfound)
      exact ⟨_, Finmap.lookup_insert _, hparent⟩
    · exact ⟨target, (Finmap.lookup_insert_of_ne _ hb).trans hfound, hparent⟩
  apply Comp.Triple.bind (Q := fun _ t => t = s.withFiles task (put handle') ∧
    Refiles env s (.exec b.raw fd) task.files (put handle'))
  · apply Comp.Triple.write
    intro t ⟨⟨ht, hfind⟩, hread⟩
    subst ht
    exact ⟨rfl, .loaded hfind hread⟩
  intro _
  apply Comp.Triple.bind (Comp.Triple.ofExcept fun _ h => h.1 ▸ .filed htask h.2)
  intro bytes
  apply Comp.Triple.bind (Comp.Triple.mapErr (Comp.Triple.ofExcept fun _ h => h.1.1 ▸ .filed htask h.1.2))
  intro elf t ⟨⟨⟨ht, hchange⟩, _⟩, _⟩
  have hload := loadElf_runs hfound₁ env elf (Q := fun u => ∀ queue,
    Deed env a s (.exec b.raw fd) { u with executableTasks := queue })
    fun entry queue => .loaded htask hchange hfound₁ hparent₁
  refine Comp.Triple.bind (Comp.Triple.conseq hload (fun _ h => h) (fun _ _ h => h)
    (fun u h => h u.executableTasks) fun _ h => h) (fun _ => ?_) t ht
  exact Triple.withGuard (Comp.Triple.write fun u h => h _)

theorem exec_deed (hcur : k.taskId = some a) (env : Env pg) (procId fd : Nat) :
    From k (exec env procId fd) (Deed env a k (.exec procId fd)) := by
  unfold exec
  apply Comp.Triple.bind (Comp.Triple.okOr fun _ h => h ▸ .nothing)
  intro b
  apply Comp.Triple.bind (knownProcess_keeps (fun _ h => h.1 ▸ .nothing) b)
  intro _ s ⟨hs, hnew⟩
  subst hs
  obtain rfl : b.raw = procId := TaskId.raw_of_new hnew
  exact Triple.withGuard (execChild_deed hcur env b fd) s rfl

end ProcCall

/-- A call that changes nothing, with what it has returned. -/
theorem OrSame.returned {m : KernelM pg SyscallError α} (h : OrSame k m fun _ s => s = k) :
    OrSame k m fun x s => s = k ∧ (m k).outcome = .ok x := by
  intro s hs
  subst hs
  have hrun := h s rfl
  cases ho : (m s).outcome with
  | ok x =>
    simp only [ho] at hrun ⊢
    exact ⟨hrun, trivial⟩
  | err e => simpa only [ho] using hrun
  | panic => trivial

namespace FileCall

theorem openPath_deed (hcur : k.taskId = some a) (env : Env pg) (pathPtr pathLen mode : Nat) :
    From k (openPath env pathPtr pathLen mode) (Deed env a k (.openPath pathPtr pathLen mode)) := by
  unfold openPath
  apply Comp.Triple.bind (Comp.Triple.ofExcept fun _ h => h ▸ .nothing)
  intro _
  apply Comp.Triple.bind (Comp.Triple.unwrap fun _ _ => trivial)
  intro stop
  apply Comp.Triple.bind (Comp.Triple.ofExcept fun _ h => h.1.1 ▸ .nothing)
  intro _
  apply Comp.Triple.bind (Comp.Triple.okOr fun _ h => h.1.1.1 ▸ .nothing)
  intro path
  apply Comp.Triple.bind (Comp.Triple.expect fun _ _ _ => trivial)
  intro _ s ⟨⟨⟨⟨⟨hs, _⟩, _⟩, _⟩, _⟩, _⟩
  subst hs
  refine locked_from hcur (fun task hfound => ?_) s rfl
  have hnode := openPathFull_keeps (I := (· = s)) (P := (· = s)) (fun _ h => h) (.procRoot task.files.root) path
  have hopened := OrSame.returned (Comp.Triple.mapErr (f := fun _ => SyscallError.invalidPath) hnode)
  apply Comp.Triple.bind (Comp.Triple.conseq hopened (fun _ h => h) (fun _ _ h => h) (fun _ h => h ▸ .nothing)
    fun _ h => h)
  intro node
  have hread := OrSame.returned (PathHandle.read_keeps (I := (· = s)) (P := (· = s)) node)
  apply Comp.Triple.bind (Q := fun handle t => t = s ∧ Offers s task.files.root handle)
  · intro t ⟨ht, hnode⟩
    have hoffers : Comp.Triple (· = s) (PathHandle.read node) (fun handle u => u = s ∧ Offers s task.files.root handle)
        (Deed env a s (.openPath pathPtr pathLen mode)) fun _ => True :=
      Comp.Triple.conseq hread (fun _ h => h) (fun _ _ h => ⟨h.1, path, node, Comp.mapErr_ok hnode, h.2⟩)
        (fun _ h => h ▸ .nothing) fun _ h => h
    exact hoffers t ht
  intro handle
  apply Comp.Triple.bind (Comp.Triple.unwrap fun _ _ => trivial)
  intro next
  refine Comp.Triple.bind (Q := fun _ => _) (Comp.Triple.write ?_) fun _ => Comp.Triple.ret fun _ h => h
  intro t ⟨⟨ht, hoffered⟩, hnext⟩
  subst ht
  exact .filed hfound (.opened hoffered hnext)

theorem seek_deed (hcur : k.taskId = some a) (env : Env pg) (fd index : Nat) :
    From k (seek fd index : KernelM pg _ _) (Deed env a k (.seek fd index)) := by
  apply locked_from hcur
  intro task hfound
  apply Comp.Triple.bind (Comp.Triple.okOr fun _ h => h ▸ .nothing)
  intro ⟨handle, put⟩
  apply Comp.Triple.bind (Comp.Triple.mapErr (Comp.Triple.ofExcept fun _ h => h.1 ▸ .nothing))
  intro handle'
  apply Comp.Triple.write
  intro s ⟨⟨hs, hfind⟩, hmoved⟩
  subst hs
  exact .filed hfound (.sought hfind hmoved)

theorem read_deed (hcur : k.taskId = some a) (env : Env pg) (fd pos length : Nat) :
    From k (read env fd pos length) (Deed env a k (.read fd pos length)) := by
  unfold read
  apply Comp.Triple.bind (Comp.Triple.ofExcept fun _ h => h ▸ .nothing)
  intro _
  apply Comp.Triple.bind (Comp.Triple.unwrap fun _ _ => trivial)
  intro stop
  apply Comp.Triple.bind (Comp.Triple.ofExcept fun _ h => h.1.1 ▸ .nothing)
  intro _ s ⟨⟨⟨hs, _⟩, _⟩, _⟩
  subst hs
  refine locked_from hcur (fun task hfound => ?_) s rfl
  apply Comp.Triple.bind (Comp.Triple.okOr fun _ h => h ▸ .nothing)
  intro ⟨handle, put⟩
  apply Comp.Triple.bind (Comp.Triple.unwrap fun _ _ => trivial)
  rintro ⟨bytes, handle'⟩
  refine Comp.Triple.bind (Q := fun _ => _) (Comp.Triple.write ?_) fun _ => Comp.Triple.ret fun _ h => h
  intro t ⟨⟨ht, hfind⟩, hgot⟩
  subst ht
  exact .filed hfound (.read hfind hgot)

theorem close_deed (hcur : k.taskId = some a) (env : Env pg) (fd : Nat) :
    From k (close fd : KernelM pg _ _) (Deed env a k (.close fd)) := by
  apply locked_from hcur
  intro task hfound
  apply Comp.Triple.bind (Comp.Triple.okOr fun _ h => h ▸ .nothing)
  intro index
  apply Comp.Triple.write
  intro s ⟨hs, hindex⟩
  subst hs
  exact .filed hfound (.closed hindex)

end FileCall

namespace MemoryCall

theorem mapVirt_deed (hcur : k.taskId = some a) (env : Env pg) (pos len perms : Nat) :
    From k (mapVirt env pos len perms) (Deed env a k (.mapVirt pos len perms)) := by
  have hstate : Deed env a k (.mapVirt pos len perms) (mapVirt env pos len perms k).state := by
    by_cases h : ∃ t task p q flags, Admitted env pos len perms k t task p q flags
    · obtain ⟨t, task, p, q, flags, hadm⟩ := h
      obtain rfl : a = t := Option.some.inj (hcur.symm.trans hadm.current)
      rw [hadm.run.2]
      exact .mappedVirt hadm
    · rw [mapVirt_idle fun t task p q flags hadm => h ⟨t, task, p, q, flags, hadm⟩]
      exact .nothing
  intro s hs
  subst hs
  cases (mapVirt env pos len perms s).outcome with
  | ok _ => exact hstate
  | err _ => exact hstate
  | panic => trivial

/-- The frames of the two zipped ranges are those that were tested. -/
theorem authorises_range {ar : Arith} {len physAt : Nat} {p q : PhysAddr} {f g : PhysFrame} {xs : List Page}
    {caps : TaskCapabilityStorage}
    (hparse : (parseFrameRange ar len physAt k : Ran _ KEvent _ _).outcome = .ok (p, q, f, g))
    (hcap : ∃ x ∈ caps.handles, x.2.ctype.covers p q) : caps.Authorises (xs.zip (PhysFrame.range ar f g)) := by
  obtain ⟨x, hx, hcovers⟩ := hcap
  cases hc : x.2.ctype with
  | mapPhysical lo hi =>
    rw [hc] at hcovers
    obtain ⟨hlo, hhi⟩ := hcovers
    rw [PhysAddr.le_def] at hlo hhi
    refine ⟨x, hx, lo, hi, hc, fun y hy => ?_⟩
    obtain ⟨i, hi⟩ := List.mem_iff_getElem?.mp (List.of_mem_zip hy).2
    obtain ⟨_, hlow, hhigh⟩ := frames_covered hparse hi
    exact ⟨Nat.le_trans hlo hlow, Nat.le_trans hhigh hhi⟩
  | mapVirtualToRam => rw [hc] at hcovers; exact hcovers.elim
  | processSpawn => rw [hc] at hcovers; exact hcovers.elim
  | channelCreate => rw [hc] at hcovers; exact hcovers.elim

theorem mapPhys_deed (hcur : k.taskId = some a) (env : Env pg) (virtAt virtLen perms physAt : Nat) :
    From k (mapPhys env virtAt virtLen perms physAt) (Deed env a k (.mapPhys virtAt virtLen perms physAt)) := by
  unfold mapPhys
  apply Comp.Triple.bind (Comp.Triple.steady (fun s => (parsePageRange_still _ _ _ s).1) (fun _ h => h ▸ .nothing)
    fun _ _ => trivial)
  intro ⟨p, q⟩
  apply Comp.Triple.bind (Comp.Triple.steady (fun s => (parseFrameRange_still _ _ _ s).1)
    (fun _ h => h.1 ▸ .nothing) fun _ _ => trivial)
  intro ⟨physFrom, physTo, f, g⟩ s ⟨⟨hs, _⟩, hparse⟩
  subst hs
  refine locked_from hcur (fun task hfound => ?_) s rfl
  apply Comp.Triple.bind (Comp.Triple.require fun _ h _ => h ▸ .nothing)
  intro _
  apply Comp.Triple.bind (Comp.Triple.ofExcept fun _ h => h.1 ▸ .nothing)
  intro flags
  apply Triple.withGuard
  refine Comp.Triple.conseq (Comp.Triple.ofState (I := Deed env a s (.mapPhys virtAt virtLen perms physAt)) ?_)
    (fun _ h => h) (fun _ _ h => h) (fun _ h => h) fun _ _ => trivial
  intro t ⟨⟨ht, hcap⟩, _⟩
  subst ht
  exact .mappedPhys hfound (authorises_range hparse hcap)

end MemoryCall

/-- Every handler does one of these deeds. -/
theorem Handler.deed (hcur : k.taskId = some a) (env : Env pg) (h : Handler) :
    From k (h.call env) (Deed env a k h) := by
  have hret : ∀ {β : Type} {m : KernelM pg SyscallError β} (f : β → Reply),
      From k m (Deed env a k h) → From k (m >>= fun b => Comp.ret (f b)) (Deed env a k h) :=
    fun f hm => Comp.Triple.bind hm fun b => Comp.Triple.ret fun _ h => h
  cases h with
  | clone capHandle => exact hret _ (CapCall.clone_deed hcur env capHandle)
  | inspect what index => exact hret _ (CapCall.inspect_deed a k env what index)
  | restrict handle x y => exact hret _ (CapCall.restrict_deed hcur env handle x y)
  | cdrop handle => exact hret _ (CapCall.cdrop_deed hcur env handle)
  | processShareTransfer proc capHandle transfer =>
    exact hret _ (CapCall.processShareTransfer_deed hcur env proc capHandle transfer)
  | spawn => exact hret _ (ProcCall.spawn_deed hcur env)
  | exec procId fd => exact hret _ (ProcCall.exec_deed hcur env procId fd)
  | openPath pathPtr pathLen mode => exact hret _ (FileCall.openPath_deed hcur env pathPtr pathLen mode)
  | seek fd index => exact hret _ (FileCall.seek_deed hcur env fd index)
  | read fd pos length => exact hret _ (FileCall.read_deed hcur env fd pos length)
  | close fd => exact hret _ (FileCall.close_deed hcur env fd)
  | mapVirt pos len perms => exact hret _ (MemoryCall.mapVirt_deed hcur env pos len perms)
  | mapPhys virtAt virtLen perms physAt =>
    exact hret _ (MemoryCall.mapPhys_deed hcur env virtAt virtLen perms physAt)

/-- What a call that did not panic has done. -/
theorem Handler.deed_state (hcur : k.taskId = some a) (env : Env pg) (h : Handler)
    (ho : (h.call env k).outcome ≠ .panic) : Deed env a k h (h.call env k).state := by
  have hdeed := h.deed hcur env k rfl
  cases hout : (h.call env k).outcome with
  | ok r => simpa only [hout] using hdeed
  | err e => simpa only [hout] using hdeed
  | panic => exact absurd hout ho

/-- Without a running task there is no deed. -/
theorem Handler.nobody (hcur : k.taskId = none) (env : Env pg) (h : Handler)
    (ho : (h.call env k).outcome ≠ .panic) : (h.call env k).state = k := by
  have hkept : Kept (fun _ => True) fun s => s = k := by
    refine ⟨fun s s' hs hc => ?_, fun _ _ _ _ _ _ _ => trivial, fun _ _ _ _ _ _ _ _ _ => trivial⟩
    subst hs
    cases hc with
    | update current => exact absurd (hcur.symm.trans current) nofun
    | spawned current => exact absurd (hcur.symm.trans current) nofun
  refine Keeps.state (Handler.keeps hkept env h (fun _ h => h) ?_) rfl ho
  intro _ _ id s _ _ ⟨hs, cur, _, hsome, _⟩
  subst hs
  exact absurd (hcur.symm.trans hsome) nofun

end Handlers

/-! ## One step of the machine -/

/-- What a step of the machine has done. -/
inductive Turn (k : Kernel pg) : Label pg → Kernel pg → Prop where
  | nothing {l : Label pg} : Turn k l k
  | called {env : Env pg} {regs : AllSavedRegisters} {a : TaskId} {h : Handler} {k' : Kernel pg}
      (current : k.taskId = some a) (service : regs.service = .handler h) (deed : Deed env a k h k') :
      Turn k (.syscall env regs) k'
  | switched {l : Label pg} {a : TaskId} {task : TaskContext pg a} {k' : Kernel pg}
      (current : k.taskId = some a) (found : k.tasks.lookup a = some task)
      (left : k' = k.popped task ∨ k' = k.switched task ∨ task.state = .dying ∧ k' = k.buried task) : Turn k l k'
  | departed {env : Env pg} {regs : AllSavedRegisters} {a : TaskId} {task : TaskContext pg a} {k' : Kernel pg}
      (current : k.taskId = some a) (found : k.tasks.lookup a = some task)
      (left : k' = (k.marked task).popped task.dying ∨ k' = (k.marked task).buried task.dying) :
      Turn k (.syscall env regs) k'
  | mounted {env : Env pg} {initDir : InitDir} {task : TaskContext pg initprocId} {elf : Elf} {entry : VirtAddr}
      (current : k.taskId = some initprocId) (found : k.tasks.lookup initprocId = some task) :
      Turn k (.startInitproc env initDir) (k.withSpace (task.entering entry)
        (elf.mountInto env.arith (k.space task) : Ran _ KEvent Empty Unit).state)

section Steps

variable {k k' : Kernel pg}

theorem switch_turn {ε : Type} {l : Label pg} (h : (switchToNextTask k : Ran _ _ ε Bool).outcome ≠ .panic) :
    Turn k l (switchToNextTask k : Ran _ _ ε Bool).state := by
  obtain ⟨a, task, hcur, hfound, ⟨_, hs⟩ | ⟨_, _, ⟨_, hs⟩ | ⟨hdying, hs⟩⟩⟩ := switch_cases h
  · exact .switched hcur hfound (.inl hs)
  · exact .switched hcur hfound (.inr (.inl hs))
  · exact .switched hcur hfound (.inr (.inr ⟨hdying, hs⟩))

theorem departure_turn {ε : Type} {env : Env pg} {regs : AllSavedRegisters} {a : TaskId} {task : TaskContext pg a}
    (hcur : k.taskId = some a) (hfound : k.tasks.lookup a = some task)
    (h : (switchToNextTask (k.marked task) : Ran _ _ ε Bool).outcome ≠ .panic) :
    Turn k (.syscall env regs) (switchToNextTask (k.marked task) : Ran _ _ ε Bool).state := by
  obtain ⟨b, dead, hcur', hfound', hleft⟩ := switch_cases h
  obtain rfl : a = b := Option.some.inj (hcur.symm.trans hcur')
  obtain rfl : task.dying = dead := Option.some.inj ((Finmap.lookup_insert _).symm.trans hfound')
  rcases hleft with ⟨_, hs⟩ | ⟨_, _, ⟨halive, _⟩ | ⟨_, hs⟩⟩
  · exact .departed hcur hfound (.inl hs)
  · exact absurd rfl halive
  · exact .departed hcur hfound (.inr hs)

theorem startInitproc_turn (hcur : k.taskId = some initprocId) (env : Env pg) (initDir : InitDir)
    (h : (startInitproc env initDir k : Ran _ _ Empty VirtAddr).outcome ≠ .panic) :
    Turn k (.startInitproc env initDir) (startInitproc env initDir k : Ran _ _ Empty VirtAddr).state := by
  have hturn : Keeps (Turn k (.startInitproc env initDir)) (fun s => s = k)
      (startInitproc env initDir : KernelM pg Empty VirtAddr) fun _ => Turn k (.startInitproc env initDir) := by
    unfold startInitproc
    apply Comp.Triple.bind (Comp.Triple.unwrap fun _ _ => trivial)
    intro entry
    cases entry with
    | folder _ => exact Comp.Triple.abort fun _ _ => trivial
    | file bytes =>
      apply Comp.Triple.bind (Comp.Triple.unwrap fun _ _ => trivial)
      intro elf
      apply Comp.Triple.bind currentTask_keeps
      intro c s ⟨⟨⟨hs, _⟩, _⟩, hc⟩
      subst hs
      obtain rfl : initprocId = c := Option.some.inj (hcur.symm.trans hc)
      cases hfound : s.tasks.lookup initprocId with
      | none =>
        have hnone : (TaskContext.loadElf env initprocId elf s : Ran _ _ Empty Unit).outcome = .panic := by
          rw [TaskContext.loadElf, getTask_missing hfound]
        rw [withGuard_outcome, Comp.bind_panic hnone]
        trivial
      | some task =>
        refine Triple.withGuard (Comp.Triple.bind (ProcCall.loadElf_runs hfound env elf (Q := Turn s _)
          fun entry => .mounted hcur hfound) fun _ => ?_) s rfl
        apply Comp.Triple.bind (getTask_keeps initprocId)
        intro ctx
        exact Comp.Triple.ret fun _ h => h.1
  have hrun := hturn k rfl
  cases ho : (startInitproc env initDir k : Ran _ _ Empty VirtAddr).outcome with
  | ok r => simpa only [ho] using hrun
  | err e => exact e.elim
  | panic => exact absurd ho h

/-- Every step of the machine is one of these turns. -/
theorem kernelStep_turn {l : Label pg} (h : kernelStep k l = some k') : Turn k l k' := by
  unfold kernelStep at h
  cases l with
  | idle =>
    dsimp only at h
    split at h
    · obtain ⟨b, ho, rfl⟩ := settle_cases h
      exact switch_turn (by rw [ho]; simp)
    · cases h
  | startInitproc env initDir =>
    dsimp only at h
    split at h
    · rename_i hcur
      obtain ⟨b, ho, rfl⟩ := settle_cases h
      exact startInitproc_turn hcur env initDir (by rw [ho]; simp)
    · cases h
  | jmpUserspace =>
    dsimp only at h
    split at h
    · cases h
    · obtain ⟨b, ho, rfl⟩ := settle_cases h
      have hsame := Keeps.state (I := fun s => s = k) (k := k) jmpUserspace_keeps rfl (by rw [ho]; simp)
      rw [hsame]
      exact .nothing
  | syscall env regs =>
    dsimp only at h
    split at h
    · cases h
    · obtain ⟨ho, rfl⟩ := onSymcall1_cases h
      rcases service_cases ho with ⟨_, hs⟩ | ⟨hd, hv, ho, hs⟩ | ⟨_, ho, hs⟩ | ⟨_, a, task, hcur, hfound, ho, hs⟩
      · rw [hs]
        exact .nothing
      · rw [hs]
        cases hcur : k.taskId with
        | none =>
          rw [hd.nobody hcur env ho]
          exact .nothing
        | some a => exact .called hcur hv (hd.deed_state hcur env ho)
      · rw [hs]
        exact switch_turn ho
      · rw [hs]
        exact departure_turn hcur hfound ho

/-- No number is given twice. -/
theorem Turn.pids {l : Label pg} (hroom : k.nextPid < 2 ^ 64) (h : Turn k l k') : k.nextPid ≤ k'.nextPid := by
  cases h with
  | nothing => exact Nat.le_refl _
  | @called env regs a h k' current service deed =>
    cases deed with
    | nothing | lessened | filed | loaded | mappedVirt | mappedPhys => exact Nat.le_refl _
    | given parted =>
      rcases parted with rfl | ⟨_, _, _, _, rfl⟩
      · exact Nat.le_refl _
      · exact Nat.le_refl _
    | @spawned id task table frames found fresh pid room =>
      have hnext : ((k.created id frames).adopt (TaskContext.fresh a id table) task).nextPid = k.nextPid + 1 :=
        Nat.mod_eq_of_lt (by omega)
      rw [hnext]
      exact Nat.le_succ _
  | switched current found left =>
    rcases left with rfl | rfl | ⟨_, rfl⟩
    · exact Nat.le_refl _
    · exact Nat.le_refl _
    · exact Nat.le_of_eq (without_nextPid (k := k.switched _)).symm
  | departed current found left =>
    rcases left with rfl | rfl
    · exact Nat.le_refl _
    · exact Nat.le_of_eq (without_nextPid (k := (k.marked _).switched _)).symm
  | mounted => exact Nat.le_refl _

end Steps

end Idkernel
