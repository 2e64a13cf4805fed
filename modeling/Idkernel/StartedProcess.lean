import Idkernel.Isolation
import Idkernel.RunQueue

/-!
# Processes that have been started

A share or a transfer asks whose child its target is, and never whether the
child is still empty. So a started process keeps its capabilities to itself
exactly as long as its parent does not hand it another one.
-/
namespace Idkernel

open Address Traced Locks

variable {pg : Paging} {ε : Type}

/-- `exec` on the child has returned `Ok` on the way. -/
def Executed (k₀ : Kernel pg) (ls : List (Label pg)) (child : TaskId) : Prop :=
  ∃ as env regs bs t fd, ls = as ++ .syscall env regs :: bs ∧ Runs.run kernelStep k₀ as = some t ∧
    regs.service = .handler (.exec child.raw fd) ∧ (ProcCall.exec env child.raw fd t).outcome = .ok ()

/-- A task that was there is there still, with the storage it had. -/
def KeepsStorage (child : TaskId) (k k' : Kernel pg) : Prop :=
  ∀ task, k.tasks.lookup child = some task →
    ∃ task', k'.tasks.lookup child = some task' ∧ task'.capabilities = task.capabilities

/-- The running task hands one of its capabilities to a child of its own. -/
def HandsTo (regs : AllSavedRegisters) (k : Kernel pg) (child : TaskId) : Prop :=
  ∃ a task cap handle transfer target, k.taskId = some a ∧ child ≠ a ∧
    regs.service = .handler (.processShareTransfer child.raw handle transfer) ∧
    k.tasks.lookup a = some task ∧ task.capabilities.get handle = some cap ∧
    (transfer = false → cap.perms.contains .SHAREABLE = true) ∧
    k.tasks.lookup child = some target ∧ target.parent = some a

section Storage

variable {a b : TaskId} {k k' : Kernel pg}

theorem KeepsStorage.of_same (h : k'.tasks.lookup b = k.tasks.lookup b) : KeepsStorage b k k' := by
  intro task hfound
  exact ⟨task, h.trans hfound, rfl⟩

/-- A handler of another task leaves the storage alone, unless it hands a capability over. -/
theorem Effect.keepsStorage {env : Env pg} {h : Handler} (he : Effect env a k h k') (hb : b ≠ a)
    (hno : ∀ handle transfer (task : TaskContext pg a) cap (target : TaskContext pg b),
      h = .processShareTransfer b.raw handle transfer → k.tasks.lookup a = some task →
      task.capabilities.get handle = some cap → (transfer = false → cap.perms.contains .SHAREABLE = true) →
      k.tasks.lookup b = some target → target.parent ≠ some a) : KeepsStorage b k k' := by
  cases he with
  | works own => exact .of_same (own.other hb)
  | @given c handle transfer cap k₁ k' other parted given =>
    have hmid : k₁.tasks.lookup b = k.tasks.lookup b := parted.works.other hb
    by_cases hc : b = c
    · subst hc
      obtain ⟨target, target', htarget, _, hparent, _⟩ := given.related
      rw [hmid] at htarget
      exfalso
      cases parted with
      | @copied task found held may =>
        exact hno handle false task cap target rfl found held (fun _ => may) htarget hparent
      | moved taken =>
        obtain ⟨task, _, found, _, hget, _⟩ := taken.related
        exact hno handle true task cap target rfl found hget (by simp) htarget hparent
    · exact .of_same ((given.others b hc).trans hmid)
  | @spawned id child caller frames found fresh pid parent caps =>
    intro task hfound
    have hid : b ≠ id := by
      rintro rfl
      rw [fresh] at hfound
      cases hfound
    have hsame : ((k.created id frames).adopt child caller).tasks.lookup b = k.tasks.lookup b :=
      (Finmap.lookup_insert_of_ne _ hb).trans (Finmap.lookup_insert_of_ne _ hid)
    exact ⟨task, hsame.trans hfound, rfl⟩
  | @loaded c fd k₁ k' own loaded =>
    have hmid : k₁.tasks.lookup b = k.tasks.lookup b := own.other hb
    by_cases hc : b = c
    · subst hc
      intro task hfound
      obtain ⟨task₁, task', hfound₁, hfound', _, _, table, entry, rfl⟩ := loaded.related
      obtain rfl : task = task₁ := Option.some.inj (hfound.symm.trans (hmid.symm.trans hfound₁))
      exact ⟨_, hfound', rfl⟩
    · exact .of_same ((loaded.others b hc).trans hmid)

/-- A switch removes nobody but the task it leaves. -/
theorem switch_keepsStorage (hcur : k.taskId = some a) (hb : b ≠ a)
    (ho : (switchToNextTask k : Ran _ _ ε Bool).outcome ≠ .panic) :
    KeepsStorage b k (switchToNextTask k : Ran _ _ ε Bool).state := by
  obtain ⟨start, running, hcur', _, ⟨_, hs⟩ | ⟨_, _, ⟨_, hs⟩ | ⟨_, hs⟩⟩⟩ := switch_cases ho
  · exact .of_same (by rw [hs]; rfl)
  · exact .of_same (by rw [hs]; rfl)
  · obtain rfl : a = start := Option.some.inj (hcur.symm.trans hcur')
    intro task hfound
    have hleft := without_lookup_other (k := k.switched running) running hb (t := task) hfound
    rw [hs]
    exact ⟨_, hleft, rfl⟩

theorem insert_next {ar : Arith} {reserve : Bool} {cap : Capability} {self caps : TaskCapabilityStorage}
    {r : Except SyscallError CapabilityHandle} (h : self.insert ar reserve cap = some (r, caps)) :
    caps ≠ self := by
  obtain ⟨next, hnext, he⟩ := Option.map_eq_some_iff.mp h
  have hne : next ≠ self.nextHandle := by
    rcases Arith.add_cases hnext with ⟨hn, _⟩ | ⟨_, hn, hlarge⟩
    · exact fun heq => absurd (heq.symm.trans hn) (Nat.ne_of_lt (Nat.lt_succ_self _))
    · intro heq
      have hlt : next < 2 ^ 64 := hn ▸ Nat.mod_lt _ (by decide)
      have hself : self.nextHandle = 2 ^ 64 - 1 := by
        rw [heq] at hlt
        exact Nat.le_antisymm (Nat.le_sub_one_of_lt hlt) (Nat.le_of_lt_succ hlarge)
      rw [heq, hself] at hn
      exact absurd hn (by decide)
  rintro rfl
  cases reserve with
  | true =>
    obtain ⟨_, hc⟩ := Prod.mk.inj he
    exact hne (congrArg TaskCapabilityStorage.nextHandle hc)
  | false =>
    obtain ⟨_, hc⟩ := Prod.mk.inj he
    exact hne (congrArg TaskCapabilityStorage.nextHandle hc)

/-- What the target is handed counts up its handles, also where there is no room for it. -/
theorem giveTo_changes {env : Env pg} {target : TaskContext pg b} (cap : Capability) (hcur : k.taskId = some a)
    (hfound : k.tasks.lookup b = some target) (hparent : target.parent = some a)
    (ho : (CapCall.giveTo env b cap k).outcome ≠ .panic) :
    ∃ caps, (CapCall.giveTo env b cap k).state.tasks.lookup b = some { target with capabilities := caps } ∧
      caps ≠ target.capabilities := by
  cases hins : target.capabilities.insert env.arith env.tryReserve cap with
  | none => exact absurd (giveTo_overflow hcur hfound hparent hins) ho
  | some rc =>
    obtain ⟨r, caps⟩ := rc
    obtain ⟨_, hs⟩ := giveTo_inserted hcur hfound hparent hins
    exact ⟨caps, by rw [hs]; exact Finmap.lookup_insert _, insert_next hins⟩

theorem handed_changes {env : Env pg} {task : TaskContext pg a} {target : TaskContext pg b} {cap : Capability}
    {handle : CapabilityHandle} {transfer : Bool} (hcur : k.taskId = some a) (hb : b ≠ a)
    (hfound : k.tasks.lookup a = some task) (hget : task.capabilities.get handle = some cap)
    (hmay : transfer = false → cap.perms.contains .SHAREABLE = true)
    (htarget : k.tasks.lookup b = some target) (hparent : target.parent = some a)
    (ho : (CapCall.processShareTransfer env b.raw handle transfer k).outcome ≠ .panic) :
    ∃ caps, (CapCall.processShareTransfer env b.raw handle transfer k).state.tasks.lookup b =
      some { target with capabilities := caps } ∧ caps ≠ target.capabilities := by
  rw [processShareTransfer_run hcur hb] at ho ⊢
  cases transfer with
  | true =>
    rw [if_pos rfl] at ho ⊢
    rcases hd : task.capabilities.delete handle with ⟨r, caps⟩
    obtain ⟨htake, hstate⟩ := takeTransferred_run hcur hfound hd
    rcases TaskCapabilityStorage.delete_cases hd with ⟨hnone, _⟩ | ⟨cap', _, _, _, rfl, _⟩
    · rw [hget] at hnone
      cases hnone
    rw [Comp.bind_ok htake, hstate] at ho ⊢
    exact giveTo_changes cap' (by exact hcur) ((Finmap.lookup_insert_of_ne _ hb).trans htarget) hparent ho
  | false =>
    rw [if_neg Bool.false_ne_true] at ho ⊢
    have hcopy : (CapCall.copyShared handle k).outcome = .ok cap ∧ (CapCall.copyShared handle k).state = k := by
      unfold CapCall.copyShared
      rw [currentTask_bind hcur hfound, after_outcome, after_state, withGuard_outcome, withGuard_state,
        getTask_bind hfound, hget, Comp.okOr_some, Comp.ret_bind, Comp.require_true (hmay rfl)]
      exact ⟨rfl, rfl⟩
    rw [Comp.bind_ok hcopy.1, hcopy.2] at ho ⊢
    exact giveTo_changes cap hcur htarget hparent ho

/-- One syscall of another task changes the storage exactly when it hands a capability over. -/
theorem syscall_keepsStorage {env : Env pg} {regs : AllSavedRegisters} (hcur : k.taskId = some a) (hb : b ≠ a)
    (hstep : kernelStep k (.syscall env regs) = some k') : KeepsStorage b k k' ↔ ¬ HandsTo regs k b := by
  simp only [kernelStep] at hstep
  have hsettle : settle (onSymcall1 env regs) k = some k' := by
    split at hstep
    · cases hstep
    · exact hstep
  obtain ⟨ho, rfl⟩ := onSymcall1_cases hsettle
  constructor
  · rintro hkeep ⟨a', task, cap, handle, transfer, target, hcur', _, hserv, hfound, hget, hmay, htarget, hparent⟩
    obtain rfl : a = a' := Option.some.inj (hcur.symm.trans hcur')
    rw [hserv] at ho hkeep
    have ho' := thenReply_outcome (m := CapCall.processShareTransfer env b.raw handle transfer) ho
    obtain ⟨caps, hafter, hne⟩ := handed_changes hcur hb hfound hget hmay htarget hparent ho'
    obtain ⟨target', htarget', hsame⟩ := hkeep target htarget
    have hstate : (Service.call env (.handler (.processShareTransfer b.raw handle transfer)) k).state =
        (CapCall.processShareTransfer env b.raw handle transfer k).state := thenReply_state _ _ _
    rw [hstate, hafter] at htarget'
    cases htarget'
    exact hne hsame
  · intro hno
    rcases service_cases ho with ⟨_, hs⟩ | ⟨hd, hserv, hcall, hs⟩ | ⟨_, hswitch, hs⟩ |
      ⟨_, t, dying, hcur', hfound, hswitch, hs⟩
    · exact .of_same (by rw [hs])
    · rw [hs]
      refine (hd.effect_state hcur env hcall).keepsStorage hb ?_
      rintro handle transfer task cap target rfl hfound hget hmay htarget hparent
      exact hno ⟨a, task, cap, handle, transfer, target, hcur, hb, hserv, hfound, hget, hmay, htarget, hparent⟩
    · rw [hs]
      exact switch_keepsStorage hcur hb hswitch
    · obtain rfl : a = t := Option.some.inj (hcur.symm.trans hcur')
      rw [hs]
      intro task htask
      have hmarked : (k.marked dying).tasks.lookup b = some task := (Finmap.lookup_insert_of_ne _ hb).trans htask
      exact switch_keepsStorage (k := k.marked dying) hcur hb hswitch task hmarked

end Storage

/-! ## Runs -/

/-- After its `exec` no syscall of another task changes what the child holds. -/
def OwnsCapabilities (k₀ : Kernel pg) (ls : List (Label pg)) (child : TaskId) : Prop :=
  ∀ as env regs bs t u a, ls = as ++ .syscall env regs :: bs → Runs.run kernelStep k₀ as = some t →
    kernelStep t (.syscall env regs) = some u → Executed k₀ as child → t.taskId = some a → child ≠ a →
      KeepsStorage child t u

/-- A started process owns its capabilities through a whole run exactly when its parent hands it
no other ones after the start. -/
theorem started_owns {k₀ k : Kernel pg} {ls : List (Label pg)} (child : TaskId)
    (hrun : Runs.run kernelStep k₀ ls = some k) : OwnsCapabilities k₀ ls child ↔
      ∀ as env regs bs t, ls = as ++ .syscall env regs :: bs → Runs.run kernelStep k₀ as = some t →
        Executed k₀ as child → ¬ HandsTo regs t child := by
  constructor
  · rintro howns as env regs bs t rfl ht hexec hhands
    obtain ⟨t', ht', hrest⟩ := Runs.run_front hrun
    obtain rfl : t = t' := Option.some.inj (ht.symm.trans ht')
    obtain ⟨u, hu, _⟩ := Option.bind_eq_some_iff.mp hrest
    obtain ⟨a, _, _, _, _, _, hcur, hb, _⟩ := id hhands
    have hkeep := howns as env regs bs t u a rfl ht hu hexec hcur hb
    exact (syscall_keepsStorage hcur hb hu).mp hkeep hhands
  · intro hno as env regs bs t u a hls ht hu hexec hcur hb
    exact (syscall_keepsStorage hcur hb hu).mpr (hno as env regs bs t hls ht hexec)

/-! ### A gift to a running child -/

/-- An empty program that starts at 4096. -/
def lowImage : List UInt8 := ELFMAG ++ List.replicate 21 0 ++ [16] ++ List.replicate 39 0

def Env.lowFiles : Env .flat := { Env.zeroes with readFileToMemory := fun h => some (.ok lowImage, h) }

def openFile : List (Label .flat) := [.idle, .syscall .zeroes (.request 0x200 0 0)]

def spawnChild : Label .flat := .syscall .lowFiles (.request 0x401 0 0)

/-- `ProcessExec` and `ProcessCapTransfer` of the first process. -/
def execInChild : AllSavedRegisters := .request 0x404 3 1
def giveToChild : AllSavedRegisters := .request 0x403 3 0

theorem opened_run (ls : List (Label .flat)) :
    Runs.run kernelStep (Kernel.plain mayProcessSpawn) (openFile ++ ls) = Runs.run kernelStep Kernel.opened ls := by
  have hidle : kernelStep (Kernel.plain mayProcessSpawn) .idle = some Kernel.spawning := rfl
  have hopen := spawning_step
  simp only [openFile, List.cons_append, List.nil_append, Runs.run, hidle, hopen, Option.bind_some]

theorem child_executed :
    Executed (Kernel.plain mayProcessSpawn) (openFile ++ [spawnChild, .syscall .lowFiles execInChild]) childId := by
  obtain ⟨t, ht, hexec⟩ : ∃ t, Runs.run kernelStep Kernel.opened [spawnChild] = some t ∧
      (ProcCall.exec .lowFiles childId.raw 1 t).outcome = .ok () := ⟨_, rfl, rfl⟩
  exact ⟨openFile ++ [spawnChild], .lowFiles, execInChild, [], t, 1, by simp, (opened_run _).trans ht, rfl, hexec⟩

theorem started_owns_child : ∃ k,
    Runs.run kernelStep (Kernel.plain mayProcessSpawn)
      (openFile ++ [spawnChild, .syscall .lowFiles execInChild]) = some k ∧
    (OwnsCapabilities (Kernel.plain mayProcessSpawn)
        (openFile ++ [spawnChild, .syscall .lowFiles execInChild]) childId ↔
      ∀ as env regs bs t, openFile ++ [spawnChild, .syscall .lowFiles execInChild] = as ++ .syscall env regs :: bs →
        Runs.run kernelStep (Kernel.plain mayProcessSpawn) as = some t →
        Executed (Kernel.plain mayProcessSpawn) as childId → ¬ HandsTo regs t childId) :=
  ⟨_, (opened_run _).trans rfl, started_owns childId ((opened_run _).trans rfl)⟩

/-- The child runs and is given the right to spawn all the same. -/
theorem started_child_given : Booted (Kernel.plain mayProcessSpawn) ∧ ∃ k,
    Runs.run kernelStep (Kernel.plain mayProcessSpawn)
      (openFile ++ [spawnChild, .syscall .lowFiles execInChild, .syscall .lowFiles giveToChild]) = some k ∧
    ¬ OwnsCapabilities (Kernel.plain mayProcessSpawn)
      (openFile ++ [spawnChild, .syscall .lowFiles execInChild, .syscall .lowFiles giveToChild]) childId := by
  obtain ⟨t, u, ht, hcur, hstep, hhands⟩ : ∃ t u,
      Runs.run kernelStep Kernel.opened [spawnChild, .syscall .lowFiles execInChild] = some t ∧
      t.taskId = some initprocId ∧ kernelStep t (.syscall .lowFiles giveToChild) = some u ∧
      HandsTo giveToChild t childId := by
    refine ⟨_, _, rfl, rfl, rfl, initprocId, _, _, 0, true, _, rfl, by decide, rfl, rfl, rfl, by simp, rfl, rfl⟩
  have hrun := (opened_run [spawnChild, .syscall .lowFiles execInChild]).trans ht
  have hall : Runs.run kernelStep (Kernel.plain mayProcessSpawn)
      ((openFile ++ [spawnChild, .syscall .lowFiles execInChild]) ++ [.syscall .lowFiles giveToChild]) = some u :=
    Runs.run_snoc.mpr ⟨t, hrun, hstep⟩
  refine ⟨Kernel.plain_booted _, u, by simpa using hall, fun howns => ?_⟩
  have hkeep := howns (openFile ++ [spawnChild, .syscall .lowFiles execInChild]) .lowFiles giveToChild [] t u
    initprocId (by simp) hrun hstep child_executed hcur (by decide)
  exact (syscall_keepsStorage hcur (by decide) hstep).mp hkeep hhands

end Idkernel
