import Idkernel.SwitchSchedule
import Idkernel.SyscallEntry
import Idkernel.UserStack

/-!
# User tasks of one processor

The thread data of the processor hold one user and one kernel stack pointer,
while tasks are switched in the middle of their syscalls. A task gets back its
stack pointer, and enters on its own kernel stack, exactly when no other task
has come between.
-/
namespace Idkernel

open Intrusive X86

/-! ## To user space -/

/-- `RFlags::INTERRUPT_FLAG` -/
def INTERRUPT_FLAG : UInt64 := 0x200

/-- `prepare_tcb` -/
def initialStackPointer : UInt64 := .ofNat (USERSPACE_STACK_ADDR + USER_STACK_SIZE - 128)

def prepareTcb (c : Cpu) : Cpu := c.setFs tcdUserStackPointer initialStackPointer

def enterUserspace (ip : UInt64) (c : Cpu) : Cpu :=
  let c := (c.mov .rcx ip).mov .r11 INTERRUPT_FLAG
  let c := c.setFs tcdKernelStackPointer (c.reg .rsp)
  let c := c.mov .rsp (c.fs tcdUserStackPointer)
  c.sysretq

/-! ## Steps -/

/-- Where a task is; a syscall is entered with a stack pointer. -/
inductive Stage where
  | kernel
  | user
  | syscall : UInt64 → Stage
  deriving DecidableEq

/-- What concerns the thread data, by the task that does it. -/
inductive TcdEvent (T : Type) where
  | prepared : TcdEvent T
  | entered : T → TcdEvent T
  | called : T → UInt64 → TcdEvent T

/-- The latest event comes first. -/
structure UserTasks (T : Type) extends Schedule T where
  stage : T → Stage
  history : List (TcdEvent T)

variable {T : Type}

def TcdEvent.saved : TcdEvent T → Option UInt64
  | .prepared => some initialStackPointer
  | .entered _ => none
  | .called _ rsp => some rsp

def TcdEvent.entrant : TcdEvent T → Option T
  | .entered t => some t
  | _ => none

/-- The user stack pointer that was saved last. -/
def lastSaved (history : List (TcdEvent T)) : Option UInt64 := history.findSome? TcdEvent.saved

/-- The task that went through `enter_userspace` last. -/
def lastEntered (history : List (TcdEvent T)) : Option T := history.findSome? TcdEvent.entrant

def Place.holds (p : Place) (sp : UInt64) : Prop := p.stack < sp.toNat ∧ sp.toNat ≤ p.limit

/-- There is room for the registers. -/
def Place.roomy (p : Place) (sp : UInt64) : Prop := p.stack + 128 < sp.toNat ∧ sp.toNat ≤ p.limit

/-- Kernel code works on the stack it was entered on, and leaves alone the thread data and what
belongs to tasks that are not concerned. -/
structure KernelWork (s : Schedule T) (c : Cpu) : Prop where
  fs : c.fs = s.cpu.fs
  stays : ∀ t p ctx, s.tasks t = some (p, ctx) → p.holds (s.cpu.reg .rsp) → p.holds (c.reg .rsp)
  spares : ∀ t p ctx, s.tasks t = some (p, ctx) → t ≠ s.current → ¬ p.holds (s.cpu.reg .rsp) →
    ∀ x, p.owns x → c.memory x = s.cpu.memory x

/-- User code reaches neither. -/
structure UserWork (s : Schedule T) (c : Cpu) : Prop where
  fs : c.fs = s.cpu.fs
  spares : ∀ t p ctx, s.tasks t = some (p, ctx) → ∀ x, p.owns x → c.memory x = s.cpu.memory x

/-- A step crosses from user space by a syscall, back to it by `sysretq`, or is another. -/
inductive Crossing where
  | entry
  | exit
  | other

namespace UserTasks

variable [DecidableEq T]

/-- `on_syscall_raw` up to its call -/
def called (s : UserTasks T) (entry mask : UInt64) : UserTasks T :=
  { s with
    cpu := enterKernel (s.cpu.syscall entry mask)
    stage := Function.update s.stage s.current (.syscall (s.cpu.reg .rsp))
    history := .called s.current (s.cpu.reg .rsp) :: s.history }

/-- and from there on. -/
def left (s : UserTasks T) : UserTasks T :=
  { s with cpu := leaveKernel s.cpu, stage := Function.update s.stage s.current .user }

def prepared (s : UserTasks T) : UserTasks T :=
  { s with cpu := prepareTcb s.cpu, history := .prepared :: s.history }

def entered (s : UserTasks T) (ip : UInt64) : UserTasks T :=
  { s with
    cpu := enterUserspace ip s.cpu
    stage := Function.update s.stage s.current .user
    history := .entered s.current :: s.history }

def created (s : UserTasks T) (t : T) (p : Place) (func table : UInt64) : UserTasks T :=
  { s with
    cpu := { s.cpu with memory := createContext func table p s.cpu.memory }
    tasks := Function.update s.tasks t (some (p, .fresh func table))
    stage := Function.update s.stage t .kernel }

inductive Step : UserTasks T → Crossing → UserTasks T → Prop where
  | run {s : UserTasks T} {c : Cpu} : s.stage s.current = .user → UserWork s.toSchedule c →
    Step s .other { s with cpu := c }
  | call {s : UserTasks T} (entry mask : UInt64) : s.stage s.current = .user →
    Step s .entry (s.called entry mask)
  | leave {s : UserTasks T} {rsp : UInt64} : s.stage s.current = .syscall rsp → Step s .exit s.left
  | work {s : UserTasks T} {c : Cpu} : s.stage s.current ≠ .user → KernelWork s.toSchedule c →
    Step s .other { s with cpu := c }
  | prepare {s : UserTasks T} : s.stage s.current = .kernel → Step s .other s.prepared
  | enter {s : UserTasks T} {p : Place} {ctx : Context} (ip : UInt64) : s.stage s.current = .kernel →
    s.tasks s.current = some (p, ctx) → p.stack + 128 < (s.cpu.reg .rsp).toNat →
    Step s .other (s.entered ip)
  | create {s : UserTasks T} {t : T} {p : Place} {func table : UInt64} : s.stage s.current ≠ .user →
    s.tasks t = none → (∀ u q ctx, s.tasks u = some (q, ctx) → p.Apart q) →
    Step s .other (s.created t p func table)
  | switch {s : UserTasks T} {t : T} {s' : Schedule T} : s.stage s.current ≠ .user →
    Switch s.toSchedule t s' → s'.cpu.fs = s.cpu.fs → Step s .other { s with toSchedule := s' }

/-- Only the initial task is there, in the kernel, and nothing has happened. -/
structure Initial (s : UserTasks T) : Prop where
  alone : s.toSchedule.Initial
  holds : ∀ p ctx, s.tasks s.current = some (p, ctx) → p.holds (s.cpu.reg .rsp)
  stage : ∀ t, s.stage t = .kernel
  history : s.history = []

/-- A run, with its steps; the latest comes first. -/
inductive Run (s₀ : UserTasks T) : List (UserTasks T × Crossing × UserTasks T) → UserTasks T → Prop where
  | start : Run s₀ [] s₀
  | step {steps : List (UserTasks T × Crossing × UserTasks T)} {s s' : UserTasks T} {crossing : Crossing} :
    Run s₀ steps s → Step s crossing s' → Run s₀ ((s, crossing, s') :: steps) s'

end UserTasks

/-- The registers are saved on the kernel stack of the task, and its stack pointer comes back. -/
def ContextSurvives : UserTasks T × Crossing × UserTasks T → Prop
  | (s, .entry, s') => ∃ p ctx, s.tasks s.current = some (p, ctx) ∧
    p.stack < (s'.cpu.reg .rsp).toNat ∧ (s'.cpu.reg .rsp).toNat + 128 ≤ p.limit
  | (s, .exit, s') => s.stage s.current = .syscall (s'.cpu.reg .rsp)
  | (_, .other, _) => True

/-- Before an entry, the task itself went through `enter_userspace` last; before a return, the stack
pointer saved last is the one the task entered with. -/
def Undisturbed : UserTasks T × Crossing × UserTasks T → Prop
  | (s, .entry, _) => lastEntered s.history = some s.current
  | (s, .exit, _) => ∃ rsp, s.stage s.current = .syscall rsp ∧ lastSaved s.history = some rsp
  | (_, .other, _) => True

/-! ## Stack pointers -/

theorem Place.Apart.one_holds {p q : Place} (h : p.Apart q) {sp : UInt64} (hp : p.holds sp) : ¬ q.holds sp := by
  rintro ⟨hlo, hhi⟩
  obtain ⟨hlo', hhi'⟩ := hp
  have hranges := h.ranges
  omega

theorem Place.roomy.holds {p : Place} {sp : UInt64} (h : p.roomy sp) : p.holds sp := ⟨by have := h.1; omega, h.2⟩

section Cpus

variable (c : Cpu)

theorem prepareTcb_fs : (prepareTcb c).fs tcdUserStackPointer = initialStackPointer ∧
    (prepareTcb c).fs tcdKernelStackPointer = c.fs tcdKernelStackPointer := ⟨rfl, rfl⟩

theorem enterUserspace_fs (ip : UInt64) :
    (enterUserspace ip c).fs = Function.update c.fs tcdKernelStackPointer (c.reg .rsp) := by
  have hrsp : ((c.mov .rcx ip).mov .r11 INTERRUPT_FLAG).reg .rsp = c.reg .rsp := by
    rw [Cpu.mov_other _ _ (by decide), Cpu.mov_other _ _ (by decide)]
  rw [← hrsp]
  rfl

theorem syscall_rsp (entry mask : UInt64) : (c.syscall entry mask).reg .rsp = c.reg .rsp := by
  have hreg : (c.syscall entry mask).reg = ((c.mov .rcx c.rip).mov .r11 c.rflags).reg := rfl
  rw [hreg, Cpu.mov_other _ _ (by decide), Cpu.mov_other _ _ (by decide)]

end Cpus

/-! ## Every state of a run -/

namespace UserTasks

/-- The thread data are what the history says, and the kernel stack pointer belongs to the task that
entered user space last. -/
structure Orderly (s : UserTasks T) : Prop where
  intact : Intact s.toSchedule
  inside : s.stage s.current ≠ .user → ∀ p ctx, s.tasks s.current = some (p, ctx) → p.holds (s.cpu.reg .rsp)
  saved : ∀ v, lastSaved s.history = some v → s.cpu.fs tcdUserStackPointer = v
  pending : ∀ t rsp, s.stage t = .syscall rsp → lastSaved s.history ≠ none
  owner : ∀ t p ctx, s.tasks t = some (p, ctx) → s.stage t ≠ .kernel →
    (p.roomy (s.cpu.fs tcdKernelStackPointer) ↔ lastEntered s.history = some t)
  room : ∀ t, s.stage t ≠ .kernel → 128 ≤ (s.cpu.fs tcdKernelStackPointer).toNat

variable {s s' : UserTasks T}

/-- A step that leaves thread data and history alone may move tasks that are in the kernel. -/
theorem Orderly.kept (h : Orderly s) (hfs : s'.cpu.fs = s.cpu.fs) (hhistory : s'.history = s.history)
    (hstage : ∀ t, s'.stage t ≠ .kernel → s.stage t ≠ .kernel)
    (hpending : ∀ t rsp, s'.stage t = .syscall rsp → s.stage t = .syscall rsp)
    (hplace : ∀ t p ctx, s'.tasks t = some (p, ctx) → s'.stage t ≠ .kernel → ∃ ctx', s.tasks t = some (p, ctx'))
    (intact : Intact s'.toSchedule)
    (inside : s'.stage s'.current ≠ .user → ∀ p ctx, s'.tasks s'.current = some (p, ctx) →
    p.holds (s'.cpu.reg .rsp)) :
    Orderly s' where
  intact := intact
  inside := inside
  saved := by
    rw [hfs, hhistory]
    exact h.saved
  pending t rsp ht := by
    rw [hhistory]
    exact h.pending t rsp (hpending t rsp ht)
  owner t p ctx ht hne := by
    obtain ⟨ctx', ht'⟩ := hplace t p ctx ht hne
    rw [hfs, hhistory]
    exact h.owner t p ctx' ht' (hstage t hne)
  room t hne := by
    rw [hfs]
    exact h.room t (hstage t hne)

theorem run_orderly (hs : Orderly s) {c : Cpu} (hstage : s.stage s.current = .user)
    (h : UserWork s.toSchedule c) :
    Orderly { s with cpu := c } :=
  hs.kept h.fs rfl (fun _ => id) (fun _ _ => id) (fun _ _ ctx ht _ => ⟨ctx, ht⟩)
    (work_intact hs.intact fun u q ctx hu _ => h.spares u q ctx hu) fun hne => absurd hstage hne

theorem work_orderly (hs : Orderly s) {c : Cpu} (hstage : s.stage s.current ≠ .user)
    (h : KernelWork s.toSchedule c) :
    Orderly { s with cpu := c } := by
  obtain ⟨own, hown⟩ := hs.intact.running
  have hsp : own.holds (s.cpu.reg .rsp) := hs.inside hstage _ _ hown
  refine hs.kept h.fs rfl (fun _ => id) (fun _ _ => id) (fun _ _ ctx ht _ => ⟨ctx, ht⟩) ?_ ?_
  · refine work_intact hs.intact fun u q ctx hu hne => h.spares u q ctx hu hne ?_
    exact (hs.intact.apart _ _ _ _ _ _ hown hu (Ne.symm hne)).one_holds hsp
  · intro _ p ctx hp
    exact h.stays _ p ctx hp (hs.inside hstage p ctx hp)

theorem prepare_orderly (hs : Orderly s) (hstage : s.stage s.current = .kernel) :
    Orderly s.prepared where
  intact := work_intact hs.intact fun _ _ _ _ _ _ _ => rfl
  inside _ := hs.inside (by simp [hstage])
  saved v hv := (prepareTcb_fs s.cpu).1.trans (Option.some.inj hv)
  pending _ _ _ := Option.some_ne_none _
  owner := hs.owner
  room := hs.room

variable [DecidableEq T]

theorem Initial.orderly (h : s.Initial) : Orderly s where
  intact := h.alone.intact
  inside _ := h.holds
  saved v hv := by simp [h.history, lastSaved] at hv
  pending t rsp ht := by simp [h.stage] at ht
  owner t p ctx _ hne := absurd (h.stage t) hne
  room t hne := absurd (h.stage t) hne

theorem leave_orderly (hs : Orderly s) {rsp : UInt64} (hstage : s.stage s.current = .syscall rsp) :
    Orderly s.left := by
  unfold left
  obtain ⟨_, hfs, hmem⟩ := leaveKernel_rest s.cpu
  refine hs.kept hfs rfl ?_ ?_ (fun _ _ ctx ht _ => ⟨ctx, ht⟩) ?_ ?_
  · intro t ht
    by_cases he : t = s.current
    · simp [he, hstage]
    · simpa [he] using ht
  · intro t rsp' ht
    by_cases he : t = s.current
    · simp [he] at ht
    · simpa [he] using ht
  · exact work_intact hs.intact fun u q ctx hu hne x hx => by rw [hmem]
  · intro hne
    simp at hne

theorem enter_orderly (hs : Orderly s) (ip : UInt64) {p : Place} {ctx : Context}
    (hstage : s.stage s.current = .kernel) (hp : s.tasks s.current = some (p, ctx))
    (hroom : p.stack + 128 < (s.cpu.reg .rsp).toNat) : Orderly (s.entered ip) := by
  unfold entered
  have hholds : p.holds (s.cpu.reg .rsp) := hs.inside (by simp [hstage]) p ctx hp
  have hfs := enterUserspace_fs s.cpu ip
  have hksp : (enterUserspace ip s.cpu).fs tcdKernelStackPointer =
    s.cpu.reg .rsp := by rw [hfs, Function.update_self]
  have husp : (enterUserspace ip s.cpu).fs tcdUserStackPointer = s.cpu.fs tcdUserStackPointer := by
    rw [hfs, Function.update_of_ne (by decide)]
  refine ⟨work_intact hs.intact fun _ _ _ _ _ _ _ => rfl, fun hne => ?_, fun v hv => ?_, fun t rsp ht => ?_,
    fun t q ctx' ht hne => ?_, fun _ _ => ?_⟩
  · simp at hne
  · exact husp.trans (hs.saved v hv)
  · by_cases he : t = s.current
    · simp [he] at ht
    · exact hs.pending t rsp (by simpa [he] using ht)
  · have hlast : lastEntered (.entered s.current :: s.history) = some s.current := rfl
    dsimp only
    rw [hksp, hlast, Option.some.injEq]
    constructor
    · intro hroomy
      by_contra hcur
      exact (hs.intact.apart _ _ _ _ _ _ hp ht hcur).one_holds hholds hroomy.holds
    · intro he
      subst he
      cases hp.symm.trans ht
      exact ⟨hroom, hholds.2⟩
  · dsimp only
    rw [hksp]
    omega

theorem call_orderly (hs : Orderly s) (entry mask : UInt64) (hstage : s.stage s.current = .user)
    (hlast : lastEntered s.history = some s.current) : Orderly (s.called entry mask) := by
  unfold called
  have hkernel : s.stage s.current ≠ .kernel := by simp [hstage]
  obtain ⟨own, hown⟩ := hs.intact.running
  have hroom : 128 ≤ ((s.cpu.syscall entry mask).fs tcdKernelStackPointer).toNat := hs.room _ hkernel
  obtain ⟨hsp, _⟩ := enterKernel_spec hroom
  obtain ⟨hfs, hmem⟩ := enterKernel_rest hroom
  have hroomy : own.roomy ((s.cpu.syscall entry mask).fs tcdKernelStackPointer) :=
    (hs.owner _ _ _ hown hkernel).mpr hlast
  obtain ⟨hlo, hhi⟩ := hroomy
  have husp : (enterKernel (s.cpu.syscall entry mask)).fs tcdUserStackPointer = s.cpu.reg .rsp := by
    rw [hfs, Function.update_self, syscall_rsp]
  have hksp : (enterKernel (s.cpu.syscall entry mask)).fs tcdKernelStackPointer =
    s.cpu.fs tcdKernelStackPointer := by
    rw [hfs, Function.update_of_ne (by decide)]
    rfl
  have hstages : ∀ t, Function.update s.stage s.current (.syscall (s.cpu.reg .rsp)) t ≠ .kernel →
    s.stage t ≠ .kernel := by
    intro t ht
    by_cases he : t = s.current
    · rw [he]
      exact hkernel
    · simpa [he] using ht
  refine ⟨work_intact hs.intact fun u q ctx hu hne x hx => ?_, fun _ p ctx hp => ?_, fun v hv => ?_,
    fun _ _ _ => ?_,
    fun t q ctx ht hne => ?_, fun t hne => ?_⟩
  · -- the registers go to the task's own stack.
    have hapart := hs.intact.apart _ _ _ _ _ _ hu hown hne x hx
    refine hmem x ?_
    simp only [Place.owns] at hapart
    omega
  · cases hown.symm.trans hp
    have hheld : own.holds ((enterKernel (s.cpu.syscall entry mask)).reg .rsp) := ⟨by omega, by omega⟩
    exact hheld
  · exact husp.trans (Option.some.inj hv)
  · exact Option.some_ne_none _
  · dsimp only
    rw [hksp]
    exact hs.owner t q ctx ht (hstages t hne)
  · dsimp only
    rw [hksp]
    exact hs.room t (hstages t hne)

theorem create_orderly (hs : Orderly s) {t : T} {p : Place} {func table : UInt64} (hnew : s.tasks t = none)
    (hfree : ∀ u q ctx, s.tasks u = some (q, ctx) → p.Apart q) : Orderly (s.created t p func table) := by
  unfold created
  obtain ⟨own, hown⟩ := hs.intact.running
  have hcur : s.current ≠ t := fun he => by simp [he, hnew] at hown
  refine hs.kept rfl rfl ?_ ?_ ?_ (create_intact hs.intact hnew hfree) ?_
  · intro u hu
    by_cases he : u = t
    · simp [he] at hu
    · simpa [he] using hu
  · intro u rsp hu
    by_cases he : u = t
    · simp [he] at hu
    · simpa [he] using hu
  · intro u q ctx hu hne
    by_cases he : u = t
    · simp [he] at hne
    · exact ⟨ctx, by simpa [he] using hu⟩
  · intro hne q ctx hq
    exact hs.inside (by simpa [hcur] using hne) q ctx (by simpa [hcur] using hq)

theorem switch_orderly (hs : Orderly s) {t : T} {s' : Schedule T} (hswitch : Switch s.toSchedule t s')
    (hfs : s'.cpu.fs = s.cpu.fs) : Orderly { s with toSchedule := s' } := by
  obtain ⟨p, ctx, hp, hresumed⟩ := switch_resumes hs.intact hswitch
  have hwait := hs.intact.waiting t p ctx hp
  have hcases := hswitch
  obtain @⟨q, p', ctx₁, dying, target, c, hq, hp', hne, hlo, hhi, hhook, rfl⟩ := hcases
  refine hs.kept hfs rfl (fun _ => id) (fun _ _ => id) (fun _ _ _ hu _ => handOver_place hq hp' hu)
    (switch_intact hs.intact hswitch) ?_
  intro _ r ctx' hr
  have hself : handOver s.toSchedule q t p' dying t = some (p', .running) := Function.update_self ..
  cases hself.symm.trans hr
  cases hp.symm.trans hp'
  -- it comes back to where it left its stack, or begins at the top of it.
  cases ctx with
  | running => exact absurd hresumed id
  | fresh func table =>
    have hroom := p.stackRoom
    have hsp : (c.ret.reg .rsp).toNat = p.limit := hresumed.rsp
    have hheld : p.holds (c.ret.reg .rsp) := ⟨by omega, by omega⟩
    exact hheld
  | switchedOut before =>
    obtain ⟨_, ⟨hlo', hhi'⟩, _⟩ := hwait hne
    rw [hresumed.rsp]
    exact ⟨by omega, hhi'⟩

/-! ## Crossings -/

omit [DecidableEq T] in
/-- The registers go to the own stack exactly when the kernel stack pointer is the task's own. -/
theorem entry_survives_iff (hs : Orderly s) (entry mask : UInt64) (hstage : s.stage s.current = .user)
    {s' : UserTasks T}
    (hcpu : s'.cpu = enterKernel (s.cpu.syscall entry mask)) :
    ContextSurvives (s, .entry, s') ↔ Undisturbed (s, .entry, s') := by
  have hkernel : s.stage s.current ≠ .kernel := by simp [hstage]
  obtain ⟨own, hown⟩ := hs.intact.running
  have hroom : 128 ≤ ((s.cpu.syscall entry mask).fs tcdKernelStackPointer).toNat := hs.room _ hkernel
  obtain ⟨hsp, _⟩ := enterKernel_spec hroom
  have hiff : own.roomy ((s.cpu.syscall entry mask).fs tcdKernelStackPointer) ↔
    lastEntered s.history = some s.current :=
    hs.owner _ _ _ hown hkernel
  rw [Undisturbed, ← hiff, Place.roomy]
  constructor
  · rintro ⟨p, ctx, hp, hlo, hhi⟩
    cases hown.symm.trans hp
    rw [hcpu, hsp] at hlo hhi
    exact ⟨by omega, by omega⟩
  · rintro ⟨hlo, hhi⟩
    refine ⟨own, .running, hown, ?_, ?_⟩
    · rw [hcpu, hsp]
      omega
    · rw [hcpu, hsp]
      omega

omit [DecidableEq T] in
theorem exit_survives_iff (hs : Orderly s) {rsp : UInt64} (hstage : s.stage s.current = .syscall rsp)
    {s' : UserTasks T}
    (hcpu : s'.cpu = leaveKernel s.cpu) : ContextSurvives (s, .exit, s') ↔ Undisturbed (s, .exit, s') := by
  obtain ⟨v, hv⟩ := Option.ne_none_iff_exists'.mp (hs.pending _ _ hstage)
  have hsp : s'.cpu.reg .rsp = v := by rw [hcpu, (leaveKernel_rest s.cpu).1, hs.saved v hv]
  simp [ContextSurvives, Undisturbed, hstage, hsp, hv, eq_comm]

theorem step_survives (hs : Orderly s) {crossing : Crossing} (h : Step s crossing s') :
    (ContextSurvives (s, crossing, s') ↔ Undisturbed (s, crossing, s')) ∧
      (Undisturbed (s, crossing, s') → Orderly s') := by
  cases h with
  | run hstage hwork => exact ⟨Iff.rfl, fun _ => run_orderly hs hstage hwork⟩
  | call entry mask hstage =>
    exact ⟨entry_survives_iff hs entry mask hstage rfl, fun hlast => call_orderly hs entry mask hstage hlast⟩
  | leave hstage => exact ⟨exit_survives_iff hs hstage rfl, fun _ => leave_orderly hs hstage⟩
  | work hstage hwork => exact ⟨Iff.rfl, fun _ => work_orderly hs hstage hwork⟩
  | prepare hstage => exact ⟨Iff.rfl, fun _ => prepare_orderly hs hstage⟩
  | enter ip hstage hp hroom => exact ⟨Iff.rfl, fun _ => enter_orderly hs ip hstage hp hroom⟩
  | create _ hnew hfree => exact ⟨Iff.rfl, fun _ => create_orderly hs hnew hfree⟩
  | switch _ hswitch hfs => exact ⟨Iff.rfl, fun _ => switch_orderly hs hswitch hfs⟩

theorem Run.orderly {s₀ : UserTasks T} (start : s₀.Initial) {steps : List (UserTasks T × Crossing × UserTasks T)}
    (h : Run s₀ steps s) (hsteps : ∀ m ∈ steps, Undisturbed m) : Orderly s := by
  induction h with
  | start => exact start.orderly
  | step _ hstep ih =>
    obtain ⟨hlast, hbefore⟩ := List.forall_mem_cons.mp hsteps
    exact (step_survives (ih hbefore) hstep).2 hlast

end UserTasks

/-- In every run, user contexts survive exactly when no crossing was disturbed. -/
theorem user_context_survives_iff [DecidableEq T] {s₀ s : UserTasks T} (start : s₀.Initial)
    {steps : List (UserTasks T × Crossing × UserTasks T)} (h : UserTasks.Run s₀ steps s) :
    (∀ m ∈ steps, ContextSurvives m) ↔ ∀ m ∈ steps, Undisturbed m := by
  induction h with
  | start => simp
  | step hrun hstep ih =>
    rw [List.forall_mem_cons, List.forall_mem_cons, ih]
    constructor
    · rintro ⟨hlast, hbefore⟩
      exact ⟨(UserTasks.step_survives (hrun.orderly start hbefore) hstep).1.mp hlast, hbefore⟩
    · rintro ⟨hlast, hbefore⟩
      exact ⟨(UserTasks.step_survives (hrun.orderly start hbefore) hstep).1.mpr hlast, hbefore⟩

/-! ## Three tasks -/

namespace UserTasks

def thirdPlace : Place := ⟨0x3000, 0xC000, 0xD000, by decide, by decide, by decide, .inl (by decide)⟩

/-- The initial task of the kernel. -/
def alone : UserTasks (Fin 3) where
  cpu := firstAlone.cpu
  current := 0
  tasks t := if t = 0 then some (firstPlace, .running) else none
  stage _ := .kernel
  history := []

theorem alone_initial : alone.Initial where
  alone := ⟨firstPlace, rfl⟩
  holds p ctx h := by
    cases h
    exact ⟨by decide, by decide⟩
  stage _ := rfl
  history := rfl

/-- The task hands over, with a hook that does nothing. -/
def handed (s : UserTasks (Fin 3)) (q p : Place) (t : Fin 3) : UserTasks (Fin 3) :=
  { s with toSchedule := s.toSchedule.handed q p t 0x600 }

/-- The first process is in user space, -/
def firstEntered : UserTasks (Fin 3) :=
  ((alone.created 1 secondPlace 0x500 0x4000).handed firstPlace secondPlace 1).prepared.entered 0x401000

/-- has spawned and started the second, and yields. -/
def firstYields : UserTasks (Fin 3) :=
  let s := ((firstEntered.called 0x100 0x200).created 2 thirdPlace 0x500 0x5000).left
  let s := (s.called 0x100 0x200).left
  (s.called 0x100 0x200).handed secondPlace thirdPlace 2

/-- The second has moved its stack pointer, and yields. -/
def secondYields : UserTasks (Fin 3) :=
  let s := firstYields.entered 0x402000
  let s := { s with cpu := s.cpu.mov .rsp 0x4000FF00 }
  (s.called 0x100 0x200).handed thirdPlace secondPlace 1

def Reached (s : UserTasks (Fin 3)) : Prop := ∃ steps, Run alone steps s

variable {s s' : UserTasks (Fin 3)}

theorem Reached.step (h : Reached s) {crossing : Crossing} (hstep : Step s crossing s') : Reached s' := by
  obtain ⟨steps, hrun⟩ := h
  exact ⟨_, hrun.step hstep⟩

theorem Reached.hands (h : Reached s) (t : Fin 3) (hstage : s.stage s.current ≠ .user) {q p : Place}
    {ctx : Context}
    (hq : s.tasks s.current = some (q, .running)) (hp : s.tasks t = some (p, ctx)) (hne : t ≠ s.current)
    (hlo : q.stack + 16 ≤ (s.cpu.reg .rsp).toNat) (hhi : (s.cpu.reg .rsp).toNat ≤ q.limit) :
    Reached (s.handed q p t) :=
  h.step (.switch hstage (handed_switch 0x600 hq hp hne hlo hhi) (handed_fs q p 0x600))

theorem mov_userWork (s : Schedule (Fin 3)) (r : Reg) (v : UInt64) : UserWork s (s.cpu.mov r v) :=
  ⟨rfl, fun _ _ _ _ _ _ => rfl⟩

theorem firstEntered_reached : Reached firstEntered := by
  have hcreated : Reached (alone.created 1 secondPlace 0x500 0x4000) := by
    refine Reached.step ⟨_, .start⟩ (.create (by decide) rfl fun u q ctx hu x hx => ?_)
    match u with
    | 0 =>
      cases hu
      simp only [Place.owns, firstPlace, secondPlace] at hx ⊢
      omega
    | 1 => cases hu
    | 2 => cases hu
  have hhanded := hcreated.hands 1 (by decide) rfl rfl (by decide) (by decide) (by decide)
  exact (hhanded.step (.prepare rfl)).step (.enter 0x401000 rfl rfl (by decide +kernel))

theorem firstYields_reached : Reached firstYields := by
  have hcalled := firstEntered_reached.step (.call 0x100 0x200 rfl)
  have hspawned : Reached ((firstEntered.called 0x100 0x200).created 2 thirdPlace 0x500 0x5000) := by
    refine hcalled.step (.create (by decide) rfl fun u q ctx hu x hx => ?_)
    match u with
    | 0 =>
      cases hu
      simp only [Place.owns, firstPlace, thirdPlace] at hx ⊢
      omega
    | 1 =>
      cases hu
      simp only [Place.owns, secondPlace, thirdPlace] at hx ⊢
      omega
    | 2 => cases hu
  have hstarted := ((hspawned.step (.leave rfl)).step (.call 0x100 0x200 rfl)).step (.leave rfl)
  exact (hstarted.step (.call 0x100 0x200 rfl)).hands 2 (by decide) rfl rfl (by decide) (by decide +kernel)
    (by decide +kernel)

theorem secondYields_reached : Reached secondYields := by
  have hentered := firstYields_reached.step (.enter 0x402000 rfl rfl (by decide +kernel))
  have hmoved := hentered.step (.run rfl (mov_userWork _ .rsp 0x4000FF00))
  exact (hmoved.step (.call 0x100 0x200 rfl)).hands 1 (by decide) rfl rfl (by decide) (by decide +kernel)
    (by decide +kernel)

end UserTasks

open UserTasks in
/-- A task that enters user space and makes a syscall. -/
theorem user_context_survives_once :
    ContextSurvives (alone.prepared.entered 0x401000, .entry,
    (alone.prepared.entered 0x401000).called 0x100 0x200) ∧
    ContextSurvives ((alone.prepared.entered 0x401000).called 0x100 0x200, .exit,
      ((alone.prepared.entered 0x401000).called 0x100 0x200).left) := by
  have hrun : Run alone _ ((alone.prepared.entered 0x401000).called 0x100 0x200).left :=
    (((Run.start.step (.prepare rfl)).step (.enter 0x401000 rfl rfl (by decide))).step
      (.call 0x100 0x200 rfl)).step (.leave rfl)
  have hall := (user_context_survives_iff alone_initial hrun).mpr (by
    simp only [List.forall_mem_cons]
    exact ⟨⟨_, rfl, rfl⟩, rfl, trivial, trivial, by simp⟩)
  exact ⟨hall _ (List.mem_cons_of_mem _ List.mem_cons_self), hall _ List.mem_cons_self⟩

open UserTasks in
/-- The first process returns with the stack pointer of the second, and makes its next syscall on
the stack of the second. -/
theorem user_context_lost : ∃ (s₀ : UserTasks (Fin 3)) (steps : _) (s s' s'' : UserTasks (Fin 3)),
    s₀.Initial ∧ Run s₀ steps s ∧ UserTasks.Step s .exit s' ∧ UserTasks.Step s' .entry s'' ∧
    ¬ ContextSurvives (s, .exit, s') ∧ ¬ ContextSurvives (s', .entry, s'') := by
  obtain ⟨steps, hrun⟩ := secondYields_reached
  refine ⟨alone, steps, secondYields, secondYields.left, secondYields.left.called 0x100 0x200,
    alone_initial, hrun,
    .leave rfl, .call 0x100 0x200 rfl, ?_, ?_⟩
  · have hrsp : secondYields.left.cpu.reg .rsp = 0x4000FF00 := by decide +kernel
    have hstage : secondYields.stage secondYields.current ≠ .syscall 0x4000FF00 := by decide +kernel
    rwa [ContextSurvives, hrsp]
  · rintro ⟨p, ctx, hp, _, hhi⟩
    cases hp
    have hrsp : ((secondYields.left.called 0x100 0x200).cpu.reg .rsp).toNat = 0xCF80 := by decide +kernel
    rw [hrsp] at hhi
    exact absurd hhi (by decide)

end Idkernel
