import Idkernel.Kernel

/-!
# Memory syscalls
-/
namespace Idkernel

open Address Traced Locks

variable {pg : Paging} {σ κ : Type}

def MEMORY_READ : Nat := 0x1
def MEMORY_WRITE : Nat := 0x2
def MEMORY_EXECUTE : Nat := 0x4

/-- `MemoryPerms::from_bits_truncate(perms as u8)` converted to page flags. -/
def memoryFlags (perms : Nat) : Except SyscallError PageTableFlags :=
  let value := perms % 256 &&& (MEMORY_READ ||| MEMORY_WRITE ||| MEMORY_EXECUTE)
  if value &&& MEMORY_READ = 0 then .error .wrongParameters
  else
    let flags := PageTableFlags.PRESENT ||| PageTableFlags.USER_ACCESSIBLE
    let flags := if value &&& MEMORY_WRITE ≠ 0 then flags ||| PageTableFlags.WRITABLE else flags
    let flags := if value &&& MEMORY_EXECUTE = 0 then flags ||| PageTableFlags.NO_EXECUTE else flags
    .ok flags

def parentTableFlags : PageTableFlags :=
  PageTableFlags.PRESENT ||| PageTableFlags.USER_ACCESSIBLE ||| PageTableFlags.WRITABLE

/-- The two ends of the page range; the second one is not in it. -/
def parsePageRange (ar : Arith) (pos len : Nat) : Comp σ κ SyscallError (Page × Page) := do
  Comp.ofExcept (checkAddrUserspace pos)
  let sum ← Comp.unwrap (ar.add pos len)
  let last ← Comp.unwrap (ar.sub sum 1)
  Comp.ofExcept (checkAddrUserspace last)
  let start ← Comp.unwrap (VirtAddr.new pos)
  let startPage ← Comp.okOr (Page.fromStartAddress start) .wrongParameters
  let stop ← Comp.unwrap (start.add ar len)
  let endPage ← Comp.okOr (Page.fromStartAddress stop) .wrongParameters
  return (startPage, endPage)

theorem parsePageRange_still (ar : Arith) (pos len : Nat) :
    Comp.Still (parsePageRange ar pos len : Comp σ κ _ _) := by
  apply Comp.Still.bind (Comp.Still.ofExcept _)
  intro _
  apply Comp.Still.bind (Comp.Still.unwrap _)
  intro sum
  apply Comp.Still.bind (Comp.Still.unwrap _)
  intro last
  apply Comp.Still.bind (Comp.Still.ofExcept _)
  intro _
  apply Comp.Still.bind (Comp.Still.unwrap _)
  intro start
  apply Comp.Still.bind (Comp.Still.okOr _ _)
  intro startPage
  apply Comp.Still.bind (Comp.Still.unwrap _)
  intro stop
  apply Comp.Still.bind (Comp.Still.okOr _ _)
  intro endPage
  exact Comp.Still.ret _

/-- The range has been parsed exactly when all its checks have passed. -/
theorem parsePageRange_ok {ar : Arith} {pos len : Nat} {s : σ} {a b : Page} :
    (parsePageRange ar pos len s : Ran σ κ _ _).outcome = .ok (a, b) ↔
      checkAddrUserspace pos = .ok () ∧ (∃ sum last, ar.add pos len = some sum ∧ ar.sub sum 1 = some last ∧
        checkAddrUserspace last = .ok ()) ∧ VirtAddr.new pos = some a.start ∧
        a.start.add ar len = some b.start := by
  constructor
  · intro h
    unfold parsePageRange at h
    obtain ⟨_, hpos, h⟩ := (Comp.Still.ofExcept _).bind_inv h
    obtain ⟨sum, hsum, h⟩ := (Comp.Still.unwrap _).bind_inv h
    obtain ⟨last, hlast, h⟩ := (Comp.Still.unwrap _).bind_inv h
    obtain ⟨_, hcheck, h⟩ := (Comp.Still.ofExcept _).bind_inv h
    obtain ⟨start, hstart, h⟩ := (Comp.Still.unwrap _).bind_inv h
    obtain ⟨startPage, hstartPage, h⟩ := (Comp.Still.okOr _ _).bind_inv h
    obtain ⟨stop, hstop, h⟩ := (Comp.Still.unwrap _).bind_inv h
    obtain ⟨endPage, hendPage, h⟩ := (Comp.Still.okOr _ _).bind_inv h
    cases h
    obtain ⟨ha, _⟩ := Page.fromStartAddress_cases (Comp.okOr_ok hstartPage)
    obtain ⟨hb, _⟩ := Page.fromStartAddress_cases (Comp.okOr_ok hendPage)
    rw [ha, hb]
    exact ⟨Comp.ofExcept_ok_inv hpos, ⟨sum, last, Comp.unwrap_ok hsum, Comp.unwrap_ok hlast,
      Comp.ofExcept_ok_inv hcheck⟩, Comp.unwrap_ok hstart, Comp.unwrap_ok hstop⟩
  · rintro ⟨hpos, ⟨sum, last, hsum, hlast, hcheck⟩, hstart, hstop⟩
    have ha : Page.fromStartAddress a.start = some a := dif_pos a.aligned
    have hb : Page.fromStartAddress b.start = some b := dif_pos b.aligned
    unfold parsePageRange
    rw [hpos, Comp.ofExcept_ok, Comp.ret_bind, hsum, Comp.unwrap_some, Comp.ret_bind, hlast, Comp.unwrap_some,
      Comp.ret_bind, hcheck, Comp.ofExcept_ok, Comp.ret_bind, hstart, Comp.unwrap_some, Comp.ret_bind, ha,
      Comp.okOr_some, Comp.ret_bind, hstop, Comp.unwrap_some, Comp.ret_bind, hb, Comp.okOr_some, Comp.ret_bind]
    rfl

def mapError : Except MapToError Unit → Except SyscallError Unit
  | .ok _ => .ok ()
  | .error (.pageAlreadyMapped _) => .error .memoryAlreadyMapped
  | .error .parentEntryHugePage => .error .memoryAlreadyMapped
  | .error .frameAllocationFailed => .error .noMemory

/-- The loop body of `map_virt`. -/
def mapVirtPage (flags : PageTableFlags) (page : Page) : VmM pg SyscallError Unit := do
  let frame ← allocateFrame
  let frame ← Comp.okOr frame .noMemory
  let r ← mapTo page frame flags parentTableFlags
  Comp.ofExcept (mapError r)

/-- The loop body of `map_phys`. -/
def mapPhysPage (flags : PageTableFlags) (x : Page × PhysFrame) : VmM pg SyscallError Unit := do
  let r ← mapTo x.1 x.2 flags parentTableFlags
  Comp.ofExcept (mapError r)

theorem mapVirtPage_notes {flags : PageTableFlags} {page : Page} {v : Vm pg} {n : Note}
    (h : n ∈ notes (mapVirtPage flags page v).events) : ∃ frame, n = .mapRequest page frame := by
  unfold mapVirtPage at h
  obtain ⟨_, _, h⟩ := mem_notes_bind rfl h
  obtain ⟨frame, _, h⟩ := mem_notes_decide (Comp.Still.okOr _ _) h
  rw [notes_bind_quiet fun _ => notes_still (Comp.Still.ofExcept _)] at h
  exact ⟨frame, List.mem_singleton.mp h⟩

theorem mapPhysPage_notes {flags : PageTableFlags} {x : Page × PhysFrame} {v : Vm pg} {n : Note}
    (h : n ∈ notes (mapPhysPage flags x v).events) : n = .mapRequest x.1 x.2 := by
  unfold mapPhysPage at h
  rw [notes_bind_quiet fun _ => notes_still (Comp.Still.ofExcept _)] at h
  exact List.mem_singleton.mp h

def MemoryCall.mapVirt (env : Env pg) (pos len perms : Nat) : KernelM pg SyscallError Unit := do
  let (startPage, endPage) ← parsePageRange env.arith pos len
  let t ← currentTask
  withGuard (.task t) .read do
    let task ← getTask t
    Comp.require (∃ x ∈ task.capabilities.handles, x.2.ctype = .mapVirtualToRam) .wrongCapability
    let flags ← Comp.ofExcept (memoryFlags perms)
    withGuard .frameAllocator .write
      (inTable task (Comp.forEach (Page.range env.arith startPage endPage)
        (mapVirtPage (flags ||| PageTableFlags.BIT_10))))

/-- The physical range of `map_phys`, before its capability check: the first and last
address, and the frames of the range. -/
def parseFrameRange (ar : Arith) (len physAt : Nat) :
    Comp σ κ SyscallError (PhysAddr × PhysAddr × PhysFrame × PhysFrame) := do
  let physFrom := PhysAddr.newTruncate physAt
  let sum ← Comp.unwrap (physFrom.add ar len)
  let physTo ← Comp.unwrap (sum.sub 1)
  let frame ← Comp.okOr (PhysFrame.fromStartAddress physFrom) .wrongParameters
  let after ← Comp.unwrap (physTo.add ar 1)
  let endFrame ← Comp.okOr (PhysFrame.fromStartAddress after) .wrongParameters
  return (physFrom, physTo, frame, endFrame)

theorem parseFrameRange_still (ar : Arith) (len physAt : Nat) :
    Comp.Still (parseFrameRange ar len physAt : Comp σ κ _ _) := by
  apply Comp.Still.bind (Comp.Still.unwrap _)
  intro sum
  apply Comp.Still.bind (Comp.Still.unwrap _)
  intro physTo
  apply Comp.Still.bind (Comp.Still.okOr _ _)
  intro frame
  apply Comp.Still.bind (Comp.Still.unwrap _)
  intro after
  apply Comp.Still.bind (Comp.Still.okOr _ _)
  intro endFrame
  exact Comp.Still.ret _

/-- The frames run from the first address to the one after the last. -/
theorem parseFrameRange_ok {ar : Arith} {len physAt : Nat} {s : σ} {p q : PhysAddr} {f g : PhysFrame} :
    (parseFrameRange ar len physAt s : Ran σ κ _ _).outcome = .ok (p, q, f, g) ↔
      p = PhysAddr.newTruncate physAt ∧ (∃ sum, p.add ar len = some sum ∧ sum.sub 1 = some q) ∧ f.start = p ∧
        q.add ar 1 = some g.start := by
  constructor
  · intro h
    unfold parseFrameRange at h
    obtain ⟨sum, hsum, h⟩ := (Comp.Still.unwrap _).bind_inv h
    obtain ⟨physTo, hto, h⟩ := (Comp.Still.unwrap _).bind_inv h
    obtain ⟨frame, hframe, h⟩ := (Comp.Still.okOr _ _).bind_inv h
    obtain ⟨after, hafter, h⟩ := (Comp.Still.unwrap _).bind_inv h
    obtain ⟨endFrame, hend, h⟩ := (Comp.Still.okOr _ _).bind_inv h
    cases h
    obtain ⟨hf, _⟩ := PhysFrame.fromStartAddress_cases (Comp.okOr_ok hframe)
    obtain ⟨hg, _⟩ := PhysFrame.fromStartAddress_cases (Comp.okOr_ok hend)
    rw [hg]
    exact ⟨rfl, ⟨sum, Comp.unwrap_ok hsum, Comp.unwrap_ok hto⟩, hf, Comp.unwrap_ok hafter⟩
  · rintro ⟨rfl, ⟨sum, hsum, hto⟩, hf, hg⟩
    have hframe : PhysFrame.fromStartAddress (PhysAddr.newTruncate physAt) = some f := hf ▸ dif_pos f.aligned
    have hend : PhysFrame.fromStartAddress g.start = some g := dif_pos g.aligned
    unfold parseFrameRange
    rw [hsum, Comp.unwrap_some, Comp.ret_bind, hto, Comp.unwrap_some, Comp.ret_bind, hframe, Comp.okOr_some,
      Comp.ret_bind, hg, Comp.unwrap_some, Comp.ret_bind, hend, Comp.okOr_some, Comp.ret_bind]
    rfl

theorem parseFrameRange_raw {ar : Arith} {len physAt : Nat} {s : σ} {p q : PhysAddr} {f g : PhysFrame}
    (h : (parseFrameRange ar len physAt s : Ran σ κ _ _).outcome = .ok (p, q, f, g)) :
    p.raw = physAt % 2 ^ 52 ∧ f.start.raw = physAt % 2 ^ 52 ∧ g.start.raw = q.raw + 1 := by
  obtain ⟨rfl, _, hstart, hend⟩ := parseFrameRange_ok.mp h
  have hq := q.bounded
  have hadd : q.add ar 1 = PhysAddr.new (q.raw + 1) := by
    unfold PhysAddr.add
    rw [Arith.add_of_lt ar (by omega), Option.bind_some]
  rw [hadd] at hend
  exact ⟨rfl, congrArg PhysAddr.raw hstart, (PhysAddr.new_cases hend).1⟩

/-- The capability covers the inclusive range. -/
def CapabilityType.covers (c : CapabilityType) (physFrom physTo : PhysAddr) : Prop :=
  match c with
  | .mapPhysical f t => f ≤ physFrom ∧ physTo ≤ t
  | _ => False

instance (c : CapabilityType) (p q : PhysAddr) : Decidable (c.covers p q) := by
  cases c <;> simp only [CapabilityType.covers] <;> infer_instance

def MemoryCall.mapPhys (env : Env pg) (virtAt virtLen perms physAt : Nat) : KernelM pg SyscallError Unit := do
  let (startPage, endPage) ← parsePageRange env.arith virtAt virtLen
  let (physFrom, physTo, frame, endFrame) ← parseFrameRange env.arith virtLen physAt
  let t ← currentTask
  withGuard (.task t) .read do
    let task ← getTask t
    Comp.require (∃ x ∈ task.capabilities.handles, x.2.ctype.covers physFrom physTo) .wrongCapability
    let flags ← Comp.ofExcept (memoryFlags perms)
    withGuard .frameAllocator .write
      (inTable task (Comp.forEach
        ((Page.range env.arith startPage endPage).zip (PhysFrame.range env.arith frame endFrame))
        (mapPhysPage flags)))

end Idkernel
