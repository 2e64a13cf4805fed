import Idkernel.SyscallEntry

/-!
# The user stubs

A stub puts the selector and its arguments into registers, executes `syscall`,
and reads its results from registers. The assembly block names as outputs only
the registers of the results, although the instruction itself also overwrites
`rcx` and `r11`.
-/
namespace Idkernel

open Traced X86

/-! ## `create_syscall` -/

def REGISTRIES : List Reg := [.rdi, .rsi, .rdx, .r10, .r8, .r9]

/-- The macro refuses to compile more arguments or results. -/
structure Stub where
  selector : SyscallCode
  argCount : Nat
  retCount : Nat
  argBound : argCount ≤ REGISTRIES.length - 1
  retBound : retCount ≤ REGISTRIES.length - 1

def createSyscall (selector : SyscallCode) (argCount retCount : Nat)
    (argBound : argCount ≤ REGISTRIES.length - 1 := by decide)
    (retBound : retCount ≤ REGISTRIES.length - 1 := by decide) : Stub :=
  ⟨selector, argCount, retCount, argBound, retBound⟩

def rawExit : Stub := createSyscall .exit 0 0
def rawYield : Stub := createSyscall .yield 0 0
def rawFsOpen : Stub := createSyscall .fsOpen 3 1
def rawFsHandleSeek : Stub := createSyscall .fsHandleSeek 2 0
def rawFsHandleRead : Stub := createSyscall .fsHandleRead 3 1
def rawFsHandleClose : Stub := createSyscall .fsHandleClose 1 0
def rawCapabilityClone : Stub := createSyscall .capabilityClone 1 1
def rawCapabilityInspect : Stub := createSyscall .capabilityInspect 2 2
def rawCapabilityRestrict : Stub := createSyscall .capabilityRestrict 3 0
def rawCapabilityDrop : Stub := createSyscall .capabilityDrop 1 0
def rawProcessMyPid : Stub := createSyscall .processMyPid 0 1
def rawProcessSpawn : Stub := createSyscall .processSpawn 0 1
def rawProcessCapShare : Stub := createSyscall .processCapShare 2 0
def rawProcessCapTransfer : Stub := createSyscall .processCapTransfer 2 0
def rawProcessExec : Stub := createSyscall .processExec 2 0
def rawMemoryMapVirt : Stub := createSyscall .memoryMapVirt 3 0
def rawMemoryMapPhys : Stub := createSyscall .memoryMapPhys 4 0

def rawStubs : List Stub :=
  [rawExit, rawYield, rawFsOpen, rawFsHandleSeek, rawFsHandleRead, rawFsHandleClose, rawCapabilityClone,
    rawCapabilityInspect, rawCapabilityRestrict, rawCapabilityDrop, rawProcessMyPid, rawProcessSpawn,
    rawProcessCapShare, rawProcessCapTransfer, rawProcessExec, rawMemoryMapVirt, rawMemoryMapPhys]

/-- The discriminants of the enumeration. -/
def SyscallCode.code : SyscallCode → Nat
  | .exit => 0x0
  | .yield => 0x1
  | .capabilityClone => 0x100
  | .capabilityInspect => 0x101
  | .capabilityRestrict => 0x102
  | .capabilityDrop => 0x103
  | .fsOpen => 0x200
  | .fsHandleSeek => 0x201
  | .fsHandleRead => 0x202
  | .fsHandleWrite => 0x203
  | .fsHandleClose => 0x204
  | .conversationCreateP2p => 0x300
  | .conversationCreatePublic => 0x301
  | .conversationTalk => 0x302
  | .conversationCapShare => 0x303
  | .conversationCapTransfer => 0x304
  | .processMyPid => 0x400
  | .processSpawn => 0x401
  | .processCapShare => 0x402
  | .processCapTransfer => 0x403
  | .processExec => 0x404
  | .memoryMapVirt => 0x500
  | .memoryMapPhys => 0x501
  | .memoryEditPerms => 0x502
  | .memoryUnmap => 0x503

def SyscallError.tryFrom (n : Nat) : Option SyscallError :=
  [.unknownSyscall, .notImplemented, .wrongParameters, .noMemory, .stringNotUtf8, .invalidPath, .wrongDescriptor,
    .fsNotSeekable, .fsSeekOutOfRange, .fsNotExecutable, .wrongCapability, .wrongCapabilityPerms, .wrongProcess,
    .memoryAlreadyMapped, .unknownError].find? fun e => e.code = n

namespace Stub

/-- The registers the block is entered with. -/
def inputs (stub : Stub) (args : List UInt64) (c : Cpu) : Cpu :=
  Cpu.movAll (REGISTRIES.zip args) (c.mov .rax (UInt64.ofNat stub.selector.code))

/-- The registers the block declares as outputs; it declares no others as clobbered. -/
def outputs (stub : Stub) : List Reg := .rax :: REGISTRIES.take stub.retCount

/-- What the stub makes of the registers after the block. -/
def result (stub : Stub) (c : Cpu) : Except SyscallError (List UInt64) :=
  if c.reg .rax ≠ 0 then .error ((SyscallError.tryFrom (c.reg .rax).toNat).getD .unknownError)
  else .ok ((REGISTRIES.take stub.retCount).map c.reg)

end Stub

def Reply.components (reply : Reply) : List Nat := reply.rdi.toList ++ reply.rsi.toList

/-! ## Numbers -/

theorem SyscallCode.tryFrom_code (code : SyscallCode) : tryFrom code.code = some code := by
  cases code <;> rfl

theorem SyscallCode.code_lt (code : SyscallCode) : code.code < 2 ^ 64 := by
  cases code <;> decide

theorem SyscallError.tryFrom_code (e : SyscallError) : tryFrom e.code = some e := by
  cases e <;> decide

theorem SyscallError.code_bounds (e : SyscallError) : e.code ≠ 0 ∧ e.code < 2 ^ 64 := by
  cases e <;> decide

/-! ## What handlers answer -/

/-- How many values a service answers with. -/
def Service.results : Service → Nat
  | .mypid | .handler (.clone _) | .handler .spawn | .handler (.openPath ..) | .handler (.read ..) => 1
  | .handler (.inspect ..) => 2
  | _ => 0

/-- They are in `rdi` and then in `rsi`. -/
def Reply.Counts (reply : Reply) (n : Nat) : Prop :=
  n = 0 ∧ reply = {} ∨ (∃ x, n = 1 ∧ reply = { rdi := some x }) ∨ ∃ x y, n = 2 ∧
    reply = { rdi := some x, rsi := some y }

variable {pg : Paging} {ε : Type}

theorem Reply.Counts.none {m : KernelM pg SyscallError Unit} {k : Kernel pg} {reply : Reply}
    (h : ((do m; return {} : KernelM pg SyscallError Reply) k).outcome = .ok reply) : reply.Counts 0 := by
  obtain ⟨_, _, h⟩ := Comp.bind_inv h
  cases h
  exact .inl ⟨rfl, rfl⟩

theorem Reply.Counts.one {α : Type} {m : KernelM pg SyscallError α} {f : α → Nat} {k : Kernel pg} {reply : Reply}
    (h : ((do return { rdi := some (f (← m)) } : KernelM pg SyscallError Reply) k).outcome = .ok reply) :
    reply.Counts 1 := by
  obtain ⟨a, _, h⟩ := Comp.bind_inv h
  cases h
  exact .inr (.inl ⟨f a, rfl, rfl⟩)

theorem Handler.counts {env : Env pg} {handler : Handler} {k : Kernel pg} {reply : Reply}
    (h : (handler.call env k).outcome = .ok reply) : reply.Counts (Service.handler handler).results := by
  cases handler with
  | inspect what index =>
    obtain ⟨⟨x, y⟩, _, h⟩ := Comp.bind_inv h
    cases h
    exact .inr (.inr ⟨x, y, rfl, rfl⟩)
  | clone capHandle => exact .one (f := id) h
  | spawn => exact .one (f := TaskId.raw) h
  | openPath pathPtr pathLen mode => exact .one (f := FileDescriptor.raw) h
  | read fd pos length => exact .one (f := List.length) h
  | restrict handle a b => exact .none h
  | cdrop handle => exact .none h
  | processShareTransfer proc capHandle transfer => exact .none h
  | exec procId fd => exact .none h
  | seek fd index => exact .none h
  | close fd => exact .none h
  | mapVirt pos len perms => exact .none h
  | mapPhys virtAt virtLen perms physAt => exact .none h

theorem Service.counts {env : Env pg} {service : Service} {k : Kernel pg} {reply : Reply}
    (h : (service.call env k).outcome = .ok reply) : reply.Counts service.results := by
  cases service with
  | handler handler => exact Handler.counts h
  | mypid => exact .one (f := TaskId.raw) h
  | unknown => cases h
  | unmap =>
    cases h
    exact .inl ⟨rfl, rfl⟩
  | yield =>
    obtain ⟨_, _, h⟩ := Comp.bind_inv h
    cases h
    exact .inl ⟨rfl, rfl⟩
  | exit =>
    obtain ⟨_, _, h⟩ := Comp.bind_inv h
    obtain ⟨_, _, h⟩ := Comp.bind_inv h
    cases h
    exact .inl ⟨rfl, rfl⟩

/-! ## A call -/

namespace Stub

/-- The machine right after the instruction. -/
def trapped (stub : Stub) (args : List UInt64) (entry mask : UInt64) (c : Cpu) : Cpu :=
  (stub.inputs args c).syscall entry mask

/-- The machine after the block, for what the kernel answers and how it leaves the machine. -/
def block (stub : Stub) (args : List UInt64) (entry mask : UInt64) (result : Except SyscallError Reply)
    (left c : Cpu) : Cpu :=
  onSyscallRaw result left (stub.trapped args entry mask c)

/-- The record the dispatcher works on. -/
def record (stub : Stub) (args : List UInt64) (entry mask : UInt64) (c : Cpu) : AllSavedRegisters :=
  savedFrame (enterKernel (stub.trapped args entry mask c))

/-- The arguments arrive in order, the answer comes back as it was, and registers that are not
outputs are as before the instruction. -/
structure Agrees (stub : Stub) (args : List UInt64) (entry mask : UInt64) (result : Except SyscallError Reply)
    (left c : Cpu) : Prop where
  delivered : (stub.record args entry mask c).service = stub.selector.service (args.getD 0 0).toNat
    (args.getD 1 0).toNat (args.getD 2 0).toNat (args.getD 3 0).toNat
  returned : stub.result (stub.block args entry mask result left c) =
    result.map fun reply => reply.components.map UInt64.ofNat
  preserved : ∀ r, r ∉ stub.outputs → (stub.block args entry mask result left c).reg r =
    (stub.inputs args c).reg r

theorem args_suffice {stub : Stub} (h : stub ∈ rawStubs) {f g : Nat → Nat}
    (hfg : ∀ i < stub.argCount, f i = g i) :
    stub.selector.service (f 0) (f 1) (f 2) (f 3) = stub.selector.service (g 0) (g 1) (g 2) (g 3) := by
  simp only [rawStubs, List.mem_cons, List.not_mem_nil, or_false] at h
  rcases h with rfl | rfl | rfl | rfl | rfl | rfl | rfl | rfl | rfl | rfl | rfl | rfl | rfl | rfl | rfl |
    rfl | rfl
  all_goals
    have h₀ := hfg 0
    have h₁ := hfg 1
    have h₂ := hfg 2
    have h₃ := hfg 3
    simp_all [SyscallCode.service, rawExit, rawYield, rawFsOpen, rawFsHandleSeek, rawFsHandleRead,
      rawFsHandleClose,
      rawCapabilityClone, rawCapabilityInspect, rawCapabilityRestrict, rawCapabilityDrop, rawProcessMyPid,
      rawProcessSpawn, rawProcessCapShare, rawProcessCapTransfer, rawProcessExec, rawMemoryMapVirt,
        rawMemoryMapPhys,
      createSyscall]

theorem results_match {stub : Stub} (h : stub ∈ rawStubs) (a b c d : Nat) :
    (stub.selector.service a b c d).results = stub.retCount := by
  simp only [rawStubs, List.mem_cons, List.not_mem_nil, or_false] at h
  rcases h with rfl | rfl | rfl | rfl | rfl | rfl | rfl | rfl | rfl | rfl | rfl | rfl | rfl | rfl | rfl |
    rfl | rfl
  all_goals rfl

section Calls

variable {stub : Stub} {args : List UInt64} {entry mask : UInt64} {result : Except SyscallError Reply}
    {left c : Cpu}

theorem zip_fst_sublist {α β : Type} (l : List α) (l' : List β) : ((l.zip l').map Prod.fst).Sublist l := by
  induction l generalizing l' with
  | nil => simp
  | cons a l ih =>
    cases l' with
    | nil => simp
    | cons b l' => simpa using ih l'

/-- The arguments are in their registers, the selector is in `rax`, and the rest is as before. -/
theorem inputs_spec (hargs : args.length = stub.argCount) :
    (∀ i r, i < stub.argCount → REGISTRIES[i]? = some r → (stub.inputs args c).reg r = args.getD i 0) ∧
      (stub.inputs args c).reg .rax = UInt64.ofNat stub.selector.code ∧
      (∀ r, r ≠ .rax → r ∉ REGISTRIES → (stub.inputs args c).reg r = c.reg r) ∧
      (stub.inputs args c).rflags = c.rflags ∧ (stub.inputs args c).fs = c.fs ∧
      (stub.inputs args c).rip = c.rip := by
  have hsub := zip_fst_sublist REGISTRIES args
  have hnodup : ((REGISTRIES.zip args).map Prod.fst).Nodup := hsub.nodup (by decide)
  obtain ⟨hin, hout⟩ := Cpu.movAll_spec hnodup (c.mov .rax (UInt64.ofNat stub.selector.code))
  refine ⟨?_, ?_, ?_, Cpu.movAll_rest _ _⟩
  · intro i r hi hr
    have hlt : i < args.length := by omega
    have harg : args[i]? = some (args.getD i 0) := by
      rw [List.getD_eq_getElem _ _ hlt, List.getElem?_eq_getElem hlt]
    exact hin (r, args.getD i 0) (List.mem_of_getElem? (List.getElem?_zip_eq_some.mpr ⟨hr, harg⟩))
  · have hrax : Reg.rax ∉ (REGISTRIES.zip args).map Prod.fst := fun h => absurd (hsub.subset h) (by decide)
    rw [inputs, hout _ hrax, Cpu.mov_self]
  · intro r hrax hr
    rw [inputs, hout r (fun h => hr (hsub.subset h)), Cpu.mov_other _ _ hrax]

/-- The record holds the registers of the block, but for the two the instruction writes. -/
theorem record_spec (entry mask : UInt64) (hargs : args.length = stub.argCount)
    (hroom : 128 ≤ (c.fs tcdKernelStackPointer).toNat) :
    stub.record args entry mask c = .ofCpu (stub.trapped args entry mask c) ∧
      (stub.trapped args entry mask c).reg .rcx = c.rip ∧ (stub.trapped args entry mask c).reg .r11 = c.rflags ∧
      ∀ r, r ≠ .rcx → r ≠ .r11 → (stub.trapped args entry mask c).reg r = (stub.inputs args c).reg r := by
  obtain ⟨_, _, _, hflags, hfs, hrip⟩ := inputs_spec (c := c) hargs
  have htrapped : (stub.trapped args entry mask c).fs = (stub.inputs args c).fs := rfl
  refine ⟨(enterKernel_spec (by rw [htrapped, hfs]; exact hroom)).2, ?_, ?_, ?_⟩
  · rw [← hrip]
    rfl
  · rw [← hflags]
    rfl
  · intro r hrcx hr11
    exact (Cpu.mov_other _ _ hr11).trans (Cpu.mov_other _ _ hrcx)

theorem block_reg (entry mask : UInt64) (result : Except SyscallError Reply) (left : Cpu)
    (hargs : args.length = stub.argCount) (hroom : 128 ≤ (c.fs tcdKernelStackPointer).toNat) :
    (stub.block args entry mask result left c).reg =
      ((AllSavedRegisters.ofCpu (stub.trapped args entry mask c)).answer result).reg
      (left.fs tcdUserStackPointer) := by
  obtain ⟨_, _, _, _, hfs, _⟩ := inputs_spec (c := c) hargs
  have htrapped : (stub.trapped args entry mask c).fs = (stub.inputs args c).fs := rfl
  exact onSyscallRaw_reg (by rw [htrapped, hfs]; exact hroom)

theorem delivers (entry mask : UInt64) (hstub : stub ∈ rawStubs) (hargs : args.length = stub.argCount)
    (hroom : 128 ≤ (c.fs tcdKernelStackPointer).toNat) :
    (stub.record args entry mask c).service = stub.selector.service (args.getD 0 0).toNat (args.getD 1 0).toNat
      (args.getD 2 0).toNat (args.getD 3 0).toNat := by
  obtain ⟨hrecord, _, _, hreg⟩ := record_spec entry mask hargs hroom
  obtain ⟨hin, hrax, _⟩ := inputs_spec (c := c) hargs
  have hselector :
      SyscallCode.tryFrom ((stub.trapped args entry mask c).reg .rax).toNat = some stub.selector := by
    have hcode : (UInt64.ofNat stub.selector.code).toNat = stub.selector.code :=
      UInt64.toNat_ofNat_of_lt stub.selector.code_lt
    rw [hreg _ (by decide) (by decide), hrax, hcode, SyscallCode.tryFrom_code]
  have hservice : (stub.record args entry mask c).service =
      stub.selector.service ((stub.inputs args c).reg .rdi).toNat ((stub.inputs args c).reg .rsi).toNat
        ((stub.inputs args c).reg .rdx).toNat ((stub.inputs args c).reg .r10).toNat := by
    simp only [hrecord, AllSavedRegisters.service, AllSavedRegisters.ofCpu, hselector]
    rw [hreg _ (by decide) (by decide), hreg _ (by decide) (by decide), hreg _ (by decide) (by decide),
      hreg _ (by decide) (by decide)]
  rw [hservice]
  refine args_suffice (f := fun i => ((stub.inputs args c).reg (REGISTRIES.getD i .rax)).toNat)
    (g := fun i => (args.getD i 0).toNat) hstub fun i hi => ?_
  have hbound : i < REGISTRIES.length := by
    have hmax := stub.argBound
    omega
  rw [List.getD_eq_getElem _ _ hbound, hin i _ hi (List.getElem?_eq_getElem hbound)]

theorem ofCpu_reg {t : Cpu} {u : UInt64} {r : Reg} (hr : r ≠ .rsp) :
    (AllSavedRegisters.ofCpu t).reg u r = t.reg r := by
  cases r with
  | rsp => exact absurd rfl hr
  | _ => rfl

/-- An answer with `n` values writes `rax` and the first `n` registers. -/
theorem answer_reg {regs : AllSavedRegisters} {u : UInt64} {n : Nat}
    (hcounts : ∀ reply, result = .ok reply → reply.Counts n) {r : Reg} (hr : r ∉ Reg.rax :: REGISTRIES.take n) :
    (regs.answer result).reg u r = regs.reg u r := by
  cases result with
  | error e =>
    cases r with
    | rax => simp at hr
    | _ => rfl
  | ok reply =>
    obtain ⟨rfl, rfl⟩ | ⟨x, rfl, rfl⟩ | ⟨x, y, rfl, rfl⟩ := hcounts reply rfl
    all_goals
      simp only [REGISTRIES, List.take_succ_cons, List.take_zero, List.mem_cons, List.not_mem_nil,
        or_false, not_or] at hr
      cases r <;> simp_all [AllSavedRegisters.answer, AllSavedRegisters.reg]

/-- The stub returns what the handler has answered. -/
theorem returns (hargs : args.length = stub.argCount) (hroom : 128 ≤ (c.fs tcdKernelStackPointer).toNat)
    (hcounts : ∀ reply, result = .ok reply → reply.Counts stub.retCount) :
    stub.result (stub.block args entry mask result left c) =
      result.map fun reply => reply.components.map UInt64.ofNat := by
  have hreg := block_reg entry mask result left hargs hroom
  cases result with
  | error e =>
    obtain ⟨hne, hlt⟩ := e.code_bounds
    have hcode : (UInt64.ofNat e.code).toNat = e.code := UInt64.toNat_ofNat_of_lt hlt
    have hrax : (stub.block args entry mask (.error e) left c).reg .rax = UInt64.ofNat e.code := by
      rw [hreg]
      rfl
    have hnonzero : UInt64.ofNat e.code ≠ 0 := by
      intro hzero
      rw [hzero] at hcode
      exact hne hcode.symm
    rw [result, hrax, if_pos hnonzero, hcode, SyscallError.tryFrom_code]
    rfl
  | ok reply =>
    have hrax : (stub.block args entry mask (.ok reply) left c).reg .rax = 0 := by
      rw [hreg]
      rfl
    rw [result, hrax, if_neg (not_not.mpr rfl), hreg]
    obtain ⟨hn, rfl⟩ | ⟨x, hn, rfl⟩ | ⟨x, y, hn, rfl⟩ := hcounts reply rfl
    · rw [hn]
      rfl
    · rw [hn]
      rfl
    · rw [hn]
      rfl

/-- Whatever the answer is, `rcx` comes back as the return address. -/
theorem block_rcx (hargs : args.length = stub.argCount) (hroom : 128 ≤ (c.fs tcdKernelStackPointer).toNat) :
    (stub.block args entry mask result left c).reg .rcx = c.rip := by
  obtain ⟨_, hrcx, _⟩ := record_spec entry mask hargs hroom
  rw [block_reg entry mask result left hargs hroom, ← hrcx]
  cases result <;> rfl

end Calls

/-- The stubs and the kernel agree exactly when the two registers of the instruction happen to hold
what it writes to them, and the thread data still has the caller's stack pointer. -/
theorem stub_agrees_iff {stub : Stub} (hstub : stub ∈ rawStubs) {args : List UInt64}
    (hargs : args.length = stub.argCount) {c : Cpu} (hroom : 128 ≤ (c.fs tcdKernelStackPointer).toNat)
    (entry mask : UInt64) (left : Cpu) {env : Env pg} {k : Kernel pg} {result : Except SyscallError Reply}
    (hresult : ((stub.record args entry mask c).service.call env k).outcome = .ofExcept result) :
    stub.Agrees args entry mask result left c ↔
      c.reg .rcx = c.rip ∧ c.reg .r11 = c.rflags ∧ left.fs tcdUserStackPointer = c.reg .rsp := by
  have hdelivered := delivers entry mask hstub hargs hroom
  have hcounts : ∀ reply, result = .ok reply → reply.Counts stub.retCount := by
    rintro reply rfl
    have hshape := Service.counts hresult
    rwa [hdelivered, results_match hstub] at hshape
  obtain ⟨_, hrcx, hr11, htrapped⟩ := record_spec entry mask hargs hroom
  obtain ⟨_, _, hkept, _⟩ := inputs_spec (c := c) hargs
  have hreg := block_reg entry mask result left hargs hroom
  have hout : ∀ r, r ∉ Reg.rax :: REGISTRIES → r ∉ stub.outputs := fun r hr hin =>
    hr (List.cons_subset_cons _ (List.take_subset _ _) hin)
  have hafter : ∀ r, r ∉ stub.outputs → (stub.block args entry mask result left c).reg r =
      (AllSavedRegisters.ofCpu (stub.trapped args entry mask c)).reg (left.fs tcdUserStackPointer) r :=
    fun r hr => (congrFun hreg r).trans (answer_reg hcounts hr)
  constructor
  · intro h
    have hpreserved : ∀ r, r ∉ Reg.rax :: REGISTRIES →
        (AllSavedRegisters.ofCpu (stub.trapped args entry mask c)).reg (left.fs tcdUserStackPointer) r =
          c.reg r := by
      intro r hr
      obtain ⟨hrax, hr'⟩ := not_or.mp (fun hin => hr (List.mem_cons.mpr hin))
      rw [← hafter r (hout r hr), h.preserved r (hout r hr), hkept r hrax hr']
    exact ⟨(hpreserved .rcx (by decide)).symm.trans hrcx, (hpreserved .r11 (by decide)).symm.trans hr11,
      hpreserved .rsp (by decide)⟩
  · rintro ⟨hcx, h11, hsp⟩
    refine ⟨hdelivered, returns hargs hroom hcounts, fun r hr => ?_⟩
    rw [hafter r hr]
    by_cases hrsp : r = .rsp
    · subst hrsp
      exact hsp.trans (hkept _ (by decide) (by decide)).symm
    rw [ofCpu_reg hrsp]
    by_cases hrc : r = .rcx
    · subst hrc
      rw [hrcx, hkept _ (by decide) (by decide), hcx]
    by_cases hr1 : r = .r11
    · subst hr1
      rw [hr11, hkept _ (by decide) (by decide), h11]
    exact htrapped r hrc hr1

/-! ## One stub -/

/-- A caller whose `rcx` holds this value. -/
def userCpu (rcx : UInt64) : Cpu where
  reg := fun
    | .rcx => rcx
    | .r11 => 0x202
    | .rsp => 0x4000FF80
    | _ => 0
  rflags := 0x202
  rip := 0x400010
  cr3 := 0
  fs offset := if offset = tcdKernelStackPointer then 0xFFFFC00000010000 else 0x4000FF80
  memory := fun _ => 0

theorem mypid_answers (rcx : UInt64) : ((rawProcessMyPid.record [] 0 0 (userCpu rcx)).service.call Env.plain
    (Kernel.family ⟨1, []⟩)).outcome = .ofExcept (.ok { rdi := some 2 }) := by
  have hroom : 128 ≤ ((userCpu 0).fs tcdKernelStackPointer).toNat := by decide
  rw [delivers _ _ (c := userCpu rcx) (by simp [rawStubs]) rfl hroom]
  rfl

theorem stub_agrees_iff_mypid : rawProcessMyPid.Agrees [] 0 0 (.ok { rdi := some 2 }) (userCpu 0)
    (userCpu 0x400010) ↔
    (userCpu 0x400010).reg .rcx = (userCpu 0x400010).rip ∧
      (userCpu 0x400010).reg .r11 = (userCpu 0x400010).rflags ∧
      (userCpu 0).fs tcdUserStackPointer = (userCpu 0x400010).reg .rsp :=
  stub_agrees_iff (by simp [rawStubs]) rfl (by decide) 0 0 (userCpu 0) (mypid_answers 0x400010)

/-- A caller that keeps a number in `rcx` finds an address there. -/
theorem stub_clobbers_rcx : ((rawProcessMyPid.record [] 0 0 (userCpu 7)).service.call Env.plain
      (Kernel.family ⟨1, []⟩)).outcome = .ofExcept (.ok { rdi := some 2 }) ∧
    (rawProcessMyPid.block [] 0 0 (.ok { rdi := some 2 }) (userCpu 0) (userCpu 7)).reg .rcx = 0x400010 ∧
    ¬ rawProcessMyPid.Agrees [] 0 0 (.ok { rdi := some 2 }) (userCpu 0) (userCpu 7) := by
  have hrcx :
      (rawProcessMyPid.block [] 0 0 (.ok { rdi := some 2 }) (userCpu 0) (userCpu 7)).reg .rcx = 0x400010 :=
    block_rcx rfl (by decide)
  refine ⟨mypid_answers 7, hrcx, fun h => ?_⟩
  have hkept := h.preserved .rcx (by decide)
  rw [hrcx] at hkept
  exact absurd hkept (by decide)

end Stub

end Idkernel
