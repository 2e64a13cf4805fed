import Idkernel.Syscalls
import Idkernel.X86

/-!
# The way into the kernel and back

The entry routine changes to the kernel stack, pushes all registers, hands them
to the dispatcher as a record, and pops what the dispatcher has made of them.
-/
namespace Idkernel

open Intrusive X86

/-! ## The record of the saved registers -/

namespace AllSavedRegisters

/-- The layout in memory. -/
def words (regs : AllSavedRegisters) : List UInt64 :=
  [regs.rflags, regs.rax, regs.rbx, regs.rcx, regs.rdx, regs.rbp, regs.rsi, regs.rdi, regs.r8, regs.r9, regs.r10,
    regs.r11, regs.r12, regs.r13, regs.r14, regs.r15]

def ofWords : List UInt64 → AllSavedRegisters
  | [rflags, rax, rbx, rcx, rdx, rbp, rsi, rdi, r8, r9, r10, r11, r12, r13, r14, r15] =>
    ⟨rflags, rax, rbx, rcx, rdx, rbp, rsi, rdi, r8, r9, r10, r11, r12, r13, r14, r15⟩
  | _ => request 0 0 0

/-- The registers as they are. -/
def ofCpu (c : Cpu) : AllSavedRegisters where
  rflags := c.rflags
  rax := c.reg .rax
  rbx := c.reg .rbx
  rcx := c.reg .rcx
  rdx := c.reg .rdx
  rbp := c.reg .rbp
  rsi := c.reg .rsi
  rdi := c.reg .rdi
  r8 := c.reg .r8
  r9 := c.reg .r9
  r10 := c.reg .r10
  r11 := c.reg .r11
  r12 := c.reg .r12
  r13 := c.reg .r13
  r14 := c.reg .r14
  r15 := c.reg .r15

/-- The register file a record and a stack pointer make up. -/
def reg (regs : AllSavedRegisters) (rsp : UInt64) : Reg → UInt64
  | .rax => regs.rax
  | .rbx => regs.rbx
  | .rcx => regs.rcx
  | .rdx => regs.rdx
  | .rbp => regs.rbp
  | .rsi => regs.rsi
  | .rdi => regs.rdi
  | .rsp => rsp
  | .r8 => regs.r8
  | .r9 => regs.r9
  | .r10 => regs.r10
  | .r11 => regs.r11
  | .r12 => regs.r12
  | .r13 => regs.r13
  | .r14 => regs.r14
  | .r15 => regs.r15

end AllSavedRegisters

/-! ## `on_syscall_raw` -/

/-- `fs:[TCD + offset + 8]` -/
def tcdUserStackPointer : Nat := 8

def tcdKernelStackPointer : Nat := 16

def allRegs : List Reg := [.rax, .rbx, .rcx, .rdx, .rbp, .rsi, .rdi, .r8, .r9, .r10, .r11, .r12, .r13, .r14, .r15]

def saveAllRegs (c : Cpu) : Cpu := (c.pushAll allRegs).pushfq

def loadAllRegs (c : Cpu) : Cpu := c.popfq.popAll allRegs

/-- Up to the call; `swapgs` concerns nothing that is modelled. -/
def enterKernel (c : Cpu) : Cpu :=
  let c := c.setFs tcdUserStackPointer (c.reg .rsp)
  let c := c.mov .rsp (c.fs tcdKernelStackPointer)
  let c := saveAllRegs c
  c.mov .rdi (c.reg .rsp)

/-- From the return of the call on. -/
def leaveKernel (c : Cpu) : Cpu :=
  let c := loadAllRegs c
  let c := c.mov .rsp (c.fs tcdUserStackPointer)
  c.sysretq

/-- The record the dispatcher is given. -/
def savedFrame (c : Cpu) : AllSavedRegisters := .ofWords (X86.words c.memory (c.reg .rdi).toNat 16)

/-- A call that returns has left the stack pointer where it was and has written the record. The
rest of the machine is as it comes out, `left`. -/
def returned (c left : Cpu) (regs : AllSavedRegisters) : Cpu :=
  { left with
    reg := Function.update left.reg .rsp (c.reg .rsp)
    memory := setWords left.memory (c.reg .rsp).toNat regs.words }

def onSyscallRaw (result : Except SyscallError Reply) (left c : Cpu) : Cpu :=
  let c := enterKernel c
  leaveKernel (returned c left ((savedFrame c).answer result))

section Entry

variable {c left : Cpu}

theorem allRegs_plain : .rsp ∉ allRegs ∧ allRegs.Nodup ∧ allRegs.length = 15 := by decide

/-- The stack pointer lies sixteen words below the kernel stack pointer, under the registers. -/
theorem enterKernel_spec (hroom : 128 ≤ (c.fs tcdKernelStackPointer).toNat) :
    ((enterKernel c).reg .rsp).toNat = (c.fs tcdKernelStackPointer).toNat - 128 ∧
      savedFrame (enterKernel c) = .ofCpu c := by
  obtain ⟨hrsp, hnodup, hlength⟩ := allRegs_plain
  obtain ⟨c₁, hc₁⟩ :
      ∃ c₁, c₁ = (c.setFs tcdUserStackPointer (c.reg .rsp)).mov .rsp (c.fs tcdKernelStackPointer) :=
    ⟨_, rfl⟩
  have hsp₁ : c₁.reg .rsp = c.fs tcdKernelStackPointer := by rw [hc₁, Cpu.mov_self]
  have hreg₁ : ∀ r, r ≠ .rsp → c₁.reg r = c.reg r := fun r hr => by rw [hc₁, Cpu.mov_other _ _ hr]; rfl
  obtain ⟨hsp, _, hwords, _⟩ := Cpu.pushAll_spec (c := c₁) hrsp (by rw [hsp₁, hlength]; omega)
  rw [hsp₁, hlength] at hsp
  have hrun : enterKernel c = (saveAllRegs c₁).mov .rdi ((saveAllRegs c₁).reg .rsp) := by rw [hc₁]; rfl
  have hflags : (c₁.pushAll allRegs).rflags = c.rflags := by
    rw [(Cpu.pushAll_rest allRegs c₁).1, hc₁]
    rfl
  have hsp₂ : (saveAllRegs c₁).reg .rsp = (c₁.pushAll allRegs).reg .rsp - 8 := Cpu.push_rsp _ _
  have hsp₂' : ((c₁.pushAll allRegs).reg .rsp - 8).toNat = (c.fs tcdKernelStackPointer).toNat - 128 := by
    rw [Cpu.below (by omega)]
    omega
  have hmem₂ : (saveAllRegs c₁).memory =
      setWord (c₁.pushAll allRegs).memory ((c.fs tcdKernelStackPointer).toNat - 128) c.rflags := by
    rw [saveAllRegs, Cpu.pushfq, Cpu.push_memory, hflags, hsp₂']
  have hregs : X86.words (saveAllRegs c₁).memory ((c.fs tcdKernelStackPointer).toNat - 128 + 8) 15 =
    allRegs.map c.reg := by
    have hkept : X86.words (saveAllRegs c₁).memory ((c.fs tcdKernelStackPointer).toNat - 128 + 8) 15 =
        X86.words (c₁.pushAll allRegs).memory ((c₁.pushAll allRegs).reg .rsp).toNat allRegs.length := by
      have hat : ((c₁.pushAll allRegs).reg .rsp).toNat = (c.fs tcdKernelStackPointer).toNat - 128 + 8 := by omega
      rw [hat, hlength, hmem₂]
      exact words_congr fun x hx _ => setWord_outside (by omega)
    rw [hkept, hwords]
    exact List.map_congr_left fun r hr => hreg₁ r fun he => hrsp (he ▸ hr)
  constructor
  · rw [hrun, Cpu.mov_other _ _ (by decide), hsp₂, hsp₂']
  · have hall : X86.words (saveAllRegs c₁).memory ((c.fs tcdKernelStackPointer).toNat - 128) 16 =
        c.rflags :: allRegs.map c.reg := by
      rw [X86.words, hregs, hmem₂, word_setWord]
    have hframe : savedFrame (enterKernel c) = .ofWords (c.rflags :: allRegs.map c.reg) := by
      rw [savedFrame, hrun, Cpu.mov_self, Cpu.mov_memory, hsp₂, hsp₂', hall]
    rw [hframe]
    rfl

/-- All registers come from the record, but for the stack pointer. -/
theorem leaveKernel_spec {regs : AllSavedRegisters} (hroom : (c.reg .rsp).toNat + 128 < 2 ^ 64)
    (hframe : X86.words c.memory (c.reg .rsp).toNat 16 = regs.words) :
    (leaveKernel c).reg = regs.reg (c.fs tcdUserStackPointer) ∧ (leaveKernel c).rip = regs.rcx := by
  obtain ⟨hrsp, hnodup, hlength⟩ := allRegs_plain
  have hsp : (c.popfq.reg .rsp).toNat = (c.reg .rsp).toNat + 8 := by
    rw [Cpu.popfq_reg, Cpu.drop_rsp, Cpu.above (by omega)]
  obtain ⟨_, hregs, _, _⟩ := Cpu.popAll_spec (c := c.popfq) hrsp hnodup (by rw [hsp, hlength]; omega)
  have hfs : (loadAllRegs c).fs = c.fs := (Cpu.popAll_rest allRegs c.popfq).2.1
  have htail : allRegs.map (loadAllRegs c).reg = regs.words.tail := by
    rw [← hframe, loadAllRegs, hregs, hsp, hlength]
    rfl
  have hreg : ∀ r, r ≠ .rsp → (loadAllRegs c).reg r = regs.reg (c.fs tcdUserStackPointer) r := by
    simp only [allRegs, List.map_cons, List.map_nil, AllSavedRegisters.words, List.tail_cons,
      List.cons.injEq] at htail
    intro r hr
    cases r <;> simp_all [AllSavedRegisters.reg]
  have hall : (leaveKernel c).reg = regs.reg (c.fs tcdUserStackPointer) := by
    funext r
    have hmov : (leaveKernel c).reg = ((loadAllRegs c).mov .rsp
      ((loadAllRegs c).fs tcdUserStackPointer)).reg := rfl
    rw [hmov]
    by_cases hr : r = .rsp
    · rw [hr, Cpu.mov_self, hfs]
      rfl
    · rw [Cpu.mov_other _ _ hr, hreg r hr]
  exact ⟨hall, congrFun hall .rcx⟩

/-- The entry saves the user's stack pointer, and writes below the kernel's. -/
theorem enterKernel_rest (hroom : 128 ≤ (c.fs tcdKernelStackPointer).toNat) :
    (enterKernel c).fs = Function.update c.fs tcdUserStackPointer (c.reg .rsp) ∧
      ∀ x, x < (c.fs tcdKernelStackPointer).toNat - 128 ∨ (c.fs tcdKernelStackPointer).toNat ≤ x →
        (enterKernel c).memory x = c.memory x := by
  obtain ⟨hrsp, _, hlength⟩ := allRegs_plain
  obtain ⟨c₁, hc₁⟩ :
      ∃ c₁, c₁ = (c.setFs tcdUserStackPointer (c.reg .rsp)).mov .rsp (c.fs tcdKernelStackPointer) :=
    ⟨_, rfl⟩
  have hsp₁ : c₁.reg .rsp = c.fs tcdKernelStackPointer := by rw [hc₁, Cpu.mov_self]
  have hrun : enterKernel c = (saveAllRegs c₁).mov .rdi ((saveAllRegs c₁).reg .rsp) := by rw [hc₁]; rfl
  obtain ⟨hsp, _, _, hframe⟩ := Cpu.pushAll_spec (c := c₁) hrsp (by rw [hsp₁, hlength]; omega)
  rw [hsp₁, hlength] at hsp hframe
  constructor
  · have hfs : (c₁.pushAll allRegs).fs = c₁.fs := (Cpu.pushAll_rest allRegs c₁).2.1
    have hsaved : (enterKernel c).fs = (c₁.pushAll allRegs).fs := by rw [hrun]; rfl
    rw [hsaved, hfs, hc₁]
    rfl
  · intro x hx
    have hbelow : ((c₁.pushAll allRegs).reg .rsp - 8).toNat = (c.fs tcdKernelStackPointer).toNat - 128 := by
      rw [Cpu.below (by omega)]
      omega
    rw [hrun, Cpu.mov_memory, saveAllRegs, Cpu.pushfq, Cpu.push_memory, hbelow, setWord_outside (by omega),
      hframe x (by omega), hc₁]
    rfl

/-- The way back restores the stack pointer from the thread data. -/
theorem leaveKernel_rest (c : Cpu) : (leaveKernel c).reg .rsp = c.fs tcdUserStackPointer ∧
    (leaveKernel c).fs = c.fs ∧ (leaveKernel c).memory = c.memory := by
  obtain ⟨d, hd⟩ : ∃ d, d = loadAllRegs c := ⟨_, rfl⟩
  have hfs : d.fs = c.fs := by rw [hd]; exact (Cpu.popAll_rest allRegs c.popfq).2.1
  have hmem : d.memory = c.memory := by rw [hd]; exact (Cpu.popAll_rest allRegs c.popfq).2.2
  have hrun : leaveKernel c = (d.mov .rsp (d.fs tcdUserStackPointer)).sysretq := by rw [hd]; rfl
  rw [hrun, ← hfs, ← hmem]
  refine ⟨?_, rfl, rfl⟩
  rw [Cpu.sysretq_reg, Cpu.mov_self]

theorem returned_rsp (c left : Cpu) (regs : AllSavedRegisters) :
    (returned c left regs).reg .rsp = c.reg .rsp := by
  simp only [returned, Function.update_self]

theorem returned_words (c left : Cpu) (regs : AllSavedRegisters) :
    X86.words (returned c left regs).memory (c.reg .rsp).toNat 16 = regs.words := words_setWords _ _ regs.words

/-- A syscall brings back the record the dispatcher has answered, and the stack pointer the thread
data holds in the end. -/
theorem onSyscallRaw_reg {result : Except SyscallError Reply} (hroom : 128 ≤ (c.fs tcdKernelStackPointer).toNat) :
    (onSyscallRaw result left c).reg =
      ((AllSavedRegisters.ofCpu c).answer result).reg (left.fs tcdUserStackPointer) := by
  obtain ⟨hsp, hframe⟩ := enterKernel_spec hroom
  have hlt := (c.fs tcdKernelStackPointer).toNat_lt
  rw [onSyscallRaw, hframe]
  refine (leaveKernel_spec ?_ ?_).1
  · rw [returned_rsp]
    omega
  · rw [returned_rsp]
    exact returned_words _ _ _

end Entry

end Idkernel
