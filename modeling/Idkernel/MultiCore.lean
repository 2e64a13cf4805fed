import Mathlib.Algebra.Group.Nat.Defs
import Mathlib.Data.List.Basic
import Mathlib.Logic.Function.Basic
import Idkernel.Runs
import Idkernel.ThreadData

/-!
# Starting the other processors

The boot processor shows one page to the others and starts them one at a time.
It and they share the words of that page and a flag. Interprocessor interrupts
arrive in the order in which they were sent. Nothing keeps the frame of that
page from the heap.
-/
namespace Idkernel

open Address Traced

namespace MultiCore

/-! ## The trampoline page -/

def TRAMPOLINE_ADDR : Nat := 0x8000
def STACK_SIZE : Nat := 128 * 1024

def trampolinePage : Page := ⟨⟨TRAMPOLINE_ADDR, by decide⟩, by decide⟩
def trampolineFrame : PhysFrame := frameAt 8 (by decide)

/-- `identity_map`, and the `unwrap` behind it -/
def identityMap {pg : Paging} : VmM pg Empty Unit := do
  let flags := PageTableFlags.PRESENT ||| PageTableFlags.WRITABLE
  let mapped ← mapTo trampolinePage trampolineFrame flags flags
  Comp.expect (mapped.isOk = true)

namespace Trampoline

/-- The words behind the first jump. -/
def ready : Nat := TRAMPOLINE_ADDR + 8
def cpuId : Nat := TRAMPOLINE_ADDR + 16
def pageTable : Nat := TRAMPOLINE_ADDR + 24
def stackStart : Nat := TRAMPOLINE_ADDR + 32
def stackEnd : Nat := TRAMPOLINE_ADDR + 40
def code : Nat := TRAMPOLINE_ADDR + 48

end Trampoline

/-! ## Interrupts between processors -/

/-- `icr` in `init_ap_processor`, with the bits that the shift drops. -/
def icr (isVer2 : Bool) (command id : Nat) : Nat :=
  if isVer2 then command ||| id <<< 32 else command ||| (id <<< 56) % 2 ^ 64

structure Ipi where
  dest : Nat
  mode : Nat
  vector : Nat
  deriving DecidableEq, Repr

/-- How the local APIC reads its Interrupt Command Register. -/
def Ipi.decode (isVer2 : Bool) (value : Nat) : Ipi where
  dest := if isVer2 then value / 2 ^ 32 else value / 2 ^ 56
  mode := value / 2 ^ 8 % 8
  vector := value % 2 ^ 8

/-- The destination that all processors take for theirs. -/
def broadcast (isVer2 : Bool) : Nat := if isVer2 then 2 ^ 32 - 1 else 2 ^ 8 - 1

def Ipi.accepted (isVer2 : Bool) (ipi : Ipi) (id : Nat) : Prop := ipi.dest = id ∨ ipi.dest = broadcast isVer2

instance (isVer2 : Bool) (ipi : Ipi) (id : Nat) : Decidable (ipi.accepted isVer2 id) :=
  inferInstanceAs (Decidable (_ ∨ _))

/-! ## Processors -/

inductive ProcessorState where
  | disabled | waitingForSipi | running
  deriving DecidableEq, Repr

structure Processor where
  processorUid : Nat
  localApicId : Nat
  state : ProcessorState
  deriving DecidableEq, Repr

/-- Where a processor is: `running` is the boot processor, the places from `startup` to `jump` are in
the trampoline, those from `initIdt` in `kstart_ap`. -/
inductive Pc where
  | off | running | waitForSipi
  | startup | paging | stack | args | entry | signal | jump
  | initIdt | threadData | announce | publish | spin | started
  | lost | panicked
  deriving DecidableEq, Repr

structure Cpu where
  pc : Pc
  cr3 : Nat
  rsp : Nat
  rdi : Nat
  rax : Nat
  /-- The number that its thread data was set up for. -/
  threadData : Option Nat
  announced : Option Nat
  deriving DecidableEq, Repr

def Cpu.blank (pc : Pc) : Cpu := ⟨pc, 0, 0, 0, 0, none, none⟩

/-- INIT resets whatever it reaches, and a start is only taken after a reset. -/
def Cpu.receive (c : Cpu) (ipi : Ipi) : Cpu :=
  match ipi.mode with
  | 5 => Cpu.blank .waitForSipi
  | 6 =>
    if c.pc ≠ .waitForSipi then c
    else if ipi.vector * 4096 = TRAMPOLINE_ADDR then { c with pc := .startup }
    else { c with pc := .lost }
  | _ => c

/-! ## The program of the boot processor -/

structure Platform where
  isVer2 : Bool
  bsp : Nat
  /-- The frame in its `Cr3`. -/
  table : Nat
  kstartAp : Nat
  processors : List Processor
  /-- Where the stack that is leaked for a processor begins, if there is memory for it. -/
  stack : Processor → Option Nat
  /-- The numbers of the frames that the heap and its page tables have. -/
  heap : Nat → Bool
  paging : Paging
  arith : Arith
  sections : ThreadData.Sections
  /-- The address space of the kernel when the other processors are to be started. -/
  kernel : Vm paging

inductive Op where
  | writeTrampoline
  | store (addr value : Nat)
  | clearApReady
  | waitDelivered
  | writeIcr (value : Nat)
  | waitWord
  | waitApReady
  | unwrite
  | panic
  deriving DecidableEq, Repr

/-- Only without x2APIC is there anything to wait for. -/
def setIcr (isVer2 : Bool) (value : Nat) : List Op :=
  if isVer2 then [.writeIcr value] else [.waitDelivered, .writeIcr value, .waitDelivered]

namespace Platform

def setup (cpuId pageTable stackStart stackEnd kstartAp : Nat) : List Op :=
  [.store Trampoline.ready 0, .store Trampoline.cpuId cpuId, .store Trampoline.pageTable pageTable,
    .store Trampoline.stackStart stackStart, .store Trampoline.stackEnd stackEnd, .store Trampoline.code kstartAp]

/-- `init_ap_processor` behind the allocation -/
def startAp (P : Platform) (p : Processor) (stack : Nat) : List Op :=
  setup p.localApicId P.table stack (stack + STACK_SIZE) P.kstartAp ++ [.clearApReady] ++
    setIcr P.isVer2 (icr P.isVer2 0x4500 p.localApicId) ++
    setIcr P.isVer2 (icr P.isVer2 (0x4600 ||| (TRAMPOLINE_ADDR >>> 12 &&& 0xff)) p.localApicId) ++
    [.waitWord, .waitApReady]

def initApProcessor (P : Platform) (p : Processor) : List Op :=
  match P.stack p with
  | none => [.panic]
  | some stack => P.startAp p stack

def enabled (P : Platform) : List Processor := P.processors.filter fun p => p.state ≠ .disabled

def init (P : Platform) : List Op := .writeTrampoline :: (P.enabled.flatMap P.initApProcessor ++ [.unwrite])

/-- What a processor calls for its number. -/
def setUp (P : Platform) (number : Nat) : VmM P.paging Empty VirtAddr :=
  ThreadData.setupThreadData P.arith P.sections number

/-- It does not panic. -/
def returns (P : Platform) (vm : Vm P.paging) (number : Nat) : Bool :=
  match (P.setUp number vm).outcome with
  | .ok _ => true
  | _ => false

end Platform

/-! ## The machine -/

/-- The words of memory are told apart from what thread data is made of. -/
structure Machine (pg : Paging) where
  ops : List Op
  /-- The page is mapped under its physical address. -/
  mapped : Bool
  word : Nat → Nat
  apReady : Bool
  bspReady : Bool
  flight : List Ipi
  cpu : Nat → Cpu
  kernel : Vm pg

def Platform.initial (P : Platform) : Machine P.paging where
  ops := P.init
  mapped := false
  word _ := 0
  apReady := false
  bspReady := false
  flight := []
  cpu := Function.update (fun _ => Cpu.blank .off) P.bsp (Cpu.blank .running)
  kernel := P.kernel

namespace Machine

variable {pg : Paging}

def setCpu (m : Machine pg) (id : Nat) (c : Cpu) : Machine pg := { m with cpu := Function.update m.cpu id c }

def panic (m : Machine pg) (id : Nat) : Machine pg := m.setCpu id { m.cpu id with pc := .panicked }

/-- A spinning processor has no step until what it waits for is there. -/
def perform (P : Platform) (m : Machine P.paging) : Op → Option (Machine P.paging)
  | .writeTrampoline =>
    let r : Ran (Vm P.paging) KEvent Empty Unit := identityMap m.kernel
    match r.outcome with
    | .ok _ => some { m with
        mapped := true
        kernel := r.state
        word := fun a => if a / 4096 = TRAMPOLINE_ADDR / 4096 then 0 else m.word a }
    | _ => some { m.panic P.bsp with kernel := r.state }
  | .store addr value => some { m with word := Function.update m.word addr value }
  | .clearApReady => some { m with apReady := false }
  | .waitDelivered => if m.flight = [] then some m else none
  | .writeIcr value => some { m with flight := m.flight ++ [Ipi.decode P.isVer2 value] }
  | .waitWord => if m.word Trampoline.ready ≠ 0 then some m else none
  | .waitApReady => if m.apReady then some m else none
  | .unwrite => some { m with mapped := false }
  | .panic => some (m.panic P.bsp)

def bspStep (P : Platform) (m : Machine P.paging) : Option (Machine P.paging) :=
  if (m.cpu P.bsp).pc ≠ .running then none
  else match m.ops with
    | [] => none
    | op :: ops => (perform P m op).map fun m => { m with ops := ops }

def deliver (P : Platform) (m : Machine P.paging) : Option (Machine P.paging) :=
  match m.flight with
  | [] => none
  | ipi :: rest => some { m with
      flight := rest
      cpu := fun id => if ipi.accepted P.isVer2 id then (m.cpu id).receive ipi else m.cpu id }

/-- With paging on, the page has to be there for the next instruction. -/
def onPage (m : Machine pg) (id : Nat) (c : Cpu) : Machine pg :=
  m.setCpu id (if m.mapped then c else { m.cpu id with pc := .lost })

/-- One instruction of the trampoline, or one statement of `kstart_ap`. -/
def apStep (P : Platform) (m : Machine P.paging) (id : Nat) : Option (Machine P.paging) :=
  let c := m.cpu id
  match c.pc with
  | .startup => some (m.setCpu id { c with cr3 := m.word Trampoline.pageTable % 2 ^ 32, pc := .paging })
  | .paging => some (m.setCpu id { c with pc := if c.cr3 = P.table ∧ m.mapped then .stack else .lost })
  | .stack => some (m.onPage id
      { c with rsp := (m.word Trampoline.stackEnd + (2 ^ 64 - 256)) % 2 ^ 64, pc := .args })
  | .args => some (m.onPage id { c with rdi := Trampoline.cpuId, pc := .entry })
  | .entry => some (m.onPage id { c with rax := m.word Trampoline.code, pc := .signal })
  | .signal => some { m.onPage id { c with pc := .jump } with
      word := if m.mapped then Function.update m.word Trampoline.ready 1 else m.word }
  | .jump => some (m.onPage id { c with pc := if c.rax = P.kstartAp then .initIdt else .lost })
  | .initIdt => some (m.setCpu id { c with pc := .threadData })
  | .threadData =>
    let number := m.word c.rdi
    if m.mapped = false then some (m.setCpu id { c with pc := .lost })
    else
      let c' := if P.returns m.kernel number then { c with threadData := some number, pc := .announce }
        else { c with pc := .panicked }
      some { m.setCpu id c' with kernel := (P.setUp number m.kernel).state }
  | .announce => some (m.onPage id { c with announced := some (m.word c.rdi), pc := .publish })
  | .publish => some { m.setCpu id { c with pc := .spin } with apReady := true }
  | .spin => if m.bspReady then some (m.setCpu id { c with pc := .started }) else none
  | _ => none

inductive Label where
  | bsp
  | deliver
  | ap : Nat → Label
  /-- Somebody stores a word in memory of the heap. -/
  | heap : Nat → Nat → Label
  deriving DecidableEq, Repr

/-- One step, of whoever comes next. -/
def step (P : Platform) (m : Machine P.paging) : Label → Option (Machine P.paging)
  | .bsp => bspStep P m
  | .deliver => m.deliver P
  | .ap id => m.apStep P id
  | .heap addr value =>
    if P.heap (addr / 4096) then some { m with word := Function.update m.word addr value } else none

end Machine

/-! ## What the command register is made to say -/

theorem decode_icr (isVer2 : Bool) {command : Nat} (id : Nat) (hcommand : command < 2 ^ 32) :
    Ipi.decode isVer2 (icr isVer2 command id) =
      ⟨if isVer2 then id else id % 2 ^ 8, command / 2 ^ 8 % 8, command % 2 ^ 8⟩ := by
  cases isVer2 with
  | true =>
    have hor : icr true command id = id * 2 ^ 32 + command := by
      rw [icr, if_pos rfl, Nat.or_comm, ← Nat.shiftLeft_add_eq_or_of_lt hcommand, Nat.shiftLeft_eq]
    rw [hor]
    simp only [Ipi.decode, if_true, Ipi.mk.injEq]
    omega
  | false =>
    have hdrop : (id <<< 56) % 2 ^ 64 = (id % 2 ^ 8) <<< 56 := by
      rw [Nat.shiftLeft_eq, Nat.shiftLeft_eq]
      omega
    have hlt : command < 2 ^ 56 := Nat.lt_trans hcommand (by decide)
    have hor : icr false command id = id % 2 ^ 8 * 2 ^ 56 + command := by
      rw [icr, if_neg Bool.false_ne_true, hdrop, Nat.or_comm, ← Nat.shiftLeft_add_eq_or_of_lt hlt, Nat.shiftLeft_eq]
    rw [hor]
    simp only [Ipi.decode, Bool.false_eq_true, if_false, Ipi.mk.injEq]
    omega

end MultiCore

end Idkernel
