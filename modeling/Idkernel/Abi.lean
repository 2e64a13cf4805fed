import Mathlib.Algebra.Group.Nat.Defs

/-!
# Numbers that cross the syscall boundary

The enumerations shared by the kernel and its user stubs, with the numbers they
travel as, the saved registers, and the two kinds of nonzero identifiers.
-/
namespace Idkernel

inductive SyscallCode where
  | exit | yield
  | capabilityClone | capabilityInspect | capabilityRestrict | capabilityDrop
  | fsOpen | fsHandleSeek | fsHandleRead | fsHandleWrite | fsHandleClose
  | conversationCreateP2p | conversationCreatePublic | conversationTalk
  | conversationCapShare | conversationCapTransfer
  | processMyPid | processSpawn | processCapShare | processCapTransfer | processExec
  | memoryMapVirt | memoryMapPhys | memoryEditPerms | memoryUnmap
  deriving DecidableEq, Repr

def SyscallCode.tryFrom : Nat → Option SyscallCode
  | 0x0 => some .exit
  | 0x1 => some .yield
  | 0x100 => some .capabilityClone
  | 0x101 => some .capabilityInspect
  | 0x102 => some .capabilityRestrict
  | 0x103 => some .capabilityDrop
  | 0x200 => some .fsOpen
  | 0x201 => some .fsHandleSeek
  | 0x202 => some .fsHandleRead
  | 0x203 => some .fsHandleWrite
  | 0x204 => some .fsHandleClose
  | 0x300 => some .conversationCreateP2p
  | 0x301 => some .conversationCreatePublic
  | 0x302 => some .conversationTalk
  | 0x303 => some .conversationCapShare
  | 0x304 => some .conversationCapTransfer
  | 0x400 => some .processMyPid
  | 0x401 => some .processSpawn
  | 0x402 => some .processCapShare
  | 0x403 => some .processCapTransfer
  | 0x404 => some .processExec
  | 0x500 => some .memoryMapVirt
  | 0x501 => some .memoryMapPhys
  | 0x502 => some .memoryEditPerms
  | 0x503 => some .memoryUnmap
  | _ => none

inductive SyscallError where
  | unknownSyscall | notImplemented | wrongParameters | noMemory | stringNotUtf8 | invalidPath
  | wrongDescriptor | fsNotSeekable | fsSeekOutOfRange | fsNotExecutable
  | wrongCapability | wrongCapabilityPerms | wrongProcess | memoryAlreadyMapped | unknownError
  deriving DecidableEq, Repr

def SyscallError.code : SyscallError → Nat
  | .unknownSyscall => 1
  | .notImplemented => 2
  | .wrongParameters => 3
  | .noMemory => 4
  | .stringNotUtf8 => 5
  | .invalidPath => 6
  | .wrongDescriptor => 7
  | .fsNotSeekable => 8
  | .fsSeekOutOfRange => 9
  | .fsNotExecutable => 10
  | .wrongCapability => 11
  | .wrongCapabilityPerms => 12
  | .wrongProcess => 13
  | .memoryAlreadyMapped => 14
  | .unknownError => 2 ^ 64 - 1

/-- The order in which the entry routine pushes and pops the registers. -/
structure AllSavedRegisters where
  rflags : UInt64
  rax : UInt64
  rbx : UInt64
  rcx : UInt64
  rdx : UInt64
  rbp : UInt64
  rsi : UInt64
  rdi : UInt64
  r8 : UInt64
  r9 : UInt64
  r10 : UInt64
  r11 : UInt64
  r12 : UInt64
  r13 : UInt64
  r14 : UInt64
  r15 : UInt64
  deriving DecidableEq, Repr

/-- The registers of a request with two arguments. -/
def AllSavedRegisters.request (code a b : UInt64) : AllSavedRegisters :=
  ⟨0, code, 0, 0, 0, 0, b, a, 0, 0, 0, 0, 0, 0, 0, 0⟩

/-- `NonZeroU64`. -/
structure TaskId where
  raw : Nat
  nonzero : 0 < raw
  deriving DecidableEq, Repr

def TaskId.new (n : Nat) : Option TaskId := if h : 0 < n then some ⟨n, h⟩ else none

theorem TaskId.raw_of_new {n : Nat} {id : TaskId} (h : TaskId.new n = some id) : id.raw = n := by
  unfold TaskId.new at h
  split at h
  · exact (congrArg TaskId.raw (Option.some.inj h)).symm
  · cases h

theorem TaskId.ext {a b : TaskId} (h : a.raw = b.raw) : a = b := by
  cases a; cases b; simp_all

/-- `NonZeroUsize`. -/
structure FileDescriptor where
  raw : Nat
  nonzero : 0 < raw
  deriving DecidableEq, Repr

def FileDescriptor.new (n : Nat) : Option FileDescriptor := if h : 0 < n then some ⟨n, h⟩ else none

end Idkernel
