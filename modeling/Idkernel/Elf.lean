import Idkernel.Paging

/-!
# The ELF loader

The file header and the program headers are read where the loader's raw
pointers read them. An `Elf` can only be made by `Elf.new`, so it carries what
that function checked.
-/
namespace Idkernel

open Address Traced Locks

/-- `n` little-endian bytes at `pos`. -/
def leNat (data : List UInt8) (pos : Nat) : Nat → Nat
  | 0 => 0
  | n + 1 => (data.getD pos 0).toNat + 256 * leNat data (pos + 1) n

def SIZEOF_EHDR : Nat := 64
def SIZEOF_PHDR : Nat := 56
def ELFMAG : List UInt8 := [0x7f, 0x45, 0x4c, 0x46]

def PT_LOAD : Nat := 1
def PF_X : Nat := 1
def PF_W : Nat := 2
def PF_R : Nat := 4

structure Header where
  eIdent : List UInt8
  eEntry : Nat
  ePhoff : Nat
  ePhnum : Nat

def Header.fromBytes (data : List UInt8) : Header where
  eIdent := data.take 16
  eEntry := leNat data 24 8
  ePhoff := leNat data 32 8
  ePhnum := leNat data 56 2

structure ProgramHeader where
  pType : Nat
  pFlags : Nat
  pOffset : Nat
  pVaddr : Nat
  pFilesz : Nat
  pMemsz : Nat
  deriving DecidableEq, Repr

def ProgramHeader.fromBytes (data : List UInt8) (pos : Nat) : ProgramHeader where
  pType := leNat data pos 4
  pFlags := leNat data (pos + 4) 4
  pOffset := leNat data (pos + 8) 8
  pVaddr := leNat data (pos + 16) 8
  pFilesz := leNat data (pos + 32) 8
  pMemsz := leNat data (pos + 40) 8

structure Elf where
  data : List UInt8
  size : SIZEOF_EHDR < data.length
  magic : (Header.fromBytes data).eIdent.take 4 = ELFMAG
  table : (Header.fromBytes data).ePhoff + (Header.fromBytes data).ePhnum * SIZEOF_PHDR < 2 ^ 64 ∧
    (Header.fromBytes data).ePhoff + (Header.fromBytes data).ePhnum * SIZEOF_PHDR < data.length

namespace Elf

def new (data : List UInt8) : Except String Elf :=
  if size : SIZEOF_EHDR < data.length then
    if magic : (Header.fromBytes data).eIdent.take 4 = ELFMAG then
      if table : (Header.fromBytes data).ePhoff + (Header.fromBytes data).ePhnum * SIZEOF_PHDR < 2 ^ 64 ∧
          (Header.fromBytes data).ePhoff + (Header.fromBytes data).ePhnum * SIZEOF_PHDR < data.length then
        .ok ⟨data, size, magic, table⟩
      else .error "Invalid program headers"
    else .error "Invalid ELF magic, are you sure this is an elf file?"
  else .error "Invalid elf size"

def header (elf : Elf) : Header := Header.fromBytes elf.data

def programHeaders (elf : Elf) : List ProgramHeader :=
  (List.range elf.header.ePhnum).map fun i =>
    ProgramHeader.fromBytes elf.data (elf.header.ePhoff + i * SIZEOF_PHDR)

/-- `&data[p_offset..][..p_filesz]`, which panics outside the file. -/
def segment (elf : Elf) (header : ProgramHeader) : Option (List UInt8) :=
  if header.pOffset + header.pFilesz ≤ elf.data.length then
    some ((elf.data.drop header.pOffset).take header.pFilesz)
  else none

variable {pg : Paging} {ε : Type}

/-- The flags of a segment's pages; `none` where the loader panics. -/
def segmentFlags (header : ProgramHeader) : Option PageTableFlags :=
  let flags := PageTableFlags.PRESENT ||| PageTableFlags.USER_ACCESSIBLE
  let flags := if header.pFlags &&& PF_X = 0 then flags ||| PageTableFlags.NO_EXECUTE else flags
  let flags := if header.pFlags &&& PF_W ≠ 0 then flags ||| PageTableFlags.WRITABLE else flags
  if header.pFlags &&& PF_R = 0 then none else some flags

/-- The body of the page loop. `fileIndex` is the same at every page: it is computed
before the loop, from the first page, and not advanced. -/
def mountPage (data : List UInt8) (flags : PageTableFlags) (fileIndex : Int) (page : Page) :
    VmM pg ε Unit := do
  let frame ← allocateFrame
  let frame ← Comp.unwrap frame
  let parentFlags := flags &&&
    (PageTableFlags.PRESENT ||| PageTableFlags.WRITABLE ||| PageTableFlags.USER_ACCESSIBLE)
  let mapped ← mapTo page frame flags parentFlags
  Comp.expect (mapped.isOk = true)
  Comp.write fun v => { v with memory := v.memory.fill frame.start.raw 4096 0 }
  let dataStart := max fileIndex 0
  let dataEnd := min (fileIndex + 4096) data.length
  let off := max (-fileIndex) 0
  if dataStart ≤ dataEnd then
    let bytes := (data.take dataEnd.toNat).drop dataStart.toNat
    Comp.write fun v => { v with memory := v.memory.copy (frame.start.raw + off.toNat) bytes }
  else return ()

/-- The page is requested, and nothing else is. -/
theorem mountPage_notes {data : List UInt8} {flags : PageTableFlags} {fileIndex : Int} {page : Page} {v : Vm pg}
    {n : Note} (h : n ∈ notes (mountPage data flags fileIndex page v : Ran _ KEvent ε Unit).events) :
    ∃ frame, n = .mapRequest page frame := by
  unfold mountPage at h
  obtain ⟨_, _, h⟩ := mem_notes_bind rfl h
  obtain ⟨frame, _, h⟩ := mem_notes_decide (Comp.Still.unwrap _) h
  rw [notes_bind_quiet] at h
  · exact ⟨frame, List.mem_singleton.mp h⟩
  · intro mapped s
    rw [notes_bind_quiet, notes_still Comp.Still.expect]
    intro _ s
    rw [Comp.write_bind]
    dsimp only
    split <;> rfl

def mountSegment (ar : Arith) (header : ProgramHeader) (data : List UInt8) : VmM pg ε Unit := do
  let start ← Comp.unwrap (VirtAddr.new header.pVaddr)
  let stop ← Comp.unwrap (start.add ar header.pMemsz)
  Comp.expect (checkAddrUserspace start.raw = .ok ())
  Comp.expect (checkAddrUserspace stop.raw = .ok ())
  let startPage := Page.containingAddress start
  let last ← Comp.unwrap (stop.sub 1)
  let stopPage := Page.containingAddress last
  let flags ← Comp.unwrap (segmentFlags header)
  let fileIndex : Int := startPage.start.raw - start.raw
  Comp.forEach (Page.rangeInclusive ar startPage stopPage) (mountPage data flags fileIndex)

/-- Slicing the file comes before the two filters, so it panics for any header. -/
def mountInto (ar : Arith) (elf : Elf) : VmM pg ε Unit :=
  withGuard .frameAllocator .write
    (Comp.forEach elf.programHeaders fun header => do
      let data ← Comp.unwrap (elf.segment header)
      if header.pType = PT_LOAD ∧ header.pMemsz > 0 then mountSegment ar header data else return ())

end Elf

end Idkernel
