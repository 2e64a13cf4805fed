import Idkernel.Runs
import Idkernel.UserStack

/-!
# Frames from the heap

The boot loader's memory map, the mapping of the heap onto its frames, and the
allocator that finds frames and their heap pages again by one offset for each
region of the map.
-/
namespace Idkernel

open Address Traced

/-! ## The memory map -/

inductive MemoryRegionKind where
  | usable
  | bootloader
  | unknownUefi : Nat → MemoryRegionKind
  | unknownBios : Nat → MemoryRegionKind
  deriving DecidableEq, Repr

structure MemoryRegion where
  start : Nat
  stop : Nat
  kind : MemoryRegionKind
  ordered : start ≤ stop
  bounded : stop < 2 ^ 64

namespace MemoryRegion

def contains (r : MemoryRegion) (x : Nat) : Prop := r.start ≤ x ∧ x < r.stop

instance (r : MemoryRegion) (x : Nat) : Decidable (r.contains x) := by
  unfold contains
  infer_instance

/-- `(start..end).step_by(4096)` -/
def frames (r : MemoryRegion) : List Nat :=
  (List.range ((r.stop - r.start + 4095) / 4096)).map fun i => r.start + 4096 * i

end MemoryRegion

def usableRegions (map : List MemoryRegion) : List MemoryRegion := map.filter fun r => r.kind = .usable

def usableFrames (map : List MemoryRegion) : List Nat := (usableRegions map).flatMap MemoryRegion.frames

/-! ## Mapping the heap -/

inductive TableEntry where
  | unused
  | table
  | huge
  deriving DecidableEq, Repr

/-- An entry is named by its level and by the number of its part of the address space. -/
structure Boot where
  frames : List Nat
  entry : Nat → Nat → TableEntry
  leaf : Nat → Option PhysFrame

variable {κ ε : Type}

namespace Boot

/-- `BootInfoFrameAllocator::allocate_frame` -/
def allocateFrame : Comp Boot κ ε (Option PhysFrame) := do
  let frames ← Comp.read fun s => s.frames
  match frames with
  | [] => return none
  | addr :: rest => do
    Comp.write fun s => { s with frames := rest }
    let addr ← Comp.unwrap (PhysAddr.new addr)
    return some (PhysFrame.containingAddress addr)

def setEntry (level number : Nat) (s : Boot) : Boot :=
  { s with entry := fun l n => if l = level ∧ n = number then .table else s.entry l n }

def createNextTable (level number : Nat) : Comp Boot κ MapToError Unit := do
  let entry ← Comp.read fun s => s.entry level number
  match entry with
  | .unused => do
    let frame ← allocateFrame
    let _ ← Comp.okOr frame .frameAllocationFailed
    Comp.write (setEntry level number)
  | .table => return ()
  | .huge => Comp.fail .parentEntryHugePage

/-- The levels above the leaf. -/
def UPPER : List Nat := [3, 2, 1]

def mapTo (page : Page) (frame : PhysFrame) : Comp Boot κ MapToError Unit := do
  Comp.forEach UPPER fun level => createNextTable level (page.index / 512 ^ level)
  let old ← Comp.read fun s => s.leaf page.index
  match old with
  | some _ => Comp.fail (.pageAlreadyMapped frame)
  | none => Comp.write fun s => { s with leaf := Function.update s.leaf page.index (some frame) }

/-- The closure of `init_heap`; returns the page after. -/
def allocateOne (ar : Arith) (page : Page) : Comp Boot κ MapToError Page := do
  let frame ← allocateFrame
  let frame ← Comp.okOr frame .frameAllocationFailed
  mapTo page frame
  Comp.unwrap (page.next ar)

def initHeapLoop (ar : Arith) : Nat → Page → Nat → Comp Boot κ ε Nat
  | 0, _, allocated => return allocated
  | fuel + 1, page, allocated => do
    let r ← Comp.attempt (allocateOne ar page)
    match r with
    | .ok page => initHeapLoop ar fuel page (allocated + 1)
    | .error _ => return allocated

def heapStart : Page := ⟨⟨KERNEL_HEAP_START, .inr (by decide)⟩, by decide⟩

/-- Each round takes a frame; the last one finds none, if not an error before. -/
def initHeap (ar : Arith) : Comp Boot κ ε Nat := do
  let frames ← Comp.read fun s => s.frames
  initHeapLoop ar (frames.length + 1) heapStart 0

/-- `translate_addr`, of an address on a small page -/
def translateAddr (s : Boot) (v : VirtAddr) : Option PhysAddr :=
  (s.leaf (Page.containingAddress v).index).map fun f =>
    ⟨f.start.raw + v.raw % 4096, by have := f.start.bounded; have := f.aligned; omega⟩

end Boot

/-! ## `HeapFrameAllocator` -/

structure HeapRegion where
  start : Nat
  stop : Nat
  virtStart : Option Nat
  deriving DecidableEq

structure HeapFrameAllocator where
  entries : List HeapRegion

/-- The block that is given back to the heap. -/
inductive BlockEvent where
  | freed : VirtAddr → BlockEvent
  deriving DecidableEq

namespace HeapFrameAllocator

def new (map : List MemoryRegion) : HeapFrameAllocator where
  entries := ((usableRegions map).filter fun x => 4096 ≤ x.stop - x.start).map fun x => ⟨x.start, x.stop, none⟩

/-- Where the region of an address is found. -/
def position (entries : List HeapRegion) (addr : Nat) : Option Nat :=
  entries.findIdx? fun x => x.start ≤ addr ∧ addr < x.stop

def setVirtStart (i : Nat) (addr : Nat) (s : HeapFrameAllocator) : HeapFrameAllocator where
  entries := s.entries.modify i fun x => { x with virtStart := some addr }

abbrev FramesM (ε : Type) := Comp HeapFrameAllocator BlockEvent ε

def checkRegionVirt (ar : Arith) (paddr : PhysAddr) (vaddr : VirtAddr) : FramesM ε Unit := do
  let entries ← Comp.read fun s => s.entries
  let i ← Comp.unwrap (position entries paddr.raw)
  let region ← Comp.unwrap entries[i]?
  match region.virtStart with
  | some _ => return ()
  | none => do
    let offset ← Comp.unwrap (paddr.sub region.start)
    let addr ← Comp.unwrap (ar.sub vaddr.raw offset.raw)
    Comp.expect (addr ≠ 0)
    Comp.write (setVirtStart i addr)

def physToVirt (ar : Arith) (paddr : PhysAddr) : FramesM ε VirtAddr := do
  let entries ← Comp.read fun s => s.entries
  let i ← Comp.unwrap (position entries paddr.raw)
  let entry ← Comp.unwrap entries[i]?
  let vstart ← Comp.unwrap entry.virtStart
  let offset ← Comp.unwrap (ar.sub paddr.raw entry.start)
  let addr ← Comp.unwrap (ar.add vstart offset)
  Comp.unwrap (VirtAddr.new addr)

/-- `block` is what the heap answers to the request for a page. -/
def allocateFrame (ar : Arith) (tables : Boot) (block : Option VirtAddr) : FramesM ε (Option PhysFrame) :=
  match block with
  | none => return none
  | some vaddr => do
    let paddr ← Comp.unwrap (tables.translateAddr vaddr)
    checkRegionVirt ar paddr vaddr
    let frame ← Comp.unwrap (PhysFrame.fromStartAddress paddr)
    return some frame

def deallocateFrame (ar : Arith) (frame : PhysFrame) : FramesM ε Unit := do
  let vaddr ← physToVirt ar frame.start
  Comp.emit (.freed vaddr)

end HeapFrameAllocator

/-! ## Histories -/

/-- The frames that were obtained, with their blocks, the latest first. -/
structure FrameWorld where
  allocator : HeapFrameAllocator
  obtained : List (PhysFrame × VirtAddr)

inductive FrameOp where
  | allocate : Option VirtAddr → FrameOp
  | deallocate : PhysFrame → FrameOp

/-- A page of the heap. -/
def HeapBlock (pages : Nat) (v : VirtAddr) : Prop :=
  KERNEL_HEAP_START ≤ v.raw ∧ v.raw < KERNEL_HEAP_START + 4096 * pages ∧ v.raw % 4096 = 0

instance (pages : Nat) (v : VirtAddr) : Decidable (HeapBlock pages v) := by
  unfold HeapBlock
  infer_instance

/-- The number of an address's page in the heap. -/
def heapPage (v : VirtAddr) : Nat := (v.raw - KERNEL_HEAP_START) / 4096

namespace FrameWorld

/-- The first frame that was obtained between two addresses. -/
def oldest (w : FrameWorld) (start stop : Nat) : Option (PhysFrame × VirtAddr) :=
  w.obtained.reverse.find? fun o => start ≤ o.1.start.raw ∧ o.1.start.raw < stop

theorem oldest_cons (a : HeapFrameAllocator) (o : PhysFrame × VirtAddr) (os : List (PhysFrame × VirtAddr))
    (start stop : Nat) : oldest ⟨a, o :: os⟩ start stop =
      (oldest ⟨a, os⟩ start stop).or (if start ≤ o.1.start.raw ∧ o.1.start.raw < stop then some o else none) := by
  simp only [oldest, List.reverse_cons, List.find?_append, List.find?_singleton, decide_eq_true_eq]

def fresh (map : List MemoryRegion) : FrameWorld := ⟨.new map, []⟩

/-- The heap answers with its pages, and only frames that were obtained are given back. -/
def step (ar : Arith) (tables : Boot) (pages : Nat) (w : FrameWorld) : FrameOp → Option FrameWorld
  | .allocate block =>
    if ∀ v ∈ block, HeapBlock pages v then
      let r : Ran _ _ Empty _ := HeapFrameAllocator.allocateFrame ar tables block w.allocator
      match r.outcome with
      | .ok frame => some ⟨r.state, (frame.toList.zip block.toList) ++ w.obtained⟩
      | _ => none
    else none
  | .deallocate frame =>
    if frame ∈ w.obtained.map Prod.fst then
      let r : Ran _ _ Empty _ := HeapFrameAllocator.deallocateFrame ar frame w.allocator
      match r.outcome with
      | .ok _ => some { w with allocator := r.state }
      | _ => none
    else none

end FrameWorld

end Idkernel
