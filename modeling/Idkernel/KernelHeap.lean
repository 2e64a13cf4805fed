import Mathlib.Logic.Function.Basic
import Idkernel.Address
import Idkernel.Intrusive
import Idkernel.Runs
import Idkernel.Traced

/-!
# The kernel heap

Nine lists of free blocks in front of a general heap. Blocks of a class are
only ever taken from the general heap, and a freed block goes to the list of
its class. What is asked of the general heap is logged.
-/
namespace Idkernel

open Address Traced Intrusive

/-- `core::alloc::Layout`. -/
structure Layout where
  size : Nat
  align : Nat
  power : ∃ k, align = 2 ^ k
  bounded : size + align ≤ 2 ^ 63
  deriving DecidableEq

def BLOCK_SIZES : List Nat := [8, 16, 32, 64, 128, 256, 512, 1024, 2048]

abbrev Index := Fin BLOCK_SIZES.length

def blockSize (index : Index) : Nat := BLOCK_SIZES.get index

def listIndex (layout : Layout) : Option Index :=
  BLOCK_SIZES.findFinIdx? fun s => max layout.size layout.align ≤ s

theorem blockSize_power (index : Index) : blockSize index = 2 ^ (index.val + 3) := by
  revert index
  decide

theorem blockSize_le (index : Index) : blockSize index ≤ 2048 := by
  revert index
  decide

theorem blockSize_room (index : Index) : 8 ≤ blockSize index := by
  revert index
  decide

/-- The layout a block of a class is asked for with. -/
def Layout.block (index : Index) : Layout where
  size := blockSize index
  align := blockSize index
  power := ⟨_, blockSize_power index⟩
  bounded := by
    have := blockSize_le index
    omega

/-- `linked_list_allocator::Heap`, which keeps its own bookkeeping in the memory it has not
handed out. -/
structure FallbackHeap where
  State : Type
  allocateFirstFit : Layout → State → Bytes → Option Nat × State × Bytes
  deallocate : Nat → Layout → State → Bytes → State × Bytes

inductive HeapEvent where
  | handed : Nat → Layout → HeapEvent
  | taken : Nat → Layout → HeapEvent

structure FixedSizeBlockAllocator (F : FallbackHeap) where
  listHeads : Index → Option Nat
  fallbackAllocator : F.State
  blockFree : Nat
  memory : Bytes

abbrev HeapM (F : FallbackHeap) (ε : Type) := Comp (FixedSizeBlockAllocator F) HeapEvent ε

variable {F : FallbackHeap} {ε : Type}

namespace FixedSizeBlockAllocator

def setHead (index : Index) (node : Option Nat) : HeapM F ε Unit :=
  Comp.write fun s => { s with listHeads := Function.update s.listHeads index node }

/-- A null pointer is zero. -/
def fallbackAlloc (layout : Layout) : HeapM F ε Nat := do
  let (r, heap, memory) ← Comp.read fun s => F.allocateFirstFit layout s.fallbackAllocator s.memory
  Comp.write fun s => { s with fallbackAllocator := heap, memory := memory }
  match r with
  | none => return 0
  | some ptr => do
    Comp.emit (.handed ptr layout)
    return ptr

def alloc (ar : Arith) (layout : Layout) : HeapM F ε Nat :=
  match listIndex layout with
  | none => fallbackAlloc layout
  | some index => do
    let head ← Comp.read fun s => s.listHeads index
    setHead index none
    match head with
    | none => fallbackAlloc (Layout.block index)
    | some ptr => do
      let next ← Comp.read fun s => node s.memory ptr
      Comp.write fun s => { s with memory := setNode s.memory ptr none }
      setHead index next
      let free ← Comp.read fun s => s.blockFree
      let free ← Comp.unwrap (ar.sub free (blockSize index))
      Comp.write fun s => { s with blockFree := free }
      return ptr

def dealloc (ar : Arith) (ptr : Nat) (layout : Layout) : HeapM F ε Unit :=
  match listIndex layout with
  | none => do
    Comp.expect (ptr ≠ 0)
    Comp.write fun s =>
      let (heap, memory) := F.deallocate ptr layout s.fallbackAllocator s.memory
      { s with fallbackAllocator := heap, memory := memory }
    Comp.emit (.taken ptr layout)
  | some index => do
    let next ← Comp.read fun s => s.listHeads index
    setHead index none
    -- size and alignment of a list node
    Comp.expect (8 ≤ blockSize index)
    Comp.expect (8 ≤ blockSize index)
    Comp.write fun s => { s with memory := setNode s.memory ptr next }
    setHead index (some ptr)
    let free ← Comp.read fun s => s.blockFree
    let free ← Comp.unwrap (ar.add free (blockSize index))
    Comp.write fun s => { s with blockFree := free }

/-! ## What a call does -/

section Calls

variable {ar : Arith} {layout : Layout} {s : FixedSizeBlockAllocator F} {index : Index}

/-- A block of a list is handed out again, and the list goes on behind it. -/
def popped (s : FixedSizeBlockAllocator F) (index : Index) (ptr free : Nat) : FixedSizeBlockAllocator F :=
  { s with
    listHeads := Function.update s.listHeads index (node s.memory ptr)
    memory := setNode s.memory ptr none
    blockFree := free }

def pushed (s : FixedSizeBlockAllocator F) (index : Index) (ptr free : Nat) : FixedSizeBlockAllocator F :=
  { s with
    listHeads := Function.update s.listHeads index (some ptr)
    memory := setNode s.memory ptr (s.listHeads index)
    blockFree := free }

theorem fallbackAlloc_run (layout : Layout) (s : FixedSizeBlockAllocator F) :
    (fallbackAlloc layout s : Ran _ _ ε Nat) =
      ⟨.ok ((F.allocateFirstFit layout s.fallbackAllocator s.memory).1.getD 0),
        { s with
          fallbackAllocator := (F.allocateFirstFit layout s.fallbackAllocator s.memory).2.1
          memory := (F.allocateFirstFit layout s.fallbackAllocator s.memory).2.2 },
        (F.allocateFirstFit layout s.fallbackAllocator s.memory).1.toList.map fun ptr => .handed ptr layout⟩ := by
  unfold fallbackAlloc
  rw [Comp.read_bind]
  rcases F.allocateFirstFit layout s.fallbackAllocator s.memory with ⟨r, heap, memory⟩
  cases r with
  | none => rfl
  | some ptr => rfl

theorem alloc_large (h : listIndex layout = none) :
    (alloc ar layout : HeapM F ε Nat) = fallbackAlloc layout := by
  simp only [alloc, h]

theorem alloc_empty (h : listIndex layout = some index) (hempty : s.listHeads index = none) :
    (alloc ar layout s : Ran _ _ ε Nat) = fallbackAlloc (Layout.block index) s := by
  have hsame : ({ s with listHeads := Function.update s.listHeads index none } : FixedSizeBlockAllocator
    F) = s := by
    rw [← hempty, Function.update_eq_self]
  simp only [alloc, h, setHead]
  rw [Comp.read_bind, Comp.write_bind, hempty, hsame]

theorem alloc_listed (h : listIndex layout = some index) {ptr free : Nat} (hhead : s.listHeads index = some ptr)
    (hfree : ar.sub s.blockFree (blockSize index) = some free) :
    (alloc ar layout s : Ran _ _ ε Nat) = ⟨.ok ptr, s.popped index ptr free, []⟩ := by
  simp only [alloc, h, setHead]
  rw [Comp.read_bind, Comp.write_bind, hhead]
  dsimp only
  rw [Comp.read_bind, Comp.write_bind, Comp.write_bind, Comp.read_bind]
  dsimp only
  rw [hfree, Comp.unwrap_some, Comp.ret_bind, Comp.write_bind, popped, Function.update_idem]
  rfl

theorem dealloc_large {ptr : Nat} (h : listIndex layout = none) (hptr : ptr ≠ 0) :
    (dealloc ar ptr layout s : Ran _ _ ε Unit) =
      ⟨.ok (), { s with
        fallbackAllocator := (F.deallocate ptr layout s.fallbackAllocator s.memory).1
        memory := (F.deallocate ptr layout s.fallbackAllocator s.memory).2 }, [.taken ptr layout]⟩ := by
  simp only [dealloc, h]
  rw [Comp.expect_true hptr, Comp.ret_bind, Comp.write_bind]
  rfl

theorem dealloc_listed (h : listIndex layout = some index) (ptr : Nat) {free : Nat}
    (hfree : ar.add s.blockFree (blockSize index) = some free) :
    (dealloc ar ptr layout s : Ran _ _ ε Unit) = ⟨.ok (), s.pushed index ptr free, []⟩ := by
  have hroom := blockSize_room index
  simp only [dealloc, h, setHead]
  rw [Comp.read_bind, Comp.write_bind, Comp.expect_true hroom, Comp.ret_bind, Comp.ret_bind, Comp.write_bind,
    Comp.write_bind, Comp.read_bind]
  dsimp only
  rw [hfree, Comp.unwrap_some, Comp.ret_bind, Comp.write_run, pushed, Function.update_idem]

end Calls

end FixedSizeBlockAllocator

end Idkernel
