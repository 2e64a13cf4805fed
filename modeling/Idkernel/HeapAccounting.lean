import Idkernel.HeapSafety

/-!
# The accounts of the kernel heap

Blocks in a free list are used memory to the general heap and free memory to
everybody else. The counter that settles the difference is what is in the nine
lists, whatever has been allocated and freed, so it never exceeds what the
general heap counts as used.
-/
namespace Idkernel

open Address Traced Intrusive Runs

/-! ## Counters -/

/-- `size`, `used` and `free` of `linked_list_allocator::Heap` -/
structure HeapCounters (F : FallbackHeap) where
  size : F.State → Nat
  used : F.State → Nat
  free : F.State → Nat

/-- The general heap counts every byte of an outstanding block as used. -/
structure HeapCounters.Lawful {F : FallbackHeap} (c : HeapCounters F)
    (Ok : F.State → Bytes → List Region → Prop) : Prop where
  balanced : ∀ {s m out}, Ok s m out → c.used s + c.free s = c.size s
  covers : ∀ {s m out}, Ok s m out → total out ≤ c.used s
  bounded : ∀ {s m out}, Ok s m out → c.size s < 2 ^ 64

variable {F : FallbackHeap} (c : HeapCounters F)

namespace FixedSizeBlockAllocator

def size (s : FixedSizeBlockAllocator F) : Nat := c.size s.fallbackAllocator

def used (ar : Arith) (s : FixedSizeBlockAllocator F) : Option Nat :=
  ar.sub (c.used s.fallbackAllocator) s.blockFree

def free (ar : Arith) (s : FixedSizeBlockAllocator F) : Option Nat :=
  ar.add (c.free s.fallbackAllocator) s.blockFree

end FixedSizeBlockAllocator

/-! ## The size of the lists -/

/-- The sizes of the classes, times the lengths of their lists. -/
def listed (free : Index → List Nat) : Nat :=
  ((List.finRange BLOCK_SIZES.length).map fun index => blockSize index * (free index).length).sum

theorem total_class (index : Index) (ptrs : List Nat) :
    total (ptrs.map fun ptr => (ptr, Layout.block index)) = blockSize index * ptrs.length := by
  induction ptrs with
  | nil => rfl
  | cons ptr ptrs ih =>
    rw [List.map_cons, total_cons, ih, List.length_cons, Nat.mul_succ, Nat.add_comm]
    rfl

theorem total_freeBlocks (free : Index → List Nat) : total (freeBlocks free) = listed free := by
  unfold freeBlocks listed
  induction List.finRange BLOCK_SIZES.length with
  | nil => rfl
  | cons index rest ih =>
    rw [List.flatMap_cons, total_append, total_class, ih, List.map_cons, List.sum_cons]

/-! ## The accounts -/

structure HeapAccounts (ar : Arith) (w : HeapWorld F) : Prop where
  threaded : ∃ free : Index → List Nat, ∀ index, Threads w.heap.memory (w.heap.listHeads index) (free index)
  counted : ∀ free : Index → List Nat, (∀ index, Threads w.heap.memory (w.heap.listHeads index) (free index)) →
    w.heap.blockFree = listed free
  covered : ∀ index ptr, w.heap.listHeads index = some ptr → blockSize index ≤ w.heap.blockFree
  allocates : ∀ layout, (FixedSizeBlockAllocator.alloc ar layout w.heap : Ran _ _ Empty Nat).outcome ≠ .panic
  used : w.heap.blockFree ≤ c.used w.heap.fallbackAllocator
  balanced : ∃ used free, w.heap.used c ar = some used ∧ w.heap.free c ar = some free ∧
    used + free = w.heap.size c

namespace HeapInv

variable {c} {Ok : F.State → Bytes → List Region → Prop} {w : HeapWorld F} {free : Index → List Nat}
  {out : List Region}

/-- What is in the lists is among what the general heap has handed out. -/
theorem blockFree_le (h : HeapInv Ok w free out) (counts : c.Lawful Ok) :
    w.heap.blockFree ≤ c.used w.heap.fallbackAllocator := by
  have hused := counts.covers h.ok
  have hsplit := total_perm h.shared
  rw [total_append] at hsplit
  have hcounted := h.counted
  omega

theorem head_le (h : HeapInv Ok w free out) {index : Index} {ptr : Nat}
    (hhead : w.heap.listHeads index = some ptr) : blockSize index ≤ w.heap.blockFree := by
  obtain ⟨rest, hfree, _⟩ := (hhead ▸ h.threaded index).pop
  have hpop := total_perm (freeBlocks_pop hfree)
  rw [total_cons] at hpop
  have hcounted := h.counted
  simp only [Layout.block] at hpop
  omega

theorem accounts (lawful : F.Lawful Ok) (counts : c.Lawful Ok) (ar : Arith) (h : HeapInv Ok w free out) :
    HeapAccounts c ar w where
  threaded := ⟨free, h.threaded⟩
  counted := by
    intro free' hthreads
    have hsame : free' = free := funext fun index => (hthreads index).unique (h.threaded index)
    rw [hsame, h.counted, total_freeBlocks]
  covered := fun _ _ hhead => h.head_le hhead
  allocates := by
    intro layout hpanic
    obtain ⟨ptr, _, hptr, _⟩ := h.grants lawful ar layout
    rw [hptr] at hpanic
    cases hpanic
  used := h.blockFree_le counts
  balanced := by
    have hused := h.blockFree_le counts
    have hbalanced := counts.balanced h.ok
    have hbounded := counts.bounded h.ok
    refine ⟨_, _, if_pos hused, Arith.add_of_lt ar (by omega), ?_⟩
    simp only [FixedSizeBlockAllocator.size]
    omega

end HeapInv

/-- After any calls and writes the counter is what the lists hold, no subtraction underflows, and what is used
and what is free add up to the heap. -/
theorem heap_accounts (ar : Arith) {Ok : F.State → Bytes → List Region → Prop} (lawful : F.Lawful Ok)
    (counts : c.Lawful Ok) {s₀ : F.State} {m₀ : Bytes} (start : Ok s₀ m₀ []) {ops : List HeapOp} {w : HeapWorld F}
    (h : run (HeapWorld.step ar) (HeapWorld.fresh s₀ m₀) ops = some w) : HeapAccounts c ar w := by
  obtain ⟨free, out, hI⟩ := HeapInv.run_keeps lawful start h
  exact hI.accounts lawful counts ar

/-! ## Counters of a general heap -/

/-- What lies below the next address is used. -/
def bumpCounters (base limit : Nat) : HeapCounters (bump limit) where
  size := fun _ => limit - base
  used := fun (top : Nat) => top - base
  free := fun (top : Nat) => limit - top

def BumpCounted (base limit : Nat) (top : Nat) (m : Bytes) (out : List Region) : Prop :=
  BumpOk top m out ∧ base + total out ≤ top ∧ top ≤ limit

theorem bump_counted_lawful (base limit : Nat) : (bump limit).Lawful (BumpCounted base limit) where
  allocated := by
    intro (top : Nat) (top' : Nat) m m' out layout ptr ⟨hok, hused, hlimit⟩ hcall
    obtain ⟨hplaced, hapart, hkept, hsame⟩ := (bump_lawful limit).allocated hok hcall
    have hup := le_roundUp layout top
    refine ⟨hplaced, hapart, ⟨hkept, ?_⟩, hsame⟩
    simp only [bump] at hcall
    split at hcall
    · cases hcall
      rw [total_cons]
      dsimp only
      omega
    · cases hcall
  refused := by
    intro (top : Nat) (top' : Nat) m m' out layout ⟨hok, hused, hlimit⟩ hcall
    obtain ⟨hkept, hsame⟩ := (bump_lawful limit).refused hok hcall
    refine ⟨⟨hkept, ?_⟩, hsame⟩
    simp only [bump] at hcall
    split at hcall
    · cases hcall
    · cases hcall
      exact ⟨hused, hlimit⟩
  deallocated := by
    intro (top : Nat) m out layout ptr ⟨hok, hused, hlimit⟩ hin
    obtain ⟨hkept, hsame⟩ := (bump_lawful limit).deallocated hok hin
    have hless := total_perm (List.perm_cons_erase hin)
    rw [total_cons] at hless
    exact ⟨⟨hkept, by simp only [bump]; omega, hlimit⟩, hsame⟩
  written := fun ⟨hok, hrest⟩ hsame => ⟨(bump_lawful limit).written hok hsame, hrest⟩

theorem bumpCounters_lawful {base limit : Nat} (hlimit : limit < 2 ^ 64) :
    (bumpCounters base limit).Lawful (BumpCounted base limit) where
  balanced := by
    intro (top : Nat) m out ⟨_, hused, htop⟩
    simp only [bumpCounters]
    omega
  covers := by
    intro (top : Nat) m out ⟨_, hused, _⟩
    simp only [bumpCounters]
    omega
  bounded := by
    intro (top : Nat) m out _
    simp only [bumpCounters]
    omega

/-- A freed box is free memory, until a vector takes it. -/
theorem heap_accounts_reuse :
    ∃ w, run (HeapWorld.step .checked) (HeapWorld.fresh (F := bump 0x444444540000)
    (0x444444440000 : Nat) fun _ => 0)
        [.alloc boxLayout, .alloc boxLayout, .dealloc 0x444444440000 boxLayout] = some w ∧
      w.heap.blockFree = 32 ∧ HeapAccounts (bumpCounters 0x444444440000 0x444444540000) .checked w := by
  obtain ⟨w, hw, hfree⟩ : ∃ w, run (HeapWorld.step .checked)
      (HeapWorld.fresh (F := bump 0x444444540000) (0x444444440000 : Nat) fun _ => 0)
      [.alloc boxLayout, .alloc boxLayout, .dealloc 0x444444440000 boxLayout] = some w ∧ w.heap.blockFree = 32 :=
    ⟨_, rfl, rfl⟩
  exact ⟨w, hw, hfree, heap_accounts _ .checked (bump_counted_lawful _ _) (bumpCounters_lawful (by decide))
    ⟨⟨by decide, by simp⟩, by decide, by decide⟩ hw⟩

end Idkernel
