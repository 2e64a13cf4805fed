import Mathlib.Algebra.Ring.Nat
import Mathlib.Order.Interval.Finset.Nat
import Idkernel.KernelHeap

/-!
# Safety of the kernel heap

Every block the general heap has handed out and not taken back either waits in
the free list of its class or stands under exactly one live allocation. The
blocks of the general heap do not overlap, so nothing else does.
-/
namespace Idkernel

open Address Traced Intrusive Runs

/-! ## Regions -/

abbrev Region := Nat × Layout

def inside (a : Region) (x : Nat) : Prop := a.1 ≤ x ∧ x < a.1 + a.2.size

instance (a : Region) (x : Nat) : Decidable (inside a x) := inferInstanceAs (Decidable (_ ∧ _))

/-- No byte in common. -/
def Apart (a b : Region) : Prop := ∀ x, inside a x → ¬ inside b x

theorem Apart.symm {a b : Region} (h : Apart a b) : Apart b a := fun x hb ha => h x ha hb

def Covered (regions : List Region) (x : Nat) : Prop := ∃ a ∈ regions, inside a x

instance (regions : List Region) (x : Nat) : Decidable (Covered regions x) :=
  inferInstanceAs (Decidable (∃ a ∈ regions, inside a x))

/-- A pointer of 64 bits that is not null, aligned, and has room for the layout. -/
def Placed (a : Region) : Prop := a.1 ≠ 0 ∧ a.2.align ∣ a.1 ∧ a.1 + a.2.size ≤ 2 ^ 64

/-- The blocks the general heap has handed out and not taken back, if it has only been given
back what it had handed out. -/
def outstanding : List Region → List HeapEvent → Option (List Region)
  | out, [] => some out
  | out, .handed ptr layout :: es => outstanding ((ptr, layout) :: out) es
  | out, .taken ptr layout :: es => if (ptr, layout) ∈ out then outstanding (out.erase (ptr, layout)) es else none

theorem outstanding_append {out out' : List Region} {es fs : List HeapEvent}
    (h : outstanding out es = some out') :
    outstanding out (es ++ fs) = outstanding out' fs := by
  induction es generalizing out with
  | nil =>
    obtain rfl := Option.some.inj h
    rfl
  | cons e es ih =>
    cases e with
    | handed ptr layout => exact ih h
    | taken ptr layout =>
      simp only [outstanding] at h
      split at h
      · rename_i hin
        simpa only [List.cons_append, outstanding, if_pos hin] using ih h
      · cases h

/-- What the allocator relies on: the general heap hands out aligned blocks apart from the
outstanding ones, leaves the bytes of outstanding blocks alone, and does not depend on them. -/
structure FallbackHeap.Lawful (F : FallbackHeap) (Ok : F.State → Bytes → List Region → Prop) : Prop where
  allocated : ∀ {s s' m m' out layout ptr}, Ok s m out → F.allocateFirstFit layout s m = (some ptr, s', m') →
    Placed (ptr, layout) ∧ (∀ b ∈ out, Apart (ptr, layout) b) ∧ Ok s' m' ((ptr, layout) :: out) ∧
      ∀ x, Covered out x → m' x = m x
  refused : ∀ {s s' m m' out layout}, Ok s m out → F.allocateFirstFit layout s m = (none, s', m') →
    Ok s' m' out ∧ ∀ x, Covered out x → m' x = m x
  deallocated : ∀ {s m out layout ptr}, Ok s m out → (ptr, layout) ∈ out →
    Ok (F.deallocate ptr layout s m).1 (F.deallocate ptr layout s m).2 (out.erase (ptr, layout)) ∧
      ∀ x, Covered (out.erase (ptr, layout)) x → (F.deallocate ptr layout s m).2 x = m x
  written : ∀ {s m m' out}, Ok s m out → (∀ x, ¬ Covered out x → m' x = m x) → Ok s m' out

def total (regions : List Region) : Nat := (regions.map fun a => a.2.size).sum

theorem total_cons (a : Region) (l : List Region) : total (a :: l) = a.2.size + total l := by
  simp [total]

theorem total_append (l l' : List Region) : total (l ++ l') = total l + total l' := by
  simp [total]

theorem total_perm {l l' : List Region} (h : l.Perm l') : total l = total l' := (h.map _).sum_nat

/-- Regions without a common byte cover as many bytes as their sizes add up to. -/
theorem total_covered {l : List Region} (h : l.Pairwise Apart) :
    ∃ u : Finset Nat, u.card = total l ∧ ∀ x, x ∈ u → Covered l x := by
  induction l with
  | nil => exact ⟨∅, rfl, by simp⟩
  | cons a l ih =>
    obtain ⟨hhead, htail⟩ := List.pairwise_cons.mp h
    obtain ⟨u, hcard, hcovered⟩ := ih htail
    have hdisjoint : Disjoint (Finset.Ico a.1 (a.1 + a.2.size)) u := by
      refine Finset.disjoint_left.mpr fun x hx hu => ?_
      obtain ⟨b, hb, hin⟩ := hcovered x hu
      exact hhead b hb x (Finset.mem_Ico.mp hx) hin
    refine ⟨Finset.Ico a.1 (a.1 + a.2.size) ∪ u, ?_, fun x hx => ?_⟩
    · rw [Finset.card_union_of_disjoint hdisjoint, Nat.card_Ico, hcard, Nat.add_sub_cancel_left]
      rw [total_cons]
    · cases Finset.mem_union.mp hx with
      | inl hin => exact ⟨a, by simp, Finset.mem_Ico.mp hin⟩
      | inr hu =>
        obtain ⟨b, hb, hin⟩ := hcovered x hu
        exact ⟨b, by simp [hb], hin⟩

theorem total_lt {l : List Region} (h : l.Pairwise Apart) (hplaced : ∀ a ∈ l, Placed a) : total l < 2 ^ 64 := by
  obtain ⟨u, hcard, hcovered⟩ := total_covered h
  have hsub : u ⊆ Finset.Ico 1 (2 ^ 64) := by
    intro x hx
    obtain ⟨b, hb, hin⟩ := hcovered x hx
    have hb := hplaced b hb
    unfold Placed at hb
    unfold inside at hin
    exact Finset.mem_Ico.mpr (by omega)
  have hle := Finset.card_le_card hsub
  rw [Nat.card_Ico] at hle
  omega

/-! ## Runs -/

/-- The heap with the allocations that are live and everything asked of the general heap. -/
structure HeapWorld (F : FallbackHeap) where
  heap : FixedSizeBlockAllocator F
  live : List Region
  log : List HeapEvent

/-- A caller frees what is live with the layout it was allocated with, and writes to what is live. -/
inductive HeapOp where
  | alloc : Layout → HeapOp
  | dealloc : Nat → Layout → HeapOp
  | store : Nat → UInt8 → HeapOp

variable {F : FallbackHeap}

namespace HeapWorld

open FixedSizeBlockAllocator

def step (ar : Arith) (w : HeapWorld F) : HeapOp → Option (HeapWorld F)
  | .alloc layout =>
    let r : Ran _ _ Empty Nat := alloc ar layout w.heap
    match r.outcome with
    | .ok ptr => some ⟨r.state, if ptr = 0 then w.live else (ptr, layout) :: w.live, w.log ++ r.events⟩
    | _ => none
  | .dealloc ptr layout =>
    if (ptr, layout) ∈ w.live then
      let r : Ran _ _ Empty Unit := dealloc ar ptr layout w.heap
      match r.outcome with
      | .ok () => some ⟨r.state, w.live.erase (ptr, layout), w.log ++ r.events⟩
      | _ => none
    else none
  | .store x b =>
    if Covered w.live x then some { w with heap := { w.heap with memory := Function.update w.heap.memory x b } }
    else none

/-- `FixedSizeBlockAllocator::new` over an initialised general heap. -/
def fresh (fallback : F.State) (memory : Bytes) : HeapWorld F := ⟨⟨fun _ => none, fallback, 0, memory⟩, [], []⟩

end HeapWorld

/-! ## The invariant -/

/-- The block under an allocation. -/
def reserved (a : Region) : Region :=
  match listIndex a.2 with
  | some index => (a.1, Layout.block index)
  | none => a

def freeBlocks (free : Index → List Nat) : List Region :=
  (List.finRange BLOCK_SIZES.length).flatMap fun index => (free index).map fun ptr => (ptr, Layout.block index)

structure HeapInv (Ok : F.State → Bytes → List Region → Prop) (w : HeapWorld F) (free : Index → List Nat)
    (out : List Region) : Prop where
  owed : outstanding [] w.log = some out
  ok : Ok w.heap.fallbackAllocator w.heap.memory out
  apart : out.Pairwise Apart
  placed : ∀ a ∈ out, Placed a
  shared : (freeBlocks free ++ w.live.map reserved).Perm out
  threaded : ∀ index, Threads w.heap.memory (w.heap.listHeads index) (free index)
  counted : w.heap.blockFree = total (freeBlocks free)

section Blocks

variable {layout : Layout} {index : Index} {free : Index → List Nat} {a : Region}

theorem mem_freeBlocks {ptr : Nat} (h : ptr ∈ free index) : (ptr, Layout.block index) ∈ freeBlocks free :=
  List.mem_flatMap.mpr ⟨index, List.mem_finRange index, List.mem_map_of_mem h⟩

theorem reserved_of_index (h : listIndex layout = some index) (ptr : Nat) :
    reserved (ptr, layout) = (ptr, Layout.block index) := by
  simp only [reserved, h]

theorem reserved_of_large (h : listIndex layout = none) (ptr : Nat) : reserved (ptr, layout) = (ptr, layout) := by
  simp only [reserved, h]

theorem listIndex_fits (h : listIndex layout = some index) : max layout.size layout.align ≤ blockSize index := by
  have hp := (List.findFinIdx?_eq_some_iff.mp h).1
  simpa [blockSize] using hp

theorem listIndex_align (h : listIndex layout = some index) : layout.align ∣ blockSize index := by
  have hfits : layout.align ≤ blockSize index := Nat.le_trans (Nat.le_max_right _ _) (listIndex_fits h)
  obtain ⟨k, hk⟩ := layout.power
  rw [blockSize_power, hk] at hfits ⊢
  exact Nat.pow_dvd_pow 2 ((Nat.pow_le_pow_iff_right (by decide)).mp hfits)

/-- An allocation lies in the block under it, and is aligned with it. -/
theorem reserved_holds (a : Region) : (reserved a).1 = a.1 ∧ a.2.size ≤ (reserved a).2.size ∧
    a.2.align ∣ (reserved a).2.align := by
  obtain ⟨ptr, layout⟩ := a
  cases h : listIndex layout with
  | none =>
    rw [reserved_of_large h]
    exact ⟨rfl, Nat.le_refl _, Nat.dvd_refl _⟩
  | some index =>
    rw [reserved_of_index h]
    exact ⟨rfl, Nat.le_trans (Nat.le_max_left _ _) (listIndex_fits h), listIndex_align h⟩

theorem inside_reserved {x : Nat} (h : inside a x) : inside (reserved a) x := by
  obtain ⟨hptr, hsize, _⟩ := reserved_holds a
  unfold inside at h ⊢
  omega

theorem Apart.of_reserved {b : Region} (h : Apart (reserved a) (reserved b)) : Apart a b :=
  fun x ha hb => h x (inside_reserved ha) (inside_reserved hb)

theorem Placed.of_reserved (h : Placed (reserved a)) : Placed a := by
  obtain ⟨hptr, hsize, halign⟩ := reserved_holds a
  obtain ⟨hne, hdvd, hle⟩ := h
  rw [hptr] at hne hdvd hle
  exact ⟨hne, Nat.dvd_trans halign hdvd, by omega⟩

/-- The first eight bytes of a free block hold its node. -/
theorem inside_node {ptr x : Nat} (hx : ptr ≤ x) (hx' : x < ptr + 8) : inside (ptr, Layout.block index) x := by
  have hroom := blockSize_room index
  exact ⟨hx, by simp only [Layout.block]; omega⟩

theorem freeBlocks_pop {ptr : Nat} {rest : List Nat} (h : free index = ptr :: rest) :
    (freeBlocks free).Perm ((ptr, Layout.block index) :: freeBlocks (Function.update free index rest)) := by
  refine flatMap_perm (List.nodup_finRange _) (List.mem_finRange index) ?_ ?_
  · rw [h, List.map_cons, Function.update_self]
  · intro j hj
    rw [Function.update_of_ne hj]

theorem freeBlocks_push (free : Index → List Nat) (index : Index) (ptr : Nat) :
    (freeBlocks (Function.update free index (ptr :: free index))).Perm
      ((ptr, Layout.block index) :: freeBlocks free) := by
  have hpop := freeBlocks_pop (Function.update_self index (ptr :: free index) free)
  rwa [Function.update_idem, Function.update_eq_self] at hpop

theorem Apart.ne_block {ptr : Nat} {b : Region} (h : Apart (ptr, Layout.block index) b) :
    ptr ≠ b.1 ∨ b.2.size = 0 := by
  by_contra hboth
  obtain ⟨hptr, hsize⟩ := not_or.mp hboth
  have hptr : ptr = b.1 := not_not.mp hptr
  exact h ptr (inside_node (Nat.le_refl _) (by omega)) ⟨by omega, by omega⟩

/-- Blocks that are apart begin at different addresses. -/
theorem freeBlocks_nodup (h : (freeBlocks free).Pairwise Apart) :
    ((List.finRange BLOCK_SIZES.length).flatMap free).Nodup := by
  have hstarts : (freeBlocks free).map Prod.fst = (List.finRange BLOCK_SIZES.length).flatMap free := by
    simp [freeBlocks, List.map_flatMap, Function.comp_def]
  have hsized : ∀ b ∈ freeBlocks free, ∃ index, b.2 = Layout.block index := by
    intro b hb
    obtain ⟨index, _, hb⟩ := List.mem_flatMap.mp hb
    obtain ⟨ptr, _, rfl⟩ := List.mem_map.mp hb
    exact ⟨index, rfl⟩
  rw [← hstarts, List.Nodup, List.pairwise_map]
  refine h.imp_of_mem fun {a b} ha hb hapart => ?_
  obtain ⟨i, hi⟩ := hsized a ha
  obtain ⟨j, hj⟩ := hsized b hb
  have hroom := blockSize_room j
  have hsize : b.2.size ≠ 0 := by
    rw [hj]
    exact Nat.ne_of_gt (by simp only [Layout.block]; omega)
  obtain ⟨ptr, layout⟩ := a
  obtain rfl : layout = Layout.block i := hi
  exact hapart.ne_block.resolve_right hsize

end Blocks

/-! ## What a call does to the invariant -/

namespace HeapInv

open FixedSizeBlockAllocator

variable {Ok : F.State → Bytes → List Region → Prop} {w : HeapWorld F} {free : Index → List Nat}
    {out : List Region}
  {layout : Layout} {index : Index}

theorem free_out (h : HeapInv Ok w free out) {b : Region} (hb : b ∈ freeBlocks free) : b ∈ out :=
  h.shared.mem_iff.mp (List.mem_append_left _ hb)

theorem live_out (h : HeapInv Ok w free out) {a : Region} (ha : a ∈ w.live) : reserved a ∈ out :=
  h.shared.mem_iff.mp (List.mem_append_right _ (List.mem_map_of_mem ha))

theorem live_placed (h : HeapInv Ok w free out) {a : Region} (ha : a ∈ w.live) : Placed a :=
  (h.placed _ (h.live_out ha)).of_reserved

theorem blocks_apart (h : HeapInv Ok w free out) : (freeBlocks free ++ w.live.map reserved).Pairwise Apart :=
  (h.shared.pairwise_iff Apart.symm).mpr h.apart

theorem threads_frame {m m' : Bytes} {heads : Index → Option Nat}
    (h : ∀ index, Threads m (heads index) (free index))
    (hsame : ∀ x, Covered (freeBlocks free) x → m' x = m x) (index : Index) :
    Threads m' (heads index) (free index) := by
  refine (h index).frame fun ptr hptr x hx hx' => ?_
  exact hsame x ⟨_, mem_freeBlocks hptr, inside_node hx hx'⟩

/-- A write to an outstanding block does not concern the general heap. -/
theorem ok_written (lawful : F.Lawful Ok) (h : HeapInv Ok w free out) {m' : Bytes} {b : Region} (hb : b ∈ out)
    (hsame : ∀ x, ¬ inside b x → m' x = w.heap.memory x) : Ok w.heap.fallbackAllocator m' out :=
  lawful.written h.ok fun x hx => hsame x fun hin => hx ⟨b, hb, hin⟩

/-- A block from the general heap, or none. -/
theorem fallbackAlloc_keeps (lawful : F.Lawful Ok) (h : HeapInv Ok w free out) {block : Layout}
    (hblock : ∀ ptr, reserved (ptr, layout) = (ptr, block)) {ptr : Nat}
    (hptr : (fallbackAlloc block w.heap : Ran _ _ Empty Nat).outcome = .ok ptr) :
    ∃ out', HeapInv Ok ⟨(fallbackAlloc block w.heap : Ran _ _ Empty Nat).state,
      if ptr = 0 then w.live else (ptr, layout) :: w.live,
      w.log ++ (fallbackAlloc block w.heap : Ran _ _ Empty Nat).events⟩ free out' := by
  have hcovered : ∀ x, Covered (freeBlocks free) x → Covered out x := fun x ⟨b, hb, hx⟩ => ⟨b, h.free_out hb, hx⟩
  rw [fallbackAlloc_run] at hptr ⊢
  rcases hcall : F.allocateFirstFit block w.heap.fallbackAllocator w.heap.memory with ⟨r, s', m'⟩
  rw [hcall] at hptr
  cases r with
  | none =>
    obtain ⟨hok, hsame⟩ := lawful.refused h.ok hcall
    cases hptr
    exact ⟨out,
      { owed := by simpa using h.owed
        ok := hok
        apart := h.apart
        placed := h.placed
        shared := by simpa using h.shared
        threaded := threads_frame h.threaded fun x hx => hsame x (hcovered x hx)
        counted := h.counted }⟩
  | some p =>
    obtain ⟨hplaced, hapart, hok, hsame⟩ := lawful.allocated h.ok hcall
    cases hptr
    refine ⟨(p, block) :: out,
      { owed := ?_
        ok := hok
        apart := List.pairwise_cons.mpr ⟨hapart, h.apart⟩
        placed := List.forall_mem_cons.mpr ⟨hplaced, h.placed⟩
        shared := ?_
        threaded := threads_frame h.threaded fun x hx => hsame x (hcovered x hx)
        counted := h.counted }⟩
    · rw [outstanding_append h.owed]
      rfl
    · have hne : p ≠ 0 := hplaced.1
      simp only [Option.getD_some, if_neg hne, List.map_cons, hblock]
      exact List.perm_middle.trans (h.shared.cons _)

/-- The node of a block lies in the block. -/
theorem setNode_outside_block {m : Bytes} {ptr x : Nat} (next : Option Nat)
    (hx : ¬ inside (ptr, Layout.block index) x) : setNode m ptr next x = m x :=
  setNode_outside fun hin => hx (inside_node hin.1 hin.2)

/-- The first block of a list becomes an allocation. -/
theorem popped_keeps (lawful : F.Lawful Ok) (h : HeapInv Ok w free out) (hindex : listIndex layout = some index)
    {ptr : Nat} (hhead : w.heap.listHeads index = some ptr) :
    blockSize index ≤ w.heap.blockFree ∧
      ∃ free', HeapInv Ok ⟨w.heap.popped index ptr (w.heap.blockFree - blockSize index),
        if ptr = 0 then w.live else (ptr, layout) :: w.live, w.log⟩ free' out := by
  obtain ⟨rest, hfree, hrest⟩ := (hhead ▸ h.threaded index).pop
  have hpop := freeBlocks_pop hfree
  have hout : (ptr, Layout.block index) ∈ out := h.free_out (hpop.mem_iff.mpr (by simp))
  have hne : ptr ≠ 0 := (h.placed _ hout).1
  have hclear : ∀ b ∈ freeBlocks (Function.update free index rest), Apart (ptr, Layout.block index) b :=
    (List.pairwise_cons.mp ((hpop.pairwise_iff Apart.symm).mp (List.pairwise_append.mp h.blocks_apart).1)).1
  have hwrite : ∀ x, ¬ inside (ptr, Layout.block index) x → setNode w.heap.memory ptr none x = w.heap.memory x :=
    fun x hx => setNode_outside_block none hx
  have hthreads : ∀ j, Threads w.heap.memory (Function.update w.heap.listHeads index (node w.heap.memory ptr) j)
      (Function.update free index rest j) := by
    intro j
    by_cases hj : j = index
    · subst hj
      simpa only [Function.update_self] using hrest
    · simpa only [Function.update_of_ne hj] using h.threaded j
  have hcount : w.heap.blockFree = blockSize index + total (freeBlocks (Function.update free index rest)) := by
    rw [h.counted, total_perm hpop, total_cons]
    rfl
  refine ⟨by omega, Function.update free index rest,
    { owed := h.owed
      ok := h.ok_written lawful hout hwrite
      apart := h.apart
      placed := h.placed
      shared := ?_
      threaded := threads_frame hthreads fun x ⟨b, hb, hx⟩ => hwrite x fun hin => hclear b hb x hin hx
      counted := by simp only [popped]; omega }⟩
  rw [if_neg hne, List.map_cons, reserved_of_index hindex]
  have hmoved := hpop.append_right (w.live.map reserved)
  exact (List.perm_middle.trans hmoved.symm).trans h.shared

/-- The node written to a block that is clear of the lists is the first of its own. -/
theorem pushed_threaded (h : HeapInv Ok w free out) {ptr : Nat}
    (hclear : ∀ b ∈ freeBlocks free, Apart (ptr, Layout.block index) b) (j : Index) :
    Threads (setNode w.heap.memory ptr (w.heap.listHeads index))
      (Function.update w.heap.listHeads index (some ptr) j) (Function.update free index (ptr :: free index) j) := by
  by_cases hj : j = index
  · subst hj
    simp only [Function.update_self]
    refine (h.threaded j).push ?_ ?_
    · intro q hq
      have hq := h.placed _ (h.free_out (mem_freeBlocks hq))
      have hroom := blockSize_room j
      exact ⟨hq.1, by have := hq.2.2; simp only [Layout.block] at this; omega⟩
    · intro q hq x hx hx' hin
      exact hclear _ (mem_freeBlocks hq) x (inside_node hin.1 hin.2) (inside_node hx hx')
  · simp only [Function.update_of_ne hj]
    refine (h.threaded j).frame fun q hq x hx hx' => ?_
    have hout : ¬ inside (ptr, Layout.block index) x := fun hin =>
      hclear _ (mem_freeBlocks hq) x hin (inside_node hx hx')
    exact setNode_outside_block _ hout

/-- A freed allocation becomes the first block of its list. -/
theorem pushed_keeps (lawful : F.Lawful Ok) (h : HeapInv Ok w free out) (hindex : listIndex layout = some index)
    {ptr : Nat} (hlive : (ptr, layout) ∈ w.live) :
    w.heap.blockFree + blockSize index < 2 ^ 64 ∧
      ∃ free', HeapInv Ok ⟨w.heap.pushed index ptr (w.heap.blockFree + blockSize index),
        w.live.erase (ptr, layout), w.log⟩ free' out := by
  have hres : reserved (ptr, layout) = (ptr, Layout.block index) := reserved_of_index hindex ptr
  have hout : (ptr, Layout.block index) ∈ out := hres ▸ h.live_out hlive
  have hsplit : (w.live.map reserved).Perm ((ptr, Layout.block index) ::
    (w.live.erase (ptr, layout)).map reserved) :=
    hres ▸ (List.perm_cons_erase hlive).map reserved
  have hclear : ∀ b ∈ freeBlocks free, Apart (ptr, Layout.block index) b := fun b hb =>
    ((List.pairwise_append.mp h.blocks_apart).2.2 b hb _ (hsplit.mem_iff.mpr (by simp))).symm
  have hpush := freeBlocks_push free index ptr
  have hshared : (freeBlocks (Function.update free index (ptr :: free index)) ++
      (w.live.erase (ptr, layout)).map reserved).Perm out :=
    (hpush.append_right _).trans (List.perm_middle.symm.trans ((hsplit.symm.append_left _).trans h.shared))
  have hcount : total (freeBlocks (Function.update free index (ptr :: free index))) =
      w.heap.blockFree + blockSize index := by
    rw [total_perm hpush, total_cons, h.counted, Nat.add_comm]
    rfl
  have hall : total (freeBlocks (Function.update free index (ptr :: free index))) ≤ total out := by
    rw [← total_perm hshared, total_append]
    exact Nat.le_add_right _ _
  refine ⟨by have := total_lt h.apart h.placed; omega, Function.update free index (ptr :: free index),
    { owed := h.owed
      ok := h.ok_written lawful hout fun x hx => setNode_outside_block _ hx
      apart := h.apart
      placed := h.placed
      shared := hshared
      threaded := h.pushed_threaded hclear
      counted := hcount.symm }⟩

/-- A large block goes back to the general heap. -/
theorem large_keeps (lawful : F.Lawful Ok) (h : HeapInv Ok w free out) (hlarge : listIndex layout = none)
    {ptr : Nat} (hlive : (ptr, layout) ∈ w.live) :
    HeapInv Ok ⟨{ w.heap with
        fallbackAllocator := (F.deallocate ptr layout w.heap.fallbackAllocator w.heap.memory).1
        memory := (F.deallocate ptr layout w.heap.fallbackAllocator w.heap.memory).2 },
      w.live.erase (ptr, layout), w.log ++ [.taken ptr layout]⟩ free (out.erase (ptr, layout)) := by
  have hres : reserved (ptr, layout) = (ptr, layout) := reserved_of_large hlarge ptr
  have hout : (ptr, layout) ∈ out := by simpa only [hres] using h.live_out hlive
  obtain ⟨hok, hsame⟩ := lawful.deallocated h.ok hout
  have hsplit : (w.live.map reserved).Perm ((ptr, layout) :: (w.live.erase (ptr, layout)).map reserved) := by
    simpa only [List.map_cons, hres] using (List.perm_cons_erase hlive).map reserved
  have hshared : (freeBlocks free ++ (w.live.erase (ptr, layout)).map reserved).Perm
    (out.erase (ptr, layout)) := by
    have hall := (hsplit.append_left (freeBlocks free)).symm.trans h.shared
    have htaken := (List.perm_middle.symm.trans hall).erase (ptr, layout)
    rwa [List.erase_cons_head] at htaken
  exact
    { owed := by rw [outstanding_append h.owed, outstanding, if_pos hout, outstanding]
      ok := hok
      apart := h.apart.sublist List.erase_sublist
      placed := fun a ha => h.placed a (List.mem_of_mem_erase ha)
      shared := hshared
      threaded := threads_frame h.threaded fun x ⟨b, hb, hx⟩ =>
        hsame x ⟨b, hshared.mem_iff.mp (List.mem_append_left _ hb), hx⟩
      counted := h.counted }

theorem store_keeps (lawful : F.Lawful Ok) (h : HeapInv Ok w free out) {x : Nat} (hx : Covered w.live x)
    (v : UInt8) :
    HeapInv Ok { w with heap := { w.heap with memory := Function.update w.heap.memory x v } } free out := by
  obtain ⟨a, ha, hin⟩ := hx
  have hclear : ∀ b ∈ freeBlocks free, Apart b (reserved a) := fun b hb =>
    (List.pairwise_append.mp h.blocks_apart).2.2 b hb _ (List.mem_map_of_mem ha)
  have hother : ∀ y, ¬ inside (reserved a) y → Function.update w.heap.memory x v y = w.heap.memory y := by
    intro y hy
    have hne : y ≠ x := fun he => hy (he ▸ inside_reserved hin)
    rw [Function.update_of_ne hne]
  exact
    { owed := h.owed
      ok := h.ok_written lawful (h.live_out ha) hother
      apart := h.apart
      placed := h.placed
      shared := h.shared
      threaded := threads_frame h.threaded fun y ⟨b, hb, hy⟩ => hother y (hclear b hb y hy)
      counted := h.counted }

/-! ## One step and whole runs -/

open HeapWorld

variable {ar : Arith} {w' : HeapWorld F}

theorem fresh {s₀ : F.State} {m₀ : Bytes} (start : Ok s₀ m₀ []) :
    HeapInv Ok (HeapWorld.fresh s₀ m₀) (fun _ => []) [] where
  owed := rfl
  ok := start
  apart := List.Pairwise.nil
  placed := by simp
  shared := .refl _
  threaded := fun _ => rfl
  counted := rfl

/-- An allocation ends, with a pointer or with null. -/
theorem alloc_keeps (lawful : F.Lawful Ok) (h : HeapInv Ok w free out) (ar : Arith) (layout : Layout) :
    ∃ w' free' out', step ar w (.alloc layout) = some w' ∧ HeapInv Ok w' free' out' := by
  have hfallback : ∀ {block : Layout}, (∀ ptr, reserved (ptr, layout) = (ptr, block)) →
      (alloc ar layout w.heap : Ran _ _ Empty Nat) = fallbackAlloc block w.heap →
      ∃ w' free' out', step ar w (.alloc layout) = some w' ∧ HeapInv Ok w' free' out' := by
    intro block hblock hcall
    have hptr : (fallbackAlloc block w.heap : Ran _ _ Empty Nat).outcome = .ok _ :=
      congrArg Ran.outcome (fallbackAlloc_run block w.heap)
    obtain ⟨out', hkept⟩ := h.fallbackAlloc_keeps lawful hblock hptr
    exact ⟨_, free, out', by simp only [step, hcall, hptr], hkept⟩
  cases hindex : listIndex layout with
  | none => exact hfallback (reserved_of_large hindex) (by rw [alloc_large hindex])
  | some index =>
    cases hhead : w.heap.listHeads index with
    | none => exact hfallback (reserved_of_index hindex) (alloc_empty hindex hhead)
    | some ptr =>
      obtain ⟨hle, free', hkept⟩ := h.popped_keeps lawful hindex hhead
      have hfree : ar.sub w.heap.blockFree (blockSize index) = some (w.heap.blockFree - blockSize index) :=
        if_pos hle
      have hcall : (alloc ar layout w.heap : Ran _ _ Empty Nat) = _ := alloc_listed hindex hhead hfree
      exact ⟨_, free', out, by simp only [step, hcall, List.append_nil], hkept⟩

theorem dealloc_keeps (lawful : F.Lawful Ok) (h : HeapInv Ok w free out) {ptr : Nat} {layout : Layout}
    (hlive : (ptr, layout) ∈ w.live) :
    ∃ w' free' out', step ar w (.dealloc ptr layout) = some w' ∧ HeapInv Ok w' free' out' := by
  cases hindex : listIndex layout with
  | none =>
    have hne : ptr ≠ 0 := (h.live_placed hlive).1
    have hcall : (dealloc ar ptr layout w.heap : Ran _ _ Empty Unit) = _ := dealloc_large hindex hne
    exact ⟨_, free, _, by simp only [step, if_pos hlive, hcall], h.large_keeps lawful hindex hlive⟩
  | some index =>
    obtain ⟨hlt, free', hkept⟩ := h.pushed_keeps lawful hindex hlive
    have hfree : ar.add w.heap.blockFree (blockSize index) = some (w.heap.blockFree + blockSize index) :=
      ar.add_of_lt hlt
    have hcall : (dealloc ar ptr layout w.heap : Ran _ _ Empty Unit) = _ := dealloc_listed hindex ptr hfree
    exact ⟨_, free', out, by simp only [step, if_pos hlive, hcall, List.append_nil], hkept⟩

theorem step_keeps (lawful : F.Lawful Ok) (h : HeapInv Ok w free out) {op : HeapOp}
    (hstep : step ar w op = some w') :
    ∃ free' out', HeapInv Ok w' free' out' := by
  cases op with
  | alloc layout =>
    obtain ⟨w₁, free', out', hw₁, hkept⟩ := h.alloc_keeps lawful ar layout
    obtain rfl := Option.some.inj (hw₁.symm.trans hstep)
    exact ⟨free', out', hkept⟩
  | dealloc ptr layout =>
    have hlive : (ptr, layout) ∈ w.live := by
      by_contra hnot
      simp [step, hnot] at hstep
    obtain ⟨w₁, free', out', hw₁, hkept⟩ := h.dealloc_keeps lawful hlive
    obtain rfl := Option.some.inj (hw₁.symm.trans hstep)
    exact ⟨free', out', hkept⟩
  | store x v =>
    simp only [step] at hstep
    split at hstep
    · rename_i hx
      obtain rfl := Option.some.inj hstep
      exact ⟨free, out, h.store_keeps lawful hx v⟩
    · cases hstep

/-- No run is stuck, and every run keeps the invariant. -/
theorem run_keeps (lawful : F.Lawful Ok) {s₀ : F.State} {m₀ : Bytes} (start : Ok s₀ m₀ []) {ops : List HeapOp}
    (h : run (step ar) (HeapWorld.fresh s₀ m₀) ops = some w) : ∃ free out, HeapInv Ok w free out := by
  refine run_invariant (I := fun w => ∃ free out, HeapInv Ok w free out) ?_ ⟨_, _, HeapInv.fresh start⟩ h
  intro w op w' hI hstep
  obtain ⟨free, out, hI⟩ := hI
  exact hI.step_keeps lawful hstep

end HeapInv

/-! ## Heap safety -/

/-- The nine lists hold these blocks, which are apart, of their class in size and alignment, and
what is live is apart from them, apart in itself, and aligned. The general heap has only been given
back what it had handed out. -/
structure HeapSafe (w : HeapWorld F) (free : Index → List Nat) (out : List Region) : Prop where
  owed : outstanding [] w.log = some out
  listed : ∀ index, Threads w.heap.memory (w.heap.listHeads index) (free index)
  classed : ∀ index, ∀ ptr ∈ free index, (ptr, Layout.block index) ∈ out ∧ blockSize index ∣ ptr
  distinct : ((List.finRange BLOCK_SIZES.length).flatMap free).Nodup
  disjoint : (freeBlocks free).Pairwise Apart
  aligned : ∀ a ∈ w.live, a.2.align ∣ a.1
  alive : w.live.Pairwise Apart
  unlisted : ∀ a ∈ w.live, ∀ b ∈ freeBlocks free, Apart a b

theorem HeapInv.safe {Ok : F.State → Bytes → List Region → Prop} {w : HeapWorld F} {free : Index → List Nat}
    {out : List Region} (h : HeapInv Ok w free out) : HeapSafe w free out := by
  obtain ⟨hfree, hlive, hcross⟩ := List.pairwise_append.mp h.blocks_apart
  exact
    { owed := h.owed
      listed := h.threaded
      classed := fun index ptr hptr =>
        ⟨h.free_out (mem_freeBlocks hptr), (h.placed _ (h.free_out (mem_freeBlocks hptr))).2.1⟩
      distinct := freeBlocks_nodup hfree
      disjoint := hfree
      aligned := fun a ha => (h.live_placed ha).2.1
      alive := (List.pairwise_map.mp hlive).imp Apart.of_reserved
      unlisted := fun a ha b hb x hx => (hcross b hb _ (List.mem_map_of_mem ha)).symm x (inside_reserved hx) }

/-- An allocation of a safe heap ends; a pointer it returns is aligned, apart from what was live,
and apart from what the lists hold then. -/
def Grants (ar : Arith) (w : HeapWorld F) (layout : Layout) : Prop :=
  ∃ ptr w', (FixedSizeBlockAllocator.alloc ar layout w.heap : Ran _ _ Empty Nat).outcome = .ok ptr ∧
    HeapWorld.step ar w (.alloc layout) = some w' ∧
    (ptr ≠ 0 → layout.align ∣ ptr ∧ (∀ a ∈ w.live, Apart (ptr, layout) a) ∧
      ∃ free out, HeapSafe w' free out ∧ ∀ b ∈ freeBlocks free, Apart (ptr, layout) b)

theorem HeapInv.grants {Ok : F.State → Bytes → List Region → Prop} (lawful : F.Lawful Ok) {w : HeapWorld F}
    {free : Index → List Nat} {out : List Region} (h : HeapInv Ok w free out) (ar : Arith) (layout : Layout) :
    Grants ar w layout := by
  obtain ⟨w', free', out', hstep, hkept⟩ := h.alloc_keeps lawful ar layout
  have hsafe := hkept.safe
  have hall := hstep
  simp only [HeapWorld.step] at hstep
  split at hstep
  · rename_i ptr hptr
    refine ⟨ptr, w', hptr, hall, fun hne => ?_⟩
    have hlive : w'.live = (ptr, layout) :: w.live := by
      rw [← Option.some.inj hstep]
      exact if_neg hne
    have hnew : (ptr, layout) ∈ w'.live := by simp [hlive]
    have hapart := hsafe.alive
    rw [hlive] at hapart
    exact ⟨hsafe.aligned _ hnew, (List.pairwise_cons.mp hapart).1, free', out', hsafe, hsafe.unlisted _ hnew⟩
  · cases hstep

/-- After any calls and writes the heap is safe, the next allocation keeps to it, and freeing what
is live succeeds. -/
theorem kernel_heap_safe (ar : Arith) {Ok : F.State → Bytes → List Region → Prop} (lawful : F.Lawful Ok)
    {s₀ : F.State} {m₀ : Bytes} (start : Ok s₀ m₀ []) {ops : List HeapOp} {w : HeapWorld F}
    (h : run (HeapWorld.step ar) (HeapWorld.fresh s₀ m₀) ops = some w) :
    (∃ free out, HeapSafe w free out) ∧ (∀ layout, Grants ar w layout) ∧
      ∀ a ∈ w.live, ∃ w', HeapWorld.step ar w (.dealloc a.1 a.2) = some w' := by
  obtain ⟨free, out, hI⟩ := HeapInv.run_keeps lawful start h
  refine ⟨⟨free, out, hI.safe⟩, hI.grants lawful ar, fun a ha => ?_⟩
  obtain ⟨w', _, _, hstep, _⟩ := hI.dealloc_keeps lawful ha
  exact ⟨w', hstep⟩

/-! ## A general heap -/

/-- Without holes, first fit hands out the next addresses. -/
def bump (limit : Nat) : FallbackHeap where
  State := Nat
  allocateFirstFit layout top memory :=
    let ptr := (top + layout.align - 1) / layout.align * layout.align
    if ptr + layout.size ≤ min limit (2 ^ 64) then (some ptr, ptr + layout.size, memory) else (none, top, memory)
  deallocate _ _ top memory := (top, memory)

def BumpOk (top : Nat) (_ : Bytes) (out : List Region) : Prop := 0 < top ∧ ∀ b ∈ out, b.1 + b.2.size ≤ top

theorem le_roundUp (layout : Layout) (top : Nat) :
    top ≤ (top + layout.align - 1) / layout.align * layout.align := by
  have hpos : 0 < layout.align := by
    obtain ⟨k, hk⟩ := layout.power
    rw [hk]
    exact Nat.two_pow_pos k
  have hdiv := Nat.div_add_mod (top + layout.align - 1) layout.align
  have hmod := Nat.mod_lt (top + layout.align - 1) hpos
  rw [Nat.mul_comm]
  omega

theorem bump_lawful (limit : Nat) : (bump limit).Lawful BumpOk where
  allocated := by
    intro (top : Nat) (top' : Nat) m m' out layout ptr hok hcall
    have hup := le_roundUp layout top
    simp only [bump] at hcall
    split at hcall
    · rename_i hfits
      cases hcall
      have htop : 0 < top := hok.1
      refine ⟨⟨by omega, Nat.dvd_mul_left _ _, by dsimp only; omega⟩, ?_, ⟨by omega, ?_⟩, fun _ _ => rfl⟩
      · intro b hb x hin hx
        have hend := hok.2 b hb
        simp only [inside] at hin hx
        omega
      · intro b hb
        cases List.mem_cons.mp hb with
        | inl he => rw [he]
        | inr hb => exact Nat.le_trans (hok.2 b hb) (Nat.le_trans hup (Nat.le_add_right _ _))
    · cases hcall
  refused := by
    intro (top : Nat) (top' : Nat) m m' out layout hok hcall
    simp only [bump] at hcall
    split at hcall
    · cases hcall
    · cases hcall
      exact ⟨hok, fun _ _ => rfl⟩
  deallocated := fun hok _ => ⟨⟨hok.1, fun b hb => hok.2 b (List.mem_of_mem_erase hb)⟩, fun _ _ => rfl⟩
  written := fun hok _ => hok

def boxLayout : Layout := ⟨24, 8, ⟨3, rfl⟩, by decide⟩

def vecLayout : Layout := ⟨32, 16, ⟨4, rfl⟩, by decide⟩

/-- A freed box becomes the buffer of a vector. -/
theorem kernel_heap_safe_reuse :
    ∃ w, run (HeapWorld.step .checked) (HeapWorld.fresh (F := bump 0x444444540000)
    (0x444444440000 : Nat) fun _ => 0)
        [.alloc boxLayout, .alloc boxLayout, .store 0x444444440020 7, .dealloc 0x444444440000 boxLayout,
          .alloc vecLayout] = some w ∧
      w.live = [(0x444444440000, vecLayout), (0x444444440020, boxLayout)] ∧ (∃ free out, HeapSafe w free out) ∧
      (∀ layout, Grants .checked w layout) ∧
      ∀ a ∈ w.live, ∃ w', HeapWorld.step .checked w (.dealloc a.1 a.2) = some w' := by
  obtain ⟨w, hw, hlive⟩ : ∃ w, run (HeapWorld.step .checked)
      (HeapWorld.fresh (F := bump 0x444444540000) (0x444444440000 : Nat) fun _ => 0)
      [.alloc boxLayout, .alloc boxLayout, .store 0x444444440020 7, .dealloc 0x444444440000 boxLayout,
        .alloc vecLayout] = some w ∧ w.live = [(0x444444440000, vecLayout), (0x444444440020, boxLayout)] :=
    ⟨_, rfl, rfl⟩
  exact ⟨w, hw, hlive, kernel_heap_safe .checked (bump_lawful _) ⟨by decide, by simp⟩ hw⟩

end Idkernel
