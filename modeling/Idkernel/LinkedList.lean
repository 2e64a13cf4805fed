import Idkernel.Address
import Idkernel.KernelHeap
import Idkernel.Objects

/-!
# The first-fit heap

Free regions are threaded through the memory they describe: a node of sixteen
bytes at the beginning of each. An allocation takes the first region it fits
into and gives the rest behind it back as a region of its own.
-/
namespace Idkernel

open Address Objects

/-- Addresses as natural numbers, or as words of 64 bits. -/
inductive Words where
  | naturals
  | machine : Arith → Words

namespace Words

def add : Words → Nat → Nat → Option Nat
  | naturals, a, b => some (a + b)
  | machine ar, a, b => ar.add a b

def sub : Words → Nat → Nat → Option Nat
  | naturals, a, b => if b ≤ a then some (a - b) else none
  | machine ar, a, b => ar.sub a b

/-- `none` is the answer of the function here, and not a panic. -/
def checkedAdd : Words → Nat → Nat → Option Nat
  | naturals, a, b => some (a + b)
  | machine _, a, b => if a + b < 2 ^ 64 then some (a + b) else none

end Words

/-- `x & !mask`. -/
def clearBits (x mask : Nat) : Nat := x - (x &&& mask)

def alignUp (w : Words) (addr align : Nat) : Option Nat := do
  let stop ← w.add addr align
  let last ← w.sub stop 1
  let mask ← w.sub align 1
  some (clearBits last mask)

structure ListNode where
  size : Nat
  next : Option Nat
  deriving DecidableEq

namespace ListNode

/-- `mem::size_of` and `mem::align_of`. -/
def SIZE : Nat := 16
def ALIGN : Nat := 8

def endAddr (w : Words) (startAddr : Nat) (self : ListNode) : Option Nat := w.add startAddr self.size

end ListNode

open ListNode (SIZE ALIGN)

/-- A reference is never null, so the null pointer stands for `None`. -/
def reference (addr : Nat) : Option Nat := if addr = 0 then none else some addr

structure LinkedListAllocator where
  head : ListNode
  memory : Memory ListNode

namespace LinkedListAllocator

/-- The head of the list, or the node at an address. -/
def node (s : LinkedListAllocator) : Option Nat → Option ListNode
  | none => some s.head
  | some p => get SIZE s.memory p

def setNode (s : LinkedListAllocator) (n : ListNode) : Option Nat → LinkedListAllocator
  | none => { s with head := n }
  | some p => { s with memory := put SIZE s.memory p n }

def setNext (s : LinkedListAllocator) (place next : Option Nat) : Option LinkedListAllocator := do
  let n ← s.node place
  some (s.setNode { n with next := next } place)

/-- `new` over some memory. -/
def new (memory : Memory ListNode) : LinkedListAllocator := ⟨⟨0, none⟩, memory⟩

def addFreeRegion (w : Words) (addr size : Nat) (s : LinkedListAllocator) : Option LinkedListAllocator := do
  let up ← alignUp w addr ALIGN
  if up = addr ∧ SIZE ≤ size then
    some ⟨{ s.head with next := reference addr }, put SIZE s.memory addr ⟨size, s.head.next⟩⟩
  else none

def init (w : Words) (heapStart heapSize : Nat) (s : LinkedListAllocator) : Option LinkedListAllocator :=
  addFreeRegion w heapStart heapSize s

def allocFromRegion (w : Words) (startAddr : Nat) (region : ListNode) (size align : Nat) :
    Option (Except Unit Nat) := do
  let allocStart ← alignUp w startAddr align
  match w.checkedAdd allocStart size with
  | none => some (.error ())
  | some allocEnd => do
    let endAddr ← region.endAddr w startAddr
    if allocEnd > endAddr then some (.error ())
    else do
      let excessSize ← w.sub endAddr allocEnd
      if excessSize > 0 ∧ excessSize < SIZE then some (.error ()) else some (.ok allocStart)

/-- The first number bounds the nodes that are looked at. -/
def findRegion (w : Words) (size align : Nat) :
    Nat → Option Nat → LinkedListAllocator → Option (Option (Nat × Nat) × LinkedListAllocator)
  | 0, _, _ => none
  | fuel + 1, current, s => do
    let n ← s.node current
    match n.next with
    | none => some (none, s)
    | some region => do
      let r ← s.node (some region)
      let fit ← allocFromRegion w region r size align
      match fit with
      | .ok allocStart => do
        let s ← s.setNext (some region) none
        let s ← s.setNext current none
        let s ← s.setNext current r.next
        some (some (region, allocStart), s)
      | .error () => findRegion w size align fuel (some region) s

end LinkedListAllocator

/-! ## Layouts -/

/-- `Layout::align_to` of a power of two, as size and alignment. -/
def Layout.alignTo (layout : Layout) (align : Nat) : Option (Nat × Nat) :=
  let align := max layout.align align
  if layout.size + align ≤ 2 ^ 63 then some (layout.size, align) else none

/-- `Layout::pad_to_align`. -/
def padToAlign (size align : Nat) : Nat := clearBits (size + align - 1) (align - 1)

namespace LinkedListAllocator

def sizeAlign (layout : Layout) : Option (Nat × Nat) := do
  let (size, align) ← layout.alignTo ALIGN
  some (max (padToAlign size align) SIZE, align)

/-- What is left of a region behind an allocation. -/
def giveBack (w : Words) (region allocEnd : Nat) (s : LinkedListAllocator) : Option LinkedListAllocator := do
  let r ← s.node (some region)
  let endAddr ← r.endAddr w region
  let excessSize ← w.sub endAddr allocEnd
  if excessSize > 0 then addFreeRegion w allocEnd excessSize s else some s

/-- A null pointer is zero. -/
def alloc (w : Words) (fuel : Nat) (layout : Layout) (s : LinkedListAllocator) :
    Option (Nat × LinkedListAllocator) := do
  let (size, align) ← sizeAlign layout
  let (found, s) ← findRegion w size align fuel none s
  match found with
  | none => some (0, s)
  | some (region, allocStart) => do
    let allocEnd ← w.checkedAdd allocStart size
    let s ← giveBack w region allocEnd s
    some (allocStart, s)

def dealloc (w : Words) (ptr : Nat) (layout : Layout) (s : LinkedListAllocator) :
    Option LinkedListAllocator := do
  let (size, _) ← sizeAlign layout
  addFreeRegion w ptr size s

end LinkedListAllocator

/-! ## Rounding -/

theorem clearBits_two_pow (x k : Nat) : clearBits x (2 ^ k - 1) = x / 2 ^ k * 2 ^ k := by
  have hmod := Nat.div_add_mod' x (2 ^ k)
  rw [clearBits, Nat.and_two_pow_sub_one_eq_mod]
  omega

/-- The least multiple that is not below. -/
def roundUp (x align : Nat) : Nat := (x + align - 1) / align * align

theorem roundUp_spec (x : Nat) {align : Nat} (h : 0 < align) :
    align ∣ roundUp x align ∧ x ≤ roundUp x align ∧ roundUp x align < x + align := by
  have hmod := Nat.mod_lt (x + align - 1) h
  have hdiv := Nat.div_add_mod' (x + align - 1) align
  have hdvd : align ∣ roundUp x align := Nat.dvd_mul_left _ _
  unfold roundUp at *
  exact ⟨hdvd, by omega, by omega⟩

/-- What is aligned is not moved, and nothing else stays where it is. -/
theorem roundUp_eq_iff {x align : Nat} (h : 0 < align) : roundUp x align = x ↔ align ∣ x := by
  constructor
  · intro heq
    rw [← heq]
    exact Nat.dvd_mul_left _ _
  · rintro ⟨q, rfl⟩
    have hq : (align * q + align - 1) / align = q := by
      rw [Nat.add_sub_assoc h, Nat.mul_add_div h, Nat.div_eq_of_lt (by omega), Nat.add_zero]
    rw [roundUp, hq, Nat.mul_comm]

theorem alignUp_naturals (addr : Nat) {align : Nat} (h : ∃ k, align = 2 ^ k) :
    alignUp .naturals addr align = some (roundUp addr align) := by
  obtain ⟨k, rfl⟩ := h
  have hmask : 1 ≤ 2 ^ k := Nat.two_pow_pos k
  have hlast : 1 ≤ addr + 2 ^ k := by omega
  simp only [alignUp, roundUp, Words.add, Words.sub, Option.bind_eq_bind, Option.bind_some, if_pos hlast,
    if_pos hmask, clearBits_two_pow]

/-! ## Single operations on natural numbers -/

namespace LinkedListAllocator

theorem addFreeRegion_naturals {addr size : Nat} (h : ALIGN ∣ addr) (hsize : SIZE ≤ size)
    (s : LinkedListAllocator) :
    addFreeRegion .naturals addr size s =
      some ⟨{ s.head with next := reference addr }, put SIZE s.memory addr ⟨size, s.head.next⟩⟩ := by
  have hpower : ∃ k, ALIGN = 2 ^ k := ⟨3, rfl⟩
  have hup : roundUp addr ALIGN = addr := (roundUp_eq_iff (by decide)).mpr h
  simp only [addFreeRegion, alignUp_naturals addr hpower, hup, Option.bind_eq_bind, Option.bind_some, true_and,
    if_pos hsize]

/-- An allocation at the first aligned address ends with the region, or leaves room for a node. -/
def Room (size align : Nat) (region : Block) : Prop :=
  roundUp region.1 align + size = region.1 + region.2 ∨
    roundUp region.1 align + size + SIZE ≤ region.1 + region.2

instance (size align : Nat) (region : Block) : Decidable (Room size align region) :=
  inferInstanceAs (Decidable (_ ∨ _))

theorem allocFromRegion_naturals (p : Nat) (r : ListNode) (size : Nat) {align : Nat} (h : ∃ k, align = 2 ^ k) :
    allocFromRegion .naturals p r size align =
      some (if Room size align (p, r.size) then .ok (roundUp p align) else .error ()) := by
  have hup := alignUp_naturals p h
  have hpos : 0 < SIZE := by decide
  by_cases hend : roundUp p align + size > p + r.size
  · have hroom : ¬ Room size align (p, r.size) := by
      simp only [Room]
      omega
    simp [allocFromRegion, hup, Words.checkedAdd, ListNode.endAddr, Words.add, hend, hroom]
  · have hsub : roundUp p align + size ≤ p + r.size := by omega
    have hexcess : (p + r.size - (roundUp p align + size) > 0 ∧
        p + r.size - (roundUp p align + size) < SIZE) ↔ ¬ Room size align (p, r.size) := by
      simp only [Room]
      omega
    simp only [allocFromRegion, hup, Words.checkedAdd, ListNode.endAddr, Words.add, Words.sub,
      Option.bind_eq_bind, Option.bind_some, if_neg hend, if_pos hsub, hexcess]
    by_cases hroom : Room size align (p, r.size) <;> simp [hroom]

theorem sizeAlign_spec {layout : Layout} {size align : Nat} (h : sizeAlign layout = some (size, align)) :
    (∃ k, align = 2 ^ k) ∧ ALIGN ∣ align ∧ layout.align ∣ align ∧ layout.size ≤ size ∧ SIZE ≤ size ∧
      ALIGN ∣ size := by
  obtain ⟨k, hk⟩ := layout.power
  have hmax : max layout.align ALIGN = 2 ^ max k 3 := by
    rw [hk, show ALIGN = 2 ^ 3 from rfl]
    rcases Nat.le_total k 3 with hle | hle
    · rw [Nat.max_eq_right hle, Nat.max_eq_right (Nat.pow_le_pow_right (by decide) hle)]
    · rw [Nat.max_eq_left hle, Nat.max_eq_left (Nat.pow_le_pow_right (by decide) hle)]
  simp only [sizeAlign, Layout.alignTo] at h
  split at h
  · simp only [Option.bind_eq_bind, Option.bind_some, Option.some.injEq, Prod.mk.injEq] at h
    obtain ⟨rfl, rfl⟩ := h
    have hpos : 0 < 2 ^ max k 3 := Nat.two_pow_pos _
    obtain ⟨hdvd, hle, _⟩ := roundUp_spec layout.size hpos
    unfold roundUp at hdvd hle
    have halign : ALIGN ∣ 2 ^ max k 3 := Nat.pow_dvd_pow 2 (Nat.le_max_right k 3)
    rw [hmax, padToAlign, clearBits_two_pow]
    refine ⟨⟨_, rfl⟩, halign, ?_, ?_, Nat.le_max_right _ _, ?_⟩
    · rw [hk]
      exact Nat.pow_dvd_pow 2 (Nat.le_max_left k 3)
    · exact Nat.le_trans hle (Nat.le_max_left _ _)
    · rcases Nat.le_total ((layout.size + 2 ^ max k 3 - 1) / 2 ^ max k 3 * 2 ^ max k 3) SIZE with hs | hs
      · rw [Nat.max_eq_right hs]
        decide
      · rw [Nat.max_eq_left hs]
        exact Nat.dvd_trans halign hdvd
  · cases h

end LinkedListAllocator

end Idkernel
