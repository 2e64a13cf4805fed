import Mathlib.Algebra.Group.Nat.Defs
import Mathlib.Data.List.Induction
import Mathlib.Data.List.Nodup
import Idkernel.Paging

/-!
# Page tables in physical memory

A table is a frame of 512 words. An entry is a word: the address in the middle,
the flags on both sides. Nothing tells a table from other memory but the
entries that lead to it. The kernel reaches every frame through its direct map.
-/
namespace Idkernel

open Address

namespace PageTableFlags

def HUGE_PAGE : PageTableFlags := 0x80
def GLOBAL : PageTableFlags := 0x100

/-- All bits that are flags. -/
def all : PageTableFlags := 0xFFF0000000000FFF

def contains (flags flag : PageTableFlags) : Bool := flags &&& flag = flag

/-- `flags - flag` -/
def without (flags flag : PageTableFlags) : PageTableFlags := flags &&& ~~~flag

end PageTableFlags

open PageTableFlags

abbrev PageTableEntry := UInt64

abbrev PageTableIndex := Fin 512

namespace PageTableEntry

def ADDRESS : UInt64 := 0x000FFFFFFFFFF000

theorem address_lt (e : PageTableEntry) : (e &&& ADDRESS).toNat < 2 ^ 52 := by
  rw [UInt64.toNat_and]
  exact Nat.and_lt_two_pow _ (by decide)

def flags (e : PageTableEntry) : PageTableFlags := e &&& PageTableFlags.all

def addr (e : PageTableEntry) : PhysAddr := ⟨(e &&& ADDRESS).toNat, address_lt e⟩

def setFlags (e : PageTableEntry) (flags : PageTableFlags) : PageTableEntry := (e &&& ADDRESS) ||| flags

def present (e : PageTableEntry) : Bool := e.flags.contains PRESENT

def huge (e : PageTableEntry) : Bool := e.flags.contains HUGE_PAGE

def isGlobal (e : PageTableEntry) : Bool := e.flags.contains GLOBAL

/-- The frame at the address, where a next table is. -/
def target (e : PageTableEntry) : PhysFrame := .containingAddress e.addr

/-- `frame`, without the reason of a failure -/
def frame (e : PageTableEntry) : Option PhysFrame :=
  if ¬ e.present then none else if e.huge then none else some e.target

theorem frame_eq_some {e : PageTableEntry} {f : PhysFrame} :
    e.frame = some f ↔ e.present = true ∧ e.huge = false ∧ e.target = f := by
  unfold frame
  cases hp : e.present <;> cases hh : e.huge <;> simp

end PageTableEntry

/-- The frame of a number that is small enough. -/
def frameOf (n : Nat) : PhysFrame := .containingAddress (.newTruncate (4096 * n))

abbrev Slot := PhysFrame × PageTableIndex

/-- All memory, as tables. -/
abbrev PhysMemory := Slot → PageTableEntry

namespace PhysMemory

variable {m : PhysMemory} {t : PhysFrame}

/-- Where a path of entries ends, if each leads to a frame. -/
def along (next : PageTableEntry → Option PhysFrame) (m : PhysMemory) : PhysFrame → List PageTableIndex →
    Option PhysFrame
  | t, [] => some t
  | t, i :: path => (next (m (t, i))).bind fun u => along next m u path

section Along

variable {next : PageTableEntry → Option PhysFrame}

@[simp] theorem along_nil (m : PhysMemory) (t : PhysFrame) : m.along next t [] = some t := rfl

theorem along_cons {i : PageTableIndex} {path : List PageTableIndex} {f : PhysFrame} :
    m.along next t (i :: path) = some f ↔ ∃ u, next (m (t, i)) = some u ∧ m.along next u path = some f := by
  simp [along, Option.bind_eq_some_iff]

theorem along_append {p q : List PageTableIndex} :
    m.along next t (p ++ q) = (m.along next t p).bind fun u => m.along next u q := by
  induction p generalizing t with
  | nil => rfl
  | cons i p ih =>
    simp only [List.cons_append, along]
    cases next (m (t, i)) with
    | none => rfl
    | some u => exact ih

theorem along_snoc {p : List PageTableIndex} {i : PageTableIndex} {f : PhysFrame} :
    m.along next t (p ++ [i]) = some f ↔ ∃ u, m.along next t p = some u ∧ next (m (u, i)) = some f := by
  rw [along_append, Option.bind_eq_some_iff]
  simp [along]

end Along

/-- The table at the end of a path. -/
abbrev follow (m : PhysMemory) (t : PhysFrame) (path : List PageTableIndex) : Option PhysFrame :=
  m.along PageTableEntry.frame t path

/-- The bytes that an entry of a level stands for; the lowest level is zero here. -/
def pageSize (level : Nat) : Nat := 4096 * 512 ^ level

def indexAt (level v : Nat) : PageTableIndex := ⟨v / pageSize level % 512, Nat.mod_lt _ (by decide)⟩

/-- The processor's walk: the address with the flags of all entries on the way. A huge page
has one of the two middle levels. -/
def translate (m : PhysMemory) : Nat → PhysFrame → Nat → Option (Nat × List PageTableFlags)
  | 0, _, _ => none
  | level + 1, t, v =>
    let e := m (t, indexAt level v)
    if ¬ e.present then none
    else if level = 0 ∨ level < 3 ∧ e.huge then
      some (e.addr.raw / pageSize level * pageSize level + v % pageSize level, [e.flags])
    else if e.huge then none
    else (translate m level e.target v).map fun r => (r.1, e.flags :: r.2)

theorem translate_absent {level v : Nat} (h : (m (t, indexAt level v)).present = false) :
    m.translate (level + 1) t v = none := by
  simp [translate, h]

theorem translate_table {level v : Nat} {u : PhysFrame} (h : (m (t, indexAt level v)).frame = some u)
    (hlevel : level ≠ 0) : m.translate (level + 1) t v =
      (m.translate level u v).map fun r => (r.1, (m (t, indexAt level v)).flags :: r.2) := by
  obtain ⟨hpresent, hhuge, htarget⟩ := PageTableEntry.frame_eq_some.mp h
  simp [translate, hpresent, hhuge, htarget, hlevel]

theorem translate_huge {level v : Nat} (hpresent : (m (t, indexAt level v)).present = true)
    (hhuge : (m (t, indexAt level v)).huge = true) (hlevel : level < 3) : m.translate (level + 1) t v ≠ none := by
  simp [translate, hpresent, hhuge, hlevel]

theorem translate_step_congr {m' : PhysMemory} {level v : Nat}
    (hentry : m' (t, indexAt level v) = m (t, indexAt level v))
    (hnext : ∀ u, (m (t, indexAt level v)).frame = some u → m'.translate level u v = m.translate level u v) :
    m'.translate (level + 1) t v = m.translate (level + 1) t v := by
  simp only [translate, hentry]
  split
  · rfl
  rename_i hpresent
  split
  · rfl
  split
  · rfl
  rename_i hhuge
  rw [hnext _ (PageTableEntry.frame_eq_some.mpr ⟨by simpa using hpresent, by simpa using hhuge, rfl⟩)]

/-- A walk sees no more than the tables it can come to. -/
theorem translate_congr {m' : PhysMemory} {level v : Nat}
    (h : ∀ p u, p.length < level → m.follow t p = some u → ∀ k, m' (u, k) = m (u, k)) :
    m'.translate level t v = m.translate level t v := by
  induction level generalizing t with
  | zero => rfl
  | succ level ih =>
    refine translate_step_congr (h [] t (by simp) rfl _) fun u hu => ih fun p f hp hf => ?_
    exact h (indexAt level v :: p) f (by simpa using hp) (along_cons.mpr ⟨u, hu, hf⟩)

/-! ## Halves -/

def indices : List PageTableIndex := List.finRange 512

def lowerIndices : List PageTableIndex := indices.take 256

def LowerIndex (i : PageTableIndex) : Prop := i.val < 256

def HigherIndex (i : PageTableIndex) : Prop := 256 ≤ i.val

theorem mem_lowerIndices {i : PageTableIndex} : i ∈ lowerIndices ↔ LowerIndex i := by
  unfold lowerIndices indices LowerIndex
  rw [List.mem_take_iff_getElem]
  constructor
  · rintro ⟨j, hj, rfl⟩
    simp only [List.getElem_finRange]
    simp only [List.length_finRange] at hj
    exact Nat.lt_of_lt_of_le hj (Nat.min_le_left _ _)
  · intro hi
    exact ⟨i.val, by simp [hi], by simp⟩

theorem lowerIndices_nodup : lowerIndices.Nodup := (List.nodup_finRange 512).sublist (List.take_sublist _ _)

theorem lowerIndex_indexAt (v : VirtAddr) : LowerIndex (indexAt 3 v.raw) ↔ v.LowerHalf := by
  have hv := v.canonical
  unfold LowerIndex VirtAddr.LowerHalf indexAt pageSize
  dsimp only
  omega

/-- A path to a table of one of the three lower levels, from an entry of one half of the root. -/
structure TablePath (Half : PageTableIndex → Prop) (p : List PageTableIndex) : Prop where
  half : ∃ i, p.head? = some i ∧ Half i
  length : p.length ≤ 3

def TableOf (m : PhysMemory) (root : PhysFrame) (Half : PageTableIndex → Prop) (f : PhysFrame) : Prop :=
  ∃ p, TablePath Half p ∧ m.follow root p = some f

theorem TablePath.front {Half : PageTableIndex → Prop} {p : List PageTableIndex} {k : PageTableIndex}
    (h : TablePath Half (p ++ [k])) (hp : p ≠ []) : TablePath Half p := by
  obtain ⟨i, hi, hhalf⟩ := h.half
  have hlen := h.length
  rw [List.head?_append_of_ne_nil _ hp] at hi
  rw [List.length_append] at hlen
  exact ⟨⟨i, hi, hhalf⟩, by omega⟩

/-- Each table of the lower half is referenced by one of its entries, and the root by none. -/
structure Tree (m : PhysMemory) (root : PhysFrame) : Prop where
  referencedOnce : ∀ p q k l t u f, TablePath LowerIndex (p ++ [k]) → TablePath LowerIndex (q ++ [l]) →
    m.follow root p = some t → m.follow root q = some u →
    (m (t, k)).frame = some f → (m (u, l)).frame = some f → t = u ∧ k = l
  rootApart : ¬ m.TableOf root LowerIndex root

theorem Tree.path_unique {root f : PhysFrame} (h : m.Tree root) {p q : List PageTableIndex}
    (hp : TablePath LowerIndex p) (hq : TablePath LowerIndex q) (hpf : m.follow root p = some f)
    (hqf : m.follow root q = some f) : p = q := by
  induction p using List.reverseRecOn generalizing q f with
  | nil =>
    obtain ⟨i, hi, _⟩ := hp.half
    cases hi
  | append_singleton p k ih =>
    obtain rfl | ⟨q, l, rfl⟩ := List.eq_nil_or_concat' q
    · obtain ⟨i, hi, _⟩ := hq.half
      cases hi
    obtain ⟨t, ht, hkf⟩ := along_snoc.mp hpf
    obtain ⟨u, hu, hlf⟩ := along_snoc.mp hqf
    obtain ⟨rfl, rfl⟩ := h.referencedOnce p q k l t u f hp hq ht hu hkf hlf
    have hfront : p = q := by
      by_cases hpn : p = [] <;> by_cases hqn : q = []
      · rw [hpn, hqn]
      · obtain rfl : root = t := by simpa [hpn] using ht
        exact absurd ⟨q, hq.front hqn, hu⟩ h.rootApart
      · obtain rfl : root = t := by simpa [hqn] using hu
        exact absurd ⟨p, hp.front hpn, ht⟩ h.rootApart
      · exact ih (hp.front hpn) (hq.front hqn) ht hu
    rw [hfront]

end PhysMemory

end Idkernel
