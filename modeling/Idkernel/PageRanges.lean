import Idkernel.PageTables
import Idkernel.Spans

/-!
# The mapped ranges, for printing

All four levels are walked in order. Each page is a range with the flags that it
is shown with, and ranges that meet with the same flags are joined. Ranges are
half-open, so none can have the last address.
-/
namespace Address

namespace VirtAddr

theorem le_of_antisymm {v w : VirtAddr} (h : v.raw ≤ w.raw) (h' : w.raw ≤ v.raw) : v = w :=
  ext (Nat.le_antisymm h h')

instance : LinearOrder VirtAddr where
  le v w := v.raw ≤ w.raw
  lt v w := v.raw < w.raw
  le_refl v := Nat.le_refl v.raw
  le_trans _ _ _ h h' := Nat.le_trans h h'
  lt_iff_le_not_ge _ _ := Nat.lt_iff_le_and_not_ge
  le_antisymm _ _ h h' := le_of_antisymm h h'
  le_total v w := Nat.le_total v.raw w.raw
  toDecidableLE v w := inferInstanceAs (Decidable (v.raw ≤ w.raw))
  toDecidableLT v w := inferInstanceAs (Decidable (v.raw < w.raw))
  toDecidableEq := inferInstance

/-- The address with no gap between the two halves. -/
def line (v : VirtAddr) : Nat := v.raw % 2 ^ 48

def last : VirtAddr := ⟨2 ^ 64 - 1, .inr (by decide)⟩

theorem line_cases (v : VirtAddr) : v.raw < 2 ^ 47 ∧ v.line = v.raw ∨
    2 ^ 64 - 2 ^ 47 ≤ v.raw ∧ v.raw < 2 ^ 64 ∧ v.line + (2 ^ 64 - 2 ^ 48) = v.raw := by
  have hv := v.canonical
  unfold line
  omega

theorem line_lt (v : VirtAddr) : v.line < 2 ^ 48 := Nat.mod_lt _ (by decide)

theorem line_last : last.line = 2 ^ 48 - 1 := by decide

theorem le_iff_line {v w : VirtAddr} : v ≤ w ↔ v.line ≤ w.line := by
  have hv := v.line_cases
  have hw := w.line_cases
  have hle : v ≤ w ↔ v.raw ≤ w.raw := Iff.rfl
  rw [hle]
  omega

theorem lt_iff_line {v w : VirtAddr} : v < w ↔ v.line < w.line := by
  rw [lt_iff_not_ge, le_iff_line, Nat.not_le]

theorem new_line {n : Nat} (h : n < 2 ^ 48) : ∃ v, new n = some v ∧ v.line = n := by
  by_cases hn : n < 2 ^ 47
  · exact ⟨_, new_low hn, Nat.mod_eq_of_lt h⟩
  · obtain ⟨v, hv, hraw⟩ := new_sign (Nat.not_lt.mp hn) h
    refine ⟨v, hv, ?_⟩
    unfold line
    omega

/-- An addition may go from one half to the other. -/
theorem add_line {ar : Arith} {v : VirtAddr} {k : Nat} (h : v.line + k < 2 ^ 48) :
    ∃ w, v.add ar k = some w ∧ w.line = v.line + k := by
  have hv := v.line_cases
  have hadd : v.add ar k = new (v.raw + k) := by
    rw [add, ar.add_of_lt (by omega)]
    rfl
  rcases hv with ⟨_, hline⟩ | ⟨hraw, _, hline⟩
  · obtain ⟨w, hw, hwline⟩ := new_line h
    exact ⟨w, by rw [hadd, ← hline, hw], hwline⟩
  · obtain ⟨w, hw⟩ : ∃ w : VirtAddr, w.raw = v.raw + k := ⟨⟨v.raw + k, .inr (by omega)⟩, rfl⟩
    refine ⟨w, by rw [hadd, ← hw, new_raw], ?_⟩
    have hwline := w.line_cases
    omega

/-- Behind the last address there is nothing but zero, where additions wrap. -/
theorem add_overrun {ar : Arith} {v w : VirtAddr} {k : Nat} (h : v.line + k = 2 ^ 48) (hk : k < 2 ^ 47)
    (hadd : v.add ar k = some w) : w.raw = 0 := by
  have hv := v.line_cases
  obtain ⟨n, hn, hw⟩ := Option.bind_eq_some_iff.mp hadd
  have hn := Arith.add_cases hn
  have hw := new_cases hw
  omega

end VirtAddr

end Address

namespace Idkernel

open Address Spans PhysMemory PageTableFlags

namespace PageTableFlags

def ACCESSED : PageTableFlags := 0x20
def DIRTY : PageTableFlags := 0x40

def removedFields : PageTableFlags := ACCESSED ||| DIRTY ||| HUGE_PAGE

end PageTableFlags

def Size4KiB : Nat := 0x1000
def Size2MiB : Nat := 0x200000
def Size1GiB : Nat := 0x40000000

abbrev PageRange := Span VirtAddr PageTableFlags

def exploreLevel1 (ar : Arith) (m : PhysMemory) (start2 : VirtAddr) (table : PhysFrame) :
    Option (List PageRange) :=
  gather indices fun i1 => do
    let x1 := m (table, i1)
    let x1f := x1.flags
    if ¬ x1f.contains PRESENT then return []
    else do
      let start1 ← start2.add ar (i1.val * Size4KiB)
      let stop ← start1.add ar Size4KiB
      return [⟨start1, stop, x1f⟩]

/-- The loop over a table of one of the two middle levels, with the loop inside. -/
def exploreMiddle (size : Nat) (inner : VirtAddr → PageTableFlags → PhysFrame → Option (List PageRange))
    (ar : Arith)
    (m : PhysMemory) (start : VirtAddr) (upper : PageTableFlags) (table : PhysFrame) :
    Option (List PageRange) :=
  gather indices fun i => do
    let x := m (table, i)
    let xf := x.flags &&& upper
    if ¬ xf.contains PRESENT then return []
    else do
      let start ← start.add ar (i.val * size)
      if x.flags.contains HUGE_PAGE then do
        let stop ← start.add ar size
        return [⟨start, stop, xf⟩]
      else inner start xf x.target

/-- The flags `x2f` are not used for the pages of the lowest level. -/
def exploreLevel2 (ar : Arith) (m : PhysMemory) (start3 : VirtAddr) (x3f : PageTableFlags) (table : PhysFrame) :
    Option (List PageRange) :=
  exploreMiddle Size2MiB (fun start2 _ table => exploreLevel1 ar m start2 table) ar m start3 x3f table

def exploreLevel3 (ar : Arith) (m : PhysMemory) (start4 : VirtAddr) (x4f : PageTableFlags) (table : PhysFrame) :
    Option (List PageRange) :=
  exploreMiddle Size1GiB (exploreLevel2 ar m) ar m start4 x4f table

def exploreLevel4 (ar : Arith) (m : PhysMemory) (root : PhysFrame) : Option (List PageRange) :=
  gather indices fun i4 => do
    let x4 := m (root, i4)
    if ¬ x4.flags.contains PRESENT then return []
    else do
      let start4 ← VirtAddr.new (i4.val * 512 * Size1GiB)
      exploreLevel3 ar m start4 x4.flags x4.target

def explorePageRanges (ar : Arith) (m : PhysMemory) (root : PhysFrame) : Option (List PageRange) :=
  (exploreLevel4 ar m root).map fun ranges =>
    coalesce Span.join (ranges.map (Span.relabel fun flags => flags.without removedFields))

/-! ## Flags -/

namespace PageTableFlags

theorem contains_iff {flags flag : PageTableFlags} : flags.contains flag = true ↔ flags &&& flag = flag :=
  decide_eq_true_iff

theorem contains_and {f g flag : PageTableFlags} :
    (f &&& g).contains flag = true ↔ f.contains flag = true ∧ g.contains flag = true := by
  simp only [contains_iff]
  constructor
  · intro h
    have hf : f &&& flag = flag := by
      rw [← h, ← UInt64.and_assoc, ← UInt64.and_assoc, UInt64.and_self]
    have hg : g &&& flag = flag := by
      rw [← h, ← UInt64.and_assoc, UInt64.and_comm f g, ← UInt64.and_assoc, UInt64.and_self]
    exact ⟨hf, hg⟩
  · rintro ⟨hf, hg⟩
    rw [UInt64.and_assoc, hg, hf]

/-- The flags that all have. -/
def intersection : List PageTableFlags → PageTableFlags
  | [] => -1
  | f :: fs => f &&& intersection fs

theorem intersection_contains {fs : List PageTableFlags} {flag : PageTableFlags} :
    (intersection fs).contains flag = true ↔ ∀ f ∈ fs, f.contains flag = true := by
  induction fs with
  | nil => simp [intersection, contains_iff]
  | cons f fs ih => rw [intersection, contains_and, ih, List.forall_mem_cons]

/-- One of them loses nothing to the others when these have all its flags. -/
theorem without_eq_intersection {fs : List PageTableFlags} {leaf : PageTableFlags} (flag : PageTableFlags)
    (h : leaf ∈ fs) :
    leaf.without flag = (intersection fs).without flag ↔
      ∀ f ∈ fs, f.contains (leaf.without flag) = true := by
  rw [← intersection_contains, contains_iff]
  have hself : (intersection fs).contains (intersection fs) = true := contains_iff.mpr UInt64.and_self
  have hleaf := contains_iff.mp (intersection_contains.mp hself leaf h)
  constructor
  · intro heq
    rw [heq, without, ← UInt64.and_assoc, UInt64.and_self]
  · intro hall
    rw [← hall, without, without, ← UInt64.and_assoc, UInt64.and_comm _ leaf, hleaf]

end PageTableFlags

/-- The flags that a page is shown with, from those on the walk below a table of a level: all of them are
inherited by a huge page and none by another. -/
def shownAt : Nat → PageTableFlags → List PageTableFlags → PageTableFlags
  | _, upper, [] => upper
  | 0, upper, _ => upper
  | 1, _, f :: _ => f
  | level + 2, upper, f :: fs => shownAt (level + 1) (f &&& upper) fs

/-- The flags that a page is shown with, from those of all its entries. -/
def shownWalk : List PageTableFlags → PageTableFlags
  | [] => -1
  | f :: fs => shownAt 3 f fs

/-- With four entries there is no huge page, and the last of them is on its own. -/
theorem shownWalk_exact {fs : List PageTableFlags} (hlength : fs.length ≤ 4) :
    (shownWalk fs).without removedFields = (intersection fs).without removedFields ↔
      ∀ leaf, fs[3]? = some leaf → ∀ f ∈ fs, f.contains (leaf.without removedFields) = true := by
  match fs, hlength with
  | [], _ => simp [shownWalk, intersection]
  | [u], _ => simp [shownWalk, shownAt, intersection]
  | [u, a], _ => simp [shownWalk, shownAt, intersection, UInt64.and_comm]
  | [u, a, b], _ =>
    have hcomm : b &&& (a &&& u) = u &&& (a &&& b) := by
      rw [UInt64.and_comm, UInt64.and_comm a u, UInt64.and_assoc]
    simp [shownWalk, shownAt, intersection, hcomm]
  | [u, a, b, c], _ =>
    have hleaf : c ∈ [u, a, b, c] := by simp
    simpa [shownWalk, shownAt] using without_eq_intersection removedFields hleaf

namespace PhysMemory

variable {m : PhysMemory} {t root : PhysFrame}

theorem translate_length {level v : Nat} {r : Nat × List PageTableFlags} (h : m.translate level t v = some r) :
    r.2.length ≤ level := by
  induction level generalizing t r with
  | zero => cases h
  | succ level ih =>
    rw [translate] at h
    split at h
    · cases h
    split at h
    · obtain rfl := Option.some.inj h
      exact Nat.succ_le_succ (Nat.zero_le level)
    split at h
    · cases h
    obtain ⟨r, hr, rfl⟩ := Option.map_eq_some_iff.mp h
    exact Nat.succ_le_succ (ih hr)

/-- In a block of addresses that agree above a level, an entry of a table stands for one part. -/
theorem indexAt_block {level lo : Nat} {v : VirtAddr} {i : PageTableIndex} (hlevel : level ≤ 3)
    (halign : pageSize (level + 1) ∣ lo) (h : lo + i.val * pageSize level ≤ v.line)
    (h' : v.line < lo + i.val * pageSize level + pageSize level) : indexAt level v.raw = i := by
  obtain ⟨c, rfl⟩ := halign
  have hi := i.isLt
  have hv := v.line_cases
  have hlevels : level = 0 ∨ level = 1 ∨ level = 2 ∨ level = 3 := by omega
  refine Fin.ext ?_
  unfold pageSize at h h'
  unfold indexAt pageSize
  dsimp only
  rcases hlevels with rfl | rfl | rfl | rfl <;> omega

end PhysMemory

/-! ## Exploring a block -/

section Blocks

variable {ar : Arith} {m : PhysMemory} {lo size : Nat} {shown : VirtAddr → Option PageTableFlags}

/-- A part of all addresses, where `shown` says with which flags an address is to be shown. -/
structure Pieces (lo size : Nat) (shown : VirtAddr → Option PageTableFlags) (ys : List PageRange) : Prop where
  inside : ∀ y ∈ ys, lo ≤ y.start.line ∧ y.stop.line ≤ lo + size
  sorted : Sorted ys
  labels : ∀ v : VirtAddr, lo ≤ v.line → v.line < lo + size → ∀ l, Labels ys v l ↔ shown v = some l

/-- The ranges are right when the last address is not to be shown. Otherwise the last range, if there is one,
ends at zero. -/
structure Explored (lo size : Nat) (shown : VirtAddr → Option PageTableFlags) (o : Option (List PageRange)) :
    Prop where
  exact : (lo + size = 2 ^ 48 → shown .last = none) → ∃ ys, o = some ys ∧ Pieces lo size shown ys
  overrun : lo + size = 2 ^ 48 → shown .last ≠ none → ∀ ys, o = some ys → ∃ y, [y] <:+ ys ∧ y.stop.raw = 0

theorem last_inside (hsize : 0 < size) (h : lo + size = 2 ^ 48) :
    lo ≤ VirtAddr.last.line ∧ VirtAddr.last.line < lo + size := by
  rw [VirtAddr.line_last]
  omega

theorem Explored.nothing (hsize : 0 < size)
    (h : ∀ v : VirtAddr, lo ≤ v.line → v.line < lo + size → shown v = none) :
    Explored lo size shown (some []) := by
  constructor
  · refine fun _ => ⟨[], rfl, by simp, sorted_nil, fun v hlo hhi l => ?_⟩
    simp [Labels, h v hlo hhi]
  · intro htop hlast
    obtain ⟨hlo, hhi⟩ := last_inside hsize htop
    exact absurd (h _ hlo hhi) hlast

theorem Explored.page {start : VirtAddr} {flags : PageTableFlags} (hsize : 0 < size) (hsmall : size < 2 ^ 47)
    (hline : start.line = lo) (hle : lo + size ≤ 2 ^ 48)
    (h : ∀ v : VirtAddr, lo ≤ v.line → v.line < lo + size → shown v = some flags) :
    Explored lo size shown (do
      let stop ← start.add ar size
      return [⟨start, stop, flags⟩]) := by
  constructor
  · intro hfree
    have htop : lo + size ≠ 2 ^ 48 := by
      intro htop
      obtain ⟨hlo, hhi⟩ := last_inside hsize htop
      cases (h _ hlo hhi).symm.trans (hfree htop)
    obtain ⟨stop, hstop, hstopline⟩ : ∃ w, start.add ar size = some w ∧ w.line = start.line + size :=
      VirtAddr.add_line (by omega)
    refine ⟨[⟨start, stop, flags⟩], by rw [hstop]; rfl, ?_, ?_, ?_⟩
    · intro y hy
      obtain rfl := List.mem_singleton.mp hy
      dsimp only
      omega
    · exact sorted_singleton (VirtAddr.lt_iff_line.mpr (by dsimp only; omega))
    · intro v hlo hhi l
      have hstart : start ≤ v := VirtAddr.le_iff_line.mpr (by omega)
      have hbelow : v < stop := VirtAddr.lt_iff_line.mpr (by omega)
      simp [Labels, Span.Contains, hstart, hbelow, h v hlo hhi]
  · intro htop _ ys hys
    obtain ⟨stop, hstop, hys⟩ := Option.bind_eq_some_iff.mp hys
    obtain rfl := Option.some.inj hys
    exact ⟨_, List.suffix_rfl, VirtAddr.add_overrun (by omega) hsmall hstop⟩

theorem indices_last : indices = (List.finRange 511).map Fin.castSucc ++ [Fin.last 511] :=
  List.finRange_succ_last

/-- The part of a block that an address is in. -/
theorem part_of_block {v : VirtAddr} (hsize : 0 < size) (hlo : lo ≤ v.line) (hhi : v.line < lo + 512 * size) :
    ∃ i : PageTableIndex, lo + i.val * size ≤ v.line ∧ v.line < lo + i.val * size + size := by
  have hlt : (v.line - lo) / size < 512 := (Nat.div_lt_iff_lt_mul hsize).mpr (by omega)
  have hmul := Nat.div_mul_le_self (v.line - lo) size
  have hnext := Nat.lt_div_mul_add (a := v.line - lo) hsize
  exact ⟨⟨(v.line - lo) / size, hlt⟩, by dsimp only; omega, by dsimp only; omega⟩

theorem part_end (i : PageTableIndex) (size : Nat) : i.val * size + size ≤ 512 * size := by
  rw [← Nat.succ_mul]
  exact Nat.mul_le_mul_right size i.isLt

theorem Pieces.flatMap {ys : PageTableIndex → List PageRange} (hsize : 0 < size)
    (h : ∀ i, Pieces (lo + i.val * size) size shown (ys i)) :
    Pieces lo (512 * size) shown (indices.flatMap ys) := by
  constructor
  · intro y hy
    obtain ⟨i, _, hy⟩ := List.mem_flatMap.mp hy
    have hi := part_end i size
    have hinside := (h i).inside y hy
    omega
  · refine sorted_flatMap (fun i _ => (h i).sorted) ((List.pairwise_lt_finRange 512).imp ?_)
    intro i j hij y hy z hz
    have hstep : i.val * size + size ≤ j.val * size := by
      rw [← Nat.succ_mul]
      exact Nat.mul_le_mul_right size hij
    have hyi := (h i).inside y hy
    have hzj := (h j).inside z hz
    exact VirtAddr.le_iff_line.mpr (by omega)
  · intro v hlo hhi l
    rw [labels_flatMap]
    constructor
    · -- a range does not reach into the other parts
      rintro ⟨i, _, s, hs, hcontains, hlabel⟩
      have hinside := (h i).inside s hs
      have hstart := VirtAddr.le_iff_line.mp hcontains.1
      have hstop := VirtAddr.lt_iff_line.mp hcontains.2
      exact ((h i).labels v (by omega) (by omega) l).mp ⟨s, hs, hcontains, hlabel⟩
    · intro hshown
      obtain ⟨i, hilo, hihi⟩ := part_of_block hsize hlo hhi
      exact ⟨i, List.mem_finRange i, ((h i).labels v hilo hihi l).mpr hshown⟩

/-- A loop over the 512 parts of a block. -/
theorem Explored.gather {f : PageTableIndex → Option (List PageRange)} (hsize : 0 < size)
    (hle : lo + 512 * size ≤ 2 ^ 48) (h : ∀ i, Explored (lo + i.val * size) size shown (f i)) :
    Explored lo (512 * size) shown (gather indices f) := by
  constructor
  · intro hfree
    have hparts : ∀ i, ∃ ys, f i = some ys ∧ Pieces (lo + i.val * size) size shown ys := by
      intro i
      have hi := part_end i size
      exact (h i).exact fun htop => hfree (by omega)
    choose ys hys hpieces using hparts
    exact ⟨indices.flatMap ys, gather_eq_some.mpr ⟨fun i _ => ⟨ys i, hys i⟩, by simp [hys]⟩, .flatMap hsize hpieces⟩
  · -- the last part has the last address
    intro htop hlast ys hys
    rw [indices_last] at hys
    obtain ⟨zs, hzs, hsuffix⟩ := gather_suffix hys
    have hpart : lo + (Fin.last 511).val * size + size = 2 ^ 48 := by
      rw [Fin.val_last]
      omega
    obtain ⟨y, hy, hzero⟩ := (h (Fin.last 511)).overrun hpart hlast zs hzs
    exact ⟨y, hy.trans hsuffix, hzero⟩

/-- A loop that skips some parts and starts the others at their first address. -/
theorem Explored.entries {present : PageTableIndex → Bool} {start : PageTableIndex → Option VirtAddr}
    {g : PageTableIndex → VirtAddr → Option (List PageRange)} (hsize : 0 < size)
    (hle : lo + 512 * size ≤ 2 ^ 48)
    (hstart : ∀ i, ∃ v, start i = some v ∧ v.line = lo + i.val * size)
    (habsent : ∀ i, present i = false → ∀ v : VirtAddr, lo + i.val * size ≤ v.line →
      v.line < lo + i.val * size + size → shown v = none)
    (hpresent : ∀ i v, present i = true → v.line = lo + i.val * size →
      Explored (lo + i.val * size) size shown (g i v)) :
    Explored lo (512 * size) shown
      (Spans.gather indices fun i => if ¬ present i then some [] else (start i).bind (g i)) := by
  refine .gather hsize hle fun i => ?_
  cases hi : present i with
  | false =>
    rw [if_pos (by simp)]
    exact .nothing hsize (habsent i hi)
  | true =>
    obtain ⟨v, hv, hline⟩ := hstart i
    rw [if_neg (by simp), hv]
    exact hpresent i v hi hline

end Blocks

/-! ## The levels -/

namespace PhysMemory

variable {m : PhysMemory} {t u : PhysFrame} {level lo : Nat} {upper : PageTableFlags} {i : PageTableIndex}
  {start : VirtAddr} {shown : VirtAddr → Option PageTableFlags}

theorem pageSize_succ (level : Nat) : pageSize (level + 1) = 512 * pageSize level := by
  rw [pageSize, pageSize, Nat.pow_succ, ← Nat.mul_assoc, Nat.mul_comm 512]

theorem pageSize_pos (level : Nat) : 0 < pageSize level :=
  Nat.mul_pos (by decide) (Nat.pow_pos (by decide))

theorem pageSize_le (hlevel : level ≤ 2) : pageSize level ≤ 2 ^ 30 := by
  have hlevels : level = 0 ∨ level = 1 ∨ level = 2 := by omega
  rcases hlevels with rfl | rfl | rfl <;> decide

theorem block_fits (hlevel : level ≤ 4) (h : pageSize level ∣ start.line) :
    start.line + pageSize level ≤ 2 ^ 48 := by
  obtain ⟨c, hc⟩ := h
  have hlt := start.line_lt
  have hlevels : level = 0 ∨ level = 1 ∨ level = 2 ∨ level = 3 ∨ level = 4 := by omega
  unfold pageSize at hc ⊢
  rcases hlevels with rfl | rfl | rfl | rfl | rfl <;> omega

/-- In the block of a table, addresses are shown with the flags on the walk from this table on. -/
def ShownBelow (m : PhysMemory) (level : Nat) (upper : PageTableFlags) (t : PhysFrame) (lo : Nat)
    (shown : VirtAddr → Option PageTableFlags) : Prop :=
  ∀ v : VirtAddr, lo ≤ v.line → v.line < lo + pageSize level →
    shown v = (m.translate level t v.raw).map fun r => shownAt level upper r.2

/-- The addresses of an entry are those of the table that have its index. -/
theorem ShownBelow.part (h : m.ShownBelow (level + 1) upper t lo shown) (hlevel : level ≤ 3)
    (halign : pageSize (level + 1) ∣ lo) {v : VirtAddr} (hlo : lo + i.val * pageSize level ≤ v.line)
    (hhi : v.line < lo + i.val * pageSize level + pageSize level) : indexAt level v.raw = i ∧
      shown v = (m.translate (level + 1) t v.raw).map fun r => shownAt (level + 1) upper r.2 := by
  have hend := part_end i (pageSize level)
  have hsize := pageSize_succ level
  exact ⟨indexAt_block hlevel halign hlo hhi, h v (by omega) (by omega)⟩

theorem ShownBelow.absent (h : m.ShownBelow (level + 1) upper t lo shown) (hlevel : level ≤ 3)
    (halign : pageSize (level + 1) ∣ lo) (hi : (m (t, i)).present = false) (v : VirtAddr)
    (hlo : lo + i.val * pageSize level ≤ v.line) (hhi : v.line < lo + i.val * pageSize level + pageSize level) :
    shown v = none := by
  obtain ⟨hindex, hshown⟩ := h.part hlevel halign hlo hhi
  rw [hshown, translate_absent (hindex ▸ hi)]
  rfl

theorem ShownBelow.page (h : m.ShownBelow (level + 1) upper t lo shown) (hlevel : level ≤ 3)
    (halign : pageSize (level + 1) ∣ lo) (hi : (m (t, i)).present = true)
    (hpage : level = 0 ∨ level < 3 ∧ (m (t, i)).huge = true) (v : VirtAddr)
    (hlo : lo + i.val * pageSize level ≤ v.line) (hhi : v.line < lo + i.val * pageSize level + pageSize level) :
    shown v = some (shownAt (level + 1) upper [(m (t, i)).flags]) := by
  obtain ⟨hindex, hshown⟩ := h.part hlevel halign hlo hhi
  rw [hshown, translate, hindex]
  simp [hi, hpage]

theorem ShownBelow.table (h : m.ShownBelow (level + 2) upper t lo shown) (hlevel : level ≤ 2)
    (halign : pageSize (level + 2) ∣ lo) (hi : (m (t, i)).frame = some u) :
    m.ShownBelow (level + 1) ((m (t, i)).flags &&& upper) u (lo + i.val * pageSize (level + 1)) shown := by
  intro v hlo hhi
  obtain ⟨hindex, hshown⟩ := h.part (by omega) halign hlo hhi
  rw [hshown, translate_table (hindex ▸ hi) (Nat.succ_ne_zero level), hindex, Option.map_map]
  rfl

end PhysMemory

section Levels

variable {ar : Arith} {m : PhysMemory} {level : Nat} {shown : VirtAddr → Option PageTableFlags}

/-- A loop over a table of a level does its block right, wherever the block is. -/
def Explores (m : PhysMemory) (shown : VirtAddr → Option PageTableFlags) (level : Nat)
    (f : VirtAddr → PageTableFlags → PhysFrame → Option (List PageRange)) : Prop :=
  ∀ start upper t, pageSize level ∣ start.line → upper.contains PRESENT = true →
    m.ShownBelow level upper t start.line shown → Explored start.line (pageSize level) shown (f start upper t)

theorem start_of_part {start : VirtAddr} {size : Nat} (hsize : 0 < size)
    (hle : start.line + 512 * size ≤ 2 ^ 48)
    (i : PageTableIndex) : ∃ v, start.add ar (i.val * size) = some v ∧ v.line = start.line + i.val * size := by
  have hi : i.val * size < 512 * size := Nat.mul_lt_mul_of_pos_right i.isLt hsize
  exact VirtAddr.add_line (by omega)

theorem exploreLevel1_explores : Explores m shown 1 fun start _ t => exploreLevel1 ar m start t := by
  intro start upper t halign _ hshown
  have hfits := block_fits (by decide) halign
  have hend : start.line + 512 * Size4KiB ≤ 2 ^ 48 := hfits
  have hsize : 0 < Size4KiB := by decide
  refine Explored.entries hsize hend (start_of_part hsize hend)
    (fun i hi => hshown.absent (by decide) halign hi) ?_
  intro i v hi hv
  have hpart := part_end i Size4KiB
  exact .page hsize (by decide) hv (by omega) (hshown.page (by decide) halign hi (.inl rfl))

/-- A huge page ends the walk, and a table is left to the loop inside. -/
theorem exploreMiddle_explores {inner : VirtAddr → PageTableFlags → PhysFrame → Option (List PageRange)}
    (hlevel : level < 2) (hinner : Explores m shown (level + 1) inner) :
    Explores m shown (level + 2) (exploreMiddle (pageSize (level + 1)) inner ar m) := by
  intro start upper t halign hupper hshown
  have hsize := pageSize_pos (level + 1)
  have hfits := block_fits (by omega) halign
  rw [pageSize_succ] at hfits ⊢
  have hflags : ∀ i, ((m (t, i)).flags &&& upper).contains PRESENT = (m (t, i)).present := by
    intro i
    rw [Bool.eq_iff_iff, contains_and]
    exact and_iff_left hupper
  refine Explored.entries hsize hfits (start_of_part hsize hfits)
    (fun i hi => hshown.absent (by omega) halign (hflags i ▸ hi)) ?_
  intro i v hi hv
  have hpart := part_end i (pageSize (level + 1))
  have hpresent := (hflags i).symm.trans hi
  split
  · next hhuge =>
    have hsmall : pageSize (level + 1) ≤ 2 ^ 30 := pageSize_le (by omega)
    exact .page hsize (by omega) hv (by omega) (hshown.page (by omega) halign hpresent (.inr ⟨by omega, hhuge⟩))
  · next hhuge =>
    have hframe : (m (t, i)).frame = some (m (t, i)).target :=
      PageTableEntry.frame_eq_some.mpr ⟨hpresent, Bool.eq_false_of_not_eq_true hhuge, rfl⟩
    rw [← hv]
    refine hinner v _ _ ?_ hi (hv ▸ hshown.table (by omega) halign hframe)
    rw [hv]
    exact Nat.dvd_add ((Dvd.intro_left 512 (pageSize_succ _).symm).trans halign) (Nat.dvd_mul_left _ _)

theorem size2MiB_eq : Size2MiB = pageSize (0 + 1) := by decide

theorem size1GiB_eq : Size1GiB = pageSize (1 + 1) := by decide

theorem exploreLevel2_explores : Explores m shown 2 (exploreLevel2 ar m) := by
  intro start upper t
  rw [exploreLevel2, size2MiB_eq]
  exact exploreMiddle_explores (by decide) exploreLevel1_explores start upper t

theorem exploreLevel3_explores : Explores m shown 3 (exploreLevel3 ar m) := by
  intro start upper t
  rw [exploreLevel3, size1GiB_eq]
  exact exploreMiddle_explores (by decide) exploreLevel2_explores start upper t

/-- How an address is shown. The bit for huge pages is not looked at in a root entry. -/
def shownFlags (m : PhysMemory) (root : PhysFrame) (v : VirtAddr) : Option PageTableFlags :=
  if ¬ (m (root, indexAt 3 v.raw)).present then none
  else (m.translate 3 (m (root, indexAt 3 v.raw)).target v.raw).map fun r =>
    shownAt 3 (m (root, indexAt 3 v.raw)).flags r.2

theorem exploreLevel4_explored (root : PhysFrame) :
    Explored 0 (2 ^ 48) (shownFlags m root) (exploreLevel4 ar m root) := by
  have hsize := pageSize_pos 3
  have hend : 0 + 512 * pageSize 3 ≤ 2 ^ 48 := by decide
  have hstart : ∀ i : PageTableIndex, ∃ v, VirtAddr.new (i.val * 512 * Size1GiB) = some v ∧
      v.line = 0 + i.val * pageSize 3 := by
    intro i
    have hi := i.isLt
    have hstart : i.val * 512 * Size1GiB = 0 + i.val * pageSize 3 := by
      rw [Nat.zero_add, Nat.mul_assoc]
      rfl
    rw [hstart]
    exact VirtAddr.new_line (by unfold pageSize; omega)
  refine Explored.entries hsize hend hstart ?_ ?_
  · intro i hi v hlo hhi
    have hindex := indexAt_block (by decide) (Nat.dvd_zero _) hlo hhi
    rw [shownFlags, hindex, if_pos]
    exact Bool.eq_false_iff.mp hi
  · intro i v hi hv
    rw [← hv]
    refine exploreLevel3_explores v _ _ ?_ hi ?_
    · rw [hv, Nat.zero_add]
      exact Nat.dvd_mul_left _ _
    · intro w hlo hhi
      have hindex := indexAt_block (by decide) (Nat.dvd_zero _) (hv ▸ hlo) (hv ▸ hhi)
      rw [shownFlags, hindex, if_neg]
      exact not_not_intro hi

end Levels

/-! ## All ranges -/

variable {ar : Arith} {m : PhysMemory} {root : PhysFrame} {ranges : List PageRange}

/-- Where a root entry does not claim to be a huge page, what is shown is what the processor sees. -/
theorem shownFlags_table {v : VirtAddr} (h : (m (root, indexAt 3 v.raw)).huge = false) :
    shownFlags m root v = (m.translate 4 root v.raw).map fun r => shownWalk r.2 := by
  by_cases hpresent : (m (root, indexAt 3 v.raw)).present = true
  · have hframe := PageTableEntry.frame_eq_some.mpr ⟨hpresent, h, rfl⟩
    rw [shownFlags, if_neg (not_not_intro hpresent), translate_table hframe (by decide), Option.map_map]
    rfl
  · rw [shownFlags, if_pos hpresent, translate_absent (Bool.eq_false_of_not_eq_true hpresent)]
    rfl

theorem translate_rootHuge {v : VirtAddr} (h : (m (root, indexAt 3 v.raw)).huge = true) :
    m.translate 4 root v.raw = none := by
  simp [PhysMemory.translate, h]

theorem shownFlags_of_translate {v : VirtAddr} {r : Nat × List PageTableFlags}
    (h : m.translate 4 root v.raw = some r) : shownFlags m root v = some (shownWalk r.2) := by
  cases hhuge : (m (root, indexAt 3 v.raw)).huge with
  | true => cases (translate_rootHuge hhuge).symm.trans h
  | false => rw [shownFlags_table hhuge, h, Option.map_some]

theorem explorePageRanges_labels (ar : Arith) (hlast : shownFlags m root .last = none) :
    ∃ ranges, explorePageRanges ar m root = some ranges ∧ Sorted ranges ∧
      (ranges.IsChain fun r r' => ¬ Joinable r r') ∧
      ∀ v l, Labels ranges v l ↔ ∃ flags, shownFlags m root v = some flags ∧
      flags.without removedFields = l := by
  have hexplored : Explored 0 (2 ^ 48) (shownFlags m root) (exploreLevel4 ar m root) := exploreLevel4_explored root
  obtain ⟨ys, hys, hpieces⟩ := hexplored.exact fun _ => hlast
  have hsorted := sorted_relabel (g := fun flags => flags.without removedFields) hpieces.sorted
  refine ⟨_, by rw [explorePageRanges, hys, Option.map_some], sorted_coalesce hsorted, coalesce_separate _, ?_⟩
  intro v l
  have hv := v.line_lt
  have hlabels := hpieces.labels v (Nat.zero_le _) (by omega)
  simp only [labels_coalesce hsorted, labels_relabel, hlabels]

theorem explorePageRanges_overrun (hlast : shownFlags m root .last ≠ none)
    (h : explorePageRanges ar m root = some ranges) : ∃ y ∈ ranges, y.stop.raw = 0 := by
  obtain ⟨ys, hys, rfl⟩ := Option.map_eq_some_iff.mp h
  obtain ⟨y, ⟨zs, rfl⟩, hzero⟩ := (exploreLevel4_explored root).overrun (by decide) hlast ys hys
  rw [List.map_append, List.map_singleton]
  obtain ⟨r, hr, hstop⟩ := coalesce_stop (List.suffix_append (zs.map _) [y.relabel _])
  exact ⟨r, hr, (congrArg VirtAddr.raw hstop).trans hzero⟩

/-- The ranges are in order and apart, none could be joined with the next, and they have the addresses that
translate, with the flags that all entries on the way have. -/
structure ExactRanges (m : PhysMemory) (root : PhysFrame) (ranges : List PageRange) : Prop where
  nonempty : ∀ y ∈ ranges, y.start < y.stop
  ordered : ranges.Pairwise fun y z => y.stop ≤ z.start
  separate : ranges.IsChain fun y z => ¬ Joinable y z
  covers : ∀ v : VirtAddr, (∃ y ∈ ranges, y.Contains v) ↔ ∃ r, m.translate 4 root v.raw = some r
  flags : ∀ (v : VirtAddr) (r : Nat × List PageTableFlags), m.translate 4 root v.raw = some r →
    ∀ y ∈ ranges, y.Contains v → y.label = (intersection r.2).without removedFields

/-- The last address is not mapped, nothing is mapped below a root entry with the bit for huge pages, and the
upper entries of a page of the lowest level have all its flags that are shown. -/
structure Explorable (m : PhysMemory) (root : PhysFrame) : Prop where
  lastUnmapped : m.translate 4 root (2 ^ 64 - 1) = none
  rootTables : ∀ v : VirtAddr, (m (root, indexAt 3 v.raw)).present = true →
    (m (root, indexAt 3 v.raw)).huge = true → m.translate 3 (m (root, indexAt 3 v.raw)).target v.raw = none
  inherited : ∀ (v : VirtAddr) (r : Nat × List PageTableFlags), m.translate 4 root v.raw = some r →
    ∀ leaf, r.2[3]? = some leaf → ∀ f ∈ r.2, f.contains (leaf.without removedFields) = true

theorem ExactRanges.explorable (hranges : explorePageRanges ar m root = some ranges)
    (h : ExactRanges m root ranges) : Explorable m root := by
  have hlast : shownFlags m root .last = none := by
    by_contra hlast
    obtain ⟨y, hy, hzero⟩ := explorePageRanges_overrun hlast hranges
    have hnonempty : y.start.raw < y.stop.raw := h.nonempty y hy
    omega
  obtain ⟨_, hranges', _, _, hlabels⟩ := explorePageRanges_labels ar hlast
  obtain rfl := Option.some.inj (hranges.symm.trans hranges')
  constructor
  · cases hlastr : m.translate 4 root (2 ^ 64 - 1) with
    | none => rfl
    | some r => cases hlast.symm.trans (shownFlags_of_translate (v := .last) hlastr)
  · intro v hpresent hhuge
    cases hbelow : m.translate 3 (m (root, indexAt 3 v.raw)).target v.raw with
    | none => rfl
    | some r =>
      have hshown : shownFlags m root v = some (shownAt 3 (m (root, indexAt 3 v.raw)).flags r.2) := by
        rw [shownFlags, if_neg (not_not_intro hpresent), hbelow, Option.map_some]
      obtain ⟨y, hy, hcontains, _⟩ := (hlabels v _).mpr ⟨_, hshown, rfl⟩
      obtain ⟨r', hr'⟩ := (h.covers v).mp ⟨y, hy, hcontains⟩
      cases (translate_rootHuge hhuge).symm.trans hr'
  · intro v r hr
    obtain ⟨y, hy, hcontains⟩ := (h.covers v).mpr ⟨r, hr⟩
    obtain ⟨flags, hflags, hlabel⟩ := (hlabels v y.label).mp ⟨y, hy, hcontains, rfl⟩
    obtain rfl := Option.some.inj ((shownFlags_of_translate hr).symm.trans hflags)
    exact (shownWalk_exact (translate_length hr)).mp (hlabel.trans (h.flags v r hr y hy hcontains))

theorem Explorable.shown_eq (h : Explorable m root) (v : VirtAddr) :
    shownFlags m root v = (m.translate 4 root v.raw).map fun r => shownWalk r.2 := by
  cases hhuge : (m (root, indexAt 3 v.raw)).huge with
  | false => exact shownFlags_table hhuge
  | true =>
    rw [translate_rootHuge hhuge, shownFlags]
    by_cases hpresent : (m (root, indexAt 3 v.raw)).present = true
    · simp [hpresent, h.rootTables v hpresent hhuge]
    · simp [hpresent]

/-- Exploring ends, and the ranges are right exactly under the condition. -/
theorem explorePageRanges_exact_iff (ar : Arith) (m : PhysMemory) (root : PhysFrame) :
    (∃ ranges, explorePageRanges ar m root = some ranges ∧ ExactRanges m root ranges) ↔ Explorable m root := by
  constructor
  · rintro ⟨ranges, hranges, h⟩
    exact h.explorable hranges
  · intro h
    have hlast : shownFlags m root .last = none := by
      rw [h.shown_eq, VirtAddr.last, h.lastUnmapped, Option.map_none]
    obtain ⟨ranges, hranges, hsorted, hseparate, hlabels⟩ := explorePageRanges_labels ar hlast
    refine ⟨ranges, hranges, hsorted.nonempty, hsorted.apart, hseparate, ?_, ?_⟩
    · intro v
      constructor
      · rintro ⟨y, hy, hcontains⟩
        obtain ⟨flags, hflags, _⟩ := (hlabels v y.label).mp ⟨y, hy, hcontains, rfl⟩
        rw [h.shown_eq] at hflags
        obtain ⟨r, hr, _⟩ := Option.map_eq_some_iff.mp hflags
        exact ⟨r, hr⟩
      · rintro ⟨r, hr⟩
        obtain ⟨y, hy, hcontains, _⟩ := (hlabels v _).mpr ⟨_, shownFlags_of_translate hr, rfl⟩
        exact ⟨y, hy, hcontains⟩
    · intro v r hr y hy hcontains
      obtain ⟨flags, hflags, hlabel⟩ := (hlabels v y.label).mp ⟨y, hy, hcontains, rfl⟩
      obtain rfl := Option.some.inj ((shownFlags_of_translate hr).symm.trans hflags)
      rw [← hlabel]
      exact (shownWalk_exact (translate_length hr)).mpr (h.inherited v r hr)

/-- A writable page under entries that are not. -/
def writablePage : PhysMemory := fun slot =>
  match slot.1.index, slot.2.val with
  | 1, 0 => 0x2001
  | 2, 0 => 0x3001
  | 3, 0 => 0x4001
  | 4, 0 => 0x5003
  | _, _ => 0

theorem page_shown_writable : ¬ ∃ ranges, explorePageRanges .checked writablePage (frameOf 1) = some ranges ∧
    ExactRanges writablePage (frameOf 1) ranges := by
  rintro ⟨ranges, hranges, h⟩
  have hwalk : writablePage.translate 4 (frameOf 1) VirtAddr.zero.raw = some (0x5000, [1, 1, 1, 3]) := by decide
  have hall := (h.explorable hranges).inherited .zero _ hwalk 3 rfl 1 (by simp)
  cases hall

end Idkernel
