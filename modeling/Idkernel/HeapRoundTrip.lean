import Idkernel.HeapMapping

/-!
# From a frame back to its block

The allocator remembers one offset for each region of the memory map, that of
the first frame it has obtained there. It finds a block again exactly when no
page table was made between the page of that frame and the block's page.
-/
namespace Idkernel

open Address Traced

/-! ## Regions -/

/-- Usable regions consist of whole frames and do not overlap. -/
structure ValidMap (map : List MemoryRegion) : Prop where
  aligned : ∀ r ∈ usableRegions map, r.start % 4096 = 0 ∧ r.stop % 4096 = 0
  disjoint : (usableRegions map).Pairwise fun r q => ∀ x, r.contains x → ¬ q.contains x

theorem MemoryRegion.getElem?_frames {r : MemoryRegion} {i x : Nat} (h : r.frames[i]? = some x) :
    x = r.start + 4096 * i ∧ r.contains x := by
  simp only [frames, List.getElem?_map, Option.map_eq_some_iff, List.getElem?_eq_some_iff, List.length_range,
    List.getElem_range] at h
  obtain ⟨j, ⟨hj, rfl⟩, rfl⟩ := h
  refine ⟨rfl, ?_, ?_⟩ <;> omega

theorem mem_region_of_frame {regions : List MemoryRegion} {x : Nat}
    (h : x ∈ regions.flatMap MemoryRegion.frames) :
    ∃ r ∈ regions, r.contains x ∧ ∃ i, x = r.start + 4096 * i := by
  obtain ⟨r, hr, hx⟩ := List.mem_flatMap.mp h
  obtain ⟨i, hi⟩ := List.mem_iff_getElem?.mp hx
  obtain ⟨hat, hin⟩ := MemoryRegion.getElem?_frames hi
  exact ⟨r, hr, hin, i, hat⟩

/-- Within a region, frames lie as far apart as they are counted. -/
theorem frames_offset {regions : List MemoryRegion}
    (hdisjoint : regions.Pairwise fun r q => ∀ x, r.contains x → ¬ q.contains x) {a b x y : Nat} (hab : a ≤ b)
    (hx : (regions.flatMap MemoryRegion.frames)[a]? = some x)
    (hy : (regions.flatMap MemoryRegion.frames)[b]? = some y) {r : MemoryRegion} (hr : r ∈ regions)
    (hxr : r.contains x) (hyr : r.contains y) : y = x + 4096 * (b - a) := by
  induction regions generalizing a b with
  | nil => cases hr
  | cons q rest ih =>
    obtain ⟨hq, hrest⟩ := List.pairwise_cons.mp hdisjoint
    rw [List.flatMap_cons, List.getElem?_append] at hx hy
    split at hx
    · obtain ⟨hxat, hxq⟩ := MemoryRegion.getElem?_frames hx
      obtain rfl : r = q := (List.mem_cons.mp hr).resolve_right fun hin => hq r hin x hxq hxr
      split at hy
      · obtain ⟨hyat, _⟩ := MemoryRegion.getElem?_frames hy
        omega
      · obtain ⟨p, hp, hyp, _⟩ := mem_region_of_frame (List.mem_of_getElem? hy)
        exact absurd hyp (hq p hp y hyr)
    · obtain ⟨p, hp, hxp, _⟩ := mem_region_of_frame (List.mem_of_getElem? hx)
      have hin : r ∈ rest := (List.mem_cons.mp hr).resolve_left fun he => hq p hp x (he ▸ hxr) hxp
      rw [if_neg (by omega)] at hy
      have hapart := ih hrest (by omega) hx hy hin
      omega

/-- Disjoint regions with a common address are the same. -/
theorem apart_unique {regions : List MemoryRegion}
    (hdisjoint : regions.Pairwise fun r q => ∀ x, r.contains x → ¬ q.contains x) {r q : MemoryRegion}
    (hr : r ∈ regions) (hq : q ∈ regions) {x : Nat} (hxr : r.contains x) (hxq : q.contains x) : r = q := by
  by_contra hne
  have : Std.Symm fun a b : MemoryRegion => ∀ x, a.contains x → ¬ b.contains x := ⟨fun a b h x hb ha => h x ha hb⟩
  exact hdisjoint.forall hr hq hne x hxr hxq

theorem ValidMap.region_unique {map : List MemoryRegion} (hmap : ValidMap map) {r q : MemoryRegion}
    (hr : r ∈ usableRegions map) (hq : q ∈ usableRegions map) {x : Nat} (hxr : r.contains x)
    (hxq : q.contains x) : r = q :=
  apart_unique hmap.disjoint hr hq hxr hxq

/-- A frame of the map starts in a usable region, at a multiple of the frame size. -/
theorem ValidMap.frame {map : List MemoryRegion} (hmap : ValidMap map) {x : Nat} (h : x ∈ usableFrames map) :
    ∃ r ∈ usableRegions map, r.contains x ∧ x % 4096 = 0 := by
  obtain ⟨r, hr, hin, i, rfl⟩ := mem_region_of_frame h
  have haligned := (hmap.aligned r hr).1
  exact ⟨r, hr, hin, by omega⟩

/-! ## Entries -/

namespace HeapRegion

def bounds (e : HeapRegion) : Nat × Nat := (e.start, e.stop)

end HeapRegion

namespace HeapFrameAllocator

variable {map : List MemoryRegion} {entries : List HeapRegion}

theorem mem_bounds_new {b : Nat × Nat} : b ∈ (new map).entries.map HeapRegion.bounds ↔
    ∃ r ∈ usableRegions map, 4096 ≤ r.stop - r.start ∧ b = (r.start, r.stop) := by
  simp only [new, List.map_map, List.mem_map, List.mem_filter, decide_eq_true_eq, Function.comp_apply,
    HeapRegion.bounds, and_assoc, eq_comm (a := b)]

/-- Every entry is for a region. -/
theorem entry_region (hbounds : entries.map HeapRegion.bounds = (new map).entries.map HeapRegion.bounds)
    {e : HeapRegion} (he : e ∈ entries) : ∃ r ∈ usableRegions map, r.start = e.start ∧ r.stop = e.stop := by
  have hmem : e.bounds ∈ (new map).entries.map HeapRegion.bounds := hbounds ▸ List.mem_map_of_mem he
  obtain ⟨r, hr, _, heq⟩ := mem_bounds_new.mp hmem
  obtain ⟨hstart, hstop⟩ := Prod.mk.inj heq
  exact ⟨r, hr, hstart.symm, hstop.symm⟩

/-- The region of a frame is found. -/
theorem position_spec (hmap : ValidMap map)
    (hbounds : entries.map HeapRegion.bounds = (new map).entries.map HeapRegion.bounds) {r : MemoryRegion}
    (hr : r ∈ usableRegions map) {x : Nat} (hx : r.contains x) :
    ∃ i e, position entries x = some i ∧ entries[i]? = some e ∧ e.start = r.start ∧ e.stop = r.stop := by
  have hsize : 4096 ≤ r.stop - r.start := by
    have haligned := hmap.aligned r hr
    have hstart := hx.1
    have hstop := hx.2
    omega
  have hmem : (r.start, r.stop) ∈ entries.map HeapRegion.bounds :=
    hbounds ▸ mem_bounds_new.mpr ⟨r, hr, hsize, rfl⟩
  obtain ⟨e', he', heq⟩ := List.mem_map.mp hmem
  obtain ⟨hstart, hstop⟩ := Prod.mk.inj heq
  have hfound : (position entries x).isSome := by
    rw [position, List.findIdx?_isSome, List.any_eq_true]
    refine ⟨e', he', decide_eq_true ?_⟩
    rw [hstart, hstop]
    exact hx
  obtain ⟨i, hi⟩ := Option.isSome_iff_exists.mp hfound
  obtain ⟨hlt, hin, _⟩ := List.findIdx?_eq_some_iff_getElem.mp hi
  obtain ⟨q, hq, hqstart, hqstop⟩ := entry_region hbounds (List.getElem_mem hlt)
  have hxq : q.contains x := by
    simp only [decide_eq_true_eq] at hin
    rw [MemoryRegion.contains, hqstart, hqstop]
    exact hin
  obtain rfl : r = q := hmap.region_unique hr hq hx hxq
  exact ⟨i, entries[i], hi, List.getElem?_eq_getElem hlt, hqstart.symm, hqstop.symm⟩

/-- No address is in two entries. -/
theorem entry_unique (hmap : ValidMap map)
    (hbounds : entries.map HeapRegion.bounds = (new map).entries.map HeapRegion.bounds) {i j : Nat}
    {e e' : HeapRegion}
    (hi : entries[i]? = some e) (hj : entries[j]? = some e') {x : Nat} (hx : e.start ≤ x ∧ x < e.stop)
    (hx' : e'.start ≤ x ∧ x < e'.stop) : i = j := by
  have hnew : ((new map).entries.map HeapRegion.bounds).Pairwise
      fun b c => ∀ x, b.1 ≤ x ∧ x < b.2 → ¬ (c.1 ≤ x ∧ x < c.2) := by
    rw [new, List.map_map, List.pairwise_map]
    exact hmap.disjoint.filter _
  have hpairs := List.pairwise_iff_getElem.mp (hbounds ▸ hnew)
  obtain ⟨hilt, rfl⟩ := List.getElem?_eq_some_iff.mp hi
  obtain ⟨hjlt, rfl⟩ := List.getElem?_eq_some_iff.mp hj
  rcases Nat.lt_trichotomy i j with hlt | heq | hgt
  · have hpair := hpairs i j (by simpa) (by simpa) hlt x (by rw [List.getElem_map]; exact hx)
    rw [List.getElem_map] at hpair
    exact absurd hx' hpair
  · exact heq
  · have hpair := hpairs j i (by simpa) (by simpa) hgt x (by rw [List.getElem_map]; exact hx')
    rw [List.getElem_map] at hpair
    exact absurd hx hpair

/-! ## One call -/

variable {ε : Type} {a : HeapFrameAllocator} {i : Nat} {e : HeapRegion} (ar : Arith)

/-- The allocator after a look at a frame and its block. -/
def learned (a : HeapFrameAllocator) (i : Nat) (e : HeapRegion) (p : PhysAddr) (v : VirtAddr) :
    HeapFrameAllocator :=
  if e.virtStart = none then setVirtStart i (v.raw - (p.raw - e.start)) a else a

theorem checkRegionVirt_run {p : PhysAddr} {v : VirtAddr} (hi : position a.entries p.raw = some i)
    (he : a.entries[i]? = some e) (hin : e.start ≤ p.raw) (hv : 2 ^ 63 ≤ v.raw) :
    (checkRegionVirt ar p v a : Ran _ _ ε _) = ⟨.ok (), a.learned i e p v, []⟩ := by
  rw [checkRegionVirt, Comp.read_bind, hi, Comp.unwrap_some, Comp.ret_bind, he, Comp.unwrap_some, Comp.ret_bind]
  cases hvirt : e.virtStart with
  | some start => simp [learned, hvirt]
  | none =>
    have hp := p.bounded
    have hoffset : p.sub e.start = some ⟨p.raw - e.start, by omega⟩ := by
      rw [PhysAddr.sub, if_pos hin, PhysAddr.new, dif_pos]
    have haddr : ar.sub v.raw (p.raw - e.start) = some (v.raw - (p.raw - e.start)) := if_pos (by omega)
    have hne : v.raw - (p.raw - e.start) ≠ 0 := by omega
    dsimp only
    rw [hoffset, Comp.unwrap_some, Comp.ret_bind, haddr, Comp.unwrap_some, Comp.ret_bind, Comp.expect_true hne,
      Comp.ret_bind]
    simp [learned, hvirt]

theorem allocateFrame_run {tables : Boot} {f : PhysFrame} {v : VirtAddr}
    (hf : tables.translateAddr v = some f.start)
    (hi : position a.entries f.start.raw = some i) (he : a.entries[i]? = some e) (hin : e.start ≤ f.start.raw)
    (hv : 2 ^ 63 ≤ v.raw) :
    (allocateFrame ar tables (some v) a : Ran _ _ ε _) = ⟨.ok (some f), a.learned i e f.start v, []⟩ := by
  have hcheck := checkRegionVirt_run (ε := ε) ar (v := v) hi he hin hv
  have hframe : PhysFrame.fromStartAddress f.start = some f := dif_pos f.aligned
  rw [allocateFrame, hf, Comp.unwrap_some, Comp.ret_bind, Comp.bind_ok (congrArg Ran.outcome hcheck),
    hcheck, hframe]
  rfl

theorem physToVirt_run {p : PhysAddr} {start : Nat} (hi : position a.entries p.raw = some i)
    (he : a.entries[i]? = some e) (hin : e.start ≤ p.raw) (hstart : e.virtStart = some start) :
    (physToVirt ar p a : Ran _ BlockEvent ε _) =
      match (ar.add start (p.raw - e.start)).bind VirtAddr.new with
      | some v => ⟨.ok v, a, []⟩
      | none => ⟨.panic, a, []⟩ := by
  have hoffset : ar.sub p.raw e.start = some (p.raw - e.start) := if_pos hin
  rw [physToVirt, Comp.read_bind, hi, Comp.unwrap_some, Comp.ret_bind, he, Comp.unwrap_some,
    Comp.ret_bind, hstart,
    Comp.unwrap_some, Comp.ret_bind, hoffset, Comp.unwrap_some, Comp.ret_bind]
  cases hadd : ar.add start (p.raw - e.start) with
  | none => rfl
  | some addr => cases hnew : VirtAddr.new addr <;> simp [hnew]

/-- The block that is freed is found, or the call panics. -/
theorem deallocateFrame_run {f : PhysFrame} {start : Nat} (hi : position a.entries f.start.raw = some i)
    (he : a.entries[i]? = some e) (hin : e.start ≤ f.start.raw) (hstart : e.virtStart = some start) :
    (deallocateFrame ar f a : Ran _ _ ε _) =
      match (ar.add start (f.start.raw - e.start)).bind VirtAddr.new with
      | some v => ⟨.ok (), a, [.freed v]⟩
      | none => ⟨.panic, a, []⟩ := by
  have hrun := physToVirt_run (ε := ε) ar hi he hin hstart
  cases hv : (ar.add start (f.start.raw - e.start)).bind VirtAddr.new with
  | none =>
    rw [hv] at hrun
    rw [deallocateFrame, Comp.bind_panic (congrArg Ran.outcome hrun), hrun]
  | some v =>
    rw [hv] at hrun
    rw [deallocateFrame, Comp.bind_ok (congrArg Ran.outcome hrun), hrun]
    rfl

end HeapFrameAllocator

/-! ## The pages of the heap -/

/-- The heap was mapped to the frames that were left of a map. -/
structure HeapBoot (ar : Arith) (map : List MemoryRegion) where
  valid : ValidMap map
  before : Boot
  used : Nat
  frames : before.frames = (usableFrames map).drop used
  pages : Nat
  mapped : (Boot.initHeap ar before : Ran Boot Empty Empty Nat).outcome = .ok pages

namespace HeapBoot

variable {ar : Arith} {map : List MemoryRegion} (b : HeapBoot ar map)

def tables : Boot := (Boot.initHeap ar b.before : Ran Boot Empty Empty Nat).state

/-- Where the frame of a heap page is in the map. -/
def place (k : Nat) : Nat := b.used + (k + b.before.tablesBefore k)

theorem translate {v : VirtAddr} (hv : HeapBlock b.pages v) :
    ∃ f : PhysFrame, b.tables.translateAddr v = some f.start ∧
      (usableFrames map)[b.place (heapPage v)]? = some f.start.raw := by
  obtain ⟨hlow, hhigh, haligned⟩ := hv
  have htop := v.raw_lt
  have hpage : heapPage v < b.pages ∧ heapPage v < 2 ^ 34 := by
    simp only [heapPage, KERNEL_HEAP_START] at *
    omega
  have hindex := Boot.index_of_heap hlow
  obtain ⟨f, hframe, hleaf⟩ := Boot.initHeap_leaf b.mapped hpage.1 hpage.2
  obtain ⟨p, hp, rfl⟩ := Option.map_eq_some_iff.mp hframe
  obtain ⟨addr, haddr, hnew⟩ := Option.bind_eq_some_iff.mp hp
  rw [b.frames, List.getElem?_drop] at haddr
  obtain ⟨_, _, _, hwhole⟩ := b.valid.frame (List.mem_of_getElem? haddr)
  obtain ⟨hraw, _⟩ := PhysAddr.new_cases hnew
  have hstart : (PhysFrame.containingAddress p).start = p := PhysAddr.ext (by
    simp only [PhysFrame.containingAddress]
    omega)
  refine ⟨.containingAddress p, ?_, ?_⟩
  · rw [Boot.translateAddr, hindex, tables, hleaf]
    simp [haligned]
  · rw [place, haddr, hstart, hraw]

theorem page_le {v u : VirtAddr} {f : PhysFrame} (hv : HeapBlock b.pages v) (hu : HeapBlock b.pages u)
    (hvf : b.tables.translateAddr v = some f.start) (huf : b.tables.translateAddr u = some f.start)
    (hle : heapPage v ≤ heapPage u) : heapPage u ≤ heapPage v := by
  obtain ⟨g, hg, hvat⟩ := b.translate hv
  obtain ⟨g', hg', huat⟩ := b.translate hu
  rw [← Option.some.inj (hvf.symm.trans hg)] at hvat
  have hmono := b.before.tablesBefore_mono hle
  have hplace : b.place (heapPage v) ≤ b.place (heapPage u) := by
    simp only [place]
    omega
  rw [← Option.some.inj (huf.symm.trans hg')] at huat
  obtain ⟨r, hr, hin, _⟩ := b.valid.frame (List.mem_of_getElem? hvat)
  have hoffset := frames_offset b.valid.disjoint hplace hvat huat hr hin hin
  simp only [place] at hoffset
  omega

/-- Pages of the heap have frames of their own. -/
theorem translate_inj {v u : VirtAddr} {f : PhysFrame} (hv : HeapBlock b.pages v) (hu : HeapBlock b.pages u)
    (hvf : b.tables.translateAddr v = some f.start) (huf : b.tables.translateAddr u = some f.start) : v = u := by
  have hpage : heapPage v = heapPage u := by
    rcases Nat.le_total (heapPage v) (heapPage u) with hle | hle
    · exact Nat.le_antisymm hle (b.page_le hv hu hvf huf hle)
    · exact Nat.le_antisymm (b.page_le hu hv huf hvf hle) hle
  obtain ⟨hlow, _, haligned⟩ := hv
  obtain ⟨hlow', _, haligned'⟩ := hu
  simp only [heapPage] at hpage
  exact VirtAddr.ext (by omega)

end HeapBoot

/-! ## What the allocator has seen -/

/-- An entry knows the offset of the first frame that was obtained from it. -/
structure Tracked {ar : Arith} {map : List MemoryRegion} (b : HeapBoot ar map) (w : FrameWorld) : Prop where
  bounds : w.allocator.entries.map HeapRegion.bounds = (HeapFrameAllocator.new map).entries.map HeapRegion.bounds
  obtained : ∀ o ∈ w.obtained, HeapBlock b.pages o.2 ∧ b.tables.translateAddr o.2 = some o.1.start
  offset : ∀ e ∈ w.allocator.entries,
    e.virtStart = (w.oldest e.start e.stop).map fun o => o.2.raw - (o.1.start.raw - e.start)

namespace Tracked

variable {ar : Arith} {map : List MemoryRegion} {b : HeapBoot ar map} {w : FrameWorld}

theorem fresh (b : HeapBoot ar map) : Tracked b (.fresh map) where
  bounds := rfl
  obtained := by simp [FrameWorld.fresh]
  offset := by
    intro e he
    obtain ⟨r, _, rfl⟩ := List.mem_map.mp he
    rfl

/-- The entry of a block's frame. -/
theorem entry (hw : Tracked b w) {v : VirtAddr} (hv : HeapBlock b.pages v) {f : PhysFrame}
    (hf : b.tables.translateAddr v = some f.start) :
    ∃ r ∈ usableRegions map, r.contains f.start.raw ∧ ∃ i e,
      HeapFrameAllocator.position w.allocator.entries f.start.raw = some i ∧ w.allocator.entries[i]? = some e ∧
        e.start = r.start ∧ e.stop = r.stop := by
  obtain ⟨g, hg, hplace⟩ := b.translate hv
  rw [hf] at hg
  obtain ⟨r, hr, hin, _⟩ := b.valid.frame (List.mem_of_getElem? hplace)
  rw [← Option.some.inj hg] at hin
  exact ⟨r, hr, hin, HeapFrameAllocator.position_spec b.valid hw.bounds hr hin⟩

theorem block_high {pages : Nat} {v : VirtAddr} (hv : HeapBlock pages v) : 2 ^ 63 ≤ v.raw := by
  have hlow := hv.1
  simp only [KERNEL_HEAP_START] at hlow
  omega

theorem block_page {pages : Nat} {v : VirtAddr} (hv : HeapBlock pages v) :
    v.raw = KERNEL_HEAP_START + 4096 * heapPage v := by
  obtain ⟨hlow, _, haligned⟩ := hv
  simp only [heapPage, KERNEL_HEAP_START] at *
  omega

theorem learned_bounds (a : HeapFrameAllocator) (i : Nat) (e : HeapRegion) (p : PhysAddr) (v : VirtAddr) :
    (a.learned i e p v).entries.map HeapRegion.bounds = a.entries.map HeapRegion.bounds := by
  unfold HeapFrameAllocator.learned
  split
  · refine List.ext_getElem? fun j => ?_
    simp only [HeapFrameAllocator.setVirtStart, List.getElem?_map, List.getElem?_modify]
    cases a.entries[j]? with
    | none => rfl
    | some x => by_cases h : i = j <;> simp [h, HeapRegion.bounds]
  · rfl

/-- An entry that is known, or that a new frame is not from, keeps its offset. -/
theorem offset_kept (hw : Tracked b w) (a : HeapFrameAllocator) (o : PhysFrame × VirtAddr) {x : HeapRegion}
    (hx : x ∈ w.allocator.entries)
    (hcase : x.virtStart ≠ none ∨ ¬ (x.start ≤ o.1.start.raw ∧ o.1.start.raw < x.stop)) :
    x.virtStart = (FrameWorld.oldest ⟨a, o :: w.obtained⟩ x.start x.stop).map
      fun o => o.2.raw - (o.1.start.raw - x.start) := by
  have hold := hw.offset x hx
  rw [FrameWorld.oldest_cons]
  rcases hcase with hknown | hout
  · obtain ⟨first, hfirst⟩ : ∃ first, w.oldest x.start x.stop = some first := by
      rw [← Option.ne_none_iff_exists']
      intro hnone
      rw [hnone] at hold
      exact hknown hold
    have hsame : FrameWorld.oldest ⟨a, w.obtained⟩ x.start x.stop = some first := hfirst
    rw [hsame, Option.some_or, hold, hfirst]
  · rw [if_neg hout, Option.or_none]
    exact hold

/-- An entry that a new frame is the first from takes its offset. -/
theorem offset_taken (hw : Tracked b w) (a : HeapFrameAllocator) (o : PhysFrame × VirtAddr) {x : HeapRegion}
    (hx : x ∈ w.allocator.entries) (hnone : x.virtStart = none)
    (hin : x.start ≤ o.1.start.raw ∧ o.1.start.raw < x.stop) :
    FrameWorld.oldest ⟨a, o :: w.obtained⟩ x.start x.stop = some o := by
  have hold := hw.offset x hx
  rw [hnone, eq_comm, Option.map_eq_none_iff] at hold
  have hsame : FrameWorld.oldest ⟨a, w.obtained⟩ x.start x.stop = none := hold
  rw [FrameWorld.oldest_cons, hsame, if_pos hin, Option.none_or]

/-- The block of a new frame is remembered where it is the first. -/
theorem learn (hw : Tracked b w) {v : VirtAddr} (hv : HeapBlock b.pages v) {f : PhysFrame}
    (hf : b.tables.translateAddr v = some f.start) {i : Nat} {e : HeapRegion}
    (hi : w.allocator.entries[i]? = some e) (hin : e.start ≤ f.start.raw ∧ f.start.raw < e.stop) :
    Tracked b ⟨w.allocator.learned i e f.start v, (f, v) :: w.obtained⟩ where
  bounds := (learned_bounds _ _ _ _ _).trans hw.bounds
  obtained := by
    intro o ho
    rcases List.mem_cons.mp ho with rfl | ho
    · exact ⟨hv, hf⟩
    · exact hw.obtained o ho
  offset := by
    intro e' he'
    obtain ⟨j, hj⟩ := List.mem_iff_getElem?.mp he'
    cases hvirt : e.virtStart with
    | some start =>
      have hsame : w.allocator.learned i e f.start v = w.allocator := by simp [HeapFrameAllocator.learned, hvirt]
      rw [hsame] at hj
      refine hw.offset_kept _ _ (List.mem_of_getElem? hj) ?_
      by_cases hin' : e'.start ≤ f.start.raw ∧ f.start.raw < e'.stop
      · left
        obtain rfl := HeapFrameAllocator.entry_unique b.valid hw.bounds hi hj hin hin'
        rw [← Option.some.inj (hi.symm.trans hj), hvirt]
        simp
      · exact .inr hin'
    | none =>
      have hnew : w.allocator.learned i e f.start v =
          .setVirtStart i (v.raw - (f.start.raw - e.start)) w.allocator := by
        simp [HeapFrameAllocator.learned, hvirt]
      rw [hnew, HeapFrameAllocator.setVirtStart, List.getElem?_modify] at hj
      obtain ⟨x, hx, rfl⟩ := Option.map_eq_some_iff.mp hj
      by_cases hij : i = j
      · subst hij
        obtain rfl := Option.some.inj (hi.symm.trans hx)
        have hfirst := hw.offset_taken (w.allocator.learned i e f.start v) (f, v) (List.mem_of_getElem? hi) hvirt hin
        simp [hfirst]
      · simp only [hij, if_false]
        refine hw.offset_kept _ _ (List.mem_of_getElem? hx) (.inr fun hin' => hij ?_)
        exact HeapFrameAllocator.entry_unique b.valid hw.bounds hi hx hin hin'

/-- A frame is found for each block of the heap. -/
theorem allocateFrame_block (hw : Tracked b w) {v : VirtAddr} (hv : HeapBlock b.pages v) :
    ∃ f i e, b.tables.translateAddr v = some f.start ∧ w.allocator.entries[i]? = some e ∧
      (e.start ≤ f.start.raw ∧ f.start.raw < e.stop) ∧
      (HeapFrameAllocator.allocateFrame ar b.tables (some v) w.allocator : Ran _ _ Empty _) =
        ⟨.ok (some f), w.allocator.learned i e f.start v, []⟩ := by
  obtain ⟨f, hf, _⟩ := b.translate hv
  obtain ⟨r, _, hin, i, e, hpos, he, hstart, hstop⟩ := hw.entry hv hf
  rw [MemoryRegion.contains, ← hstart, ← hstop] at hin
  exact ⟨f, i, e, hf, he, hin, HeapFrameAllocator.allocateFrame_run ar hf hpos he hin.1 (block_high hv)⟩

/-- An address of the heap comes out of a sum exactly when the tables on both sides are as many. -/
theorem sum_iff (ar : Arith) {start offset n m : Nat} {v : VirtAddr} (hv : KERNEL_HEAP_START ≤ v.raw)
    (hn : n ≤ 3 * 2 ^ 34)
    (hm : m ≤ 3 * 2 ^ 34) (hsum : start + offset + 4096 * n = v.raw + 4096 * m) :
    (ar.add start offset).bind VirtAddr.new = some v ↔ n = m := by
  have htop := v.raw_lt
  simp only [KERNEL_HEAP_START] at hv
  constructor
  · intro h
    obtain ⟨addr, hadd, hnew⟩ := Option.bind_eq_some_iff.mp h
    rcases VirtAddr.new_cases hnew with ⟨_, hraw⟩ | ⟨_, hraw⟩ | ⟨_, hraw⟩ <;>
      rcases Arith.add_cases hadd with ⟨haddr, _⟩ | ⟨_, haddr, _⟩ <;> omega
  · rintro rfl
    have heq : start + offset = v.raw := by omega
    rw [Arith.add_of_lt ar (by omega), heq]
    exact VirtAddr.new_raw v

/-- Where the block of a frame is looked for, counted from the block itself. -/
theorem deallocateFrame_block (hw : Tracked b w) {f : PhysFrame} {v : VirtAddr} (ho : (f, v) ∈ w.obtained) :
    ∃ r ∈ usableRegions map, r.contains f.start.raw ∧ ∃ o start offset, w.oldest r.start r.stop = some o ∧
      HeapBlock b.pages o.2 ∧ start + offset + 4096 * b.before.tablesBefore (heapPage o.2) =
        v.raw + 4096 * b.before.tablesBefore (heapPage v) ∧
      (HeapFrameAllocator.deallocateFrame ar f w.allocator : Ran _ _ Empty _) =
        match (ar.add start offset).bind VirtAddr.new with
        | some u => ⟨.ok (), w.allocator, [.freed u]⟩
        | none => ⟨.panic, w.allocator, []⟩ := by
  obtain ⟨hv, hf⟩ : HeapBlock b.pages v ∧ b.tables.translateAddr v = some f.start := hw.obtained _ ho
  obtain ⟨r, hr, hin, i, e, hpos, he, hstart, hstop⟩ := hw.entry hv hf
  have hfound : (w.oldest r.start r.stop).isSome := by
    rw [FrameWorld.oldest, List.find?_isSome]
    exact ⟨(f, v), List.mem_reverse.mpr ho, decide_eq_true hin⟩
  obtain ⟨⟨f₀, v₀⟩, hfirst⟩ := Option.isSome_iff_exists.mp hfound
  have hin₀ : r.contains f₀.start.raw := of_decide_eq_true (List.find?_some hfirst :)
  obtain ⟨hv₀, hf₀⟩ : HeapBlock b.pages v₀ ∧ b.tables.translateAddr v₀ = some f₀.start :=
    hw.obtained _ (List.mem_reverse.mp (List.mem_of_find?_eq_some hfirst))
  have hoffset := hw.offset e (List.mem_of_getElem? he)
  rw [hstart, hstop, hfirst, Option.map_some] at hoffset
  have hrun := HeapFrameAllocator.deallocateFrame_run (ε := Empty) ar hpos he (hstart ▸ hin.1) hoffset
  refine ⟨r, hr, hin, (f₀, v₀), _, _, hfirst, hv₀, ?_, hrun⟩
  obtain ⟨g, hg, hplace⟩ := b.translate hv
  obtain ⟨g₀, hg₀, hplace₀⟩ := b.translate hv₀
  rw [hf] at hg
  rw [hf₀] at hg₀
  rw [← Option.some.inj hg] at hplace
  rw [← Option.some.inj hg₀] at hplace₀
  have hapart : f.start.raw + 4096 * b.place (heapPage v₀) = f₀.start.raw + 4096 * b.place (heapPage v) := by
    rcases Nat.le_total (b.place (heapPage v₀)) (b.place (heapPage v)) with hle | hle
    · have hdiff := frames_offset b.valid.disjoint hle hplace₀ hplace hr hin₀ hin
      omega
    · have hdiff := frames_offset b.valid.disjoint hle hplace hplace₀ hr hin hin₀
      omega
  have hheap := block_page hv
  have hheap₀ := block_page hv₀
  have hhigh := block_high hv₀
  have hbounded := f₀.start.bounded
  have hlow : r.start ≤ f.start.raw := hin.1
  have hlow₀ : r.start ≤ f₀.start.raw := hin₀.1
  simp only [HeapBoot.place] at hapart
  rw [hstart]
  dsimp only
  omega

theorem step_allocate (hw : Tracked b w) {v : VirtAddr} (hv : HeapBlock b.pages v) :
    ∃ f w', FrameWorld.step ar b.tables b.pages w (.allocate (some v)) = some w' ∧
      w'.obtained = (f, v) :: w.obtained ∧ Tracked b w' := by
  obtain ⟨f, i, e, hf, he, hin, hrun⟩ := hw.allocateFrame_block hv
  refine ⟨f, ⟨w.allocator.learned i e f.start v, (f, v) :: w.obtained⟩, ?_, rfl, hw.learn hv hf he hin⟩
  have hblock : ∀ u ∈ some v, HeapBlock b.pages u := by
    intro u hu
    rwa [← Option.mem_some_iff.mp hu]
  rw [FrameWorld.step, if_pos hblock, hrun]
  rfl

theorem step (hw : Tracked b w) {op : FrameOp} {w' : FrameWorld}
    (h : FrameWorld.step ar b.tables b.pages w op = some w') : Tracked b w' := by
  cases op with
  | allocate block =>
    cases block with
    | none =>
      rw [FrameWorld.step, if_pos (by simp)] at h
      obtain rfl : w = w' := Option.some.inj h
      exact hw
    | some v =>
      by_cases hv : HeapBlock b.pages v
      · obtain ⟨_, w'', hstep, _, hnext⟩ := hw.step_allocate hv
        rw [hstep] at h
        exact Option.some.inj h ▸ hnext
      · rw [FrameWorld.step, if_neg fun hall => hv (hall v rfl)] at h
        cases h
  | deallocate frame =>
    by_cases hgiven : frame ∈ w.obtained.map Prod.fst
    · obtain ⟨⟨f, v⟩, ho, rfl⟩ := List.mem_map.mp hgiven
      obtain ⟨r, _, _, o, start, offset, _, _, _, hrun⟩ := hw.deallocateFrame_block ho
      rw [FrameWorld.step, if_pos hgiven, hrun] at h
      cases hu : (ar.add start offset).bind VirtAddr.new with
      | none => simp [hu] at h
      | some u =>
        obtain rfl : w = w' := by simpa [hu] using h
        exact hw
    · rw [FrameWorld.step, if_neg hgiven] at h
      cases h

theorem freed_iff (hw : Tracked b w) {f : PhysFrame} {v : VirtAddr} (ho : (f, v) ∈ w.obtained) :
    ∃ r ∈ usableRegions map, r.contains f.start.raw ∧
      ((HeapFrameAllocator.deallocateFrame ar f w.allocator : Ran _ _ Empty _) =
      ⟨.ok (), w.allocator, [.freed v]⟩ ↔
        ∃ o, w.oldest r.start r.stop = some o ∧ b.before.Undrawn (heapPage o.2) (heapPage v)) := by
  obtain ⟨r, hr, hin, o, start, offset, hfirst, hblock, hsum, hrun⟩ := hw.deallocateFrame_block ho
  have hv := (hw.obtained _ ho).1
  have hcount : ∀ {u : VirtAddr}, HeapBlock b.pages u → b.before.tablesBefore (heapPage u) ≤ 3 * 2 ^ 34 := by
    intro u hu
    have hle := b.before.tablesBefore_le (heapPage u)
    have hpage := block_page hu
    have htop := u.raw_lt
    simp only [KERNEL_HEAP_START] at hpage
    omega
  have hiff := sum_iff ar hv.1 (hcount hblock) (hcount hv) hsum
  refine ⟨r, hr, hin, ?_⟩
  simp only [hfirst, Option.some.injEq, exists_eq_left', Boot.undrawn_iff, ← hiff]
  rw [hrun]
  cases (ar.add start offset).bind VirtAddr.new with
  | none => simp
  | some u => simp

end Tracked

/-- Frames can always be obtained for the blocks of the heap. A frame that is given back frees its
block exactly when no page table was made between the page of the first frame that was obtained in
its region and the block's page. -/
theorem frames_round_trip_iff {ar : Arith} {map : List MemoryRegion} (b : HeapBoot ar map) {ops : List FrameOp}
    {w : FrameWorld} (h : Runs.run (FrameWorld.step ar b.tables b.pages) (.fresh map) ops = some w) :
    (∀ block, (∀ v ∈ block, HeapBlock b.pages v) → ∃ frame,
      (HeapFrameAllocator.allocateFrame ar b.tables block w.allocator : Ran _ _ Empty _).outcome = .ok frame) ∧
    ∀ f v, (f, v) ∈ w.obtained → ∃ r ∈ usableRegions map, r.contains f.start.raw ∧
      ((HeapFrameAllocator.deallocateFrame ar f w.allocator : Ran _ _ Empty _) =
      ⟨.ok (), w.allocator, [.freed v]⟩ ↔
        ∃ o, w.oldest r.start r.stop = some o ∧ b.before.Undrawn (heapPage o.2) (heapPage v)) := by
  have hw : Tracked b w := Runs.run_invariant (fun _ _ _ hw hs => hw.step hs) (.fresh b) h
  constructor
  · intro block hblock
    cases block with
    | none => exact ⟨none, rfl⟩
    | some v =>
      obtain ⟨f, _, _, _, _, _, hrun⟩ := hw.allocateFrame_block (hblock v rfl)
      exact ⟨some f, congrArg Ran.outcome hrun⟩
  · intro f v ho
    exact hw.freed_iff ho

/-! ## A small machine and a larger one -/

/-- Usable memory from 1 MiB on. -/
def oneRegion (frames : Nat) (h : frames ≤ 2 ^ 16) : List MemoryRegion :=
  [⟨0x100000, 0x100000 + 4096 * frames, .usable, Nat.le_add_right _ _, by omega⟩]

theorem oneRegion_valid {frames : Nat} (h : frames ≤ 2 ^ 16) : ValidMap (oneRegion frames h) where
  aligned := by
    simp [usableRegions, oneRegion]
  disjoint := by simp [usableRegions, oneRegion]

theorem oneRegion_unique {frames : Nat} {h : frames ≤ 2 ^ 16} {r q : MemoryRegion}
    (hr : r ∈ usableRegions (oneRegion frames h)) (hq : q ∈ usableRegions (oneRegion frames h)) : r = q := by
  simp only [usableRegions, oneRegion, decide_true, List.filter_cons_of_pos, List.filter_nil, List.mem_singleton]
    at hr hq
  rw [hr, hq]

/-- Nothing is mapped yet. -/
def emptyBoot (map : List MemoryRegion) : Boot := ⟨usableFrames map, fun _ _ => .unused, fun _ => none⟩

theorem emptyBoot_frames (map : List MemoryRegion) : (emptyBoot map).frames = (usableFrames map).drop 0 :=
  List.drop_zero.symm

theorem heapBlock_high (k : Nat) (h : k < 2 ^ 16) : 2 ^ 64 - 2 ^ 47 ≤ KERNEL_HEAP_START + 4096 * k ∧
    KERNEL_HEAP_START + 4096 * k < 2 ^ 64 := by
  simp only [KERNEL_HEAP_START]
  omega

def heapBlock (k : Nat) (h : k < 2 ^ 16) : VirtAddr := ⟨KERNEL_HEAP_START + 4096 * k, .inr (heapBlock_high k h)⟩

theorem heapPage_heapBlock (k : Nat) (h : k < 2 ^ 16) : heapPage (heapBlock k h) = k := by
  simp only [heapPage, heapBlock]
  omega

theorem eight_frames : 8 ≤ 2 ^ 16 := by decide

/-- Eight frames are five pages and three tables. -/
def smallBoot : HeapBoot .checked (oneRegion 8 eight_frames) where
  valid := oneRegion_valid _
  before := emptyBoot (oneRegion 8 eight_frames)
  used := 0
  frames := emptyBoot_frames _
  pages := 5
  mapped := by decide +kernel

def smallRun : Option FrameWorld :=
  Runs.run (FrameWorld.step .checked smallBoot.tables smallBoot.pages) (.fresh (oneRegion 8 (by decide)))
    [.allocate (some (heapBlock 1 (by decide))), .allocate (some (heapBlock 2 (by decide)))]

theorem frames_round_trip_iff_small : ∃ w, smallRun = some w ∧ w.obtained.length = 2 ∧
    ∀ f v, (f, v) ∈ w.obtained → ∃ r ∈ usableRegions (oneRegion 8 (by decide)), r.contains f.start.raw ∧
      ((HeapFrameAllocator.deallocateFrame .checked f w.allocator : Ran _ _ Empty _) =
        ⟨.ok (), w.allocator, [.freed v]⟩ ↔
        ∃ o, w.oldest r.start r.stop = some o ∧ smallBoot.before.Undrawn (heapPage o.2) (heapPage v)) := by
  have hrun : (smallRun.map fun w => w.obtained.length) = some 2 := by decide +kernel
  obtain ⟨w, hw, hlength⟩ := Option.map_eq_some_iff.mp hrun
  exact ⟨w, hw, hlength, (frames_round_trip_iff smallBoot hw).2⟩

/-- 16 MiB of memory make a heap over which a second table of the last level is needed. -/
theorem exists_largeBoot : ∃ b : HeapBoot .checked (oneRegion 4096 (by decide)),
    b.before = emptyBoot (oneRegion 4096 (by decide)) ∧ 514 ≤ b.pages := by
  have hframes : (emptyBoot (oneRegion 4096 (by decide))).frames =
      (List.range 4096).map fun i => 0x100000 + 4096 * i := by
    simp [emptyBoot, usableFrames, usableRegions, oneRegion, MemoryRegion.frames]
  have hlength : (emptyBoot (oneRegion 4096 (by decide))).frames.length = 4096 := by simp [hframes]
  have hsmall : ¬ (emptyBoot (oneRegion 4096 (by decide))).TooLarge := by
    rintro ⟨a, ha, hlarge⟩
    rw [hframes] at ha
    obtain ⟨i, hi, rfl⟩ := List.mem_map.mp ha
    have hlt := List.mem_range.mp hi
    omega
  obtain ⟨pages, hpages⟩ := Boot.initHeap_ok (κ := Empty) (ε := Empty) .checked hsmall (by omega)
  have hreach := Boot.initHeap_reaches hpages (j := 514) (by omega) (by simp [emptyBoot]) (by simp [emptyBoot])
    (by decide)
  exact ⟨⟨oneRegion_valid _, emptyBoot (oneRegion 4096 (by decide)), 0, emptyBoot_frames _, pages,
    hpages⟩, rfl, hreach⟩

/-- Over the second table, a frame that is given back frees the block after its own. -/
theorem next_block_freed : ∃ (b : HeapBoot .checked (oneRegion 4096 (by decide))) (w : FrameWorld)
    (f : PhysFrame),
    Runs.run (FrameWorld.step .checked b.tables b.pages) (.fresh (oneRegion 4096 (by decide)))
      [.allocate (some (heapBlock 1 (by decide))), .allocate (some (heapBlock 513 (by decide)))] = some w ∧
    (f, heapBlock 513 (by decide)) ∈ w.obtained ∧
    (HeapFrameAllocator.deallocateFrame .checked f w.allocator : Ran _ _ Empty _) =
      ⟨.ok (), w.allocator, [.freed (heapBlock 514 (by decide))]⟩ := by
  obtain ⟨b, hbefore, hpages⟩ := exists_largeBoot
  have hblock : ∀ k (h : k < 2 ^ 16), k < 514 → HeapBlock b.pages (heapBlock k h) := by
    intro k h hk
    simp only [HeapBlock, heapBlock, KERNEL_HEAP_START]
    omega
  have hfirst := hblock 1 (by decide) (by decide)
  have hsecond := hblock 513 (by decide) (by decide)
  obtain ⟨f₁, w₁, hstep₁, hobtained₁, hw₁⟩ := (Tracked.fresh b).step_allocate hfirst
  obtain ⟨f₂, w₂, hstep₂, hobtained₂, hw₂⟩ := hw₁.step_allocate hsecond
  have hin : (f₂, heapBlock 513 (by decide)) ∈ w₂.obtained := by simp [hobtained₂]
  refine ⟨b, w₂, f₂, by simp [Runs.run, hstep₁, hstep₂], hin, ?_⟩
  obtain ⟨r, hr, _, o, start, offset, holdest, _, hsum, hrun⟩ := hw₂.deallocateFrame_block hin
  have hall : w₂.obtained = [(f₂, heapBlock 513 (by decide)), (f₁, heapBlock 1 (by decide))] := by
    rw [hobtained₂, hobtained₁]
    rfl
  have hbelow : (f₁, heapBlock 1 (by decide)) ∈ w₂.obtained := by simp [hall]
  have ho : (f₁, heapBlock 1 (by decide)) = o := by
    obtain ⟨q, hq, hin₁, _⟩ := hw₂.deallocateFrame_block hbelow
    obtain rfl : r = q := oneRegion_unique hr hq
    rw [MemoryRegion.contains] at hin₁
    simpa [FrameWorld.oldest, hall, hin₁] using holdest
  rw [← ho, hbefore, heapPage_heapBlock, heapPage_heapBlock] at hsum
  have hone : (emptyBoot (oneRegion 4096 (by decide))).tablesBefore 1 = 3 := by decide +kernel
  have hmany : (emptyBoot (oneRegion 4096 (by decide))).tablesBefore 513 = 4 := by decide +kernel
  have hadd : start + offset = (heapBlock 514 (by decide)).raw := by
    rw [hone, hmany] at hsum
    simp only [heapBlock] at hsum ⊢
    omega
  rw [hrun, Arith.add_of_lt _ (hadd ▸ VirtAddr.raw_lt _), hadd]
  simp [VirtAddr.new_raw]

end Idkernel
