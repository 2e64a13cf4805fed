import Idkernel.Elf

/-!
# What a loaded program looks like

A page that has been mounted keeps its frame and its bytes to the end of the
load, because no frame is handed out twice and no page is mapped twice. So what
the whole image shows is decided page by page, and every page of a segment gets
the same bytes: those of the first one.
-/
namespace Idkernel

open Address Traced Locks

variable {pg : Paging} {ε : Type}

/-! ## Bytes in memory -/

section Bytes

variable {m : Memory} {start len a : Nat} {bytes : List UInt8} {x : UInt8}

theorem Memory.fill_inside (h : start ≤ a ∧ a < start + len) : m.fill start len x a = x := if_pos h

theorem Memory.fill_outside (h : a < start ∨ start + len ≤ a) : m.fill start len x a = m a := if_neg (by omega)

theorem Memory.copy_inside (h : start ≤ a ∧ a < start + bytes.length) :
    m.copy start bytes a = bytes.getD (a - start) 0 := if_pos h

theorem Memory.copy_outside (h : a < start ∨ start + bytes.length ≤ a) : m.copy start bytes a = m a :=
  if_neg (by omega)

end Bytes

/-- The byte at place `x` of a page whose segment starts at place `o` of its first page. -/
def pageByte (data : List UInt8) (o x : Nat) : UInt8 := if o ≤ x then data.getD (x - o) 0 else 0

/-- One page's frame after the two writes to it. -/
def Memory.mount (m : Memory) (data : List UInt8) (o : Nat) (frame : PhysFrame) : Memory :=
  (m.fill frame.start.raw 4096 0).copy (frame.start.raw + o) (data.take (4096 - o))

theorem Memory.mount_inside (m : Memory) (data : List UInt8) {o x : Nat} (frame : PhysFrame) (hx : x < 4096) :
    m.mount data o frame (frame.start.raw + x) = pageByte data o x := by
  have hlen : (data.take (4096 - o)).length = min (4096 - o) data.length := List.length_take
  have hzero : (m.fill frame.start.raw 4096 0) (frame.start.raw + x) = 0 := Memory.fill_inside (by omega)
  unfold mount pageByte
  by_cases hin : o ≤ x ∧ x - o < data.length
  · rw [Memory.copy_inside (by omega), if_pos hin.1]
    have hsub : frame.start.raw + x - (frame.start.raw + o) = x - o := by omega
    have hlt : x - o < 4096 - o := by omega
    simp only [hsub, List.getD_eq_getElem?_getD, List.getElem?_take_of_lt hlt]
  · rw [Memory.copy_outside (by omega), hzero]
    by_cases ho : o ≤ x
    · rw [if_pos ho, List.getD_eq_default _ _ (by omega)]
    · rw [if_neg ho]

theorem Memory.mount_outside (m : Memory) (data : List UInt8) {o a : Nat} {frame : PhysFrame} (ho : o ≤ 4096)
    (ha : a < frame.start.raw ∨ frame.start.raw + 4096 ≤ a) : m.mount data o frame a = m a := by
  have hlen : (data.take (4096 - o)).length = min (4096 - o) data.length := List.length_take
  unfold mount
  rw [Memory.copy_outside (by omega), Memory.fill_outside (by omega)]

namespace Elf

/-! ## One page -/

section OnePage

variable {data : List UInt8} {flags : PageTableFlags} {o : Nat} {page : Page} {v : Vm pg}

theorem mountPage_ok (ho : o ≤ 4096)
    (h : (mountPage data flags (-(o : Int)) page v : Ran _ KEvent ε Unit).outcome = .ok ()) :
    ∃ frame frames parentFlags table frames', pg.allocateFrame v.frames = (some frame, frames) ∧
      pg.mapTo v.table frames page frame flags parentFlags = (.ok (), table, frames') ∧
      (mountPage data flags (-(o : Int)) page v : Ran _ KEvent ε Unit).state =
        ⟨table, frames', v.memory.mount data o frame⟩ := by
  unfold mountPage at h ⊢
  rw [Comp.bind_run, allocateFrame_run] at h ⊢
  dsimp only at h ⊢
  rcases halloc : pg.allocateFrame v.frames with ⟨frame, frames⟩
  rw [halloc] at h
  cases frame with
  | none => cases h
  | some frame =>
    rw [Comp.unwrap_some, Comp.ret_bind, Comp.bind_run, mapTo_run] at h ⊢
    dsimp only at h ⊢
    refine ⟨frame, frames, flags &&& (PageTableFlags.PRESENT ||| PageTableFlags.WRITABLE |||
      PageTableFlags.USER_ACCESSIBLE), ?_⟩
    rcases hmap : pg.mapTo v.table frames page frame flags _ with ⟨r, table, frames'⟩
    rw [hmap] at h
    cases r with
    | error e => cases h
    | ok _ =>
      refine ⟨table, frames', rfl, rfl, ?_⟩
      have hstart : max (-(o : Int)) 0 = 0 := by omega
      have hoff : (max (-(-(o : Int))) 0).toNat = o := by omega
      have hend : (min (-(o : Int) + 4096) data.length).toNat = min (4096 - o) data.length := by omega
      have hle : (0 : Int) ≤ min (-(o : Int) + 4096) data.length := by omega
      have htake : data.take (min (4096 - o) data.length) = data.take (4096 - o) := by
        rw [List.take_eq_take_iff]
        omega
      dsimp only
      rw [Comp.expect_true (by rfl), Comp.ret_bind, Comp.write_bind]
      dsimp only
      rw [hstart, if_pos hle, hoff, hend, htake]
      rfl

/-- The page has a frame of its own, with these bytes in it. -/
def Loaded (fr : pg.Fresh) (v : Vm pg) (page : Page) (bytes : Nat → UInt8) : Prop :=
  ∃ frame flags, pg.leaf v.table page = some (frame, flags) ∧ ¬ fr.unused v.frames frame ∧
    ∀ x < 4096, v.memory (frame.start.raw + x) = bytes x

theorem mountPage_loads (hpg : pg.Lawful) (fr : pg.Fresh) (ho : o ≤ 4096)
    (h : (mountPage data flags (-(o : Int)) page v : Ran _ KEvent ε Unit).outcome = .ok ()) :
    Loaded fr (mountPage data flags (-(o : Int)) page v : Ran _ KEvent ε Unit).state page (pageByte data o) := by
  obtain ⟨frame, frames, parentFlags, table, frames', halloc, hmap, hstate⟩ := mountPage_ok ho h
  obtain ⟨_, hused, _⟩ := fr.allocated _ _ _ halloc
  obtain ⟨_, hleaf⟩ := hpg.mapped _ _ _ _ _ _ _ _ hmap
  rw [hstate]
  refine ⟨frame, flags, ?_, ?_, ?_⟩
  · dsimp only
    rw [hleaf, Function.update_self]
  · intro hunused
    exact hused (fr.mapped _ _ _ _ _ _ _ _ _ hmap frame hunused)
  · intro x hx
    exact Memory.mount_inside _ _ _ hx

/-- The new page has another number and another frame than a page that is loaded already. -/
theorem mountPage_keeps (hpg : pg.Lawful) (fr : pg.Fresh) (ho : o ≤ 4096)
    (h : (mountPage data flags (-(o : Int)) page v : Ran _ KEvent ε Unit).outcome = .ok ()) {q : Page}
    {bytes : Nat → UInt8} (hq : Loaded fr v q bytes) :
    Loaded fr (mountPage data flags (-(o : Int)) page v : Ran _ KEvent ε Unit).state q bytes := by
  obtain ⟨frame, frames, parentFlags, table, frames', halloc, hmap, hstate⟩ := mountPage_ok ho h
  obtain ⟨hunused, _, hless⟩ := fr.allocated _ _ _ halloc
  obtain ⟨hnone, hleaf⟩ := hpg.mapped _ _ _ _ _ _ _ _ hmap
  obtain ⟨old, fl, hold, hused, hbytes⟩ := hq
  have hpage : q ≠ page := by
    rintro rfl
    rw [hnone] at hold
    cases hold
  have hframe : old.index ≠ frame.index := by
    intro he
    rw [PhysFrame.index_inj he] at hused
    exact hused hunused
  rw [hstate]
  refine ⟨old, fl, ?_, ?_, ?_⟩
  · dsimp only
    rw [hleaf, Function.update_of_ne hpage, hold]
  · intro hun
    exact hused (hless old (fr.mapped _ _ _ _ _ _ _ _ _ hmap old hun))
  · intro x hx
    have hraw := old.raw_index
    have hraw' := frame.raw_index
    dsimp only
    rw [Memory.mount_outside _ _ ho (by omega), hbytes x hx]

end OnePage

/-! ## The image -/

section Image

variable {ar : Arith} {header : ProgramHeader} {data : List UInt8} {v : Vm pg}

/-- All pages between the two ends of a segment are loaded, each with the bytes of the first. -/
def SegmentLoaded (fr : pg.Fresh) (ar : Arith) (header : ProgramHeader) (data : List UInt8) (v : Vm pg) : Prop :=
  ∃ start stop last, VirtAddr.new header.pVaddr = some start ∧ start.add ar header.pMemsz = some stop ∧
    stop.sub 1 = some last ∧ start.raw < 2 ^ 63 ∧ stop.raw < 2 ^ 63 ∧
    ∀ p ∈ Page.rangeInclusive ar (Page.containingAddress start) (Page.containingAddress last),
      Loaded fr v p (pageByte data (start.raw % 4096))

theorem mountSegment_loads (hpg : pg.Lawful) (fr : pg.Fresh)
    (h : (mountSegment ar header data v : Ran _ KEvent ε Unit).outcome = .ok ()) :
    SegmentLoaded fr ar header data (mountSegment ar header data v : Ran _ KEvent ε Unit).state ∧
      ∀ q bytes, Loaded fr v q bytes → Loaded fr (mountSegment ar header data v : Ran _ KEvent
      ε Unit).state q bytes := by
  unfold mountSegment at h ⊢
  obtain ⟨start, hstart, h⟩ := (Comp.Still.unwrap _).bind_inv h
  obtain ⟨stop, hstop, h⟩ := (Comp.Still.unwrap _).bind_inv h
  obtain ⟨_, hlow, h⟩ := Comp.Still.expect.bind_inv h
  obtain ⟨_, hlow', h⟩ := Comp.Still.expect.bind_inv h
  obtain ⟨last, hlast, h⟩ := (Comp.Still.unwrap _).bind_inv h
  obtain ⟨flags, hflags, h⟩ := (Comp.Still.unwrap _).bind_inv h
  rw [(Comp.Still.unwrap _).bind_ok hstart, (Comp.Still.unwrap _).bind_ok hstop, Comp.Still.expect.bind_ok hlow,
    Comp.Still.expect.bind_ok hlow', (Comp.Still.unwrap _).bind_ok hlast, (Comp.Still.unwrap _).bind_ok hflags]
  have hlow := (checkAddrUserspace_ok start.raw_lt).mp (Comp.expect_ok hlow)
  have hlow' := (checkAddrUserspace_ok stop.raw_lt).mp (Comp.expect_ok hlow')
  have hindex : ((Page.containingAddress start).start.raw : Int) - start.raw =
    -((start.raw % 4096 : Nat) : Int) := by
    simp only [Page.containingAddress]
    omega
  rw [hindex] at h ⊢
  have ho : start.raw % 4096 ≤ 4096 := by omega
  refine ⟨⟨start, stop, last, Comp.unwrap_ok hstart, Comp.unwrap_ok hstop, Comp.unwrap_ok hlast, hlow,
    hlow', ?_⟩, ?_⟩
  · exact Comp.forEach_gathers (G := fun p v => Loaded fr v p (pageByte data (start.raw % 4096)))
      (fun _ _ _ hp => mountPage_loads hpg fr ho hp) (fun _ _ _ _ hp hq => mountPage_keeps hpg fr ho hp hq) h
  · intro q bytes hq
    exact Comp.forEach_keeps (K := fun v => Loaded fr v q bytes)
      (fun _ _ _ hp hq => mountPage_keeps hpg fr ho hp hq) h hq

theorem SegmentLoaded.kept {fr : pg.Fresh} {v' : Vm pg} (h : SegmentLoaded fr ar header data v)
    (hkeep : ∀ q bytes, Loaded fr v q bytes → Loaded fr v' q bytes) : SegmentLoaded fr ar header data v' := by
  obtain ⟨start, stop, last, hstart, hstop, hlast, hlow, hlow', hall⟩ := h
  exact ⟨start, stop, last, hstart, hstop, hlast, hlow, hlow', fun p hp => hkeep p _ (hall p hp)⟩

/-- Every header names bytes of the file, and those that are to be loaded are loaded in the end. -/
theorem mountInto_segments (hpg : pg.Lawful) (fr : pg.Fresh) {elf : Elf}
    (h : (elf.mountInto ar v : Ran _ KEvent ε Unit).outcome = .ok ()) {header : ProgramHeader}
    (hmem : header ∈ elf.programHeaders) :
    ∃ data, elf.segment header = some data ∧ (header.pType = PT_LOAD ∧ header.pMemsz > 0 →
      SegmentLoaded fr ar header data (elf.mountInto ar v : Ran _ KEvent ε Unit).state) := by
  let body : ProgramHeader → VmM pg ε Unit := fun header => do
    let data ← Comp.unwrap (elf.segment header)
    if header.pType = PT_LOAD ∧ header.pMemsz > 0 then mountSegment ar header data else return ()
  let G : ProgramHeader → Vm pg → Prop := fun header v => ∃ data, elf.segment header = some data ∧
    (header.pType = PT_LOAD ∧ header.pMemsz > 0 → SegmentLoaded fr ar header data v)
  -- one round of the loop over the headers
  have hround : ∀ header v, (body header v).outcome = .ok () → G header (body header v).state ∧
      ∀ q bytes, Loaded fr v q bytes → Loaded fr (body header v).state q bytes := by
    intro header v h
    obtain ⟨data, hdata, h⟩ := (Comp.Still.unwrap _).bind_inv h
    have hrun : body header v = _ := (Comp.Still.unwrap _).bind_ok hdata
    rw [hrun]
    split at h
    · rename_i hload
      rw [if_pos hload]
      obtain ⟨hseg, hkeep⟩ := mountSegment_loads hpg fr h
      exact ⟨⟨data, Comp.unwrap_ok hdata, fun _ => hseg⟩, hkeep⟩
    · rename_i hload
      rw [if_neg hload]
      exact ⟨⟨data, Comp.unwrap_ok hdata, fun hyes => absurd hyes hload⟩, fun _ _ hq => hq⟩
  have hgain : ∀ x ∈ elf.programHeaders, ∀ v, (body x v).outcome = .ok () → G x (body x v).state :=
    fun x _ v h => (hround x v h).1
  have hkeep : ∀ x ∈ elf.programHeaders, ∀ y v, (body x v).outcome = .ok () → G y v → G y (body x v).state := by
    rintro x _ y v h ⟨data, hdata, hseg⟩
    exact ⟨data, hdata, fun hload => (hseg hload).kept (hround x v h).2⟩
  exact Comp.forEach_gathers hgain hkeep h header hmem

end Image

/-! ## What it shows -/

/-- The byte that an address space shows at an address, if it shows any there. -/
def byteAt (v : Vm pg) (addr : Nat) : Option UInt8 :=
  if h : addr < 2 ^ 47 ∨ 2 ^ 64 - 2 ^ 47 ≤ addr ∧ addr < 2 ^ 64 then
    (pg.leaf v.table (Page.containingAddress ⟨addr, h⟩)).map fun leaf =>
      v.memory (leaf.1.start.raw + addr % 4096)
  else none

theorem Loaded.byteAt {fr : pg.Fresh} {v : Vm pg} {page : Page} {bytes : Nat → UInt8} (h : Loaded fr v page bytes)
    {addr : Nat} (hlow : addr < 2 ^ 47) (hpage : page = Page.containingAddress ⟨addr, .inl hlow⟩) :
    byteAt v addr = some (bytes (addr % 4096)) := by
  subst hpage
  obtain ⟨frame, flags, hleaf, _, hbytes⟩ := h
  unfold Elf.byteAt
  rw [dif_pos (.inl hlow), hleaf, Option.map_some, hbytes _ (Nat.mod_lt _ (by decide))]

/-- What the program asks for at a place of a segment: the bytes of the file, then zeros. -/
def wanted (elf : Elf) (header : ProgramHeader) (i : Nat) : UInt8 :=
  if i < header.pFilesz then elf.data.getD (header.pOffset + i) 0 else 0

theorem segment_wanted {elf : Elf} {header : ProgramHeader} {data : List UInt8}
    (h : elf.segment header = some data)
    (i : Nat) : data.getD i 0 = elf.wanted header i := by
  unfold segment at h
  split at h
  · cases h
    unfold wanted
    by_cases hi : i < header.pFilesz
    · rw [if_pos hi, List.getD_eq_getElem?_getD, List.getElem?_take_of_lt hi, List.getElem?_drop,
        List.getD_eq_getElem?_getD]
    · rw [if_neg hi]
      apply List.getD_eq_default
      rw [List.length_take]
      omega
  · cases h

section Segment

variable {ar : Arith} {header : ProgramHeader} {data : List UInt8} {v : Vm pg} {fr : pg.Fresh}

/-- A segment that does not wrap around shows the bytes of its first page on each page. -/
theorem SegmentLoaded.byteAt (h : SegmentLoaded fr ar header data v)
    (hwrap : header.pVaddr + header.pMemsz < 2 ^ 64)
    {i : Nat} (hi : i < header.pMemsz) : Elf.byteAt v (header.pVaddr + i) =
      some (pageByte data (header.pVaddr % 4096) ((header.pVaddr + i) % 4096)) := by
  obtain ⟨start, stop, last, hstart, hstop, hlast, hlow, hlow', hall⟩ := h
  have hstart := VirtAddr.new_cases hstart
  have hcan := start.canonical
  have hraw : start.raw = header.pVaddr := by omega
  have hend : stop.raw = header.pVaddr + header.pMemsz ∧ stop.raw < 2 ^ 47 := by
    unfold VirtAddr.add at hstop
    rw [hraw, Arith.add_of_lt ar hwrap, Option.bind_some] at hstop
    have hnew := VirtAddr.new_cases hstop
    omega
  have hlast : last.raw = stop.raw - 1 := by
    unfold VirtAddr.sub at hlast
    rw [if_pos (by omega)] at hlast
    have hnew := VirtAddr.new_cases hlast
    omega
  have haddr : header.pVaddr + i < 2 ^ 47 := by omega
  have hpage : Page.containingAddress ⟨header.pVaddr + i, .inl haddr⟩ ∈
      Page.rangeInclusive ar (Page.containingAddress start) (Page.containingAddress last) := by
    have hai := Page.containingAddress_index (v := start) (by omega)
    have hbi := Page.containingAddress_index (v := last) (by omega)
    have hpi := Page.containingAddress_index (v := ⟨header.pVaddr + i, .inl haddr⟩) haddr
    dsimp only at hpi
    rw [Page.mem_rangeInclusive (by omega)]
    omega
  have hshown := (hall _ hpage).byteAt haddr rfl
  rwa [hraw] at hshown

/-- One that does has a place at the end of the lower half, where nothing is. -/
theorem SegmentLoaded.wrapped (h : SegmentLoaded fr ar header data v)
    (hwrap : ¬ header.pVaddr + header.pMemsz < 2 ^ 64) :
    ∃ i < header.pMemsz, Elf.byteAt v (header.pVaddr + i) = none := by
  obtain ⟨start, _, _, hstart, _, _, hlow, _⟩ := h
  have hstart := VirtAddr.new_cases hstart
  have hcan := start.canonical
  refine ⟨2 ^ 47 - header.pVaddr, by omega, ?_⟩
  unfold Elf.byteAt
  rw [dif_neg (by omega)]

end Segment

/-- Every byte of every segment is there. -/
def Loads (elf : Elf) (v : Vm pg) : Prop :=
  ∀ header ∈ elf.programHeaders, header.pType = PT_LOAD → header.pMemsz > 0 → header.pFilesz ≤ header.pMemsz →
    ∀ i < header.pMemsz, byteAt v (header.pVaddr + i) = some (elf.wanted header i)

/-- Behind its first page, each segment asks for what it asks for at the same places of that
page: zeros before the start of the segment, and its first bytes again. -/
def Repeats (elf : Elf) : Prop :=
  ∀ header ∈ elf.programHeaders, header.pType = PT_LOAD → header.pMemsz > 0 → header.pFilesz ≤ header.pMemsz →
    header.pVaddr + header.pMemsz < 2 ^ 64 ∧
    ∀ i < header.pMemsz, 4096 ≤ header.pVaddr % 4096 + i → elf.wanted header i =
      if header.pVaddr % 4096 ≤ (header.pVaddr + i) % 4096 then
        elf.wanted header ((header.pVaddr + i) % 4096 - header.pVaddr % 4096)
      else 0

/-- A load that comes back has loaded the program exactly if the program repeats itself. -/
theorem mountInto_loads (hpg : pg.Lawful) (fr : pg.Fresh) (ar : Arith) (elf : Elf) (v : Vm pg)
    (h : (elf.mountInto ar v : Ran _ KEvent ε Unit).outcome = .ok ()) :
    elf.Loads (elf.mountInto ar v : Ran _ KEvent ε Unit).state ↔ elf.Repeats := by
  constructor
  · intro hloads header hmem htype hsize hfile
    have hbytes := hloads header hmem htype hsize hfile
    obtain ⟨data, hdata, hseg⟩ := mountInto_segments hpg fr h hmem
    have hseg := hseg ⟨htype, hsize⟩
    have hwrap : header.pVaddr + header.pMemsz < 2 ^ 64 := by
      by_contra hwrap
      obtain ⟨i, hi, hnone⟩ := hseg.wrapped hwrap
      rw [hbytes i hi] at hnone
      cases hnone
    refine ⟨hwrap, ?_⟩
    intro i hi _
    have hshown := Option.some.inj ((hbytes i hi).symm.trans (hseg.byteAt hwrap hi))
    rw [hshown, pageByte, segment_wanted hdata]
  · intro hrepeats header hmem htype hsize hfile i hi
    obtain ⟨data, hdata, hseg⟩ := mountInto_segments hpg fr h hmem
    obtain ⟨hwrap, hrest⟩ := hrepeats header hmem htype hsize hfile
    rw [(hseg ⟨htype, hsize⟩).byteAt hwrap hi, pageByte, segment_wanted hdata]
    by_cases hfirst : 4096 ≤ header.pVaddr % 4096 + i
    · rw [hrest i hi hfirst]
    · have hmod : (header.pVaddr + i) % 4096 = header.pVaddr % 4096 + i := by omega
      rw [hmod, if_pos (Nat.le_add_right _ _), Nat.add_sub_cancel_left]

/-- A file with one readable segment of two bytes, to be loaded at `0x1000 + offset`. -/
def twoBytes (offset : List UInt8) : List UInt8 :=
  ELFMAG ++ List.replicate 28 0 ++ [64] ++ List.replicate 23 0 ++ [1] ++ List.replicate 7 0 ++
    [1, 0, 0, 0, 4, 0, 0, 0, 120, 0, 0, 0, 0, 0, 0, 0] ++ offset ++ List.replicate 14 0 ++
    [2, 0, 0, 0, 0, 0, 0, 0, 2, 0, 0, 0, 0, 0, 0, 0] ++ List.replicate 8 0 ++ [7, 9]

/-- Both bytes on one page. -/
def inOnePage : Elf := ⟨twoBytes [0x00, 0x10], by decide, by decide, by decide⟩

/-- The second byte on the next page. -/
def overTwoPages : Elf := ⟨twoBytes [0xff, 0x1f], by decide, by decide, by decide⟩

def emptyVm : Vm .flat := ⟨fun _ => none, (256 : Nat), fun _ => 0⟩

theorem mountInto_loads_inOnePage :
    inOnePage.Loads (inOnePage.mountInto .checked emptyVm : Ran _ KEvent SyscallError Unit).state := by
  have hheaders : inOnePage.programHeaders = [⟨PT_LOAD, PF_R, 120, 0x1000, 2, 2⟩] := by decide +kernel
  refine (mountInto_loads Paging.flat_lawful Paging.flat_fresh .checked inOnePage emptyVm
    (by decide +kernel)).mpr ?_
  intro header hmem _ _ _
  rw [hheaders] at hmem
  obtain rfl := List.mem_singleton.mp hmem
  refine ⟨by decide, ?_⟩
  intro i hi hnext
  dsimp only at hi hnext
  omega

/-- The next page shows a zero where the second byte should be. -/
theorem overTwoPages_lost :
    (overTwoPages.mountInto .checked emptyVm : Ran _ KEvent SyscallError Unit).outcome = .ok () ∧
      ¬ overTwoPages.Loads (overTwoPages.mountInto .checked emptyVm : Ran _ KEvent SyscallError Unit).state := by
  refine ⟨by decide +kernel, ?_⟩
  intro h
  have hbyte := h ⟨PT_LOAD, PF_R, 120, 0x1fff, 2, 2⟩ (by decide +kernel) rfl (by decide) (by decide) 1 (by decide)
  have hshown : byteAt (overTwoPages.mountInto .checked emptyVm : Ran _ KEvent SyscallError Unit).state 0x2000 =
      some 0 := by decide +kernel
  have hwanted : overTwoPages.wanted ⟨PT_LOAD, PF_R, 120, 0x1fff, 2, 2⟩ 1 = 9 := by decide +kernel
  rw [hwanted, hshown] at hbyte
  cases hbyte

end Elf

end Idkernel
