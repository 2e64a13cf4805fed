import Idkernel.ElfLoad
import Idkernel.Taking
import Idkernel.UserHalf
import Idkernel.UserStack

/-!
# Hostile program images

A load comes to its end exactly if no header leads it astray: each one stays in
the file, each segment in the lower half and away from the stack and from the
others. The loader finds out by panicking.
-/
namespace Idkernel

open Address Traced Locks Comp

/-- While there is room, frames are handed out, and a page of the lower half without a leaf can be
mapped. -/
structure Paging.Ample (pg : Paging) (Room : Nat → pg.Table → pg.Frames → Prop) : Prop where
  mapped : ∀ {n t fs}, Room (n + 1) t fs → ∃ frame fs', pg.allocateFrame fs = (some frame, fs') ∧
    ∀ page flags parentFlags, page.LowerHalf → pg.leaf t page = none →
      ∃ t' fs'', pg.mapTo t fs' page frame flags parentFlags = (.ok (), t', fs'') ∧ Room n t' fs''

variable {pg : Paging} {ε : Type}

/-! ## Headers -/

namespace ProgramHeader

def ToLoad (header : ProgramHeader) : Prop := header.pType = PT_LOAD ∧ header.pMemsz > 0

instance (header : ProgramHeader) : Decidable header.ToLoad := inferInstanceAs (Decidable (_ ∧ _))

/-- The end of the segment in 64 bits. -/
def stop (header : ProgramHeader) : Nat := (header.pVaddr + header.pMemsz) % 2 ^ 64

/-- A readable segment that ends in the lower half. Without checks it may have wrapped around. -/
structure Loadable (ar : Arith) (header : ProgramHeader) : Prop where
  readable : header.pFlags &&& PF_R ≠ 0
  low : header.pVaddr < 2 ^ 47
  ends : header.pVaddr + header.pMemsz < 2 ^ 47 ∨ ar = .wrapping ∧ 2 ^ 64 < header.pVaddr + header.pMemsz

/-- The segment has a byte on the page. -/
def Covers (header : ProgramHeader) (page : Page) : Prop :=
  header.pVaddr / 4096 ≤ page.index ∧ page.index ≤ (header.stop - 1) / 4096

def pageCount (header : ProgramHeader) : Nat :=
  if header.ToLoad then (header.stop - 1) / 4096 + 1 - header.pVaddr / 4096 else 0

theorem Loadable.stop_cases {ar : Arith} {header : ProgramHeader} (h : header.Loadable ar)
    (hpos : 0 < header.pMemsz) (hmemsz : header.pMemsz < 2 ^ 64) :
    0 < header.stop ∧ header.stop < 2 ^ 47 ∧ ar.add header.pVaddr header.pMemsz = some header.stop := by
  have hbelow : header.pVaddr + header.pMemsz < 2 ^ 47 + 2 ^ 64 := Nat.add_lt_add h.low hmemsz
  simp only [stop]
  rcases h.ends with hends | ⟨rfl, hwrap⟩
  · rw [Nat.mod_eq_of_lt (by omega)]
    exact ⟨by omega, hends, Arith.add_of_lt ar (by omega)⟩
  · have hover : ¬ header.pVaddr + header.pMemsz < 2 ^ 64 := by omega
    exact ⟨by omega, by omega, if_neg hover⟩

theorem Loadable.lowerHalf {ar : Arith} {header : ProgramHeader} (h : header.Loadable ar)
    (hpos : 0 < header.pMemsz)
    (hmemsz : header.pMemsz < 2 ^ 64) {page : Page} (hpage : header.Covers page) : page.LowerHalf := by
  obtain ⟨_, hstop, _⟩ := h.stop_cases hpos hmemsz
  obtain ⟨_, hle⟩ := hpage
  rw [Page.lowerHalf_iff]
  omega

end ProgramHeader

namespace Elf

theorem leNat_lt (data : List UInt8) (pos n : Nat) : leNat data pos n < 256 ^ n := by
  induction n generalizing pos with
  | zero => simp [leNat]
  | succ n ih =>
    have hrest := ih (pos + 1)
    have hbyte := (data.getD pos 0).toNat_lt
    rw [leNat, Nat.pow_succ]
    omega

theorem new_data (elf : Elf) : Elf.new elf.data = .ok elf := by
  rw [new, dif_pos elf.size, dif_pos elf.magic, dif_pos elf.table]

theorem programHeaders_bounded {elf : Elf} {header : ProgramHeader} (h : header ∈ elf.programHeaders) :
    header.pVaddr < 2 ^ 64 ∧ header.pMemsz < 2 ^ 64 := by
  obtain ⟨i, _, rfl⟩ := List.mem_map.mp h
  exact ⟨leNat_lt _ _ 8, leNat_lt _ _ 8⟩

/-! ## One page -/

section OnePage

variable {Room : Nat → pg.Table → pg.Frames → Prop} {data : List UInt8} {flags : PageTableFlags}
    {o : Nat} {page : Page}

abbrev Takes (Room : Nat → pg.Table → pg.Frames → Prop) (n : Nat) (sound : Prop) (wanted : Page → Prop)
    (m : VmM pg ε Unit) : Prop :=
  Comp.Takes (fun n v => Room n v.table v.frames) (fun v page => pg.leaf v.table page = none) n sound wanted m

theorem mountPage_runs {v : Vm pg} {i : Int} {frame : PhysFrame} {fs fs' : pg.Frames} {t : pg.Table}
    (halloc : pg.allocateFrame v.frames = (some frame, fs))
    (hmap : pg.mapTo v.table fs page frame flags (flags &&&
      (PageTableFlags.PRESENT ||| PageTableFlags.WRITABLE ||| PageTableFlags.USER_ACCESSIBLE)) =
      (.ok (), t, fs')) :
    (mountPage data flags i page v : Ran _ KEvent ε Unit).outcome = .ok () := by
  unfold mountPage
  rw [Comp.bind_run, allocateFrame_run, halloc]
  dsimp only
  rw [Comp.unwrap_some, Comp.ret_bind, Comp.bind_run, mapTo_run]
  dsimp only
  rw [hmap]
  dsimp only
  rw [Comp.expect_true (by rfl), Comp.ret_bind, Comp.write_bind]
  dsimp only
  split <;> rfl

theorem mountPage_takes (lawful : pg.Lawful) (ample : pg.Ample Room) (ho : o ≤ 4096) (hlow : page.LowerHalf) :
    Takes Room 1 True (fun p => p = page) (mountPage data flags (-(o : Int)) page : VmM pg ε Unit) := by
  intro k v hroom
  rw [Nat.add_comm] at hroom
  obtain ⟨frame, fs, halloc, hmap⟩ := ample.mapped hroom
  have hdone : (mountPage data flags (-(o : Int)) page v : Ran _ KEvent ε Unit).outcome = .ok () →
      pg.leaf v.table page = none ∧
      Room k (mountPage data flags (-(o : Int)) page v : Ran _ KEvent ε Unit).state.table
        (mountPage data flags (-(o : Int)) page v : Ran _ KEvent ε Unit).state.frames ∧
      pg.leaf (mountPage data flags (-(o : Int)) page v : Ran _ KEvent ε Unit).state.table =
        Function.update (pg.leaf v.table) page (some (frame, flags)) := by
    intro hok
    obtain ⟨frame', fs', parentFlags, t, fs'', halloc', hmap', hstate⟩ := mountPage_ok ho hok
    obtain ⟨hframe, hfs⟩ := Prod.mk.inj (halloc'.symm.trans halloc)
    obtain rfl := Option.some.inj hframe
    subst hfs
    obtain ⟨hnone, hleaf⟩ := lawful.mapped _ _ _ _ _ _ _ _ hmap'
    obtain ⟨t', gs, hmapped, hleft⟩ := hmap page flags parentFlags hlow hnone
    obtain ⟨_, hpair⟩ := Prod.mk.inj (hmap'.symm.trans hmapped)
    obtain ⟨rfl, rfl⟩ := Prod.mk.inj hpair
    rw [hstate]
    exact ⟨hnone, hleft, hleaf⟩
  constructor
  · simp only [true_and, forall_eq]
    constructor
    · intro hok
      exact (hdone hok).1
    · intro hnone
      obtain ⟨t, fs', hmapped, _⟩ := hmap page flags _ hlow hnone
      exact mountPage_runs halloc hmapped
  · intro hok
    obtain ⟨_, hleft, hleaf⟩ := hdone hok
    refine ⟨hleft, fun p => ?_⟩
    dsimp only
    rw [hleaf]
    by_cases hp : p = page
    · simp [hp]
    · simp [hp, Function.update_of_ne]

end OnePage

/-! ## One segment -/

section OneSegment

variable {Room : Nat → pg.Table → pg.Frames → Prop} {ar : Arith} {header : ProgramHeader} {data : List UInt8}

theorem segmentFlags_eq_none : segmentFlags header = none ↔ header.pFlags &&& PF_R = 0 := by
  simp [segmentFlags]

/-- A segment that passes the checks of the loader lies where it should. -/
theorem loadable_of_checks {start stop last : VirtAddr} {flags : PageTableFlags}
    (hstart : VirtAddr.new header.pVaddr = some start) (hstop : start.add ar header.pMemsz = some stop)
    (hlow : start.raw < 2 ^ 63) (hlow' : stop.raw < 2 ^ 63) (hlast : stop.sub 1 = some last)
    (hflags : segmentFlags header = some flags) : header.Loadable ar := by
  have hstart := VirtAddr.new_cases hstart
  have hcan := start.canonical
  have hraw : start.raw = header.pVaddr := by omega
  have hone : 1 ≤ stop.raw := by
    by_contra hzero
    simp only [VirtAddr.sub, if_neg hzero] at hlast
    cases hlast
  simp only [VirtAddr.add, Option.bind_eq_some_iff] at hstop
  obtain ⟨sum, hsum, hnew⟩ := hstop
  have hnew := VirtAddr.new_cases hnew
  refine ⟨?_, by omega, ?_⟩
  · intro hzero
    rw [segmentFlags_eq_none.mpr hzero] at hflags
    cases hflags
  · rcases Arith.add_cases hsum with ⟨rfl, _⟩ | ⟨rfl, rfl, hover⟩
    · left
      omega
    · right
      exact ⟨rfl, by omega⟩

/-- The pages of a loadable segment. -/
def segmentPages (ar : Arith) (h : header.Loadable ar) (hstop : header.stop - 1 < 2 ^ 47) : List Page :=
  Page.rangeInclusive ar (Page.containingAddress ⟨header.pVaddr, .inl h.low⟩)
    (Page.containingAddress ⟨header.stop - 1, .inl hstop⟩)

theorem mem_segmentPages {h : header.Loadable ar} {hstop : header.stop - 1 < 2 ^ 47} {page : Page} :
    page ∈ segmentPages ar h hstop ↔ header.Covers page := by
  have hfirst := Page.containingAddress_index (v := ⟨header.pVaddr, .inl h.low⟩) h.low
  have hlast := Page.containingAddress_index (v := ⟨header.stop - 1, .inl hstop⟩) hstop
  dsimp only at hfirst hlast
  rw [segmentPages, Page.mem_rangeInclusive (by omega), hfirst, hlast]
  rfl

theorem mountSegment_run (pg : Paging) (ε : Type) (data : List UInt8) (h : header.Loadable ar)
    (hpos : 0 < header.pMemsz) (hmemsz : header.pMemsz < 2 ^ 64) :
    ∃ flags hstop, ∀ v : Vm pg, (mountSegment ar header data v : Ran _ KEvent ε Unit) =
      Comp.forEach (segmentPages ar h hstop)
        (mountPage data flags (-((header.pVaddr % 4096 : Nat) : Int))) v := by
  obtain ⟨hone, hhigh, hadd⟩ := h.stop_cases hpos hmemsz
  obtain ⟨flags, hflags⟩ := Option.ne_none_iff_exists'.mp (mt segmentFlags_eq_none.mp h.readable)
  have hlow := h.low
  have hsub : header.stop - 1 < 2 ^ 47 := by omega
  have hstop :
      (⟨header.pVaddr, .inl h.low⟩ : VirtAddr).add ar header.pMemsz = some ⟨header.stop, .inl hhigh⟩ := by
    simp only [VirtAddr.add, hadd, Option.bind_some, VirtAddr.new_low hhigh]
  have hlast : (⟨header.stop, .inl hhigh⟩ : VirtAddr).sub 1 = some ⟨header.stop - 1, .inl hsub⟩ := by
    have hle : 1 ≤ header.stop := hone
    simp only [VirtAddr.sub, if_pos hle, VirtAddr.new_low hsub]
  have hcheck : checkAddrUserspace header.pVaddr = .ok () := (checkAddrUserspace_ok (by omega)).mpr (by omega)
  have hcheck' : checkAddrUserspace header.stop = .ok () := (checkAddrUserspace_ok (by omega)).mpr (by omega)
  have hindex : ((Page.containingAddress ⟨header.pVaddr, .inl h.low⟩).start.raw : Int) - header.pVaddr =
      -((header.pVaddr % 4096 : Nat) : Int) := by
    simp only [Page.containingAddress]
    omega
  refine ⟨flags, hsub, fun v => ?_⟩
  unfold mountSegment
  rw [VirtAddr.new_low hlow, Comp.unwrap_some, Comp.ret_bind, hstop, Comp.unwrap_some, Comp.ret_bind,
    Comp.expect_true hcheck, Comp.ret_bind, Comp.expect_true hcheck', Comp.ret_bind, hlast, Comp.unwrap_some,
    Comp.ret_bind, hflags, Comp.unwrap_some, Comp.ret_bind]
  dsimp only
  rw [hindex]
  rfl

theorem segmentPages_nodup (h : header.Loadable ar) (hstop : header.stop - 1 < 2 ^ 47) :
    (segmentPages ar h hstop).Nodup := by
  have hlast := Page.containingAddress_index (v := ⟨header.stop - 1, .inl hstop⟩) hstop
  dsimp only at hlast
  exact Page.nodup_rangeInclusive (by omega)

theorem segmentPages_length (h : header.Loadable ar) (hstop : header.stop - 1 < 2 ^ 47) :
    (segmentPages ar h hstop).length = (header.stop - 1) / 4096 + 1 - header.pVaddr / 4096 := by
  have hfirst := Page.containingAddress_index (v := ⟨header.pVaddr, .inl h.low⟩) h.low
  have hlast := Page.containingAddress_index (v := ⟨header.stop - 1, .inl hstop⟩) hstop
  dsimp only at hfirst hlast
  rw [segmentPages, Page.length_rangeInclusive (by omega), hfirst, hlast]

theorem mountSegment_takes (lawful : pg.Lawful) (ample : pg.Ample Room) (hload : header.ToLoad)
    (hmemsz : header.pMemsz < 2 ^ 64) :
    Takes Room header.pageCount (header.Loadable ar) header.Covers
    (mountSegment ar header data : VmM pg ε Unit) := by
  by_cases h : header.Loadable ar
  · obtain ⟨flags, hstop, hrun⟩ := mountSegment_run pg ε data h hload.2 hmemsz
    have hlow : ∀ page ∈ segmentPages ar h hstop, page.LowerHalf := fun page hpage =>
      h.lowerHalf hload.2 hmemsz (mem_segmentPages.mp hpage)
    have hpages : Takes Room ((segmentPages ar h hstop).map fun _ => 1).sum _ _
      (Comp.forEach (segmentPages ar h hstop)
        (mountPage data flags (-((header.pVaddr % 4096 : Nat) : Int))) : VmM pg ε Unit) :=
      Comp.Takes.forEach fun page hpage => mountPage_takes lawful ample (by omega) (hlow page hpage)
    have hcount : ((segmentPages ar h hstop).map fun _ => 1).sum = header.pageCount := by
      rw [List.map_const', List.sum_replicate_nat, ProgramHeader.pageCount, if_pos hload, Nat.mul_one,
        segmentPages_length]
    rw [hcount] at hpages
    refine (hpages.congr ?_ ?_).of_eq hrun
    · simp only [h, true_iff, implies_true, true_and, forall_eq]
      exact segmentPages_nodup h hstop
    · intro page
      have hmem : page ∈ segmentPages ar h hstop ↔ header.Covers page := mem_segmentPages
      rw [← hmem]
      simp
  · refine (Comp.Takes.never fun v hok => h ?_).congr (iff_of_false h id) fun _ => Iff.rfl
    unfold mountSegment at hok
    obtain ⟨start, hstart, hok⟩ := (Comp.Still.unwrap _).bind_inv hok
    obtain ⟨stop, hstop, hok⟩ := (Comp.Still.unwrap _).bind_inv hok
    obtain ⟨_, hlow, hok⟩ := Comp.Still.expect.bind_inv hok
    obtain ⟨_, hlow', hok⟩ := Comp.Still.expect.bind_inv hok
    obtain ⟨last, hlast, hok⟩ := (Comp.Still.unwrap _).bind_inv hok
    obtain ⟨flags, hflags, _⟩ := (Comp.Still.unwrap _).bind_inv hok
    exact loadable_of_checks (Comp.unwrap_ok hstart) (Comp.unwrap_ok hstop)
      ((checkAddrUserspace_ok start.raw_lt).mp (Comp.expect_ok hlow))
      ((checkAddrUserspace_ok stop.raw_lt).mp (Comp.expect_ok hlow')) (Comp.unwrap_ok hlast)
        (Comp.unwrap_ok hflags)

end OneSegment

/-! ## The whole image -/

section WholeImage

variable {Room : Nat → pg.Table → pg.Frames → Prop} {ar : Arith} {elf : Elf} {header : ProgramHeader}

def InFile (elf : Elf) (header : ProgramHeader) : Prop := header.pOffset + header.pFilesz ≤ elf.data.length

/-- The body of the loop over the headers. -/
def mountHeader (ar : Arith) (elf : Elf) (header : ProgramHeader) : VmM pg ε Unit := do
  let data ← Comp.unwrap (elf.segment header)
  if header.ToLoad then mountSegment ar header data else return ()

theorem mountHeader_takes (lawful : pg.Lawful) (ample : pg.Ample Room) (hmemsz : header.pMemsz < 2 ^ 64) :
    Takes Room header.pageCount (elf.InFile header ∧ (header.ToLoad → header.Loadable ar))
      (fun page => header.ToLoad ∧ header.Covers page) (mountHeader ar elf header : VmM pg ε Unit) := by
  by_cases hfile : elf.InFile header
  · let data := (elf.data.drop header.pOffset).take header.pFilesz
    have hdata : elf.segment header = some data := if_pos hfile
    by_cases hload : header.ToLoad
    · have hrun : ∀ v : Vm pg, mountHeader ar elf header v =
        (mountSegment ar header data v : Ran (Vm pg) KEvent ε Unit) := by
        intro v
        rw [mountHeader, hdata, Comp.unwrap_some, Comp.ret_bind, if_pos hload]
      have hsegment : Takes Room _ _ _ (mountSegment ar header data : VmM pg ε Unit) :=
        mountSegment_takes lawful ample hload hmemsz
      exact (hsegment.congr (by simp [hfile, hload]) (by simp [hload])).of_eq hrun
    · have hrun : ∀ v : Vm pg, mountHeader ar elf header v = (Comp.ret () v : Ran (Vm pg) KEvent ε Unit) := by
        intro v
        rw [mountHeader, hdata, Comp.unwrap_some, Comp.ret_bind, if_neg hload]
        rfl
      rw [show header.pageCount = 0 from if_neg hload]
      exact (Comp.Takes.ret.congr (by simp [hfile, hload]) (by simp [hload])).of_eq hrun
  · refine (Comp.Takes.never fun v hok => hfile ?_).congr
      (iff_of_false (fun h => hfile h.1) id) fun _ => Iff.rfl
    obtain ⟨data, hdata, _⟩ := (Comp.Still.unwrap _).bind_inv hok
    by_contra houtside
    rw [show elf.segment header = none from if_neg houtside] at hdata
    cases hdata

/-- How many pages the segments have together. -/
def pageCount (elf : Elf) : Nat := (elf.programHeaders.map ProgramHeader.pageCount).sum

/-- The headers lead nowhere they should not. -/
def Mountable (ar : Arith) (elf : Elf) : Prop :=
  (∀ header ∈ elf.programHeaders, elf.InFile header ∧ (header.ToLoad → header.Loadable ar)) ∧
    elf.programHeaders.Pairwise fun g h => ∀ page, g.ToLoad ∧ g.Covers page → ¬ (h.ToLoad ∧ h.Covers page)

theorem mountInto_takes (lawful : pg.Lawful) (ample : pg.Ample Room) (ar : Arith) (elf : Elf) :
    Takes Room elf.pageCount (elf.Mountable ar) (fun page => ∃ h ∈ elf.programHeaders, h.ToLoad ∧ h.Covers page)
      (elf.mountInto ar : VmM pg ε Unit) := by
  have hloop : Takes Room elf.pageCount _ _ (Comp.forEach elf.programHeaders
    (mountHeader ar elf) : VmM pg ε Unit) :=
    Comp.Takes.forEach fun header hmem => mountHeader_takes lawful ample (programHeaders_bounded hmem).2
  exact hloop.withGuard

end WholeImage

end Elf

/-! ## Loading it -/

/-- `new` for bytes at this address of the kernel. The header is read in place, as a record of 64-bit words,
and reading it panics where these would not be aligned. -/
def Elf.newAt (base : Nat) (data : List UInt8) : Option (Except String Elf) :=
  if SIZEOF_EHDR < data.length ∧ base % 8 ≠ 0 then none else some (Elf.new data)

theorem Elf.newAt_eq_some {base : Nat} {data : List UInt8} {r : Except String Elf} :
    Elf.newAt base data = some r ↔ (SIZEOF_EHDR < data.length → base % 8 = 0) ∧ Elf.new data = r := by
  unfold Elf.newAt
  split
  · exact iff_of_false nofun fun h => by omega
  · rw [Option.some.injEq]
    exact (and_iff_right fun h => by omega).symm

/-- The pages of a stack of 64 KiB at this address of the heap. -/
def OnStack (userStack : Nat) (page : Page) : Prop :=
  USERSPACE_STACK_ADDR / 4096 ≤ page.index ∧
    page.index < USERSPACE_STACK_ADDR / 4096 + (userStack % 4096 + USER_STACK_SIZE + 4095) / 4096

/-- The image can do no harm, if its bytes are at this address of the kernel. -/
structure Elf.Harmless (ar : Arith) (base userStack : Nat) (elf : Elf) : Prop where
  aligned : (base + elf.header.ePhoff) % 8 = 0
  inFile : ∀ header ∈ elf.programHeaders, elf.InFile header
  loadable : ∀ header ∈ elf.programHeaders, header.ToLoad → header.Loadable ar
  apart : elf.programHeaders.Pairwise fun g h => ∀ page, g.ToLoad ∧ g.Covers page → ¬ (h.ToLoad ∧ h.Covers page)
  beside : ∀ header ∈ elf.programHeaders, header.ToLoad → ∀ page, header.Covers page → ¬ OnStack userStack page
  entry : elf.header.eEntry < 2 ^ 48 ∨ 2 ^ 64 - 2 ^ 47 ≤ elf.header.eEntry

/-- The precondition of `slice::from_raw_parts`: a header is aligned for its 64-bit fields. -/
def Elf.HeadersAligned (base : Nat) (elf : Elf) : Prop := (base + elf.header.ePhoff) % 8 = 0

theorem VirtAddr.new_isSome {n : Nat} (h : n < 2 ^ 64) :
    (∃ v, VirtAddr.new n = some v) ↔ n < 2 ^ 48 ∨ 2 ^ 64 - 2 ^ 47 ≤ n := by
  constructor
  · rintro ⟨v, hv⟩
    have hcases := VirtAddr.new_cases hv
    omega
  · intro hn
    by_cases hlow : n < 2 ^ 47
    · exact ⟨_, VirtAddr.new_low hlow⟩
    by_cases hsign : n < 2 ^ 48
    · obtain ⟨v, hv, _⟩ := VirtAddr.new_sign (n := n) (by omega) hsign
      exact ⟨v, hv⟩
    · exact ⟨_, VirtAddr.new_raw ⟨n, .inr (by omega)⟩⟩

/-- A load ends when the image is mounted and its entry point is an address. -/
theorem loadElf_ok {env : Env pg} {id : TaskId} {task : TaskContext pg id} {k : Kernel pg} {elf : Elf}
    (hfound : k.tasks.lookup id = some task) :
    (TaskContext.loadElf env id elf k : Ran _ KEvent ε Unit).outcome = .ok () ↔
      (elf.mountInto env.arith ⟨task.pageTable, k.frames, k.memory⟩ : Ran _ KEvent ε Unit).outcome = .ok () ∧
        ∃ entry, VirtAddr.new elf.header.eEntry = some entry := by
  unfold TaskContext.loadElf
  rw [getTask_bind hfound]
  let v : Vm pg := ⟨task.pageTable, k.frames, k.memory⟩
  have hmount : ((inTable task (elf.mountInto env.arith) : KernelM pg ε Unit) k).outcome =
      (elf.mountInto env.arith v : Ran _ KEvent ε Unit).outcome := rfl
  constructor
  · intro h
    obtain ⟨_, hmounted, h⟩ := Comp.bind_inv h
    obtain ⟨entry, hentry, _⟩ := (Comp.Still.unwrap _).bind_inv h
    exact ⟨hmount.symm.trans hmounted, entry, Comp.unwrap_ok hentry⟩
  · rintro ⟨hmounted, entry, hentry⟩
    have hlater : ((inTable task (elf.mountInto env.arith) : KernelM pg ε Unit) k).state.tasks.lookup id =
        some { task with pageTable := (elf.mountInto env.arith v : Ran _ KEvent ε Unit).state.table } :=
      Finmap.lookup_insert _
    rw [Comp.bind_ok (hmount.trans hmounted), after_outcome, hentry, Comp.unwrap_some, Comp.ret_bind,
      getTask_bind hlater]
    rfl

/-- A file is refused or loaded without harm exactly if its bytes are where they can be read, as those of the
heap are, and its headers do none. -/
theorem image_survives_iff (lawful : pg.Lawful) {Room : Nat → pg.Table → pg.Frames → Prop}
    (ample : pg.Ample Room)
    (env : Env pg) {id : TaskId} {task : TaskContext pg id} {k : Kernel pg}
    (hfound : k.tasks.lookup id = some task)
    {userStack : Nat} (hstack : ∀ page : Page, page.LowerHalf →
      (pg.leaf task.pageTable page = none ↔ ¬ OnStack userStack page))
    (base : Nat) {data : List UInt8}
    (hroom : ∀ elf, Elf.new data = .ok elf → Room elf.pageCount task.pageTable k.frames) :
    (∃ r, Elf.newAt base data = some r ∧ ∀ elf, r = .ok elf → elf.HeadersAligned base ∧
      (TaskContext.loadElf env id elf k : Ran _ KEvent ε Unit).outcome = .ok ()) ↔
    (SIZEOF_EHDR < data.length → base % 8 = 0) ∧
      ∀ elf, Elf.new data = .ok elf → elf.Harmless env.arith base userStack := by
  simp only [Elf.newAt_eq_some, and_assoc, exists_and_left, exists_eq_left']
  refine and_congr_right fun _ => forall_congr' fun elf => imp_congr_right fun hnew => ?_
  obtain ⟨hmounts, _⟩ := Elf.mountInto_takes (ε := ε) lawful ample env.arith elf 0
    ⟨task.pageTable, k.frames, k.memory⟩
    (hroom elf hnew)
  have hentry := VirtAddr.new_isSome (Elf.leNat_lt elf.data 24 8)
  rw [loadElf_ok hfound, hmounts]
  constructor
  · rintro ⟨haligned, ⟨⟨hheaders, hapart⟩, hfree⟩, hcan⟩
    exact
      { aligned := haligned
        inFile := fun header hmem => (hheaders header hmem).1
        loadable := fun header hmem => (hheaders header hmem).2
        apart := hapart
        beside := fun header hmem hload page hpage =>
          (hstack page (((hheaders header hmem).2 hload).lowerHalf hload.2
            (Elf.programHeaders_bounded hmem).2 hpage)).mp
            (hfree page ⟨header, hmem, hload, hpage⟩)
        entry := hentry.mp hcan }
  · intro h
    refine ⟨h.aligned, ⟨⟨fun header hmem => ⟨h.inFile header hmem, h.loadable header hmem⟩, h.apart⟩, ?_⟩,
      hentry.mpr h.entry⟩
    rintro page ⟨header, hmem, hload, hpage⟩
    have hlow := (h.loadable header hmem hload).lowerHalf hload.2 (Elf.programHeaders_bounded hmem).2 hpage
    exact (hstack page hlow).mpr (h.beside header hmem hload page hpage)

/-! ## A truncated file -/

theorem flat_ample : Paging.flat.Ample fun n _ (used : Nat) => used + n ≤ 2 ^ 40 where
  mapped := by
    intro n t (used : Nat) hroom
    have hlt : used < 2 ^ 40 := by omega
    refine ⟨frameAt used hlt, used + 1, dif_pos hlt, fun page flags parentFlags _ hnone => ?_⟩
    exact ⟨_, _, flat_mapTo hnone (used + 1) (frameAt used hlt) flags parentFlags, by omega⟩

instance (userStack : Nat) (page : Page) : Decidable (OnStack userStack page) :=
  inferInstanceAs (Decidable (_ ∧ _))

/-- Only the stack is mapped. -/
def stackTable : FlatTable := fun page =>
  if OnStack 0 page then some (frameAt 0 (by decide), stackFlags) else none

/-- The parent has made a child, with its stack. -/
def stackKernel : Kernel .flat :=
  let k := Kernel.family twoFrames
  let table : Paging.flat.Table := stackTable
  { k with tasks := k.tasks.insert childId (TaskContext.fresh parentId childId table) }

theorem stackTable_none (page : Page) : stackTable page = none ↔ ¬ OnStack 0 page := by
  simp [stackTable]

theorem twoBytes_survives_iff :
    (∃ r, Elf.newAt 0x2000 (Elf.twoBytes [0x00, 0x10]) = some r ∧ ∀ elf, r = .ok elf → elf.HeadersAligned 0x2000 ∧
      (TaskContext.loadElf Env.plain childId elf stackKernel : Ran _ KEvent Empty Unit).outcome = .ok ()) ↔
    (SIZEOF_EHDR < (Elf.twoBytes [0x00, 0x10]).length → 0x2000 % 8 = 0) ∧
      ∀ elf, Elf.new (Elf.twoBytes [0x00, 0x10]) = .ok elf → elf.Harmless .checked 0x2000 0 := by
  have hfound : stackKernel.tasks.lookup childId = some (TaskContext.fresh parentId childId stackTable) :=
    Finmap.lookup_insert _
  have hnew := Elf.inOnePage.new_data
  refine image_survives_iff Paging.flat_lawful flat_ample Env.plain hfound
    (fun page _ => stackTable_none page) 0x2000 ?_
  intro elf helf
  obtain rfl := Except.ok.inj (hnew.symm.trans helf)
  have hcount : Elf.inOnePage.pageCount = 1 := by decide +kernel
  rw [hcount]
  decide

/-- The segment's bytes would begin at the last byte of the file. -/
def truncated : Elf := ⟨(Elf.twoBytes [0x00, 0x10]).dropLast, by decide, by decide, by decide⟩

theorem truncated_panics : Elf.new (Elf.twoBytes [0x00, 0x10]).dropLast = .ok truncated ∧
    (TaskContext.loadElf Env.plain childId truncated stackKernel : Ran _ KEvent Empty Unit).outcome = .panic :=
  ⟨truncated.new_data, by decide +kernel⟩

end Idkernel
