import Idkernel.HostileImages
import Idkernel.Watched

/-!
# The pointers of the ELF loader

The loader reads the file and fills frames through raw pointers, whose offsets
are signed words. Here it is written down with these words, and logs each use of
a pointer: the part of the file or the frame the pointer was made from, the
offset and the number of bytes.
-/
namespace Idkernel

open Address Traced Locks

namespace ElfPointers

/-! ## Words -/

/-- `as isize` -/
def asIsize (x : Nat) : Int := if x < 2 ^ 63 then x else (x : Int) - 2 ^ 64

/-- `as usize` -/
def asUsize (x : Int) : Nat := if 0 ≤ x then x.toNat else (x + 2 ^ 64).toNat

/-- The result of an operation on `isize`. -/
def isize (ar : Arith) (x : Int) : Option Int :=
  if -2 ^ 63 ≤ x ∧ x < 2 ^ 63 then some x else match ar with
    | .checked => none
    | .wrapping => some (x.bmod (2 ^ 64))

def mulUsize (ar : Arith) (a b : Nat) : Option Nat :=
  if a * b < 2 ^ 64 then some (a * b) else match ar with
    | .checked => none
    | .wrapping => some (a * b % 2 ^ 64)

def checkedAdd (a b : Nat) : Option Nat := if a + b < 2 ^ 64 then some (a + b) else none

/-! ## Pointers -/

/-- A slice is never longer than `isize::MAX`. -/
structure ByteSlice where
  bytes : List UInt8
  bounded : bytes.length < 2 ^ 63

inductive Access where
  /-- Bytes of the file, at an offset from the start of a part of it. -/
  | read (base size : Nat) (offset : Int) (len : Nat)
  | allocated (frame : PhysFrame)
  /-- Bytes of a frame, at an offset from its start. -/
  | write (frame : PhysFrame) (offset : Int) (len : Nat)

abbrev PEvent := Event LockName (Note ⊕ Access)

abbrev PointerM (pg : Paging) (ε : Type) := Comp (Vm pg) PEvent ε

variable {pg : Paging} {ε α : Type}

def access (a : Access) : PointerM pg ε Unit := Comp.emit (.note (.inr a))

def outer : KEvent → PEvent
  | .acquire l m => .acquire l m
  | .release l m => .release l m
  | .note n => .note (.inl n)

/-- What is done without these pointers. -/
def lift (m : VmM pg ε α) : PointerM pg ε α := Comp.relabel (fun e => [outer e]) m

/-! ## The loader -/

def header (file : ByteSlice) : PointerM pg ε Header := do
  Comp.expect (SIZEOF_EHDR ≤ file.bytes.length)
  access (.read 0 SIZEOF_EHDR 0 SIZEOF_EHDR)
  return Header.fromBytes file.bytes

def new (ar : Arith) (file : ByteSlice) : PointerM pg String Unit :=
  if file.bytes.length ≤ SIZEOF_EHDR then Comp.fail "Invalid elf size"
  else do
    let header ← header file
    if header.eIdent.take 4 ≠ ELFMAG then Comp.fail "Invalid ELF magic, are you sure this is an elf file?"
    else do
      let size ← Comp.unwrap (mulUsize ar header.ePhnum SIZEOF_PHDR)
      match checkedAdd header.ePhoff size with
      | some x => if x < file.bytes.length then Comp.ret () else Comp.fail "Invalid program headers"
      | none => Comp.fail "Invalid program headers"

def programHeaders (file : ByteSlice) : PointerM pg ε (List ProgramHeader) := do
  let header ← header file
  let offset := asIsize header.ePhoff
  access (.read 0 file.bytes.length offset (header.ePhnum * SIZEOF_PHDR))
  return (List.range header.ePhnum).map fun i =>
    ProgramHeader.fromBytes file.bytes (offset.toNat + i * SIZEOF_PHDR)

/-- Where a segment begins, and its length; slicing twice panics outside the file. -/
def segment (file : ByteSlice) (header : ProgramHeader) : Option (Nat × Nat) :=
  if header.pOffset ≤ file.bytes.length ∧ header.pFilesz ≤ file.bytes.length - header.pOffset then
    some (header.pOffset, header.pFilesz)
  else none

def mountPage (ar : Arith) (file : ByteSlice) (data : Nat × Nat) (flags : PageTableFlags) (fileIndex : Int)
    (page : Page) : PointerM pg ε Unit := do
  let frame ← lift allocateFrame
  let frame ← Comp.unwrap frame
  access (.allocated frame)
  let parentFlags := flags &&&
    (PageTableFlags.PRESENT ||| PageTableFlags.WRITABLE ||| PageTableFlags.USER_ACCESSIBLE)
  let mapped ← lift (mapTo page frame flags parentFlags)
  Comp.expect (mapped.isOk = true)
  access (.write frame 0 4096)
  Comp.write fun v => { v with memory := v.memory.fill frame.start.raw 4096 0 }
  let dataStart := max fileIndex 0
  let pageEnd ← Comp.unwrap (isize ar (fileIndex + 4096))
  let dataEnd := min pageEnd (asIsize data.2)
  let back ← Comp.unwrap (isize ar (-fileIndex))
  let off := max back 0
  if dataStart ≤ dataEnd then do
    let len ← Comp.unwrap (isize ar (dataEnd - dataStart))
    access (.read data.1 data.2 dataStart (asUsize len))
    access (.write frame off (asUsize len))
    let bytes := (file.bytes.drop (data.1 + dataStart.toNat)).take (asUsize len)
    Comp.write fun v => { v with memory := v.memory.copy (frame.start.raw + off.toNat) bytes }
  else return ()

def mountSegment (ar : Arith) (file : ByteSlice) (header : ProgramHeader) (data : Nat × Nat) :
    PointerM pg ε Unit := do
  let start ← Comp.unwrap (VirtAddr.new header.pVaddr)
  let stop ← Comp.unwrap (start.add ar header.pMemsz)
  Comp.expect (checkAddrUserspace start.raw = .ok ())
  Comp.expect (checkAddrUserspace stop.raw = .ok ())
  let startPage := Page.containingAddress start
  let last ← Comp.unwrap (stop.sub 1)
  let stopPage := Page.containingAddress last
  let flags ← Comp.unwrap (Elf.segmentFlags header)
  let fileIndex ← Comp.unwrap (isize ar (asIsize startPage.start.raw - asIsize start.raw))
  Comp.forEach (Page.rangeInclusive ar startPage stopPage) (mountPage ar file data flags fileIndex)

def mountInto (ar : Arith) (file : ByteSlice) : PointerM pg ε Unit :=
  withGuard .frameAllocator .write do
    let headers ← programHeaders file
    Comp.forEach headers fun header => do
      let data ← Comp.unwrap (segment file header)
      if header.pType = PT_LOAD ∧ header.pMemsz > 0 then mountSegment ar file header data else return ()

/-- A file that is accepted is mounted. -/
def load (ar : Arith) (file : ByteSlice) : PointerM pg String Unit := do
  new ar file
  mountInto ar file

/-! ## Bounds -/

def allocatedFrame : PEvent → Option PhysFrame
  | .note (.inr (.allocated frame)) => some frame
  | _ => none

def lastAllocated (earlier : List PEvent) : Option PhysFrame := (earlier.filterMap allocatedFrame).getLast?

/-- A part of the file is read inside of this part, and a page is written to the frame that has just been
allocated. -/
def InBounds (file : ByteSlice) (earlier : List PEvent) : PEvent → Prop
  | .note (.inr (.read base size offset len)) =>
    base + size ≤ file.bytes.length ∧ 0 ≤ offset ∧ offset + len ≤ size
  | .note (.inr (.write frame offset len)) =>
    0 ≤ offset ∧ offset + len ≤ 4096 ∧ lastAllocated earlier = some frame
  | _ => True

/-- What is logged without the pointers. -/
def plain : PEvent → List KEvent
  | .acquire l m => [.acquire l m]
  | .release l m => [.release l m]
  | .note (.inl n) => [.note n]
  | .note (.inr _) => []

/-- The file header and the table of the program headers are there. -/
def TableInside (file : ByteSlice) : Prop :=
  SIZEOF_EHDR ≤ file.bytes.length ∧
    (Header.fromBytes file.bytes).ePhoff + (Header.fromBytes file.bytes).ePhnum * SIZEOF_PHDR ≤
      file.bytes.length

/-! ## Without the pointers -/

theorem plain_lift (m : VmM pg ε α) : Comp.relabel plain (lift m) = m := by
  have houter : (fun e => [outer e].flatMap plain) = fun e => [e] := by
    funext e
    cases e <;> rfl
  rw [lift, Comp.relabel_relabel, houter, Comp.relabel_self]

theorem plain_access (a : Access) : (Comp.relabel plain (access a) : VmM pg ε Unit) = pure () :=
  Comp.relabel_emit rfl

theorem plain_withGuard (l : LockName) (m : Mode) (body : PointerM pg ε α) :
    Comp.relabel plain (withGuard l m body) = withGuard l m (Comp.relabel plain body) := by
  funext s
  rw [Comp.relabel_run]
  unfold withGuard
  cases ho : (body s).outcome <;> simp [Comp.relabel_run, plain, ho]

theorem isize_small {ar : Arith} {x : Int} (h : -2 ^ 63 ≤ x ∧ x < 2 ^ 63) : isize ar x = some x := if_pos h

theorem asIsize_small {x : Nat} (h : x < 2 ^ 63) : asIsize x = x := if_pos h

/-- The page of an address begins less than a page before it. -/
theorem fileIndex_bounds (v : VirtAddr) :
    -4096 < ((Page.containingAddress v).start.raw : Int) - v.raw ∧
      ((Page.containingAddress v).start.raw : Int) - v.raw ≤ 0 := by
  have hpage : (Page.containingAddress v).start.raw = v.raw - v.raw % 4096 := rfl
  omega

/-- The bytes of a segment that are copied to a page. -/
def copied (fileIndex : Int) (size : Nat) : Nat := (min (fileIndex + 4096) (size : Int)).toNat

theorem copied_eq {fileIndex : Int} {size : Nat} (hindex : -4096 < fileIndex) :
    min (fileIndex + 4096) (size : Int) = copied fileIndex size := by
  unfold copied
  omega

theorem copied_le {fileIndex : Int} (size : Nat) (hindex : -4096 < fileIndex ∧ fileIndex ≤ 0) :
    copied fileIndex size ≤ size ∧ max (-fileIndex) 0 + copied fileIndex size ≤ 4096 := by
  unfold copied
  omega

/-- Where the page of a segment begins less than a page before it, no word of the copy is cut off. -/
theorem mountPage_eq {ar : Arith} {file : ByteSlice} {base size : Nat} (h : base + size ≤ file.bytes.length)
    {fileIndex : Int} (hindex : -4096 < fileIndex ∧ fileIndex ≤ 0) (flags : PageTableFlags) (page : Page) :
    (mountPage ar file (base, size) flags fileIndex page : PointerM pg ε Unit) = (do
      let frame ← lift allocateFrame
      let frame ← Comp.unwrap frame
      access (.allocated frame)
      let mapped ← lift (mapTo page frame flags (flags &&&
        (PageTableFlags.PRESENT ||| PageTableFlags.WRITABLE ||| PageTableFlags.USER_ACCESSIBLE)))
      Comp.expect (mapped.isOk = true)
      access (.write frame 0 4096)
      Comp.write fun v => { v with memory := v.memory.fill frame.start.raw 4096 0 }
      access (.read base size 0 (copied fileIndex size))
      access (.write frame (max (-fileIndex) 0) (copied fileIndex size))
      let bytes := (file.bytes.drop base).take (copied fileIndex size)
      Comp.write fun v =>
        { v with memory := v.memory.copy (frame.start.raw + (max (-fileIndex) 0).toNat) bytes }) := by
  have hbounded := file.bounded
  have hcopied := copied_le size hindex
  have hsize : asIsize size = size := asIsize_small (by omega)
  have hend : isize ar (fileIndex + 4096) = some (fileIndex + 4096) := isize_small (by omega)
  have hback : isize ar (-fileIndex) = some (-fileIndex) := isize_small (by omega)
  have hstart : max fileIndex 0 = 0 := by omega
  have hlen : isize ar (copied fileIndex size) = some (copied fileIndex size : Int) := isize_small (by omega)
  have hcount : asUsize (copied fileIndex size) = copied fileIndex size := if_pos (by omega)
  simp only [mountPage, hend, hback, hsize, hstart, copied_eq hindex.1, hlen, hcount, Comp.unwrap_some_bind,
    Int.sub_zero, if_pos (Int.natCast_nonneg _), Int.toNat_zero, Nat.add_zero]

theorem plain_mountPage {ar : Arith} {file : ByteSlice} {base size : Nat} (h : base + size ≤ file.bytes.length)
    {fileIndex : Int} (hindex : -4096 < fileIndex ∧ fileIndex ≤ 0) (flags : PageTableFlags) (page : Page) :
    (Comp.relabel plain (mountPage ar file (base, size) flags fileIndex page) : VmM pg ε Unit) =
      Elf.mountPage ((file.bytes.drop base).take size) flags fileIndex page := by
  have hstart : max fileIndex 0 = 0 := by omega
  have htaken : ((file.bytes.drop base).take size).length = size := by
    rw [List.length_take, List.length_drop]
    omega
  have hfirst : ((file.bytes.drop base).take size).take (copied fileIndex size) =
      (file.bytes.drop base).take (copied fileIndex size) := by
    rw [List.take_take, Nat.min_eq_left (copied_le size hindex).1]
  simp only [mountPage_eq h hindex, Elf.mountPage, Comp.relabel_bind, plain_lift, Comp.relabel_unwrap,
    plain_access, Comp.relabel_expect, Comp.relabel_write, pure_bind, htaken, hstart, copied_eq hindex.1,
    Int.toNat_natCast, Int.toNat_zero, List.drop_zero, hfirst, if_pos (Int.natCast_nonneg _)]

/-- The checks put a segment into the lower half, where a word is not negative. -/
theorem plain_mountSegment {ar : Arith} {file : ByteSlice} {base size : Nat}
    (h : base + size ≤ file.bytes.length) (header : ProgramHeader) :
    (Comp.relabel plain (mountSegment ar file header (base, size)) : VmM pg ε Unit) =
      Elf.mountSegment ar header ((file.bytes.drop base).take size) := by
  simp only [mountSegment, Elf.mountSegment, Comp.relabel_bind, Comp.relabel_unwrap, Comp.relabel_expect,
    Comp.relabel_forEach]
  refine Comp.unwrap_bind_congr fun start _ => Comp.unwrap_bind_congr fun stop _ => ?_
  refine Comp.expect_bind_congr fun hcheck => Comp.expect_bind_congr fun _ => ?_
  refine Comp.unwrap_bind_congr fun last _ => Comp.unwrap_bind_congr fun flags _ => ?_
  have hcanonical := start.canonical
  have hlow : start.raw < 2 ^ 63 := (checkAddrUserspace_ok (by omega)).mp hcheck
  have hpage := fileIndex_bounds start
  have hfrom : asIsize start.raw = start.raw := asIsize_small hlow
  have hto : asIsize (Page.containingAddress start).start.raw = (Page.containingAddress start).start.raw :=
    asIsize_small (by omega)
  have hindex : isize ar (((Page.containingAddress start).start.raw : Int) - start.raw) =
    some (((Page.containingAddress start).start.raw : Int) - start.raw) := isize_small (by omega)
  rw [hfrom, hto, hindex, Comp.unwrap_some_bind]
  exact congrArg (Comp.forEach _) (funext fun page => plain_mountPage h hpage flags page)

/-- Slicing twice is slicing once. -/
theorem segment_eq (file : ByteSlice) (header : ProgramHeader) :
    segment file header =
      if header.pOffset + header.pFilesz ≤ file.bytes.length then some (header.pOffset, header.pFilesz)
      else none := by
  by_cases h : header.pOffset + header.pFilesz ≤ file.bytes.length
  · rw [if_pos h]
    exact if_pos (by omega)
  · rw [if_neg h]
    exact if_neg (by omega)

theorem data_of_new {data : List UInt8} {elf : Elf} (h : Elf.new data = .ok elf) : elf.data = data := by
  unfold Elf.new at h
  split at h
  · split at h
    · split at h
      · cases h
        rfl
      · cases h
    · cases h
  · cases h

section Mounted

variable {file : ByteSlice} {elf : Elf} (h : Elf.new file.bytes = .ok elf)

include h

theorem plain_header : (Comp.relabel plain (header file) : VmM pg ε Header) = pure elf.header := by
  have hdata := data_of_new h
  have hsize : SIZEOF_EHDR ≤ file.bytes.length := hdata ▸ Nat.le_of_lt elf.size
  simp only [header, Comp.relabel_bind, Comp.expect_true hsize, Comp.relabel_ret, plain_access,
    Comp.relabel_pure, pure_bind, ← hdata, Elf.header]
  rfl

theorem plain_programHeaders :
    (Comp.relabel plain (programHeaders file) : VmM pg ε (List ProgramHeader)) = pure elf.programHeaders := by
  have hdata := data_of_new h
  have hbounded := file.bounded
  have htable := elf.table.2
  have hoff : asIsize elf.header.ePhoff = elf.header.ePhoff := asIsize_small (by
    rw [← hdata] at hbounded
    unfold Elf.header
    omega)
  simp only [programHeaders, Comp.relabel_bind, plain_header h, pure_bind, plain_access, Comp.relabel_pure,
    hoff, Int.toNat_natCast, ← hdata, Elf.programHeaders]

theorem plain_mountInto (ar : Arith) :
    (Comp.relabel plain (mountInto ar file) : VmM pg ε Unit) = elf.mountInto ar := by
  have hdata := data_of_new h
  rw [mountInto, plain_withGuard, Comp.relabel_bind, plain_programHeaders h, pure_bind, Comp.relabel_forEach,
    Elf.mountInto]
  refine congrArg (withGuard _ _) (congrArg (Comp.forEach _) (funext fun header => ?_))
  rw [Comp.relabel_bind, Comp.relabel_unwrap, segment_eq, Elf.segment, hdata]
  by_cases hinside : header.pOffset + header.pFilesz ≤ file.bytes.length
  · rw [if_pos hinside, if_pos hinside, Comp.unwrap_some_bind, Comp.unwrap_some_bind,
      apply_ite (Comp.relabel plain), plain_mountSegment hinside, Comp.relabel_pure]
  · rw [if_neg hinside, if_neg hinside]
    rfl

end Mounted

theorem ePhnum_lt (data : List UInt8) : (Header.fromBytes data).ePhnum < 2 ^ 16 := Elf.leNat_lt data 56 2

/-- The length of the table is a word, and so is not cut off. -/
theorem mulUsize_table (ar : Arith) (data : List UInt8) :
    mulUsize ar (Header.fromBytes data).ePhnum SIZEOF_PHDR =
      some ((Header.fromBytes data).ePhnum * SIZEOF_PHDR) := by
  have hnum := ePhnum_lt data
  have hsize : SIZEOF_PHDR = 56 := rfl
  have hlt : (Header.fromBytes data).ePhnum * SIZEOF_PHDR < 2 ^ 64 := by
    rw [hsize]
    omega
  exact if_pos hlt

theorem new_outcome (ar : Arith) (file : ByteSlice) (v : Vm pg) :
    (new ar file v).outcome = .ofExcept ((Elf.new file.bytes).map fun _ => ()) := by
  by_cases hsize : file.bytes.length ≤ SIZEOF_EHDR
  · rw [new, if_pos hsize, Elf.new, dif_neg (Nat.not_lt.mpr hsize)]
    rfl
  · have hlt := Nat.lt_of_not_le hsize
    have hheader : (header file : PointerM pg String Header) v =
      ⟨.ok (Header.fromBytes file.bytes), v, [.note (.inr (.read 0 SIZEOF_EHDR 0 SIZEOF_EHDR))]⟩ := by
      rw [header, Comp.expect_true (Nat.le_of_lt hlt)]
      rfl
    rw [new, if_neg hsize, Comp.bind_run, hheader, after_outcome, Elf.new, dif_pos hlt]
    by_cases hmagic : (Header.fromBytes file.bytes).eIdent.take 4 = ELFMAG
    · rw [if_neg (not_not.mpr hmagic), dif_pos hmagic, mulUsize_table, Comp.unwrap_some_bind, checkedAdd]
      by_cases hword : (Header.fromBytes file.bytes).ePhoff +
        (Header.fromBytes file.bytes).ePhnum * SIZEOF_PHDR < 2 ^ 64
      · rw [if_pos hword]
        dsimp only
        by_cases hfile :
          (Header.fromBytes file.bytes).ePhoff + (Header.fromBytes file.bytes).ePhnum * SIZEOF_PHDR <
            file.bytes.length
        · rw [if_pos hfile, dif_pos ⟨hword, hfile⟩]
          rfl
        · rw [if_neg hfile, dif_neg (fun h => hfile h.2)]
          rfl
      · rw [if_neg hword, dif_neg (fun h => hword h.1)]
        rfl
    · rw [if_pos hmagic, dif_neg hmagic]
      rfl

/-! ## Every use of a pointer -/

section Watching

variable {file : ByteSlice}

/-- Nothing is known about what was logged before. -/
abbrev Anywhere : List PEvent → Prop := fun _ => True

theorem lastAllocated_allocated (h : List PEvent) (frame : PhysFrame) :
    lastAllocated (h ++ [.note (.inr (.allocated frame))]) = some frame := by
  simp [lastAllocated, allocatedFrame]

theorem lastAllocated_append {h es : List PEvent} (hes : ∀ e ∈ es, allocatedFrame e = none) :
    lastAllocated (h ++ es) = lastAllocated h := by
  have hnil : es.filterMap allocatedFrame = [] := List.filterMap_eq_nil_iff.mpr hes
  rw [lastAllocated, List.filterMap_append, hnil, List.append_nil, lastAllocated]

theorem lift_events {m : VmM pg ε α} {v : Vm pg} {e : PEvent} (h : e ∈ (lift m v).events) :
    ∃ k, e = outer k := by
  obtain ⟨k, _, hk⟩ := List.mem_flatMap.mp h
  exact ⟨k, List.mem_singleton.mp hk⟩

theorem outer_quiet (file : ByteSlice) (earlier : List PEvent) (k : KEvent) :
    InBounds file earlier (outer k) ∧ allocatedFrame (outer k) = none := by
  cases k with
  | acquire l m => exact ⟨trivial, rfl⟩
  | release l m => exact ⟨trivial, rfl⟩
  | note n => exact ⟨trivial, rfl⟩

/-- What is done without these pointers does not allocate a frame for them. -/
theorem lift_watched (o : Option PhysFrame) (m : VmM pg ε α) :
    Watched (InBounds file) (fun h => lastAllocated h = o) (lift m) fun _ h => lastAllocated h = o := by
  intro h v hh
  have houter : ∀ earlier, ∀ e ∈ (lift m v).events, InBounds file earlier e ∧ allocatedFrame e = none := by
    intro earlier e he
    obtain ⟨k, rfl⟩ := lift_events he
    exact outer_quiet file earlier k
  refine ⟨permitted_all fun earlier e he => (houter earlier e he).1, fun _ _ => ?_⟩
  exact (lastAllocated_append fun e he => (houter h e he).2).trans hh

theorem lift_anywhere (m : VmM pg ε α) : Watched (InBounds file) Anywhere (lift m) fun _ => Anywhere :=
  fun h v _ => ⟨((lift_watched (lastAllocated h) m) h v rfl).1, fun _ _ => trivial⟩

theorem withGuard_events (l : LockName) (m : Mode) (body : PointerM pg ε α) (v : Vm pg) :
    ∃ es, (withGuard l m body v).events = .acquire l m :: ((body v).events ++ es) ∧
      ∀ e ∈ es, e = .release l m := by
  cases ho : (body v).outcome with
  | panic => exact ⟨[], by simp [withGuard, ho], by simp⟩
  | ok a => exact ⟨[.release l m], by simp [withGuard, ho], by simp⟩
  | err e => exact ⟨[.release l m], by simp [withGuard, ho], by simp⟩

theorem withGuard_watched {l : LockName} {m : Mode} {body : PointerM pg ε α}
    (hbody : Watched (InBounds file) Anywhere body fun _ => Anywhere) :
    Watched (InBounds file) Anywhere (withGuard l m body) fun _ => Anywhere := by
  intro h v _
  obtain ⟨es, hevents, hrelease⟩ := withGuard_events l m body v
  have hlast : ∀ earlier, Permitted (InBounds file) earlier es := fun earlier =>
    permitted_all fun _ e he => by
      rw [hrelease e he]
      trivial
  rw [hevents]
  exact ⟨⟨trivial, permitted_append.mpr ⟨(hbody _ v trivial).1, hlast _⟩⟩, fun _ _ => trivial⟩

theorem header_watched : Watched (InBounds file) Anywhere (header file : PointerM pg ε Header) fun a _ =>
    a = Header.fromBytes file.bytes ∧ SIZEOF_EHDR ≤ file.bytes.length := by
  refine .bind (Q := fun _ _ => SIZEOF_EHDR ≤ file.bytes.length) (.expect fun _ _ hp => hp) fun _ => ?_
  refine .bind (Q := fun _ _ => SIZEOF_EHDR ≤ file.bytes.length) (.emit ?_ fun _ hh => hh) fun _ => ?_
  · intro h hsize
    have hle : SIZEOF_EHDR = 64 := rfl
    simp only [InBounds]
    omega
  · exact .ret fun _ hh => ⟨rfl, hh⟩

theorem new_watched (ar : Arith) : Watched (InBounds file) Anywhere
    (new ar file : PointerM pg String Unit) fun _ _ => TableInside file := by
  unfold new
  split
  · exact .fail
  · refine .bind header_watched fun a => ?_
    split
    · exact .fail
    · refine .bind (Q := fun size _ => (a = Header.fromBytes file.bytes ∧ SIZEOF_EHDR ≤ file.bytes.length) ∧
        mulUsize ar a.ePhnum SIZEOF_PHDR = some size) (.unwrap fun _ _ ha hsize => ⟨ha, hsize⟩) fun size => ?_
      split
      · rename_i x hadd
        split
        · rename_i hx
          refine .ret fun _ ⟨⟨ha, hehdr⟩, hsize⟩ => ⟨hehdr, ?_⟩
          rw [ha, mulUsize_table] at hsize
          cases hsize
          unfold checkedAdd at hadd
          split at hadd
          · cases hadd
            rw [ha] at hx
            exact Nat.le_of_lt hx
          · cases hadd
        · exact .fail
      · exact .fail

theorem programHeaders_watched (htable : TableInside file) :
    Watched (InBounds file) Anywhere (programHeaders file : PointerM pg ε (List ProgramHeader))
      fun _ => Anywhere := by
  refine .bind header_watched fun a => .bind (Q := fun _ => Anywhere) (.emit ?_ fun _ _ => trivial) fun _ =>
    .ret fun _ _ => trivial
  intro h ⟨ha, _⟩
  have hbounded := file.bounded
  have hoff : asIsize a.ePhoff = a.ePhoff := asIsize_small (by
    rw [ha]
    unfold TableInside at htable
    omega)
  rw [InBounds, hoff, ha]
  unfold TableInside at htable
  omega

theorem mountPage_watched {ar : Arith} {base size : Nat} (h : base + size ≤ file.bytes.length) {fileIndex : Int}
    (hindex : -4096 < fileIndex ∧ fileIndex ≤ 0) (flags : PageTableFlags) (page : Page) :
    Watched (InBounds file) Anywhere (mountPage ar file (base, size) flags fileIndex page : PointerM pg ε Unit)
      fun _ => Anywhere := by
  have hcopied := copied_le size hindex
  rw [mountPage_eq h hindex]
  refine .bind (lift_anywhere _) fun o => .bind (Q := fun _ => Anywhere)
    (.unwrap fun _ _ _ _ => trivial) fun frame => ?_
  -- from here on the frame is the one that was allocated last
  let Here : List PEvent → Prop := fun h => lastAllocated h = some frame
  have hwrite : ∀ {offset : Int} {len : Nat}, 0 ≤ offset → offset + len ≤ 4096 →
      Watched (InBounds file) Here (access (.write frame offset len) : PointerM pg ε Unit) fun _ => Here :=
    fun h0 h1 => .emit (fun _ hh => ⟨h0, h1, hh⟩) fun _ hh =>
      (lastAllocated_append fun e he => by rw [List.mem_singleton.mp he]; rfl).trans hh
  have hread : Watched (InBounds file) Here
      (access (.read base size 0 (copied fileIndex size)) : PointerM pg ε Unit) fun _ => Here :=
    .emit (fun _ _ => ⟨h, Int.le_refl 0, by omega⟩) fun _ hh =>
      (lastAllocated_append fun e he => by rw [List.mem_singleton.mp he]; rfl).trans hh
  refine .bind (Q := fun _ => Here) (.emit (fun _ _ => trivial) fun h _ =>
    lastAllocated_allocated h frame) fun _ => ?_
  refine .bind (lift_watched (some frame) _) fun mapped =>
    .bind (Q := fun _ => Here) (.expect fun _ hh _ => hh) fun _ => ?_
  refine .bind (hwrite (Int.le_refl 0) (by omega)) fun _ =>
    .bind (Q := fun _ => Here) (.write fun _ hh => hh) fun _ => ?_
  refine .bind hread fun _ => .bind (hwrite (by omega) (by omega)) fun _ => ?_
  exact .write fun _ _ => trivial

theorem mountSegment_watched {ar : Arith} {base size : Nat} (h : base + size ≤ file.bytes.length)
    (header : ProgramHeader) :
    Watched (InBounds file) Anywhere (mountSegment ar file header (base, size) : PointerM pg ε Unit)
      fun _ => Anywhere := by
  unfold mountSegment
  refine .bind (Q := fun _ => Anywhere) (.unwrap fun _ _ _ _ => trivial) fun start => ?_
  refine .bind (Q := fun _ => Anywhere) (.unwrap fun _ _ _ _ => trivial) fun stop => ?_
  refine .bind (Q := fun _ _ => start.raw < 2 ^ 63) (.expect fun _ _ hcheck => ?_) fun _ => ?_
  · have hcanonical := start.canonical
    exact (checkAddrUserspace_ok (by omega)).mp hcheck
  refine .bind (Q := fun _ _ => start.raw < 2 ^ 63) (.expect fun _ hlow _ => hlow) fun _ => ?_
  refine .bind (Q := fun _ _ => start.raw < 2 ^ 63) (.unwrap fun _ _ hlow _ => hlow) fun last => ?_
  refine .bind (Q := fun _ _ => start.raw < 2 ^ 63) (.unwrap fun _ _ hlow _ => hlow) fun flags => ?_
  refine .bind (Q := fun fileIndex _ => -4096 < fileIndex ∧ fileIndex ≤ 0)
    (.unwrap fun _ i hlow hi => ?_) fun i => ?_
  · have hpage := fileIndex_bounds start
    have hfrom : asIsize start.raw = start.raw := asIsize_small hlow
    have hto : asIsize (Page.containingAddress start).start.raw = (Page.containingAddress start).start.raw :=
      asIsize_small (by omega)
    rw [hfrom, hto, isize_small (by omega)] at hi
    cases hi
    exact hpage
  · intro g v hindex
    exact (Watched.forEach fun page _ => mountPage_watched h hindex flags page) g v trivial

theorem mountInto_watched (ar : Arith) (htable : TableInside file) :
    Watched (InBounds file) Anywhere (mountInto ar file : PointerM pg ε Unit) fun _ => Anywhere := by
  refine withGuard_watched (.bind (programHeaders_watched htable) fun headers => .forEach fun header _ => ?_)
  refine .bind (Q := fun data _ => data.1 + data.2 ≤ file.bytes.length)
    (.unwrap fun _ data _ hdata => ?_) fun data => ?_
  · rw [segment_eq] at hdata
    split at hdata
    · cases hdata
      assumption
    · cases hdata
  · intro g v hinside
    split
    · exact mountSegment_watched hinside header g v trivial
    · exact (Watched.ret (P := Anywhere) fun _ _ => trivial) g v trivial

theorem load_watched (ar : Arith) (file : ByteSlice) :
    Watched (InBounds file) Anywhere (load ar file : PointerM pg String Unit) fun _ => Anywhere :=
  .bind (new_watched ar) fun _ g v htable => mountInto_watched ar htable g v trivial

end Watching

/-- Whatever the file is, each use of a pointer stays inside of what the pointer was made from, and a page is
written to the frame allocated for it; a file that is accepted is mounted as it is without the pointers. -/
theorem load_in_bounds (ar : Arith) (file : ByteSlice) (v : Vm pg) :
    (∀ pre e post, (load ar file v).events = pre ++ e :: post → InBounds file pre e) ∧
      (new ar file v).outcome = .ofExcept ((Elf.new file.bytes).map fun _ => ()) ∧
      ∀ elf, Elf.new file.bytes = .ok elf →
        elf.header.ePhoff + elf.header.ePhnum * SIZEOF_PHDR < 2 ^ 64 ∧
          elf.header.ePhoff + elf.header.ePhnum * SIZEOF_PHDR ≤ file.bytes.length ∧
          Comp.relabel plain (mountInto ar file) = (elf.mountInto ar : VmM pg String Unit) := by
  refine ⟨fun pre e post hevents => ?_, new_outcome ar file v, fun elf h => ?_⟩
  · exact permitted_split (load_watched ar file [] v trivial).1 hevents
  · have hdata := data_of_new h
    have htable := elf.table
    rw [← hdata]
    exact ⟨htable.1, Nat.le_of_lt htable.2, plain_mountInto h ar⟩

end ElfPointers

end Idkernel
