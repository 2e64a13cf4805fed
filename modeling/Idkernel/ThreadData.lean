import Mathlib.Algebra.Group.Nat.Defs
import Mathlib.Data.Set.Basic
import Idkernel.ElfLoad
import Idkernel.PageTables

/-!
# The thread data of the processors

Every processor gets an area of its own, with a copy of the template that the
linker laid out. The kernel works on it through its page table, so a byte that
is written is another one than a byte that is read only if the two addresses
lead to different frames.
-/
namespace Idkernel

open Address Traced Locks

namespace ThreadData

variable {pg : Paging} {ε : Type}

def KERNEL_THREAD_DATA_START : Nat := 0xFFFFB00000000000
def KERNEL_THREAD_STORAGE_SIZE : Nat := 64 * 1024

/-- The symbols of the linker script, which leaves a word at the end. -/
structure Sections where
  tdataStart : Nat
  tdataEnd : Nat
  tbssStart : Nat
  tbssEnd : Nat
  tdata : tdataStart ≤ tdataEnd
  tbss : tbssStart + 8 ≤ tbssEnd

namespace Sections

def tdataLen (sec : Sections) : Nat := sec.tdataEnd - sec.tdataStart
def tbssLen (sec : Sections) : Nat := sec.tbssEnd - sec.tbssStart
def len (sec : Sections) : Nat := sec.tdataLen + sec.tbssLen

theorem word_fits (sec : Sections) : sec.tdataLen + 8 ≤ sec.len := by
  have h := sec.tbss
  unfold len tbssLen
  omega

end Sections

/-! ## Memory as the kernel sees it -/

def physAt (v : Vm pg) (addr : Nat) : Option Nat :=
  if h : addr < 2 ^ 47 ∨ 2 ^ 64 - 2 ^ 47 ≤ addr ∧ addr < 2 ^ 64 then
    (pg.leaf v.table (Page.containingAddress ⟨addr, h⟩)).map fun leaf => leaf.1.start.raw + addr % 4096
  else none

/-- Without a mapping there is a page fault, and the kernel stops. -/
def load (addr : Nat) : VmM pg ε UInt8 := do
  let x ← Comp.read fun v => Elf.byteAt v addr
  Comp.unwrap x

def store (addr : Nat) (x : UInt8) : VmM pg ε Unit := do
  let phys ← Comp.read fun v => physAt v addr
  let phys ← Comp.unwrap phys
  Comp.write fun v => { v with memory := Function.update v.memory phys x }

def storeFrom (dst : Nat) (value : Nat → VmM pg ε UInt8) (i : Nat) : VmM pg ε Unit := do
  let x ← value i
  store (dst + i) x

/-- A run of bytes, each of which may be read from elsewhere. -/
def storeAll (dst : Nat) (value : Nat → VmM pg ε UInt8) (len : Nat) : VmM pg ε Unit :=
  Comp.forEach (List.range' 0 len) (storeFrom dst value)

def copyNonoverlapping (src dst len : Nat) : VmM pg ε Unit := storeAll dst (fun i => load (src + i)) len

def writeBytes (dst : Nat) (x : UInt8) (len : Nat) : VmM pg ε Unit := storeAll dst (fun _ => return x) len

def wordByte (x i : Nat) : UInt8 := UInt8.ofNat (x / 256 ^ i)

def writeWord (dst x : Nat) : VmM pg ε Unit := storeAll dst (fun i => return wordByte x i) 8

/-! ## Setting up -/

def mapFresh (flags : PageTableFlags) (page : Page) : VmM pg ε Unit := do
  let frame ← allocateFrame
  let frame ← Comp.unwrap frame
  let parentFlags := flags &&&
    (PageTableFlags.PRESENT ||| PageTableFlags.WRITABLE ||| PageTableFlags.USER_ACCESSIBLE)
  let mapped ← mapTo page frame flags parentFlags
  Comp.expect (mapped.isOk = true)

def allocateMapRange (ar : Arith) (addr : VirtAddr) (size : Nat) (flags : PageTableFlags) : VmM pg ε Unit := do
  let stop ← Comp.unwrap (addr.add ar size)
  let last ← Comp.unwrap (stop.sub 1)
  Comp.forEach (Page.rangeInclusive ar (.containingAddress addr) (.containingAddress last)) (mapFresh flags)

def mul (ar : Arith) (a b : Nat) : Option Nat :=
  if a * b < 2 ^ 64 then some (a * b) else match ar with
    | .checked => none
    | .wrapping => some (a * b % 2 ^ 64)

def startAddr (ar : Arith) (cpu : Nat) : Option VirtAddr := do
  let offset ← mul ar cpu KERNEL_THREAD_STORAGE_SIZE
  let raw ← ar.add KERNEL_THREAD_DATA_START offset
  VirtAddr.new raw

/-- Returns the new `FsBase`. -/
def setupThreadData (ar : Arith) (sec : Sections) (cpu : Nat) : VmM pg ε VirtAddr := do
  let start ← Comp.unwrap (startAddr ar cpu)
  allocateMapRange ar start KERNEL_THREAD_STORAGE_SIZE
    (PageTableFlags.PRESENT ||| PageTableFlags.WRITABLE ||| PageTableFlags.NO_EXECUTE ||| PageTableFlags.GLOBAL)
  let bss ← Comp.unwrap (start.add ar sec.tdataLen)
  let stop ← Comp.unwrap (bss.add ar sec.tbssLen)
  Comp.expect (sec.len ≤ KERNEL_THREAD_STORAGE_SIZE)
  copyNonoverlapping sec.tdataStart start.raw sec.tdataLen
  writeBytes (start.raw + sec.tdataLen) 0 sec.tbssLen
  let dataOffset ← Comp.unwrap (stop.sub 8)
  writeWord dataOffset.raw stop.raw
  return dataOffset

/-- Processor after processor. -/
def setupAll (ar : Arith) (sec : Sections) : List Nat → VmM pg ε (List VirtAddr)
  | [] => return []
  | cpu :: rest => do
    let base ← setupThreadData ar sec cpu
    let bases ← setupAll ar sec rest
    return base :: bases

/-! ## Pages that the kernel has to itself -/

/-- The address lies in one of the pages. -/
def InPages (P : Set Page) (addr : Nat) : Prop :=
  ∃ h : addr < 2 ^ 47 ∨ 2 ^ 64 - 2 ^ 47 ≤ addr ∧ addr < 2 ^ 64, Page.containingAddress ⟨addr, h⟩ ∈ P

/-- Every page has a frame that is taken, and no two have the same one. Only of such pages is anything said. -/
structure Held (fr : pg.Fresh) (v : Vm pg) (P : Set Page) : Prop where
  used : ∀ p ∈ P, ∃ f fl, pg.leaf v.table p = some (f, fl) ∧ ¬ fr.unused v.frames f
  apart : ∀ p ∈ P, ∀ q ∈ P, ∀ f fl fl', pg.leaf v.table p = some (f, fl) → pg.leaf v.table q = some (f, fl') → p = q

section Pages

variable {fr : pg.Fresh} {v v' : Vm pg} {P : Set Page} {a b : Nat}

theorem byteAt_physAt (v : Vm pg) (a : Nat) : Elf.byteAt v a = (physAt v a).map v.memory := by
  unfold Elf.byteAt physAt
  split
  · rw [Option.map_map]
    rfl
  · rfl

theorem physAt_congr (h : ∀ p, pg.leaf v'.table p = pg.leaf v.table p) (a : Nat) : physAt v' a = physAt v a := by
  unfold physAt
  split
  · rw [h]
  · rfl

/-- Two addresses lead to one place only if they are the same. -/
theorem Held.physAt_inj (h : Held fr v P) {x : Nat} (ha : InPages P a) (hb : InPages P b) (hax : physAt v a = some x)
    (hbx : physAt v b = some x) : a = b := by
  obtain ⟨hca, hpa⟩ := ha
  obtain ⟨hcb, hpb⟩ := hb
  unfold physAt at hax hbx
  rw [dif_pos hca] at hax
  rw [dif_pos hcb] at hbx
  obtain ⟨⟨f, fl⟩, hfa, hxa⟩ := Option.map_eq_some_iff.mp hax
  obtain ⟨⟨g, gl⟩, hgb, hxb⟩ := Option.map_eq_some_iff.mp hbx
  dsimp only at hxa hxb
  have hf := f.raw_index
  have hg := g.raw_index
  obtain rfl : f = g := PhysFrame.index_inj (by omega)
  have hpage := congrArg (fun p : Page => p.start.raw) (h.apart _ hpa _ hpb f fl gl hfa hgb)
  simp only [Page.containingAddress] at hpage
  omega

end Pages

/-! ## Writing -/

/-- The bytes from `dst` on have been set; nothing else in the pages has changed. -/
structure Wrote (P : Set Page) (dst : Nat) (x : Nat → UInt8) (n : Nat) (v v' : Vm pg) : Prop where
  table : v'.table = v.table
  frames : v'.frames = v.frames
  inside : ∀ i < n, Elf.byteAt v' (dst + i) = some (x i)
  outside : ∀ b, InPages P b → (b < dst ∨ dst + n ≤ b) → Elf.byteAt v' b = Elf.byteAt v b

section Writing

variable {fr : pg.Fresh} {v u : Vm pg} {P : Set Page} {dst n : Nat} {x : Nat → UInt8}

theorem Held.wrote (h : Held fr v P) (hw : Wrote P dst x n v u) : Held fr u P where
  used p hp := by
    rw [hw.table, hw.frames]
    exact h.used p hp
  apart p hp q hq := by
    rw [hw.table]
    exact h.apart p hp q hq

/-- A byte more. -/
theorem Wrote.store (hheld : Held fr v P) (hw : Wrote P dst x n v u) (hdst : ∀ i ≤ n, InPages P (dst + i))
    (h : (store (dst + n) (x n) u : Ran _ KEvent ε Unit).outcome = .ok ()) :
    Wrote P dst x (n + 1) v (store (dst + n) (x n) u : Ran _ KEvent ε Unit).state := by
  have hu := hheld.wrote hw
  unfold ThreadData.store at h ⊢
  rw [Comp.read_bind] at h ⊢
  cases hphys : physAt u (dst + n) with
  | none =>
    rw [hphys] at h
    cases h
  | some phys =>
    rw [Comp.unwrap_some, Comp.ret_bind]
    let w : Vm pg := { u with memory := Function.update u.memory phys (x n) }
    have hsame : ∀ b, physAt w b = physAt u b := physAt_congr fun _ => rfl
    have hbyte : ∀ b, InPages P b → Elf.byteAt w b = if b = dst + n then some (x n) else Elf.byteAt u b := by
      intro b hb
      rw [byteAt_physAt, byteAt_physAt, hsame]
      by_cases hbn : b = dst + n
      · rw [if_pos hbn, hbn, hphys, Option.map_some]
        exact congrArg some (Function.update_self ..)
      · rw [if_neg hbn]
        cases hat : physAt u b with
        | none => rfl
        | some y =>
          have hne : y ≠ phys := by
            rintro rfl
            exact hbn (hu.physAt_inj hb (hdst n (Nat.le_refl n)) hat hphys)
          rw [Option.map_some, Option.map_some]
          exact congrArg some (Function.update_of_ne hne ..)
    refine ⟨hw.table, hw.frames, fun i hi => ?_, fun b hb hout => ?_⟩
    · refine (hbyte _ (hdst i (by omega))).trans ?_
      by_cases hin : i = n
      · rw [if_pos (by omega), hin]
      · rw [if_neg (by omega), hw.inside i (by omega)]
    · refine (hbyte b hb).trans ?_
      rw [if_neg (by omega), hw.outside b hb (by omega)]

/-- A loop of stores, when what is stored does not depend on what has been stored. -/
theorem storeAll_wrote (hheld : Held fr v P) (hdst : ∀ i < n, InPages P (dst + i)) {value : Nat → VmM pg ε UInt8}
    (hstill : ∀ i, Comp.Still (value i))
    (hvalue : ∀ i < n, ∀ u y, Wrote P dst x i v u → (value i u).outcome = .ok y → y = x i)
    (h : (storeAll dst value n v).outcome = .ok ()) : Wrote P dst x n v (storeAll dst value n v).state := by
  have hstep : ∀ i, 0 ≤ i → i < 0 + n → ∀ u, Wrote P dst x i v u → (storeFrom dst value i u).outcome = .ok () →
      Wrote P dst x (i + 1) v (storeFrom dst value i u).state := by
    intro i _ hi u hw hok
    obtain ⟨y, hy, hstored⟩ := (hstill i).bind_inv hok
    obtain rfl := hvalue i (by omega) u y hw hy
    have hrun : storeFrom dst value i u = ThreadData.store (dst + i) (x i) u := (hstill i).bind_ok hy
    rw [hrun]
    exact hw.store hheld (fun j hj => hdst j (by omega)) hstored
  have hstart : Wrote P dst x 0 v v := ⟨rfl, rfl, fun i hi => absurd hi (Nat.not_lt_zero i), fun _ _ _ => rfl⟩
  have hall := Comp.forEach_counts hstep h hstart
  rwa [Nat.zero_add] at hall

end Writing

/-! ## Taking more pages -/

/-- More pages are held, which were not before. The old ones show what they showed. -/
structure Annexed (fr : pg.Fresh) (P A : Set Page) (v v' : Vm pg) : Prop where
  held : Held fr v' (P ∪ A)
  apart : ∀ p ∈ A, p ∉ P
  same : ∀ b, InPages P b → Elf.byteAt v' b = Elf.byteAt v b

section Taking

variable {fr : pg.Fresh} {v v' v'' : Vm pg} {P A B : Set Page}

theorem InPages.mono (h : P ⊆ A) {b : Nat} (hb : InPages P b) : InPages A b :=
  hb.imp fun _ hp => h hp

theorem Annexed.refl (h : Held fr v P) : Annexed fr P ∅ v v where
  held := by rwa [Set.union_empty]
  apart _ hp := absurd hp (Set.notMem_empty _)
  same _ _ := rfl

theorem Annexed.trans (h : Annexed fr P A v v') (h' : Annexed fr (P ∪ A) B v' v'') :
    Annexed fr P (A ∪ B) v v'' where
  held := by
    rw [← Set.union_assoc]
    exact h'.held
  apart := by
    rintro p (hp | hp) hold
    · exact h.apart p hp hold
    · exact h'.apart p hp (.inl hold)
  same b hb := (h'.same b (hb.mono Set.subset_union_left)).trans (h.same b hb)

/-- Writing to the new pages is nothing to the old ones. -/
theorem Annexed.wrote (h : Annexed fr P A v v') {dst n : Nat} {x : Nat → UInt8}
    (hw : Wrote (P ∪ A) dst x n v' v'') (hdst : ∀ i < n, InPages A (dst + i)) : Annexed fr P A v v'' where
  held := h.held.wrote hw
  apart := h.apart
  same := by
    intro b hb
    have hout : b < dst ∨ dst + n ≤ b := by
      by_contra hin
      obtain ⟨_, hnew⟩ := hdst (b - dst) (by omega)
      obtain ⟨_, hold⟩ := hb
      have hsum : dst + (b - dst) = b := by omega
      simp only [hsum] at hnew
      exact h.apart _ hnew hold
    exact (hw.outside b (hb.mono Set.subset_union_left) hout).trans (h.same b hb)

theorem mapFresh_ok {flags : PageTableFlags} {page : Page}
    (h : (mapFresh flags page v : Ran _ KEvent ε Unit).outcome = .ok ()) :
    ∃ frame frames parentFlags table frames', pg.allocateFrame v.frames = (some frame, frames) ∧
      pg.mapTo v.table frames page frame flags parentFlags = (.ok (), table, frames') ∧
      (mapFresh flags page v : Ran _ KEvent ε Unit).state = ⟨table, frames', v.memory⟩ := by
  unfold mapFresh at h ⊢
  rw [Comp.bind_run, allocateFrame_run] at h ⊢
  dsimp only at h ⊢
  rcases halloc : pg.allocateFrame v.frames with ⟨frame, frames⟩
  rw [halloc] at h
  cases frame with
  | none => cases h
  | some frame =>
    rw [Comp.unwrap_some, Comp.ret_bind, Comp.bind_run, mapTo_run] at h ⊢
    dsimp only at h ⊢
    refine ⟨frame, frames, flags &&& (PageTableFlags.PRESENT ||| PageTableFlags.WRITABLE |||
      PageTableFlags.USER_ACCESSIBLE), ?_⟩
    rcases hmap : pg.mapTo v.table frames page frame flags _ with ⟨r, table, frames'⟩
    rw [hmap] at h
    cases r with
    | error e => cases h
    | ok _ => exact ⟨table, frames', rfl, rfl, by rw [Comp.expect_true (by rfl)]; rfl⟩

/-- The page was not mapped, and its frame not in use. -/
theorem mapFresh_annexes (hpg : pg.Lawful) (hheld : Held fr v P) {flags : PageTableFlags} {page : Page}
    (h : (mapFresh flags page v : Ran _ KEvent ε Unit).outcome = .ok ()) :
    Annexed fr P {page} v (mapFresh flags page v : Ran _ KEvent ε Unit).state := by
  obtain ⟨frame, frames, parentFlags, table, frames', halloc, hmap, hstate⟩ := mapFresh_ok h
  obtain ⟨hunused, hused, hless⟩ := fr.allocated _ _ _ halloc
  obtain ⟨hnone, hleaf⟩ := hpg.mapped _ _ _ _ _ _ _ _ hmap
  have hpage : page ∉ P := by
    intro hp
    obtain ⟨f, fl, hold, _⟩ := hheld.used page hp
    rw [hnone] at hold
    cases hold
  have hother : ∀ p ∈ P, pg.leaf table p = pg.leaf v.table p := by
    intro p hp
    rw [hleaf, Function.update_of_ne]
    rintro rfl
    exact hpage hp
  have hnew : pg.leaf table page = some (frame, flags) := by rw [hleaf, Function.update_self]
  have hkept : ∀ f, ¬ fr.unused v.frames f → ¬ fr.unused frames' f :=
    fun f hf hun => hf (hless f (fr.mapped _ _ _ _ _ _ _ _ _ hmap f hun))
  have hforeign : ∀ p ∈ P, ∀ fl, pg.leaf table p ≠ some (frame, fl) := by
    intro p hp fl hsame
    obtain ⟨f, fl', hold, hf⟩ := hheld.used p hp
    rw [hother p hp, hold] at hsame
    cases hsame
    exact hf hunused
  rw [hstate]
  refine ⟨⟨?_, ?_⟩, ?_, ?_⟩
  · rintro p (hp | rfl)
    · obtain ⟨f, fl, hold, hf⟩ := hheld.used p hp
      exact ⟨f, fl, (hother p hp).trans hold, hkept f hf⟩
    · exact ⟨frame, flags, hnew, fun hun => hused (fr.mapped _ _ _ _ _ _ _ _ _ hmap frame hun)⟩
  · rintro p (hp | rfl) q (hq | rfl) f fl fl' hf hf'
    · dsimp only at hf hf'
      rw [hother p hp] at hf
      rw [hother q hq] at hf'
      exact hheld.apart p hp q hq f fl fl' hf hf'
    · cases hnew.symm.trans hf'
      exact absurd hf (hforeign p hp fl)
    · cases hnew.symm.trans hf
      exact absurd hf' (hforeign q hq fl')
    · rfl
  · rintro p rfl
    exact hpage
  · rintro b ⟨hcan, hb⟩
    unfold Elf.byteAt
    rw [dif_pos hcan, dif_pos hcan, hother _ hb]

theorem mapPages_annexes (hpg : pg.Lawful) (hheld : Held fr v P) {flags : PageTableFlags} {pages : List Page}
    (h : (Comp.forEach pages (mapFresh flags) v : Ran _ KEvent ε Unit).outcome = .ok ()) :
    Annexed fr P { p | p ∈ pages } v (Comp.forEach pages (mapFresh flags) v : Ran _ KEvent ε Unit).state := by
  induction pages generalizing v P with
  | nil =>
    have hnone : { p : Page | p ∈ ([] : List Page) } = ∅ := Set.eq_empty_of_forall_notMem fun p hp => nomatch hp
    rw [hnone]
    exact .refl hheld
  | cons page rest ih =>
    obtain ⟨_, hone, hrest⟩ := Comp.bind_inv h
    have hrun : Comp.forEach (page :: rest) (mapFresh flags) v = _ := Comp.bind_ok hone
    have hfirst := mapFresh_annexes hpg hheld hone
    have hboth : { p : Page | p ∈ page :: rest } = {page} ∪ { p | p ∈ rest } :=
      Set.ext fun p => List.mem_cons
    rw [hrun, after_state, hboth]
    exact hfirst.trans (ih hfirst.held hrest)

end Taking

/-! ## The area of one processor -/

def Area (start : VirtAddr) : Set Page :=
  { p | start.raw ≤ p.start.raw ∧ p.start.raw < start.raw + KERNEL_THREAD_STORAGE_SIZE }

/-- What is in an area: the template, zeros, and the address of its end in the last word. -/
def Sections.image (sec : Sections) (template : Nat → UInt8) (stop o : Nat) : UInt8 :=
  if o + 8 < sec.len then (if o < sec.tdataLen then template o else 0) else wordByte stop (o + 8 - sec.len)

/-- The area is filled, and the base is the address of its last word. -/
structure Shows (sec : Sections) (template : Nat → UInt8) (start base : VirtAddr) (v : Vm pg) : Prop where
  fits : sec.len ≤ KERNEL_THREAD_STORAGE_SIZE
  base : base.raw + 8 = start.raw + sec.len
  bytes : ∀ o < sec.len, Elf.byteAt v (start.raw + o) = some (sec.image template (start.raw + sec.len) o)

/-- The area does not reach over the end of its half. -/
def Whole (start : VirtAddr) : Prop :=
  start.raw + KERNEL_THREAD_STORAGE_SIZE < 2 ^ 47 ∨
    2 ^ 64 - 2 ^ 47 ≤ start.raw ∧ start.raw + KERNEL_THREAD_STORAGE_SIZE < 2 ^ 64

section OneArea

variable {fr : pg.Fresh} {v : Vm pg} {P : Set Page} {ar : Arith} {cpu : Nat} {start : VirtAddr}

theorem startAddr_aligned (h : startAddr ar cpu = some start) : start.raw % KERNEL_THREAD_STORAGE_SIZE = 0 := by
  obtain ⟨offset, hoffset, h⟩ := Option.bind_eq_some_iff.mp h
  obtain ⟨raw, hraw, hnew⟩ := Option.bind_eq_some_iff.mp h
  have hmul : offset % 65536 = 0 := by
    unfold mul KERNEL_THREAD_STORAGE_SIZE at hoffset
    split at hoffset
    · cases hoffset
      exact Nat.mul_mod_left cpu 65536
    · cases ar with
      | checked => cases hoffset
      | wrapping =>
        cases hoffset
        omega
  have hsum := Arith.add_cases hraw
  have hcases := VirtAddr.new_cases hnew
  unfold KERNEL_THREAD_DATA_START at hsum
  unfold KERNEL_THREAD_STORAGE_SIZE
  omega

/-- Where the address arithmetic of the mapping comes through. -/
theorem area_whole {stop last : VirtAddr} (hal : start.raw % KERNEL_THREAD_STORAGE_SIZE = 0)
    (hstop : start.add ar KERNEL_THREAD_STORAGE_SIZE = some stop) (hlast : stop.sub 1 = some last) :
    Whole start ∧ last.raw + 1 = start.raw + KERNEL_THREAD_STORAGE_SIZE := by
  obtain ⟨n, hn, hnew⟩ := Option.bind_eq_some_iff.mp hstop
  have hsum := Arith.add_cases hn
  have hcases := VirtAddr.new_cases hnew
  have hlt := start.raw_lt
  have hcan := start.canonical
  unfold VirtAddr.sub at hlast
  unfold Whole
  unfold KERNEL_THREAD_STORAGE_SIZE at *
  split at hlast
  · have hback := VirtAddr.new_cases hlast
    omega
  · cases hlast

theorem area_inPages (hal : start.raw % KERNEL_THREAD_STORAGE_SIZE = 0) (hwhole : Whole start) {o : Nat}
    (ho : o < KERNEL_THREAD_STORAGE_SIZE) : InPages (Area start) (start.raw + o) := by
  unfold Whole at hwhole
  refine ⟨by omega, ?_, ?_⟩
  · simp only [Page.containingAddress]
    unfold KERNEL_THREAD_STORAGE_SIZE at *
    omega
  · simp only [Page.containingAddress]
    omega

theorem allocateMapRange_annexes (hpg : pg.Lawful) (hheld : Held fr v P)
    (hal : start.raw % KERNEL_THREAD_STORAGE_SIZE = 0) {flags : PageTableFlags}
    (h : (allocateMapRange ar start KERNEL_THREAD_STORAGE_SIZE flags v : Ran _ KEvent ε Unit).outcome = .ok ()) :
    Whole start ∧ Annexed fr P (Area start) v
      (allocateMapRange ar start KERNEL_THREAD_STORAGE_SIZE flags v : Ran _ KEvent ε Unit).state := by
  unfold allocateMapRange at h ⊢
  obtain ⟨stop, hstop, h⟩ := (Comp.Still.unwrap _).bind_inv h
  obtain ⟨last, hlast, h⟩ := (Comp.Still.unwrap _).bind_inv h
  rw [(Comp.Still.unwrap _).bind_ok hstop, (Comp.Still.unwrap _).bind_ok hlast]
  obtain ⟨hwhole, hraw⟩ := area_whole hal (Comp.unwrap_ok hstop) (Comp.unwrap_ok hlast)
  have hpages := mapPages_annexes hpg hheld h
  have harea : { p | p ∈ Page.rangeInclusive ar (Page.containingAddress start) (Page.containingAddress last) } =
      Area start := by
    have hfirst : (Page.containingAddress start).start.raw = start.raw - start.raw % 4096 := rfl
    have hend : (Page.containingAddress last).start.raw = last.raw - last.raw % 4096 := rfl
    have hindex := (Page.containingAddress last).index_cases
    have hcan := last.canonical
    have hsize : KERNEL_THREAD_STORAGE_SIZE = 65536 := rfl
    have hal : start.raw % 65536 = 0 := hal
    unfold Whole at hwhole
    ext p
    have hp := p.aligned
    rw [Set.mem_ofPred_eq, Page.mem_rangeInclusive (by omega), Page.index_le_index, Page.index_le_index, hfirst, hend]
    unfold Area
    rw [Set.mem_ofPred_eq]
    omega
  rw [harea] at hpages
  exact ⟨hwhole, hpages⟩

end OneArea

section Setting

variable {fr : pg.Fresh} {v : Vm pg} {P : Set Page} {ar : Arith} {sec : Sections} {template : Nat → UInt8}

/-- The pages show the template that the kernel was linked with. -/
def Templated (sec : Sections) (template : Nat → UInt8) (P : Set Page) (v : Vm pg) : Prop :=
  ∀ o < sec.tdataLen, InPages P (sec.tdataStart + o) ∧ Elf.byteAt v (sec.tdataStart + o) = some (template o)

theorem Annexed.templated {A : Set Page} {v' : Vm pg} (h : Annexed fr P A v v') (ht : Templated sec template P v) :
    Templated sec template (P ∪ A) v' := by
  intro o ho
  obtain ⟨hin, hbyte⟩ := ht o ho
  exact ⟨hin.mono Set.subset_union_left, (h.same _ hin).trans hbyte⟩

/-- The three runs of stores into a new area. -/
theorem fill_shows {A : Set Page} {v₁ v₂ v₃ v₄ : Vm pg} {start base : VirtAddr}
    (hfits : sec.len ≤ KERNEL_THREAD_STORAGE_SIZE) (hbase : base.raw + 8 = start.raw + sec.len)
    (hnew : Annexed fr P A v v₁) (harea : ∀ o < KERNEL_THREAD_STORAGE_SIZE, InPages A (start.raw + o))
    (hdata : Wrote (P ∪ A) start.raw template sec.tdataLen v₁ v₂)
    (hbss : Wrote (P ∪ A) (start.raw + sec.tdataLen) (fun _ => 0) sec.tbssLen v₂ v₃)
    (hword : Wrote (P ∪ A) base.raw (wordByte (start.raw + sec.len)) 8 v₃ v₄) :
    Annexed fr P A v v₄ ∧ Shows sec template start base v₄ := by
  have hroom := sec.word_fits
  have hlen : sec.len = sec.tdataLen + sec.tbssLen := rfl
  have hdst : ∀ dst n, start.raw ≤ dst → dst + n ≤ start.raw + sec.len → ∀ i < n, InPages A (dst + i) := by
    intro dst n hlow hhigh i hi
    have hin := harea (dst + i - start.raw) (by omega)
    have hsum : start.raw + (dst + i - start.raw) = dst + i := by omega
    rwa [hsum] at hin
  have h₂ := hnew.wrote hdata (hdst _ _ (by omega) (by omega))
  have h₃ := h₂.wrote hbss (hdst _ _ (by omega) (by omega))
  refine ⟨h₃.wrote hword (hdst _ _ (by omega) (by omega)), hfits, hbase, fun o ho => ?_⟩
  have hin : InPages (P ∪ A) (start.raw + o) := (harea o (by omega)).mono Set.subset_union_right
  unfold Sections.image
  by_cases hlast : o + 8 < sec.len
  · rw [if_pos hlast, hword.outside _ hin (by omega)]
    by_cases hdata' : o < sec.tdataLen
    · rw [if_pos hdata', hbss.outside _ hin (by omega), hdata.inside o hdata']
    · have hbyte := hbss.inside (o - sec.tdataLen) (by omega)
      have hsum : start.raw + sec.tdataLen + (o - sec.tdataLen) = start.raw + o := by omega
      rw [if_neg hdata', ← hsum, hbyte]
  · have hbyte := hword.inside (o + 8 - sec.len) (by omega)
    have hsum : base.raw + (o + 8 - sec.len) = start.raw + o := by omega
    rw [if_neg hlast, ← hsum, hbyte]

/-- The template is read where nothing has been written. -/
theorem copy_wrote {A : Set Page} {v₁ : Vm pg} {start : VirtAddr} (hnew : Annexed fr P A v v₁)
    (ht : Templated sec template P v) (harea : ∀ o < sec.tdataLen, InPages A (start.raw + o))
    (h : (copyNonoverlapping sec.tdataStart start.raw sec.tdataLen v₁ : Ran _ KEvent ε Unit).outcome = .ok ()) :
    Wrote (P ∪ A) start.raw template sec.tdataLen v₁
      (copyNonoverlapping sec.tdataStart start.raw sec.tdataLen v₁ : Ran _ KEvent ε Unit).state := by
  refine storeAll_wrote hnew.held (fun i hi => (harea i hi).mono Set.subset_union_right)
    (fun i => (Comp.Still.read _).bind fun _ => Comp.Still.unwrap _) (fun i hi u y hw hy => ?_) h
  obtain ⟨hin, hbyte⟩ := ht i hi
  have hout : sec.tdataStart + i < start.raw ∨ start.raw + i ≤ sec.tdataStart + i := by
    by_contra hinside
    obtain ⟨_, hpage⟩ := harea (sec.tdataStart + i - start.raw) (by omega)
    obtain ⟨_, hold⟩ := hin
    have hsum : start.raw + (sec.tdataStart + i - start.raw) = sec.tdataStart + i := by omega
    simp only [hsum] at hpage
    exact hnew.apart _ hpage hold
  have hload : Elf.byteAt u (sec.tdataStart + i) = some y := Comp.unwrap_ok hy
  rw [hw.outside _ (hin.mono Set.subset_union_left) hout, hnew.same _ hin, hbyte] at hload
  exact (Option.some.inj hload).symm

theorem setupThreadData_shows (hpg : pg.Lawful) (hheld : Held fr v P) (ht : Templated sec template P v) {cpu : Nat}
    {base : VirtAddr} (h : (setupThreadData ar sec cpu v : Ran _ KEvent ε VirtAddr).outcome = .ok base) :
    ∃ start, startAddr ar cpu = some start ∧ Whole start ∧
      Annexed fr P (Area start) v (setupThreadData ar sec cpu v : Ran _ KEvent ε VirtAddr).state ∧
      Shows sec template start base (setupThreadData ar sec cpu v : Ran _ KEvent ε VirtAddr).state := by
  unfold setupThreadData at h ⊢
  obtain ⟨start, hstart, h⟩ := (Comp.Still.unwrap _).bind_inv h
  rw [(Comp.Still.unwrap _).bind_ok hstart]
  have hstart := Comp.unwrap_ok hstart
  have hal := startAddr_aligned hstart
  obtain ⟨_, hmapped, h, hs⟩ := Comp.bind_through h
  rw [hs]
  obtain ⟨hwhole, hnew⟩ := allocateMapRange_annexes hpg hheld hal hmapped
  obtain ⟨bss, hbss, h⟩ := (Comp.Still.unwrap _).bind_inv h
  rw [(Comp.Still.unwrap _).bind_ok hbss]
  obtain ⟨stop, hstop, h⟩ := (Comp.Still.unwrap _).bind_inv h
  rw [(Comp.Still.unwrap _).bind_ok hstop]
  obtain ⟨_, hfits, h⟩ := Comp.Still.expect.bind_inv h
  rw [Comp.Still.expect.bind_ok hfits]
  have hfits := Comp.expect_ok hfits
  have hroom := sec.word_fits
  have hlen : sec.len = sec.tdataLen + sec.tbssLen := rfl
  have hadd : ∀ {a b : VirtAddr} {n : Nat}, start.raw ≤ a.raw → a.raw + n ≤ start.raw + sec.len →
      a.add ar n = some b → b.raw = a.raw + n := by
    intro a b n hlow hhigh hab
    unfold Whole at hwhole
    unfold VirtAddr.add at hab
    rw [Arith.add_of_lt ar (by omega), Option.bind_some] at hab
    have hnew := VirtAddr.new_cases hab
    omega
  have hbss := hadd (Nat.le_refl _) (by omega) (Comp.unwrap_ok hbss)
  have hstop := hadd (by omega) (by omega) (Comp.unwrap_ok hstop)
  obtain ⟨_, hcopied, h, hs⟩ := Comp.bind_through h
  rw [hs]
  have harea : ∀ o < KERNEL_THREAD_STORAGE_SIZE, InPages (Area start) (start.raw + o) :=
    fun o ho => area_inPages hal hwhole ho
  have hdata := copy_wrote hnew ht (fun o ho => harea o (by omega)) hcopied
  obtain ⟨_, hzeroed, h, hs⟩ := Comp.bind_through h
  rw [hs]
  have hheld₂ := hnew.held.wrote hdata
  have hbytes := storeAll_wrote hheld₂ (x := fun _ => 0) (fun i hi => by
    have hin := (harea (sec.tdataLen + i) (by omega)).mono (Set.subset_union_right (s := P))
    rwa [← Nat.add_assoc] at hin) (fun _ => Comp.Still.ret _) (fun _ _ _ _ _ hy => (Outcome.ok.inj hy).symm) hzeroed
  obtain ⟨dataOffset, hoffset, h⟩ := (Comp.Still.unwrap _).bind_inv h
  rw [(Comp.Still.unwrap _).bind_ok hoffset]
  have hoffset := Comp.unwrap_ok hoffset
  obtain ⟨_, hworded, h, hs⟩ := Comp.bind_through h
  rw [hs]
  obtain rfl : dataOffset = base := Outcome.ok.inj h
  have hbase : dataOffset.raw + 8 = start.raw + sec.len := by
    unfold VirtAddr.sub at hoffset
    unfold Whole at hwhole
    split at hoffset
    · have hnew := VirtAddr.new_cases hoffset
      omega
    · cases hoffset
  have hraw : stop.raw = start.raw + sec.len := by omega
  rw [hraw] at hworded ⊢
  have hword := storeAll_wrote (hheld₂.wrote hbytes) (x := wordByte (start.raw + sec.len)) (fun i hi => by
    have hin := (harea (sec.len - 8 + i) (by omega)).mono (Set.subset_union_right (s := P))
    have hsum : start.raw + (sec.len - 8 + i) = dataOffset.raw + i := by omega
    rwa [hsum] at hin) (fun _ => Comp.Still.ret _) (fun _ _ _ _ _ hy => (Outcome.ok.inj hy).symm) hworded
  exact ⟨start, hstart, hwhole, fill_shows hfits hbase hnew harea hdata hbytes hword⟩

end Setting

/-! ## All processors -/

def Apart (a b : VirtAddr) : Prop :=
  a.raw + KERNEL_THREAD_STORAGE_SIZE ≤ b.raw ∨ b.raw + KERNEL_THREAD_STORAGE_SIZE ≤ a.raw

/-- Every processor has its own area, filled when all are through, and the pages that were held are
as they were. -/
structure SetUp (ar : Arith) (sec : Sections) (template : Nat → UInt8) (P : Set Page) (cpus : List Nat)
    (bases : List VirtAddr) (v v' : Vm pg) : Prop where
  shows : List.Forall₂ (fun cpu base => ∃ start, startAddr ar cpu = some start ∧ Shows sec template start base v')
    cpus bases
  disjoint : (cpus.filterMap (startAddr ar)).Pairwise Apart
  fresh : ∀ start ∈ cpus.filterMap (startAddr ar), ∀ p ∈ Area start, p ∉ P
  same : ∀ b, InPages P b → Elf.byteAt v' b = Elf.byteAt v b

theorem apart_of_pages {a b : VirtAddr} (ha : a.raw % KERNEL_THREAD_STORAGE_SIZE = 0)
    (hb : b.raw % KERNEL_THREAD_STORAGE_SIZE = 0) (h : ∀ p ∈ Area b, p ∉ Area a) : Apart a b := by
  have hsize : KERNEL_THREAD_STORAGE_SIZE = 65536 := rfl
  have ha : a.raw % 65536 = 0 := ha
  have hb : b.raw % 65536 = 0 := hb
  by_contra hnot
  unfold Apart at hnot
  obtain rfl : a = b := VirtAddr.ext (by omega)
  let p : Page := ⟨a, by omega⟩
  have hp : p ∈ Area a := ⟨Nat.le_refl _, Nat.lt_add_of_pos_right (by decide)⟩
  exact h p hp hp

/-- Whichever processors are set up in whatever order, none of them has anything of what another one has
or of the pages that were held, and each finds its template, zeros and its own end at the end. The pages
that show all memory are not held: frames that are still to be handed out can be seen there. -/
theorem threads_keep_their_data (hpg : pg.Lawful) (fr : pg.Fresh) {ar : Arith} {sec : Sections}
    {template : Nat → UInt8} {P : Set Page} {cpus : List Nat} {bases : List VirtAddr} {v : Vm pg}
    (hheld : Held fr v P) (ht : Templated sec template P v)
    (h : (setupAll ar sec cpus v : Ran _ KEvent ε _).outcome = .ok bases) :
    SetUp ar sec template P cpus bases v (setupAll ar sec cpus v : Ran _ KEvent ε _).state := by
  induction cpus generalizing v P bases with
  | nil =>
    cases h
    exact ⟨.nil, .nil, nofun, fun _ _ => rfl⟩
  | cons cpu rest ih =>
    obtain ⟨base, hone, h, hs⟩ := Comp.bind_through h
    obtain ⟨start, hstart, hwhole, hnew, hshows⟩ := setupThreadData_shows hpg hheld ht hone
    obtain ⟨bases', hmore, h, hs'⟩ := Comp.bind_through h
    obtain rfl := Outcome.ok.inj h
    have hrest := ih hnew.held (hnew.templated ht) hmore
    have hstate : (setupAll ar sec (cpu :: rest) v : Ran _ KEvent ε _).state =
      (setupAll ar sec rest (setupThreadData ar sec cpu v : Ran _ KEvent ε _).state : Ran _ KEvent ε _).state :=
      hs.trans hs'
    have hal := startAddr_aligned hstart
    rw [hstate]
    refine ⟨.cons ⟨start, hstart, hshows.fits, hshows.base, fun o ho => ?_⟩ hrest.shows, ?_, ?_, fun b hb => ?_⟩
    · have hin := area_inPages hal hwhole (Nat.lt_of_lt_of_le ho hshows.fits)
      exact (hrest.same _ (hin.mono Set.subset_union_right)).trans (hshows.bytes o ho)
    · rw [List.filterMap_cons_some hstart, List.pairwise_cons]
      refine ⟨fun s hs => ?_, hrest.disjoint⟩
      obtain ⟨_, _, hs'⟩ := List.mem_filterMap.mp hs
      exact apart_of_pages hal (startAddr_aligned hs') fun p hp hin => hrest.fresh s hs p hp (.inr hin)
    · rw [List.filterMap_cons_some hstart]
      intro s hs p hp
      rcases List.mem_cons.mp hs with rfl | hs
      · exact hnew.apart p hp
      · exact fun hin => hrest.fresh s hs p hp (.inl hin)
    · exact (hrest.same b (hb.mono Set.subset_union_left)).trans (hnew.same b hb)

def smallSections : Sections := ⟨0x3000, 0x3002, 0x3002, 0x300c, by decide, by decide⟩

def templatePage : Page := ⟨⟨0x3000, by decide⟩, by decide⟩

/-- One page is mapped, and every byte of memory tells its address. -/
def Vm.untouched : Vm .flat where
  table := Function.update (fun _ => none) templatePage (some (frameAt 5 (by decide), 0))
  frames := (100 : Nat)
  memory a := UInt8.ofNat a

theorem threads_keep_their_data_two : SetUp .checked smallSections (fun o => UInt8.ofNat (20480 + o)) {templatePage}
    [4, 0] [⟨0xFFFFB00000040004, by decide⟩, ⟨0xFFFFB00000000004, by decide⟩] Vm.untouched
    (setupAll .checked smallSections [4, 0] Vm.untouched : Ran _ KEvent Empty _).state := by
  have hleaf : Paging.flat.leaf Vm.untouched.table templatePage = some (frameAt 5 (by decide), 0) := rfl
  refine threads_keep_their_data Paging.flat_lawful Paging.flat_fresh ⟨?_, ?_⟩ ?_ (by decide +kernel)
  · rintro p rfl
    exact ⟨_, _, hleaf, (by decide : ¬ 100 ≤ 5)⟩
  · rintro p rfl q rfl _ _ _ _ _
    rfl
  · intro o ho
    have hlt : o < 2 := ho
    have hcan : 0x3000 + o < 2 ^ 47 ∨ 2 ^ 64 - 2 ^ 47 ≤ 0x3000 + o ∧ 0x3000 + o < 2 ^ 64 := by omega
    have hpage : Page.containingAddress ⟨0x3000 + o, hcan⟩ = templatePage := by
      apply Page.ext
      simp only [Page.containingAddress, templatePage]
      omega
    have hmod : (0x3000 + o) % 4096 = o := by omega
    have hbyte : Elf.byteAt Vm.untouched (0x3000 + o) = some (UInt8.ofNat (20480 + o)) := by
      unfold Elf.byteAt
      rw [dif_pos hcan, hpage, hleaf, hmod]
      rfl
    exact ⟨⟨hcan, hpage⟩, hbyte⟩

end ThreadData

end Idkernel
