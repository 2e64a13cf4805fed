import Idkernel.HeapRoundTrip
import Idkernel.HeapSafety
import Idkernel.TwoRuns

/-!
# Pages out of the kernel heap

The frame allocator asks the kernel heap for a block of a page and looks its
frame up. The mapper is a parameter that draws on the same heap. One that asks
for the frames of missing tables and clears them does what is asked of it.
-/
namespace Idkernel

open Address Traced Intrusive Comp

variable {F : FallbackHeap} {κ ε : Type}

/-- The layout of `StupidPage`. -/
def StupidPage : Layout := ⟨4096, 4096, ⟨12, rfl⟩, by decide⟩

theorem listIndex_stupidPage : listIndex StupidPage = none := by decide

/-- The frame allocator with the heap it draws on. -/
structure FrameHeap (F : FallbackHeap) where
  heap : FixedSizeBlockAllocator F
  allocator : HeapFrameAllocator

/-- A frame, behind the address of its block. -/
def FrameHeap.allocateFrame (ar : Arith) (tables : Boot) :
    Comp (FrameHeap F) κ ε (Option (Nat × PhysFrame)) := do
  let ptr ← Comp.quietly FrameHeap.heap (fun heap s => { s with heap := heap })
    (FixedSizeBlockAllocator.alloc ar StupidPage)
  if ptr = 0 then return none
  else do
    let vaddr ← Comp.unwrap (VirtAddr.new ptr)
    let frame ← Comp.quietly FrameHeap.allocator (fun allocator s => { s with allocator := allocator })
      (HeapFrameAllocator.allocateFrame ar tables (some vaddr))
    return frame.map fun frame => (ptr, frame)

/-- `PageTable::zero`, through the block of the table. -/
def FrameHeap.zero (ptr : Nat) (s : FrameHeap F) : FrameHeap F :=
  { s with heap := { s.heap with memory := Memory.fill s.heap.memory ptr 4096 0 } }

/-- A mapper that takes the frames of its tables out of the kernel heap. What its tables say is kept apart
from the memory of the heap. -/
structure HeapMapper (F : FallbackHeap) where
  Table : Type
  leaf : Table → Page → Option (PhysFrame × PageTableFlags)
  /-- The page, its frame, the flags of the leaf and those of missing parent tables. -/
  mapTo : Page → PhysFrame → PageTableFlags → PageTableFlags → Comp (Table × FrameHeap F) Empty MapToError Unit
  dropTable : Table → FrameHeap F → FrameHeap F

/-- Paging over the kernel heap. A panic of the frame allocator shows as a missing frame, so only of calls
that succeed is anything to be said. -/
def heapPaging (F : FallbackHeap) (ar : Arith) (tables : Boot) (M : HeapMapper F) : Paging where
  Table := M.Table
  Frames := FrameHeap F
  allocateFrame s :=
    let r : Ran _ Empty Empty _ := FrameHeap.allocateFrame ar tables s
    match r.outcome with
    | .ok page => (page.map Prod.snd, r.state)
    | _ => (none, r.state)
  mapTo t s page frame flags parentFlags :=
    let r : Ran _ Empty _ _ := M.mapTo page frame flags parentFlags (t, s)
    match r.outcome with
    | .ok _ => (.ok (), r.state)
    | .err e => (.error e, r.state)
    | .panic => (.error .frameAllocationFailed, r.state)
  leaf := M.leaf
  dropTable := M.dropTable

/-! ## A byte of free memory -/

/-- The general heap keeps the list of its holes in them. It reads nothing else of its memory,
a hole's node is not larger than sixteen bytes, and what it hands out lies in the heap. -/
structure FallbackHeap.HoleList (F : FallbackHeap) (Ok : F.State → Bytes → List Region → Prop)
    (node : F.State → Bytes → Nat → Prop) (heap : Nat × Nat) : Prop where
  kept : ∀ {s m out x}, Ok s m out → Covered out x → ¬ node s m x
  behind : ∀ {s s' m m' out layout ptr i}, Ok s m out → F.allocateFirstFit layout s m = (some ptr, s', m') →
    16 ≤ i → i < layout.size → ¬ node s m (ptr + i)
  unread : ∀ {s s' m m' out layout r x} (b : UInt8), Ok s m out → ¬ node s m x →
    F.allocateFirstFit layout s m = (r, s', m') →
      (Covered out x ∨ ∃ ptr, r = some ptr ∧ inside (ptr, layout) x) →
      F.allocateFirstFit layout s (Function.update m x b) = (r, s', Function.update m' x b)
  within : ∀ {s s' m m' out layout ptr}, Ok s m out → F.allocateFirstFit layout s m = (some ptr, s', m') →
    heap.1 ≤ ptr ∧ ptr + layout.size ≤ heap.1 + heap.2

namespace FrameHeap

def poke (x : Nat) (b : UInt8) (s : FrameHeap F) : FrameHeap F :=
  { s with heap := { s.heap with memory := Function.update s.heap.memory x b } }

/-- The block the next frame comes from. -/
def block (s : FrameHeap F) : Option Nat :=
  (F.allocateFirstFit StupidPage s.heap.fallbackAllocator s.heap.memory).1

def drawn (s : FrameHeap F) : FrameHeap F :=
  { s with
    heap := { s.heap with
      fallbackAllocator := (F.allocateFirstFit StupidPage s.heap.fallbackAllocator s.heap.memory).2.1
      memory := (F.allocateFirstFit StupidPage s.heap.fallbackAllocator s.heap.memory).2.2 } }

theorem draw_run (ar : Arith) (s : FrameHeap F) :
    (Comp.quietly FrameHeap.heap (fun heap s => { s with heap := heap })
      (FixedSizeBlockAllocator.alloc ar StupidPage) s : Ran _ κ ε Nat) =
        ⟨.ok (s.block.getD 0), s.drawn, []⟩ := by
  rw [FixedSizeBlockAllocator.alloc_large listIndex_stupidPage, Comp.quietly_run,
    FixedSizeBlockAllocator.fallbackAlloc_run]
  rfl

variable {Ok : F.State → Bytes → List Region → Prop} {node : F.State → Bytes → Nat → Prop} {heap : Nat × Nat}
  {ar : Arith} {tables : Boot} {x : Nat} {b : UInt8} {s s' : FrameHeap F}

/-- A byte that the next frame's allocation does not read. -/
def Spared (Ok : F.State → Bytes → List Region → Prop) (node : F.State → Bytes → Nat → Prop) (x : Nat)
    (s : FrameHeap F) : Prop :=
  ∃ out, Ok s.heap.fallbackAllocator s.heap.memory out ∧ ¬ node s.heap.fallbackAllocator s.heap.memory x ∧
    (Covered out x ∨ ∃ ptr, s.block = some ptr ∧ inside (ptr, StupidPage) x)

theorem Spared.draw (holes : F.HoleList Ok node heap) (h : Spared Ok node x s) (b : UInt8) :
    (s.poke x b).block = s.block ∧ (s.poke x b).drawn = s.drawn.poke x b := by
  obtain ⟨out, hok, hnode, hx⟩ := h
  have hcall := holes.unread b hok hnode rfl hx
  exact ⟨by simp only [block, poke, hcall], by simp only [drawn, poke, hcall]⟩

/-- The general heap has handed out the byte. -/
def Held (Ok : F.State → Bytes → List Region → Prop) (x : Nat) (h : FixedSizeBlockAllocator F) : Prop :=
  ∃ out, Ok h.fallbackAllocator h.memory out ∧ Covered out x

theorem Held.spared (holes : F.HoleList Ok node heap) (h : Held Ok x s.heap) : Spared Ok node x s := by
  obtain ⟨out, hok, hx⟩ := h
  exact ⟨out, hok, holes.kept hok hx, .inl hx⟩

/-- Another block than the one the byte lies in, if any. -/
def Beside (Ok : F.State → Bytes → List Region → Prop) (x ptr : Nat) (h : FixedSizeBlockAllocator F) : Prop :=
  ∃ out, Ok h.fallbackAllocator h.memory out ∧ Covered out x ∧
    (ptr ≠ 0 → (ptr, StupidPage) ∈ out ∧ ¬ inside (ptr, StupidPage) x)

theorem Beside.held {ptr : Nat} {h : FixedSizeBlockAllocator F} (hb : Beside Ok x ptr h) : Held Ok x h := by
  obtain ⟨out, hok, hx, _⟩ := hb
  exact ⟨out, hok, hx⟩

theorem Beside.apart {ptr : Nat} {h : FixedSizeBlockAllocator F} (hb : Beside Ok x ptr h) (hptr : ptr ≠ 0) :
    ¬ inside (ptr, StupidPage) x := by
  obtain ⟨_, _, _, hbeside⟩ := hb
  exact (hbeside hptr).2

theorem Held.drawn (lawful : F.Lawful Ok) (h : Held Ok x s.heap) :
    Beside Ok x (s.block.getD 0) s.drawn.heap := by
  obtain ⟨out, hok, hx⟩ := h
  rcases hcall : F.allocateFirstFit StupidPage s.heap.fallbackAllocator s.heap.memory with ⟨r, state, m⟩
  simp only [block, FrameHeap.drawn, Beside, hcall]
  cases r with
  | none => exact ⟨out, (lawful.refused hok hcall).1, hx, fun hne => absurd rfl hne⟩
  | some ptr =>
    obtain ⟨_, hapart, hok', _⟩ := lawful.allocated hok hcall
    obtain ⟨a, ha, hin⟩ := hx
    exact ⟨_, hok', ⟨a, by simp [ha], hin⟩, fun _ => ⟨by simp, fun hnew => hapart a ha x hnew hin⟩⟩

/-- The byte is handed out with its block. -/
theorem held_block (lawful : F.Lawful Ok) {out : List Region} {ptr : Nat}
    (hok : Ok s.heap.fallbackAllocator s.heap.memory out) (hptr : s.block = some ptr)
    (hx : inside (ptr, StupidPage) x) : Held Ok x s.drawn.heap := by
  rcases hcall : F.allocateFirstFit StupidPage s.heap.fallbackAllocator s.heap.memory with ⟨r, state, m⟩
  simp only [block, hcall] at hptr
  subst hptr
  obtain ⟨_, _, hok', _⟩ := lawful.allocated hok hcall
  simp only [Held, FrameHeap.drawn, hcall]
  exact ⟨_, hok', _, by simp, hx⟩

theorem Beside.zero (lawful : F.Lawful Ok) {ptr : Nat} (h : Beside Ok x ptr s.heap) (hptr : ptr ≠ 0) :
    Held Ok x (s.zero ptr).heap := by
  obtain ⟨out, hok, hx, hbeside⟩ := h
  obtain ⟨hin, _⟩ := hbeside hptr
  refine ⟨out, lawful.written hok fun y hy => ?_, hx⟩
  have hout : ¬ (ptr ≤ y ∧ y < ptr + 4096) := fun hc => hy ⟨_, hin, hc⟩
  simp only [FrameHeap.zero, Memory.fill, if_neg hout]

theorem zero_poke {ptr : Nat} (h : ¬ inside (ptr, StupidPage) x) (b : UInt8) :
    (s.poke x b).zero ptr = (s.zero ptr).poke x b := by
  have hmem : Memory.fill (Function.update s.heap.memory x b) ptr 4096 0 =
      Function.update (Memory.fill s.heap.memory ptr 4096 0) x b := by
    funext y
    by_cases hy : y = x
    · subst hy
      have hout : ¬ (ptr ≤ y ∧ y < ptr + 4096) := h
      simp [Memory.fill, hout]
    · simp [Memory.fill, Function.update_of_ne hy]
  simp only [FrameHeap.zero, poke, hmem]

/-- What two draws agree on, the frames of their blocks agree on. -/
theorem allocateFrame_mirrors {R : FrameHeap F → FrameHeap F → Prop}
    {J : Nat → FixedSizeBlockAllocator F → Prop}
    (hdraw : ∀ s s', R s s' → s'.block = s.block ∧ s'.drawn = s.drawn.poke x b ∧
      J (s.block.getD 0) s.drawn.heap) :
    Mirrors R (allocateFrame ar tables : Comp _ κ ε _)
      fun r s s' => s' = s.poke x b ∧ ∃ ptr, J ptr s.heap ∧ ∀ page ∈ r, page.1 = ptr ∧ ptr ≠ 0 := by
  have hblock : Mirrors R (Comp.quietly FrameHeap.heap (fun heap s => { s with heap := heap })
      (FixedSizeBlockAllocator.alloc ar StupidPage) : Comp _ κ ε Nat)
      fun ptr s s' => s' = s.poke x b ∧ J ptr s.heap := by
    intro s s' ptr hR h
    obtain ⟨hsame, hdrawn, hJ⟩ := hdraw s s' hR
    rw [draw_run] at h ⊢
    rw [draw_run, hsame]
    cases h
    exact ⟨rfl, hdrawn, hJ⟩
  refine hblock.bind fun ptr => ?_
  by_cases hptr : ptr = 0
  · simp only [if_pos hptr]
    exact Mirrors.ret fun s s' h => ⟨h.1, ptr, h.2, by simp⟩
  · simp only [if_neg hptr]
    refine Mirrors.unwrap.bind fun vaddr => ?_
    have hlook : Mirrors (fun s s' => (s' = s.poke x b ∧ J ptr s.heap) ∧ VirtAddr.new ptr = some vaddr)
        (Comp.quietly FrameHeap.allocator (fun allocator s => { s with allocator := allocator })
          (HeapFrameAllocator.allocateFrame ar tables (some vaddr)) : Comp _ κ ε _)
        fun _ s s' => s' = s.poke x b ∧ J ptr s.heap := by
      refine (Mirrors.same _).quietly ?_ ?_
      · rintro s s' ⟨⟨rfl, _⟩, _⟩
        rfl
      · rintro _ s s' t t' ⟨⟨rfl, hJ⟩, _⟩ rfl
        exact ⟨rfl, hJ⟩
    refine hlook.bind fun frame => Mirrors.ret fun s s' h => ⟨h.1, ptr, h.2, ?_⟩
    intro page hpage
    obtain ⟨f, _, rfl⟩ := Option.map_eq_some_iff.mp hpage
    exact ⟨rfl, hptr⟩

/-- A frame is the one its block is mapped to. -/
theorem allocateFrame_block {ptr : Nat} {frame : PhysFrame}
    (h : (allocateFrame ar tables s : Ran _ κ ε _).outcome = .ok (some (ptr, frame))) :
    s.block = some ptr ∧ ∃ v, VirtAddr.new ptr = some v ∧ tables.translateAddr v = some frame.start := by
  unfold allocateFrame at h
  rw [Comp.bind_ok (congrArg Ran.outcome (draw_run ar s)), after_outcome] at h
  by_cases hzero : s.block.getD 0 = 0
  · simp [hzero] at h
  · rw [if_neg hzero] at h
    obtain ⟨v, hv, h⟩ := (Comp.Still.unwrap _).bind_inv h
    obtain ⟨found, hfound, h⟩ := Comp.bind_inv h
    obtain ⟨f, rfl, hpair⟩ := Option.map_eq_some_iff.mp (Outcome.ok.inj h)
    obtain ⟨rfl, rfl⟩ := Prod.mk.inj hpair
    have hblock : s.block = some (s.block.getD 0) := by
      cases hb : s.block with
      | none => simp [hb] at hzero
      | some p => rfl
    have hlook :
        (HeapFrameAllocator.allocateFrame ar tables (some v) s.drawn.allocator : Ran _ BlockEvent ε _).outcome =
          .ok (some f) := by
      rw [draw_run] at hfound
      exact hfound
    simp only [HeapFrameAllocator.allocateFrame] at hlook
    obtain ⟨paddr, hpaddr, hlook⟩ := (Comp.Still.unwrap _).bind_inv hlook
    obtain ⟨_, _, hlook⟩ := Comp.bind_inv hlook
    obtain ⟨g, hg, hlook⟩ := (Comp.Still.unwrap _).bind_inv hlook
    cases hlook
    obtain ⟨hstart, _⟩ := PhysFrame.fromStartAddress_cases (Comp.unwrap_ok hg)
    exact ⟨hblock, v, Comp.unwrap_ok hv, hstart ▸ Comp.unwrap_ok hpaddr⟩

/-- Two states that differ in one byte that was handed out. -/
def Differs (Ok : F.State → Bytes → List Region → Prop) (x : Nat) (b : UInt8) (s s' : FrameHeap F) : Prop :=
  s' = s.poke x b ∧ Held Ok x s.heap

theorem allocateFrame_beside (lawful : F.Lawful Ok) (holes : F.HoleList Ok node heap) :
    Mirrors (Differs Ok x b) (allocateFrame ar tables : Comp _ κ ε _) fun r s s' =>
      s' = s.poke x b ∧ ∃ ptr, Beside Ok x ptr s.heap ∧ ∀ page ∈ r, page.1 = ptr ∧ ptr ≠ 0 := by
  refine allocateFrame_mirrors ?_
  rintro s s' ⟨rfl, hheld⟩
  obtain ⟨hblock, hdrawn⟩ := (hheld.spared holes).draw holes b
  exact ⟨hblock, hdrawn, hheld.drawn lawful⟩

/-- The first draw of a block hands its bytes out as they are. -/
theorem allocateFrame_fresh (lawful : F.Lawful Ok) (holes : F.HoleList Ok node heap) {out : List Region}
    {ptr : Nat}
    (hok : Ok s.heap.fallbackAllocator s.heap.memory out) (hptr : s.block = some ptr)
    (hnode : ¬ node s.heap.fallbackAllocator s.heap.memory x) (hx : inside (ptr, StupidPage) x) :
    Mirrors (fun t t' => t = s ∧ t' = s.poke x b) (allocateFrame ar tables : Comp _ κ ε _)
      fun _ => Differs Ok x b := by
  refine (allocateFrame_mirrors (x := x) (b := b) (J := fun _ => Held Ok x) ?_).conseq (fun _ _ h => h) ?_
  · rintro _ _ ⟨rfl, rfl⟩
    obtain ⟨hblock, hdrawn⟩ := Spared.draw holes ⟨out, hok, hnode, .inr ⟨ptr, hptr, hx⟩⟩ b
    exact ⟨hblock, hdrawn, held_block lawful hok hptr hx⟩
  · rintro _ t t' ⟨hpoke, _, hheld, _⟩
    exact ⟨hpoke, hheld⟩

end FrameHeap

/-! ## What is asked of the mapper -/

/-- It maps a page that was not mapped and nothing else, and of the memory that was handed out to others it
reads nothing. -/
structure HeapMapper.Lawful (M : HeapMapper F) (Ok : F.State → Bytes → List Region → Prop) : Prop where
  leaves : ∀ page frame flags parentFlags l, Triple (fun s => M.leaf s.1 = l) (M.mapTo page frame flags parentFlags)
    (fun _ s => l page = none ∧ M.leaf s.1 = Function.update l page (some (frame, flags)))
    (fun s => M.leaf s.1 = l) (fun s => M.leaf s.1 = l)
  mirrors : ∀ x b page frame flags parentFlags,
    Mirrors (fun s s' => s'.1 = s.1 ∧ FrameHeap.Differs Ok x b s.2 s'.2) (M.mapTo page frame flags parentFlags)
      fun _ s s' => s'.1 = s.1 ∧ FrameHeap.Differs Ok x b s.2 s'.2

theorem HeapMapper.Lawful.paging {M : HeapMapper F} {Ok : F.State → Bytes → List Region → Prop} (hM : M.Lawful Ok)
    (ar : Arith) (tables : Boot) : (heapPaging F ar tables M).Lawful where
  mapped t s page frame flags parentFlags t' s' h := by
    have hleaf := hM.leaves page frame flags parentFlags (M.leaf t) (t, s) rfl
    simp only [heapPaging] at h
    split at h
    · rename_i ho
      obtain ⟨_, hstate⟩ := Prod.mk.inj h
      rw [ho, hstate] at hleaf
      exact hleaf
    · cases h
    · cases h
  failed t s page frame flags parentFlags e t' s' h := by
    have hleaf := hM.leaves page frame flags parentFlags (M.leaf t) (t, s) rfl
    simp only [heapPaging] at h
    split at h
    · cases h
    · rename_i ho
      obtain ⟨_, hstate⟩ := Prod.mk.inj h
      rw [ho, hstate] at hleaf
      exact hleaf
    · rename_i ho
      obtain ⟨_, hstate⟩ := Prod.mk.inj h
      rw [ho, hstate] at hleaf
      exact hleaf

/-! ## The simplest mapper

It asks for a frame for each table that is missing on the way to a page, and clears it. -/

/-- The entries above the leaves are named as those of the boot tables are. -/
structure UserTable where
  entry : Nat → Nat → TableEntry
  leaf : Page → Option (PhysFrame × PageTableFlags)

namespace UserTable

abbrev MapM (F : FallbackHeap) (κ : Type) := Comp (UserTable × FrameHeap F) κ MapToError

def setEntry (level number : Nat) (t : UserTable) : UserTable :=
  { t with entry := fun l n => if l = level ∧ n = number then .table else t.entry l n }

def createNextTable (ar : Arith) (tables : Boot) (level number : Nat) : MapM F κ Unit := do
  let entry ← Comp.read fun s => s.1.entry level number
  match entry with
  | .unused => do
    let page ← Comp.zoom Prod.snd (fun frames s => (s.1, frames)) (FrameHeap.allocateFrame ar tables)
    let page ← Comp.okOr page .frameAllocationFailed
    Comp.write fun s => (setEntry level number s.1, s.2.zero page.1)
  | .table => return ()
  | .huge => Comp.fail .parentEntryHugePage

def mapTo (ar : Arith) (tables : Boot) (page : Page) (frame : PhysFrame) (flags : PageTableFlags) :
    MapM F κ Unit := do
  Comp.forEach Boot.UPPER fun level => createNextTable ar tables level (page.index / 512 ^ level)
  let old ← Comp.read fun s => s.1.leaf page
  match old with
  | some _ => Comp.fail (.pageAlreadyMapped frame)
  | none => Comp.write fun s => ({ s.1 with leaf := Function.update s.1.leaf page (some (frame, flags)) }, s.2)


open FrameHeap

variable {Ok : F.State → Bytes → List Region → Prop} {node : F.State → Bytes → Nat → Prop} {heap : Nat × Nat}
  {ar : Arith} {tables : Boot} {x : Nat} {b : UInt8}

def Alike (Ok : F.State → Bytes → List Region → Prop) (x : Nat) (b : UInt8)
    (s s' : UserTable × FrameHeap F) : Prop :=
  s'.1 = s.1 ∧ Differs Ok x b s.2 s'.2

theorem createNextTable_mirrors (lawful : F.Lawful Ok) (holes : F.HoleList Ok node heap) (level number : Nat) :
    Mirrors (Alike Ok x b) (createNextTable ar tables level number : MapM F κ Unit) fun _ => Alike Ok x b := by
  unfold createNextTable
  refine (Mirrors.read fun s s' h => by rw [h.1]).bind fun entry => ?_
  cases entry with
  | table => exact Mirrors.ret fun s s' h => h.1
  | huge => exact Mirrors.fail
  | unused =>
    have hdraw : Mirrors (fun s s' => Alike Ok x b s s' ∧ s.1.entry level number = .unused)
        (Comp.zoom Prod.snd (fun frames s => (s.1, frames)) (FrameHeap.allocateFrame ar tables) : MapM F κ _)
        fun r s s' => s'.1 = s.1 ∧ s'.2 = s.2.poke x b ∧
          ∃ ptr, Beside Ok x ptr s.2.heap ∧ ∀ page ∈ r, page.1 = ptr ∧ ptr ≠ 0 :=
      (allocateFrame_beside lawful holes).zoom (fun s s' h => h.1.2) fun r s s' t t' h ht => ⟨h.1.1, ht⟩
    refine hdraw.bind fun r => Mirrors.okOr.bind fun page => Mirrors.write ?_
    rintro ⟨table, s⟩ ⟨table', s'⟩ ⟨⟨htable, hpoke, ptr, hbeside, hpage⟩, rfl⟩
    obtain ⟨hptr, hne⟩ := hpage page rfl
    have hzero : s'.zero page.1 = (s.zero page.1).poke x b := by
      rw [show s' = s.poke x b from hpoke, hptr]
      exact zero_poke (hbeside.apart hne) b
    exact ⟨congrArg (setEntry level number) htable, hzero, hptr ▸ hbeside.zero lawful hne⟩

theorem mapTo_mirrors (lawful : F.Lawful Ok) (holes : F.HoleList Ok node heap) (page : Page) (frame : PhysFrame)
    (flags : PageTableFlags) :
    Mirrors (Alike Ok x b) (mapTo ar tables page frame flags : MapM F κ Unit) fun _ => Alike Ok x b := by
  unfold mapTo
  have htables : Mirrors (Alike Ok x b) (Comp.forEach Boot.UPPER fun level =>
      createNextTable ar tables level (page.index / 512 ^ level) : MapM F κ Unit) fun _ => Alike Ok x b :=
    Mirrors.forEach fun level _ => createNextTable_mirrors lawful holes level (page.index / 512 ^ level)
  refine htables.bind fun _ => (Mirrors.read fun s s' h => by rw [h.1]).bind fun old => ?_
  cases old with
  | some leaf => exact Mirrors.fail
  | none =>
    refine Mirrors.write fun s s' h => ⟨?_, h.1.2⟩
    rw [h.1.1]

/-! ## Leaves -/

theorem createNextTable_leaf (ar : Arith) (tables : Boot) (level number : Nat)
    (l : Page → Option (PhysFrame × PageTableFlags)) :
    Triple (fun s => s.1.leaf = l) (createNextTable ar tables level number : MapM F κ Unit)
      (fun _ s => s.1.leaf = l) (fun s => s.1.leaf = l) (fun s => s.1.leaf = l) := by
  unfold createNextTable
  refine (Triple.read _).bind fun entry => ?_
  cases entry with
  | table => exact Triple.ret fun s h => h.1
  | huge => exact Triple.fail fun s h => h.1
  | unused =>
    refine (Triple.zoom (fun s t h => h.1) (fun s h => h) fun s h => h).bind fun r => ?_
    exact (Triple.okOr fun s h => h).bind fun page => Triple.write fun s h => h.1

theorem mapTo_leaf (ar : Arith) (tables : Boot) (page : Page) (frame : PhysFrame) (flags : PageTableFlags)
    (l : Page → Option (PhysFrame × PageTableFlags)) :
    Triple (fun s => s.1.leaf = l) (mapTo ar tables page frame flags : MapM F κ Unit)
      (fun _ s => l page = none ∧ s.1.leaf = Function.update l page (some (frame, flags)))
      (fun s => s.1.leaf = l)
      (fun s => s.1.leaf = l) := by
  unfold mapTo
  refine (Triple.forEach fun level _ => createNextTable_leaf ar tables level _ l).bind fun _ => ?_
  refine (Triple.read _).bind fun old => ?_
  cases old with
  | some leaf => exact Triple.fail fun s h => h.1
  | none =>
    refine Triple.write fun s h => ?_
    obtain ⟨rfl, hnone⟩ := h
    exact ⟨hnone.symm, rfl⟩

def mapper (F : FallbackHeap) (ar : Arith) (tables : Boot) (dropTable : UserTable → FrameHeap F → FrameHeap F) :
    HeapMapper F where
  Table := UserTable
  leaf := UserTable.leaf
  mapTo page frame flags _ := mapTo ar tables page frame flags
  dropTable := dropTable

theorem mapper_lawful (lawful : F.Lawful Ok) (holes : F.HoleList Ok node heap) (ar : Arith) (tables : Boot)
    (dropTable : UserTable → FrameHeap F → FrameHeap F) : (mapper F ar tables dropTable).Lawful Ok where
  leaves page frame flags _ l := mapTo_leaf ar tables page frame flags l
  mirrors _ _ page frame flags _ := mapTo_mirrors lawful holes page frame flags

end UserTable

end Idkernel
