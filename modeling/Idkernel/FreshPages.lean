import Idkernel.HeapPaging
import Idkernel.MemoryCalls

/-!
# What fresh pages show

Two runs of `map_virt` are compared whose heaps differ in a byte of free
memory. Nothing between the heap and the page writes to the block of a fresh
page, so the byte is still there when the page is mapped.
-/
namespace Idkernel

open Address Traced Locks Intrusive Comp Runs

/-! ## One call -/

section Calls

variable {pg : Paging} {env : Env pg} {pos len perms : Nat} {k : Kernel pg}

/-- The leaf of a page in the address space of the running task. -/
def Kernel.leaf (k : Kernel pg) (page : Page) : Option (PhysFrame × PageTableFlags) :=
  k.taskId.bind fun t => (k.tasks.lookup t).bind fun task => pg.leaf task.pageTable page

/-- What `map_virt` has tested before its loop. -/
structure Admitted (env : Env pg) (pos len perms : Nat) (k : Kernel pg) (t : TaskId) (task : TaskContext pg t)
    (a b : Page) (flags : PageTableFlags) : Prop where
  parsed : (parsePageRange env.arith pos len k : Ran _ KEvent _ _).outcome = .ok (a, b)
  current : k.taskId = some t
  found : k.tasks.lookup t = some task
  capable : ∃ x ∈ task.capabilities.handles, x.2.ctype = .mapVirtualToRam
  allowed : memoryFlags perms = .ok flags

def mapLoop (env : Env pg) (a b : Page) (flags : PageTableFlags) : VmM pg SyscallError Unit :=
  Comp.forEach (Page.range env.arith a b) (mapVirtPage (flags ||| PageTableFlags.BIT_10))

def Kernel.space {t : TaskId} (k : Kernel pg) (task : TaskContext pg t) : Vm pg :=
  ⟨task.pageTable, k.frames, k.memory⟩

def Kernel.withSpace {t : TaskId} (k : Kernel pg) (task : TaskContext pg t) (v : Vm pg) : Kernel pg :=
  { k with
    tasks := k.tasks.insert t { task with pageTable := v.table }
    frames := v.frames
    memory := v.memory }

theorem Admitted.of_ok (h : (MemoryCall.mapVirt env pos len perms k).outcome = .ok ()) :
    ∃ t task a b flags, Admitted env pos len perms k t task a b flags := by
  unfold MemoryCall.mapVirt at h
  obtain ⟨⟨a, b⟩, hparse, h⟩ := (parsePageRange_still _ _ _).bind_inv h
  obtain ⟨t, hcur, h⟩ := Comp.bind_inv h
  rw [currentTask_state, withGuard_outcome] at h
  obtain ⟨task, hfound, h⟩ := (getTask_still t).bind_inv h
  obtain ⟨_, hcap, h⟩ := Comp.Still.require.bind_inv h
  obtain ⟨flags, hflags, _⟩ := (Comp.Still.ofExcept _).bind_inv h
  exact ⟨t, task, a, b, flags, hparse, currentTask_ok hcur, getTask_ok hfound, Comp.require_ok hcap,
    Comp.ofExcept_ok_inv hflags⟩

theorem Admitted.run {t : TaskId} {task : TaskContext pg t} {a b : Page} {flags : PageTableFlags}
    (h : Admitted env pos len perms k t task a b flags) :
    (MemoryCall.mapVirt env pos len perms k).outcome = (mapLoop env a b flags (k.space task)).outcome ∧
      (MemoryCall.mapVirt env pos len perms k).state =
        k.withSpace task (mapLoop env a b flags (k.space task)).state := by
  have hrun : MemoryCall.mapVirt env pos len perms k =
      (withGuard (.task t) .read (getTask t >>= fun task => do
        Comp.require (∃ x ∈ task.capabilities.handles, x.2.ctype = .mapVirtualToRam) .wrongCapability
        let flags ← Comp.ofExcept (memoryFlags perms)
        withGuard .frameAllocator .write (inTable task (mapLoop env a b flags))) k).after
          [.acquire .registry .read, .release .registry .read] := by
    unfold MemoryCall.mapVirt
    rw [(parsePageRange_still _ _ _).bind_ok h.parsed]
    exact currentTask_bind h.current h.found _
  rw [hrun, after_outcome, after_state, withGuard_outcome, withGuard_state, getTask_bind h.found,
    Comp.require_true h.capable, Comp.ret_bind, h.allowed, Comp.ofExcept_ok, Comp.ret_bind, withGuard_outcome,
    withGuard_state]
  exact ⟨rfl, rfl⟩

theorem Kernel.withSpace_leaf {t : TaskId} (task : TaskContext pg t) (v : Vm pg) (page : Page)
    (h : k.taskId = some t) : (k.withSpace task v).leaf page = pg.leaf v.table page := by
  simp [Kernel.leaf, Kernel.withSpace, h]

theorem Admitted.leaf {t : TaskId} {task : TaskContext pg t} {a b : Page} {flags : PageTableFlags}
    (h : Admitted env pos len perms k t task a b flags) (page : Page) :
    k.leaf page = pg.leaf task.pageTable page := by
  simp [Kernel.leaf, h.current, h.found]

theorem memoryFlags_user {perms : Nat} {flags : PageTableFlags} (h : memoryFlags perms = .ok flags) :
    (flags ||| PageTableFlags.BIT_10) &&& PageTableFlags.PRESENT ≠ 0 ∧
      (flags ||| PageTableFlags.BIT_10) &&& PageTableFlags.USER_ACCESSIBLE ≠ 0 := by
  simp only [memoryFlags] at h
  split at h
  · cases h
  · cases h
    split <;> split <;> decide

theorem mapError_ok {r : Except MapToError Unit} (h : mapError r = .ok ()) : r = .ok () := by
  cases r with
  | ok u => rfl
  | error e => cases e <;> cases h

theorem mapVirtPage_leaf (lawful : pg.Lawful) {flags : PageTableFlags} {page : Page} {v : Vm pg}
    (h : (mapVirtPage flags page v).outcome = .ok ()) :
    pg.leaf v.table page = none ∧ ∃ frame, (pg.allocateFrame v.frames).1 = some frame ∧
      pg.leaf (mapVirtPage flags page v).state.table =
        Function.update (pg.leaf v.table) page (some (frame, flags)) := by
  unfold mapVirtPage at h ⊢
  obtain ⟨found, hfound, htaken⟩ := Comp.bind_inv h
  obtain ⟨frame, hframe, hmapped⟩ := (Comp.Still.okOr _ _).bind_inv htaken
  obtain rfl := Comp.okOr_ok hframe
  obtain ⟨r, hr, hok⟩ := Comp.bind_inv hmapped
  obtain rfl : r = .ok () := mapError_ok (Comp.ofExcept_ok_inv hok)
  obtain ⟨hnone, hleaf⟩ := lawful.mapped _ _ _ _ _ _ _ _ (Prod.ext (Outcome.ok.inj hr) rfl)
  refine ⟨hnone, frame, Outcome.ok.inj hfound, ?_⟩
  rw [Comp.bind_ok hfound, after_state, Comp.okOr_some, Comp.ret_bind, Comp.bind_ok hr, after_state]
  exact hleaf

/-- The first page of a finished loop has its leaf at the end. -/
theorem mapPages_leaf (lawful : pg.Lawful) {flags : PageTableFlags} {page : Page} {rest : List Page} {v : Vm pg}
    (h : (Comp.forEach (page :: rest) (mapVirtPage flags) v).outcome = .ok ()) :
    pg.leaf v.table page = none ∧ ∃ frame, (pg.allocateFrame v.frames).1 = some frame ∧
      pg.leaf (Comp.forEach (page :: rest) (mapVirtPage flags) v).state.table page = some (frame, flags) := by
  obtain ⟨_, hfirst, hrest⟩ := Comp.bind_inv h
  obtain ⟨hnone, frame, hframe, hleaf⟩ := mapVirtPage_leaf lawful hfirst
  have hrun : Comp.forEach (page :: rest) (mapVirtPage flags) v = _ := Comp.bind_ok hfirst
  have hstart : pg.leaf (mapVirtPage flags page v).state.table page = some (frame, flags) := by
    rw [hleaf, Function.update_self]
  refine ⟨hnone, frame, hframe, ?_⟩
  rw [hrun, after_state]
  refine Comp.forEach_keeps (K := fun v => pg.leaf v.table page = some (frame, flags)) ?_ hrest hstart
  intro other _ u hok hu
  obtain ⟨hother, _, _, hnext⟩ := mapVirtPage_leaf lawful hok
  have hne : page ≠ other := fun he => by simp [he, hother] at hu
  rw [hnext, Function.update_of_ne hne, hu]

end Calls

/-! ## The loop in both runs -/

section Loops

open FrameHeap

variable {F : FallbackHeap} {Ok : F.State → Bytes → List Region → Prop} {node : F.State → Bytes → Nat → Prop}
  {heap : Nat × Nat} {ar : Arith} {tables : Boot} {M : HeapMapper F} {x : Nat} {c : UInt8}

abbrev HeapVm (F : FallbackHeap) (ar : Arith) (tables : Boot) (M : HeapMapper F) := Vm (heapPaging F ar tables M)

/-- The same address space over two states of the heap. -/
def Beneath (P : FrameHeap F → FrameHeap F → Prop) (v v' : HeapVm F ar tables M) : Prop :=
  v'.table = v.table ∧ v'.memory = v.memory ∧ P v.frames v'.frames

/-- A frame that the kernel gets has come out of a block. -/
theorem heapPaging_allocate (M : HeapMapper F) {s : FrameHeap F} {frame : PhysFrame}
    (h : ((heapPaging F ar tables M).allocateFrame s).1 = some frame) :
    ∃ ptr, (FrameHeap.allocateFrame ar tables s : Ran _ Empty Empty _).outcome = .ok (some (ptr, frame)) := by
  simp only [heapPaging] at h
  cases ho : (FrameHeap.allocateFrame ar tables s : Ran _ Empty Empty _).outcome with
  | ok page =>
    simp only [ho, Option.map_eq_some_iff] at h
    obtain ⟨⟨ptr, _⟩, rfl, rfl⟩ := h
    exact ⟨ptr, rfl⟩
  | err e => simp [ho] at h
  | panic => simp [ho] at h

theorem heapPaging_allocated (M : HeapMapper F) {s : FrameHeap F} {frame : PhysFrame} {ptr : Nat}
    (h : (FrameHeap.allocateFrame ar tables s : Ran _ Empty Empty _).outcome = .ok (some (ptr, frame))) :
    (heapPaging F ar tables M).allocateFrame s =
      (some frame, (FrameHeap.allocateFrame ar tables s : Ran _ Empty Empty _).state) := by
  simp only [heapPaging, h]
  rfl

theorem heapPaging_map {t : M.Table} {s : FrameHeap F} {page : Page} {frame : PhysFrame}
    {flags parentFlags : PageTableFlags}
    (h : ((heapPaging F ar tables M).mapTo t s page frame flags parentFlags).1 = .ok ()) :
    (M.mapTo page frame flags parentFlags (t, s)).outcome = .ok () := by
  simp only [heapPaging] at h
  cases ho : (M.mapTo page frame flags parentFlags (t, s)).outcome with
  | ok u => rfl
  | err e => simp [ho] at h
  | panic => simp [ho] at h

theorem heapPaging_mapped {t : M.Table} {s : FrameHeap F} {page : Page} {frame : PhysFrame}
    {flags parentFlags : PageTableFlags} (h : (M.mapTo page frame flags parentFlags (t, s)).outcome = .ok ()) :
    (heapPaging F ar tables M).mapTo t s page frame flags parentFlags =
      (.ok (), (M.mapTo page frame flags parentFlags (t, s)).state) := by
  simp only [heapPaging, h]

theorem mapVirtPage_mirrors {P Q : FrameHeap F → FrameHeap F → Prop} (flags : PageTableFlags) (page : Page)
    (hdraw : Mirrors P (FrameHeap.allocateFrame ar tables : Comp _ Empty Empty _) fun _ => Q)
    (hmap : ∀ frame, Mirrors (fun s s' => s'.1 = s.1 ∧ Q s.2 s'.2) (M.mapTo page frame flags parentTableFlags)
      fun _ s s' => s'.1 = s.1 ∧ Q s.2 s'.2) :
    Mirrors (Beneath P) (mapVirtPage flags page : VmM (heapPaging F ar tables M) _ _)
      fun _ => Beneath Q := by
  have hframe : Mirrors (Beneath P)
      (allocateFrame >>= fun frame => Comp.okOr frame .noMemory : VmM
        (heapPaging F ar tables M) SyscallError _)
      fun _ => Beneath Q := by
    intro v v' frame hP h
    obtain ⟨htable, hmemory, hP⟩ := hP
    obtain ⟨found, hfound, hsome⟩ := Comp.bind_inv h
    obtain rfl := Comp.okOr_ok hsome
    obtain ⟨ptr, hptr⟩ := heapPaging_allocate M (Outcome.ok.inj hfound)
    obtain ⟨hptr', hQ⟩ := hdraw _ _ _ hP hptr
    have hrun := allocateFrame_run (ε := SyscallError) v
    have hrun' := allocateFrame_run (ε := SyscallError) v'
    rw [heapPaging_allocated M hptr] at hrun
    rw [heapPaging_allocated M hptr'] at hrun'
    rw [Comp.bind_run, Comp.bind_run, hrun, hrun']
    exact ⟨rfl, htable, hmemory, hQ⟩
  have hmapped : ∀ frame, Mirrors (Beneath Q) (mapTo page frame flags parentTableFlags >>= fun r =>
      Comp.ofExcept (mapError r) : VmM (heapPaging F ar tables M) SyscallError _) fun _ => Beneath Q := by
    rintro frame v v' ⟨⟩ ⟨htable, hmemory, hQ⟩ h
    obtain ⟨r, hr, hok⟩ := Comp.bind_inv h
    obtain rfl : r = .ok () := mapError_ok (Comp.ofExcept_ok_inv hok)
    rw [mapTo_run] at hr
    have hfirst := heapPaging_map (Outcome.ok.inj hr)
    obtain ⟨hsecond, htable', hQ'⟩ := hmap frame (v.table, v.frames) (v'.table, v'.frames) ()
      ⟨htable, hQ⟩ hfirst
    have hrun := mapTo_run (ε := SyscallError) page frame flags parentTableFlags v
    have hrun' := mapTo_run (ε := SyscallError) page frame flags parentTableFlags v'
    rw [heapPaging_mapped hfirst] at hrun
    rw [heapPaging_mapped hsecond] at hrun'
    rw [Comp.bind_run, Comp.bind_run, hrun, hrun']
    exact ⟨rfl, htable', hmemory, hQ'⟩
  have hsplit : (mapVirtPage flags page : VmM (heapPaging F ar tables M) _ _) =
      (allocateFrame >>= fun frame => Comp.okOr frame .noMemory) >>= fun frame =>
        mapTo page frame flags parentTableFlags >>= fun r => Comp.ofExcept (mapError r) := by
    rw [Comp.bind_assoc]
    rfl
  rw [hsplit]
  exact hframe.bind hmapped

/-- A byte of the block of the first page stays as it is, whatever is mapped behind it. -/
theorem mapPages_mirrors (lawful : F.Lawful Ok) (holes : F.HoleList Ok node heap) (hM : M.Lawful Ok)
    {s : FrameHeap F} {out : List Region} {ptr : Nat} (hok : Ok s.heap.fallbackAllocator s.heap.memory out)
    (hptr : s.block = some ptr) (hnode : ¬ node s.heap.fallbackAllocator s.heap.memory x)
    (hx : inside (ptr, StupidPage) x) (flags : PageTableFlags) (page : Page) (rest : List Page) :
    Mirrors (Beneath fun t t' => t = s ∧ t' = s.poke x c)
      (Comp.forEach (page :: rest) (mapVirtPage flags) : VmM (heapPaging F ar tables M) _ _)
      fun _ => Beneath (Differs Ok x c) := by
  have hmap : ∀ page frame, Mirrors (fun s s' => s'.1 = s.1 ∧ Differs Ok x c s.2 s'.2)
      (M.mapTo page frame flags parentTableFlags) fun _ s s' => s'.1 = s.1 ∧ Differs Ok x c s.2 s'.2 :=
    fun page frame => hM.mirrors x c page frame flags parentTableFlags
  have hfirst : Mirrors (Beneath fun t t' => t = s ∧ t' = s.poke x c)
      (mapVirtPage flags page : VmM (heapPaging F ar tables M) _ _) fun _ => Beneath (Differs Ok x c) :=
    mapVirtPage_mirrors flags page (allocateFrame_fresh lawful holes hok hptr hnode hx) (hmap page)
  refine hfirst.bind fun _ => Mirrors.forEach fun other _ => mapVirtPage_mirrors flags other ?_ (hmap other)
  refine (allocateFrame_beside lawful holes).conseq (fun _ _ h => h) ?_
  rintro _ t t' ⟨hpoke, _, hbeside, _⟩
  exact ⟨hpoke, hbeside.held⟩

end Loops

/-! ## What user code reads -/

section Readers

variable {ar : Arith} {map : List MemoryRegion} {F : FallbackHeap}
  {Ok : F.State → Bytes → List Region → Prop} {node : F.State → Bytes → Nat → Prop}

/-- A byte of the heap that no allocation holds and that keeps no list together. -/
def FreeByte (node : F.State → Bytes → Nat → Prop) (heap : Nat × Nat) (w : HeapWorld F) (x : Nat) : Prop :=
  heap.1 ≤ x ∧ x < heap.1 + heap.2 ∧ ¬ Covered (w.live.map reserved) x ∧
    ¬ node w.heap.fallbackAllocator w.heap.memory x ∧
    ∃ free : Index → List Nat, (∀ index, Threads w.heap.memory (w.heap.listHeads index) (free index)) ∧
      ∀ index, ∀ ptr ∈ free index, ¬ (ptr ≤ x ∧ x < ptr + 8)

/-- The same heap over a memory whose free bytes may be others. -/
def SameButFree (node : F.State → Bytes → Nat → Prop) (heap : Nat × Nat) (w : HeapWorld F) (m : Bytes) : Prop :=
  ∀ x, ¬ FreeByte node heap w x → m x = w.heap.memory x

variable (b : HeapBoot ar map) {M : HeapMapper F}

/-- The heap's bytes and size. -/
def HeapBoot.heap : Nat × Nat := (KERNEL_HEAP_START, 4096 * b.pages)

abbrev HeapKernel (F : FallbackHeap) (M : HeapMapper F) := Kernel (heapPaging F ar b.tables M)

def withMemory (k : HeapKernel b F M) (m : Bytes) : HeapKernel b F M :=
  { k with frames := { k.frames with heap := { k.frames.heap with memory := m } } }

/-- Byte `i` of a page, as the running task reads it. -/
def Reads (k : HeapKernel b F M) (page : Page) (i : Nat) (byte : UInt8) : Prop :=
  ∃ frame flags, k.leaf page = some (frame, flags) ∧ flags &&& PageTableFlags.PRESENT ≠ 0 ∧
    flags &&& PageTableFlags.USER_ACCESSIBLE ≠ 0 ∧
    ∃ v, HeapBlock b.pages v ∧ b.tables.translateAddr v = some frame.start ∧
      byte = k.frames.heap.memory (v.raw + i)

/-- The range of the two arguments ends where it starts, or below. -/
def EmptyRange (ar : Arith) (pos len : Nat) : Prop :=
  ∀ start stop, VirtAddr.new pos = some start → start.add ar len = some stop → stop.raw ≤ start.raw

/-- With checks, only a length of zero is an empty range. -/
theorem emptyRange_checked {σ κ : Type} {s : σ} {pos len : Nat} {a z : Page}
    (h : (parsePageRange .checked pos len s : Ran σ κ _ _).outcome = .ok (a, z)) :
    EmptyRange .checked pos len ↔ len = 0 := by
  obtain ⟨_, _, hstart, hstop⟩ := parsePageRange_ok.mp h
  have hsum := hstop
  simp only [VirtAddr.add, Option.bind_eq_some_iff] at hsum
  obtain ⟨sum, hadd, hnew⟩ := hsum
  have hadd := Arith.add_cases hadd
  have hnew := VirtAddr.new_cases hnew
  have hlow := a.start.canonical
  constructor
  · intro hempty
    have hle := hempty _ _ hstart hstop
    simp only [reduceCtorEq, false_and, or_false] at hadd
    omega
  · rintro rfl start stop hstart' hstop'
    rw [hstart] at hstart'
    obtain rfl := Option.some.inj hstart'
    rw [hstop] at hstop'
    obtain rfl := Option.some.inj hstop'
    simp only [reduceCtorEq, false_and, or_false] at hadd
    omega

theorem withMemory_frames {k : HeapKernel b F M} {w : HeapWorld F} (hk : k.frames.heap = w.heap) (x : Nat)
    (c : UInt8) : (withMemory b k (Function.update w.heap.memory x c)).frames = k.frames.poke x c := by
  simp only [withMemory, FrameHeap.poke, hk]
  rfl

theorem Admitted.over {env : Env (heapPaging F ar b.tables M)} {pos len perms : Nat}
    {k : HeapKernel b F M}
    {t : TaskId} {task : TaskContext _ t} {a z : Page} {flags : PageTableFlags}
    (h : Admitted env pos len perms k t task a z flags) (m : Bytes) :
    Admitted env pos len perms (withMemory b k m) t task a z flags where
  parsed := parsePageRange_ok.mpr (parsePageRange_ok.mp h.parsed)
  current := h.current
  found := h.found
  capable := h.capable
  allowed := h.allowed

theorem Admitted.range_nil {pg : Paging} {env : Env pg} {pos len perms : Nat} {k : Kernel pg} {t : TaskId}
    {task : TaskContext pg t} {a z : Page} {flags : PageTableFlags}
    (h : Admitted env pos len perms k t task a z flags) :
    Page.range env.arith a z = [] ↔ EmptyRange env.arith pos len := by
  obtain ⟨_, _, hstart, hstop⟩ := parsePageRange_ok.mp h.parsed
  constructor
  · intro hnil start stop hstart' hstop'
    rw [hstart] at hstart'
    obtain rfl := Option.some.inj hstart'
    rw [hstop] at hstop'
    obtain rfl := Option.some.inj hstop'
    by_contra hlt
    have hfirst : a ∈ Page.range env.arith a z :=
      Page.mem_range.mpr ⟨Nat.le_refl _, Page.index_lt_index.mpr (Nat.lt_of_not_le hlt)⟩
    simp [hnil] at hfirst
  · intro hempty
    have hle := Page.index_le_index.mpr (hempty _ _ hstart hstop)
    refine List.eq_nil_iff_forall_not_mem.mpr fun p hp => ?_
    have hp := Page.mem_range.mp hp
    omega

theorem Admitted.range_cons {pg : Paging} {env : Env pg} {pos len perms : Nat} {k : Kernel pg} {t : TaskId}
    {task : TaskContext pg t} {a z : Page} {flags : PageTableFlags}
    (h : Admitted env pos len perms k t task a z flags) (hmore : ¬ EmptyRange env.arith pos len) :
    ∃ rest, Page.range env.arith a z = a :: rest := by
  obtain ⟨page, rest, hrange⟩ := List.exists_cons_of_ne_nil (mt h.range_nil.mp hmore)
  have hfirst : (Page.range env.arith a z)[0]? = some page := by simp [hrange]
  obtain rfl : a = page := Page.index_inj (Page.getElem?_range.mp hfirst).1.symm
  exact ⟨rest, hrange⟩

/-- Where no page is mapped the call leaves the leaves alone. -/
theorem Admitted.nothing_read {env : Env (heapPaging F ar b.tables M)} {pos len perms : Nat}
    {k : HeapKernel b F M} {t : TaskId} {task : TaskContext _ t} {a z : Page} {flags : PageTableFlags}
    (h : Admitted env pos len perms k t task a z flags) (hnil : Page.range env.arith a z = []) {page : Page}
    (hpage : k.leaf page = none) (i : Nat) (byte : UInt8) :
    ¬ Reads b (MemoryCall.mapVirt env pos len perms k).state page i byte := by
  rintro ⟨frame, flags', hleaf, _⟩
  rw [h.run.2, Kernel.withSpace_leaf _ _ _ h.current, mapLoop, hnil] at hleaf
  rw [h.leaf] at hpage
  exact absurd (hpage.symm.trans hleaf) (by simp)

/-- What lies behind the first sixteen bytes of the next page's block is free. -/
theorem block_free (holes : F.HoleList Ok node b.heap) (lawful : F.Lawful Ok) {w : HeapWorld F}
    {free : Index → List Nat} {out : List Region} (hI : HeapInv Ok w free out) {s : FrameHeap F}
    (hs : s.heap = w.heap) {ptr i : Nat} (hptr : s.block = some ptr) (hi : 16 ≤ i) (hi' : i < 4096) :
    FreeByte node b.heap w (ptr + i) := by
  rcases hcall : F.allocateFirstFit StupidPage w.heap.fallbackAllocator w.heap.memory with ⟨r, state, m⟩
  simp only [FrameHeap.block, hs, hcall] at hptr
  subst hptr
  obtain ⟨hlow, hhigh⟩ := holes.within hI.ok hcall
  obtain ⟨_, hapart, _⟩ := lawful.allocated hI.ok hcall
  have hin : inside (ptr, StupidPage) (ptr + i) := ⟨Nat.le_add_right _ _, Nat.add_lt_add_left hi' ptr⟩
  simp only [StupidPage] at hhigh
  refine ⟨by omega, by omega, ?_, holes.behind hI.ok hcall hi hi', free, hI.threaded, ?_⟩
  · rintro ⟨a, ha, hx⟩
    obtain ⟨live, hlive, rfl⟩ := List.mem_map.mp ha
    exact hapart _ (hI.live_out hlive) _ hin hx
  · rintro index p hp ⟨hx, hx'⟩
    exact hapart _ (hI.free_out (mem_freeBlocks hp)) _ hin (inside_node hx hx')

theorem heapBlock_of_block (holes : F.HoleList Ok node b.heap) (lawful : F.Lawful Ok) {w : HeapWorld F}
    {free : Index → List Nat} {out : List Region} (hI : HeapInv Ok w free out) {s : FrameHeap F}
    (hs : s.heap = w.heap) {ptr : Nat} (hptr : s.block = some ptr) {v : VirtAddr}
    (hv : VirtAddr.new ptr = some v) :
    HeapBlock b.pages v ∧ v.raw = ptr := by
  rcases hcall : F.allocateFirstFit StupidPage w.heap.fallbackAllocator w.heap.memory with ⟨r, state, m⟩
  simp only [FrameHeap.block, hs, hcall] at hptr
  subst hptr
  obtain ⟨hlow, hhigh⟩ := holes.within hI.ok hcall
  obtain ⟨⟨_, halign, _⟩, _⟩ := lawful.allocated hI.ok hcall
  have haligned : ptr % 4096 = 0 := Nat.mod_eq_zero_of_dvd halign
  have hcases := VirtAddr.new_cases hv
  simp only [HeapBoot.heap, KERNEL_HEAP_START, StupidPage] at hlow hhigh
  simp only [HeapBlock, KERNEL_HEAP_START]
  omega

/-- The same call over another byte in the block of its first page. -/
theorem Admitted.poked (lawful : F.Lawful Ok) (holes : F.HoleList Ok node b.heap) (hM : M.Lawful Ok)
    {w : HeapWorld F} {out : List Region}
    (hheap : Ok w.heap.fallbackAllocator w.heap.memory out) {env : Env (heapPaging F ar b.tables M)}
    {pos len perms : Nat} {k : HeapKernel b F M} {t : TaskId} {task : TaskContext _ t} {page z : Page}
    {flags : PageTableFlags} {rest : List Page} (h : Admitted env pos len perms k t task page z flags)
    (hk : k.frames.heap = w.heap) (hrange : Page.range env.arith page z = page :: rest)
    (hok : (MemoryCall.mapVirt env pos len perms k).outcome = .ok ()) {ptr x : Nat}
    (hptr : FrameHeap.block k.frames = some ptr) (hin : inside (ptr, StupidPage) x)
    (hnode : ¬ node w.heap.fallbackAllocator w.heap.memory x) (c : UInt8) :
    let r := MemoryCall.mapVirt env pos len perms k
    let r' := MemoryCall.mapVirt env pos len perms (withMemory b k (Function.update w.heap.memory x c))
    r'.outcome = .ok () ∧ r'.state.frames = FrameHeap.poke x c r.state.frames ∧
      ∀ p, r'.state.leaf p = r.state.leaf p := by
  intro r r'
  let k' := withMemory b k (Function.update w.heap.memory x c)
  have hadmitted : Admitted env pos len perms k' t task page z flags := h.over b _
  have hfollows : Mirrors (Beneath fun s s' => s = k.frames ∧ s' = FrameHeap.poke x c k.frames)
      (mapLoop env page z flags : VmM (heapPaging F ar b.tables M) _ _)
      fun _ => Beneath (FrameHeap.Differs Ok x c) := by
    rw [mapLoop, hrange]
    rw [← hk] at hheap hnode
    exact mapPages_mirrors lawful holes hM hheap hptr hnode hin _ page rest
  obtain ⟨hout, hstate⟩ := h.run
  obtain ⟨hout', hstate'⟩ := hadmitted.run
  obtain ⟨hok', htable, _, hpoke, _⟩ := hfollows (k.space task) (k'.space task) ()
    ⟨rfl, rfl, rfl, withMemory_frames b hk x c⟩ (hout.symm.trans hok)
  have hr : r.state = k.withSpace task (mapLoop env page z flags (k.space task)).state := hstate
  have hr' : r'.state = k'.withSpace task (mapLoop env page z flags (k'.space task)).state := hstate'
  refine ⟨hout'.trans hok', ?_, fun p => ?_⟩
  · rw [hr, hr']
    exact hpoke
  · rw [hr, hr', Kernel.withSpace_leaf _ _ _ h.current, Kernel.withSpace_leaf _ _ _ hadmitted.current, htable]

/-- The first fresh page reads differently when a byte in its block does. -/
theorem Admitted.read_differs (lawful : F.Lawful Ok) (holes : F.HoleList Ok node b.heap) (hM : M.Lawful Ok)
    {w : HeapWorld F} {free : Index → List Nat} {out : List Region} (hI : HeapInv Ok w free out)
    {env : Env (heapPaging F ar b.tables M)} {pos len perms : Nat} {k : HeapKernel b F M} {t : TaskId}
    {task : TaskContext _ t} {page z : Page} {flags : PageTableFlags} {rest : List Page}
    (h : Admitted env pos len perms k t task page z flags) (hk : k.frames.heap = w.heap)
    (hrange : Page.range env.arith page z = page :: rest)
    (hok : (MemoryCall.mapVirt env pos len perms k).outcome = .ok ()) :
    k.leaf page = none ∧ ∃ m, SameButFree node b.heap w m ∧
      (MemoryCall.mapVirt env pos len perms (withMemory b k m)).outcome = .ok () ∧
      ∃ byte, Reads b (MemoryCall.mapVirt env pos len perms k).state page 16 byte ∧
        ¬ Reads b (MemoryCall.mapVirt env pos len perms (withMemory b k m)).state page 16 byte := by
  obtain ⟨hout, hstate⟩ := h.run
  have hloop := hout.symm.trans hok
  rw [mapLoop, hrange] at hloop hstate
  obtain ⟨hnone, frame, hframe, hleaf⟩ := mapPages_leaf (hM.paging ar b.tables) hloop
  obtain ⟨ptr, hdrawn⟩ := heapPaging_allocate M hframe
  obtain ⟨hptr, v, hv, htranslate⟩ := FrameHeap.allocateFrame_block hdrawn
  obtain ⟨hblock, hraw⟩ := heapBlock_of_block b holes lawful hI hk hptr hv
  have hfree := block_free b holes lawful hI hk hptr (i := 16) (by decide) (by decide)
  have hin : inside (ptr, StupidPage) (ptr + 16) := ⟨Nat.le_add_right _ _, by simp [StupidPage]⟩
  have hnode := hfree.2.2.2.1
  rw [← Kernel.withSpace_leaf task _ page h.current, ← hstate] at hleaf
  obtain ⟨hpresent, huser⟩ := memoryFlags_user h.allowed
  let shown : FrameHeap F := (MemoryCall.mapVirt env pos len perms k).state.frames
  obtain ⟨c, hc⟩ : ∃ c : UInt8, c ≠ shown.heap.memory (ptr + 16) := ⟨shown.heap.memory (ptr + 16) + 1, by simp⟩
  obtain ⟨hok', hframes, hleaves⟩ := h.poked b lawful holes hM hI.ok hk hrange hok hptr hin hnode c
  refine ⟨(h.leaf page).trans hnone, _, ?_, hok', shown.heap.memory (ptr + 16), ?_, ?_⟩
  · intro x hx
    have hne : x ≠ ptr + 16 := fun he => hx (he ▸ hfree)
    exact Function.update_of_ne hne _ _
  · exact ⟨frame, _, hleaf, hpresent, huser, v, hblock, htranslate, by rw [hraw]⟩
  · rintro ⟨frame', flags', hleaf', _, _, u, hu, hframe', hbyte⟩
    rw [hleaves, hleaf] at hleaf'
    cases hleaf'
    obtain rfl := b.translate_inj hblock hu htranslate hframe'
    rw [hframes, hraw] at hbyte
    exact hc (by simpa [FrameHeap.poke] using hbyte.symm)

/-- Heaps that differ only in free memory show the same through fresh pages exactly where no page
is mapped. -/
theorem mapVirt_shows_nothing_iff (lawful : F.Lawful Ok) (holes : F.HoleList Ok node b.heap) (hM : M.Lawful Ok)
    {s₀ : F.State} {m₀ : Bytes} (start : Ok s₀ m₀ []) {ops : List HeapOp} {w : HeapWorld F}
    (h : run (HeapWorld.step ar) (HeapWorld.fresh s₀ m₀) ops = some w)
    {env : Env (heapPaging F ar b.tables M)} {k : HeapKernel b F M} (hk : k.frames.heap = w.heap)
    {pos len perms : Nat} (hok : (MemoryCall.mapVirt env pos len perms k).outcome = .ok ()) :
    (∀ m, SameButFree node b.heap w m →
      (MemoryCall.mapVirt env pos len perms (withMemory b k m)).outcome = .ok () →
      ∀ page, k.leaf page = none → ∀ i < 4096, ∀ byte,
      Reads b (MemoryCall.mapVirt env pos len perms k).state page i byte ↔
        Reads b (MemoryCall.mapVirt env pos len perms (withMemory b k m)).state page i byte) ↔
      EmptyRange env.arith pos len := by
  obtain ⟨free, out, hI⟩ := HeapInv.run_keeps lawful start h
  obtain ⟨t, task, a, z, flags, hadmitted⟩ := Admitted.of_ok hok
  constructor
  · intro hsame
    by_contra hmore
    obtain ⟨rest, hrange⟩ := hadmitted.range_cons hmore
    obtain ⟨hpage, m, hm, hok', byte, hreads, hnot⟩ := hadmitted.read_differs b lawful holes hM hI hk hrange hok
    exact hnot ((hsame m hm hok' a hpage 16 (by decide) byte).mp hreads)
  · intro hempty m hm hok' page hpage i hi byte
    have hnil := hadmitted.range_nil.mpr hempty
    exact iff_of_false (hadmitted.nothing_read b hnil hpage i byte)
      ((hadmitted.over b m).nothing_read b hnil hpage i byte)

end Readers

/-! ## A small machine -/

/-- The small heap, of which the boot code has mapped five pages. -/
def smallHeap : FallbackHeap := bump (KERNEL_HEAP_START + 4096 * smallBoot.pages)

def SmallOk (top : Nat) (m : Bytes) (out : List Region) : Prop := BumpOk top m out ∧ KERNEL_HEAP_START ≤ top

theorem smallHeap_top {top top' : Nat} {m m' : Bytes} {layout : Layout} {r : Option Nat}
    (h : smallHeap.allocateFirstFit layout (top : Nat) m = (r, (top' : Nat), m')) :
    m' = m ∧ top ≤ top' ∧
      ∀ ptr ∈ r, top ≤ ptr ∧ ptr + layout.size ≤ KERNEL_HEAP_START + 4096 * smallBoot.pages := by
  have hup := le_roundUp layout top
  simp only [smallHeap, bump] at h
  split at h
  · rename_i hfits
    cases h
    have hlimit := Nat.le_trans hfits (Nat.min_le_left _ _)
    refine ⟨rfl, by omega, ?_⟩
    intro ptr hptr
    obtain rfl := Option.some.inj hptr
    exact ⟨hup, hlimit⟩
  · cases h
    simp

theorem smallHeap_lawful : smallHeap.Lawful SmallOk where
  allocated := by
    intro (top : Nat) (top' : Nat) m m' out layout ptr hok hcall
    obtain ⟨hplaced, hapart, hnext, hsame⟩ := (bump_lawful _).allocated hok.1 hcall
    exact ⟨hplaced, hapart, ⟨hnext, Nat.le_trans hok.2 (smallHeap_top hcall).2.1⟩, hsame⟩
  refused := by
    intro (top : Nat) (top' : Nat) m m' out layout hok hcall
    obtain ⟨hnext, hsame⟩ := (bump_lawful _).refused hok.1 hcall
    exact ⟨⟨hnext, Nat.le_trans hok.2 (smallHeap_top hcall).2.1⟩, hsame⟩
  deallocated := by
    intro top m out layout ptr hok hin
    obtain ⟨hnext, hsame⟩ := (bump_lawful _).deallocated hok.1 hin
    exact ⟨⟨hnext, hok.2⟩, hsame⟩
  written := fun hok _ => ⟨hok.1, hok.2⟩

/-- It keeps nothing in its memory. -/
theorem smallHeap_holes : smallHeap.HoleList SmallOk (fun _ _ _ => False) smallBoot.heap where
  kept := fun _ _ => id
  behind := fun _ _ _ _ => id
  unread := by
    intro (top : Nat) (top' : Nat) m m' out layout r x b _ _ hcall _
    obtain ⟨rfl, _⟩ := smallHeap_top hcall
    simp only [smallHeap, bump] at hcall ⊢
    split at hcall
    · rename_i hfits
      rw [if_pos hfits]
      cases hcall
      rfl
    · rename_i hfits
      rw [if_neg hfits]
      cases hcall
      rfl
  within := by
    intro (top : Nat) (top' : Nat) m m' out layout ptr hok hcall
    obtain ⟨_, _, hptr⟩ := smallHeap_top hcall
    obtain ⟨hlow, hhigh⟩ := hptr ptr rfl
    exact ⟨Nat.le_trans hok.2 hlow, hhigh⟩

abbrev smallMapper : HeapMapper smallHeap :=
  UserTable.mapper smallHeap .checked smallBoot.tables fun _ frames => frames

theorem smallMapper_lawful : smallMapper.Lawful SmallOk :=
  UserTable.mapper_lawful smallHeap_lawful smallHeap_holes .checked smallBoot.tables _

abbrev smallPaging : Paging := heapPaging smallHeap .checked smallBoot.tables smallMapper

def smallEnv : Env smallPaging where
  arith := .checked
  tryReserve := true
  newTable _ := none
  readFileToMemory h := some (.error .noMemory, h)
  userString _ _ := none

/-- A task that may map memory, on a machine whose heap has just been set up over a memory of zeros. -/
def smallKernel : Kernel smallPaging where
  tasks := Finmap.insert parentId { TaskContext.fresh initId parentId
    (⟨fun _ _ => .unused, fun _ => none⟩ : UserTable) with
    capabilities := ⟨1, [(0, ⟨.DUPLICATE, .mapVirtualToRam⟩)]⟩ } ∅
  executableTasks := []
  taskId := some parentId
  taskSwitchLocks := none
  nextPid := 3
  roots := ∅
  frames := ⟨(HeapWorld.fresh (F := smallHeap) (KERNEL_HEAP_START : Nat) fun _ => 0).heap,
    .new (oneRegion 8 eight_frames)⟩
  memory := fun _ => 0

theorem smallKernel_maps : (MemoryCall.mapVirt smallEnv 0x1000 0x1000 1 smallKernel).outcome = .ok () := by
  decide +kernel

def smallWorld : HeapWorld smallHeap := HeapWorld.fresh (KERNEL_HEAP_START : Nat) fun _ => 0

theorem smallOk : SmallOk KERNEL_HEAP_START (fun _ => 0) [] := ⟨⟨by decide, by simp⟩, Nat.le_refl _⟩

theorem mapVirt_shows_nothing_iff_small :
    (∀ m, SameButFree (fun _ _ _ => False) smallBoot.heap smallWorld m →
      (MemoryCall.mapVirt smallEnv 0x1000 0x1000 1 (withMemory smallBoot smallKernel m)).outcome = .ok () →
      ∀ page, smallKernel.leaf page = none → ∀ i < 4096, ∀ byte,
        Reads smallBoot (MemoryCall.mapVirt smallEnv 0x1000 0x1000 1 smallKernel).state page i byte ↔
          Reads smallBoot
            (MemoryCall.mapVirt smallEnv 0x1000 0x1000 1 (withMemory smallBoot smallKernel m)).state page i byte) ↔
      EmptyRange .checked 0x1000 0x1000 :=
  mapVirt_shows_nothing_iff smallBoot smallHeap_lawful smallHeap_holes smallMapper_lawful smallOk
    (run_nil smallWorld) rfl smallKernel_maps

/-- A page of the small machine is mapped over two heaps, and what one could find in free memory is
read through it. -/
theorem fresh_page_shows_free_memory : ∃ m page byte,
    SameButFree (fun _ _ _ => False) smallBoot.heap smallWorld m ∧ smallKernel.leaf page = none ∧
    (MemoryCall.mapVirt smallEnv 0x1000 0x1000 1 smallKernel).outcome = .ok () ∧
    (MemoryCall.mapVirt smallEnv 0x1000 0x1000 1 (withMemory smallBoot smallKernel m)).outcome = .ok () ∧
    Reads smallBoot (MemoryCall.mapVirt smallEnv 0x1000 0x1000 1 smallKernel).state page 16 byte ∧
    ¬ Reads smallBoot (MemoryCall.mapVirt smallEnv 0x1000 0x1000 1 (withMemory smallBoot smallKernel m)).state
      page 16 byte := by
  have hI : HeapInv SmallOk smallWorld (fun _ => []) [] := HeapInv.fresh smallOk
  obtain ⟨t, task, a, z, flags, hadmitted⟩ := Admitted.of_ok smallKernel_maps
  have hmore : ¬ EmptyRange .checked 0x1000 0x1000 := fun hempty =>
    absurd ((emptyRange_checked hadmitted.parsed).mp hempty) (by decide)
  obtain ⟨rest, hrange⟩ := hadmitted.range_cons hmore
  obtain ⟨hpage, m, hm, hok, byte, hreads, hnot⟩ :=
    hadmitted.read_differs smallBoot smallHeap_lawful smallHeap_holes smallMapper_lawful hI rfl hrange smallKernel_maps
  exact ⟨m, a, byte, hm, hpage, smallKernel_maps, hok, hreads, hnot⟩

end Idkernel
