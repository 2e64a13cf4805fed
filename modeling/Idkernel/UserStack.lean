import Idkernel.HeapSafety
import Idkernel.Paging

/-!
# The user stack of a new task

The stack is a heap allocation of 64 KiB whose pages are mapped again, from one
fixed user address on. Whole pages are mapped, while the heap promises nothing
about where in a page the allocation begins.
-/
namespace Idkernel

open Address Traced Locks

def USER_STACK_SIZE : Nat := 64 * 1024

def USERSPACE_STACK_ADDR : Nat := 0x40000000

def KERNEL_HEAP_START : Nat := 0xFFFFC00000000000

/-- The layout of `[u8; USER_STACK_SIZE]`. -/
def stackLayout : Layout := ⟨USER_STACK_SIZE, 1, ⟨0, rfl⟩, by decide⟩

variable {pg : Paging} {ε : Type}

/-! ## Mounting -/

def stackFlags : PageTableFlags :=
  PageTableFlags.PRESENT ||| PageTableFlags.WRITABLE ||| PageTableFlags.NO_EXECUTE |||
    PageTableFlags.USER_ACCESSIBLE

/-- What `map_to` gives to missing parent tables. -/
def stackParentFlags : PageTableFlags :=
  stackFlags &&& (PageTableFlags.PRESENT ||| PageTableFlags.WRITABLE ||| PageTableFlags.USER_ACCESSIBLE)

def translatePage (table : pg.Table) (page : Page) : Option PhysFrame := (pg.leaf table page).map Prod.fst

/-- The pages of the loop, with the user page one further each time. -/
def mountStackPages (ar : Arith) (kernelTable : pg.Table) : List Page → Page → VmM pg ε Unit
  | [], _ => Comp.ret ()
  | heapPage :: rest, userPage => do
    let realStack ← Comp.unwrap (translatePage kernelTable heapPage)
    let mapped ← mapTo userPage realStack stackFlags stackParentFlags
    Comp.expect (mapped.isOk = true)
    let userPage ← Comp.unwrap (userPage.next ar)
    mountStackPages ar kernelTable rest userPage

def mountUserStack (ar : Arith) (kernelTable : pg.Table) (userStack : Nat) : VmM pg ε Unit :=
  withGuard .frameAllocator .write do
    let stackStart ← Comp.unwrap (VirtAddr.new userStack)
    let stackEnd ← Comp.unwrap (stackStart.add ar USER_STACK_SIZE)
    let last ← Comp.unwrap (stackEnd.sub 1)
    let heapStackRange := Page.rangeInclusive ar (Page.containingAddress stackStart) (Page.containingAddress last)
    let userStart ← Comp.unwrap (VirtAddr.new USERSPACE_STACK_ADDR)
    mountStackPages ar kernelTable heapStackRange (Page.containingAddress userStart)

/-! ## What mounting maps -/

section Mounted

variable {ar : Arith} {kernelTable : pg.Table} {v : Vm pg}

theorem mountStackPages_cons {heapPage userPage : Page} {rest : List Page}
    (h : (mountStackPages ar kernelTable (heapPage :: rest) userPage v : Ran _ KEvent ε Unit).outcome = .ok ()) :
    ∃ leaf table frames next, pg.leaf kernelTable heapPage = some leaf ∧
      pg.mapTo v.table v.frames userPage leaf.1 stackFlags stackParentFlags = (.ok (), table, frames) ∧
      userPage.next ar = some next ∧
      (mountStackPages ar kernelTable rest next ⟨table, frames, v.memory⟩ : Ran _ KEvent
      ε Unit).outcome = .ok () ∧
      (mountStackPages ar kernelTable (heapPage :: rest) userPage v : Ran _ KEvent ε Unit).state =
        (mountStackPages ar kernelTable rest next ⟨table, frames, v.memory⟩ : Ran _ KEvent ε Unit).state := by
  rw [mountStackPages, translatePage] at h ⊢
  cases hleaf : pg.leaf kernelTable heapPage with
  | none =>
    rw [hleaf] at h
    cases h
  | some leaf =>
    rw [hleaf] at h
    simp only [Option.map_some] at h ⊢
    rw [Comp.unwrap_some, Comp.ret_bind, Comp.bind_run, mapTo_run] at h ⊢
    dsimp only at h ⊢
    rcases hmap : pg.mapTo v.table v.frames userPage leaf.1 stackFlags stackParentFlags with ⟨r, table, frames⟩
    rw [hmap] at h
    cases r with
    | error e => cases h
    | ok _ =>
      cases hnext : userPage.next ar with
      | none =>
        rw [hnext] at h
        cases h
      | some next =>
        rw [hnext] at h
        exact ⟨leaf, table, frames, next, rfl, hmap, rfl, h, rfl⟩

/-- The `i`-th heap page is seen at the `i`-th user page. -/
theorem mountStackPages_leaf (hpg : pg.Lawful) {pages : List Page} {userPage : Page}
    (hroom : userPage.index + pages.length < 2 ^ 36)
    (h : (mountStackPages ar kernelTable pages userPage v : Ran _ KEvent ε Unit).outcome = .ok ()) :
    (∀ i heapPage q, pages[i]? = some heapPage → q.index = userPage.index + i →
      pg.leaf v.table q = none ∧ ∃ leaf, pg.leaf kernelTable heapPage = some leaf ∧
        pg.leaf (mountStackPages ar kernelTable pages userPage v : Ran _ KEvent ε Unit).state.table q =
          some (leaf.1, stackFlags)) ∧
    ∀ q, (q.index < userPage.index ∨ userPage.index + pages.length ≤ q.index) →
      pg.leaf (mountStackPages ar kernelTable pages userPage v : Ran _ KEvent ε Unit).state.table q =
        pg.leaf v.table q := by
  induction pages generalizing userPage v with
  | nil => exact ⟨fun i heapPage q hi => by simp at hi, fun q _ => rfl⟩
  | cons heapPage rest ih =>
    obtain ⟨leaf, table, frames, next, hleaf, hmap, hnext, hrest, hstate⟩ := mountStackPages_cons h
    obtain ⟨hfree, htable⟩ := hpg.mapped _ _ _ _ _ _ _ _ hmap
    have hlen : (heapPage :: rest).length = rest.length + 1 := rfl
    have hindex : next.index = userPage.index + 1 := Page.next_below (by omega) hnext
    obtain ⟨hin, hout⟩ := ih (by omega) hrest
    have hother : ∀ q : Page, q.index ≠ userPage.index → pg.leaf table q = pg.leaf v.table q := by
      intro q hq
      have hne : q ≠ userPage := fun he => hq (he ▸ rfl)
      rw [htable, Function.update_of_ne hne]
    rw [hstate]
    constructor
    · intro i hp q hi hq
      cases i with
      | zero =>
        obtain rfl : heapPage = hp := by simpa using hi
        obtain rfl : q = userPage := Page.index_inj hq
        refine ⟨hfree, leaf, hleaf, ?_⟩
        rw [hout q (by omega)]
        exact (congrFun htable q).trans (Function.update_self ..)
      | succ i =>
        obtain ⟨hnone, hsome⟩ := hin i hp q (by simpa using hi) (by omega)
        exact ⟨(hother q (by omega)).symm.trans hnone, hsome⟩
    · intro q hq
      rw [hout q (by omega)]
      exact hother q (by omega)

end Mounted

/-! ## Bytes -/

/-- The physical byte at an address of the kernel. -/
def kernelByte (table : pg.Table) (v : VirtAddr) : Option Nat :=
  (translatePage table (Page.containingAddress v)).map fun frame => frame.start.raw + v.raw % 4096

/-- The physical byte user code reaches at an address. -/
def userByte (table : pg.Table) (v : VirtAddr) : Option Nat :=
  match pg.leaf table (Page.containingAddress v) with
  | some (frame, flags) =>
    if flags &&& PageTableFlags.USER_ACCESSIBLE ≠ 0 then some (frame.start.raw + v.raw % 4096) else none
  | none => none

/-- What user code reaches in the later table and did not reach there in the earlier one. -/
def Exposed (t t' : pg.Table) (b : Nat) : Prop := ∃ u, userByte t' u = some b ∧ userByte t u ≠ some b

/-- User code reaches exactly the bytes of the allocation, in order. -/
structure StackExposed (kernelTable t t' : pg.Table) (userStack : Nat) : Prop where
  exactly : ∀ b, Exposed t t' b ↔
    ∃ v, (userStack ≤ v.raw ∧ v.raw < userStack + USER_STACK_SIZE) ∧ kernelByte kernelTable v = some b
  inOrder : ∀ u v : VirtAddr, USERSPACE_STACK_ADDR ≤ u.raw → u.raw < USERSPACE_STACK_ADDR + USER_STACK_SIZE →
    v.raw = userStack + (u.raw - USERSPACE_STACK_ADDR) → userByte t' u = kernelByte kernelTable v

/-- Every page of the heap has a frame of its own. -/
structure HeapMapped (kernelTable : pg.Table) (pages : Nat) : Prop where
  room : KERNEL_HEAP_START + 4096 * pages < 2 ^ 64
  mapped : ∀ p : Page, KERNEL_HEAP_START ≤ p.start.raw → p.start.raw < KERNEL_HEAP_START + 4096 * pages →
    ∃ frame, translatePage kernelTable p = some frame
  distinct : ∀ p q : Page, KERNEL_HEAP_START ≤ p.start.raw → p.start.raw < KERNEL_HEAP_START + 4096 * pages →
    KERNEL_HEAP_START ≤ q.start.raw → q.start.raw < KERNEL_HEAP_START + 4096 * pages →
    translatePage kernelTable p = translatePage kernelTable q → p = q

/-- How many pages the allocation touches. -/
def stackPages (userStack : Nat) : Nat := (userStack % 4096 + USER_STACK_SIZE + 4095) / 4096

/-- The allocation lies in the heap. -/
def InHeap (pages userStack : Nat) : Prop :=
  KERNEL_HEAP_START ≤ userStack ∧ userStack + USER_STACK_SIZE ≤ KERNEL_HEAP_START + 4096 * pages

instance (pages userStack : Nat) : Decidable (InHeap pages userStack) := inferInstanceAs (Decidable (_ ∧ _))

section Bytes

variable {ar : Arith} {kernelTable : pg.Table} {v : Vm pg} {pages userStack : Nat}

/-- None of the addresses leaves the lower or the upper half, so the pages are those around the stack. -/
theorem mountUserStack_run (ar : Arith) (kernelTable : pg.Table) (v : Vm pg)
    (hroom : KERNEL_HEAP_START + 4096 * pages < 2 ^ 64) (hheap : InHeap pages userStack) :
    ∃ start last user : VirtAddr, start.raw = userStack ∧ last.raw = userStack + 65535 ∧
      user.raw = USERSPACE_STACK_ADDR ∧
      (mountUserStack ar kernelTable userStack v : Ran _ KEvent ε Unit) =
        withGuard .frameAllocator .write (mountStackPages ar kernelTable
          (Page.rangeInclusive ar (Page.containingAddress start) (Page.containingAddress last))
          (Page.containingAddress user)) v := by
  simp only [InHeap, KERNEL_HEAP_START, USER_STACK_SIZE] at hroom hheap
  obtain ⟨start, hstart⟩ : ∃ a : VirtAddr, a.raw = userStack := ⟨⟨userStack, by omega⟩, rfl⟩
  obtain ⟨stop, hstop⟩ : ∃ a : VirtAddr, a.raw = userStack + 65536 := ⟨⟨userStack + 65536, by omega⟩, rfl⟩
  obtain ⟨last, hlast⟩ : ∃ a : VirtAddr, a.raw = userStack + 65535 := ⟨⟨userStack + 65535, by omega⟩, rfl⟩
  obtain ⟨user, huser, huserRaw⟩ :
      ∃ a, VirtAddr.new USERSPACE_STACK_ADDR = some a ∧ a.raw = USERSPACE_STACK_ADDR :=
    ⟨_, VirtAddr.new_low (by decide), rfl⟩
  have hnew : VirtAddr.new userStack = some start := hstart ▸ VirtAddr.new_raw start
  have hadd : start.add ar USER_STACK_SIZE = some stop := by
    rw [VirtAddr.add, hstart, ar.add_of_lt (by simp only [USER_STACK_SIZE]; omega)]
    exact hstop ▸ VirtAddr.new_raw stop
  have hsub : stop.sub 1 = some last := by
    have hpred : stop.raw - 1 = last.raw := by omega
    rw [VirtAddr.sub, if_pos (by omega), hpred]
    exact VirtAddr.new_raw last
  refine ⟨start, last, user, hstart, hlast, huserRaw, withGuard_congr ?_⟩
  rw [hnew, Comp.unwrap_some, Comp.ret_bind, hadd, Comp.unwrap_some, Comp.ret_bind, hsub, Comp.unwrap_some,
    Comp.ret_bind, huser]
  rfl

theorem mountUserStack_pages (hroom : KERNEL_HEAP_START + 4096 * pages < 2 ^ 64) (hheap : InHeap pages userStack)
    (h : (mountUserStack ar kernelTable userStack v : Ran _ KEvent ε Unit).outcome = .ok ()) :
    ∃ (range : List Page) (first userPage : Page), first.start.raw = userStack - userStack % 4096 ∧
      userPage.start.raw = USERSPACE_STACK_ADDR ∧ range.length ≤ stackPages userStack ∧
      (∀ i (p : Page), i < stackPages userStack → p.index = first.index + i → range[i]? = some p) ∧
      (mountStackPages ar kernelTable range userPage v : Ran _ KEvent ε Unit).outcome = .ok () ∧
      (mountUserStack ar kernelTable userStack v : Ran _ KEvent ε Unit).state =
        (mountStackPages ar kernelTable range userPage v : Ran _ KEvent ε Unit).state := by
  obtain ⟨start, last, user, hstart, hlast, huser, hrun⟩ :=
    mountUserStack_run (ε := ε) ar kernelTable v hroom hheap
  rw [hrun, withGuard_outcome] at h
  simp only [InHeap, KERNEL_HEAP_START, USER_STACK_SIZE] at hroom hheap
  have hfirst : (Page.containingAddress start).start.raw = start.raw - start.raw % 4096 := rfl
  have hfirst' := (Page.containingAddress start).index_cases
  have hlast' : (Page.containingAddress last).start.raw = last.raw - last.raw % 4096 := rfl
  have hlast'' := (Page.containingAddress last).index_cases
  have huser' : (Page.containingAddress user).start.raw = user.raw - user.raw % 4096 := rfl
  have hn : (Page.containingAddress last).index + 1 =
    (Page.containingAddress start).index + stackPages userStack := by
    simp only [stackPages, USER_STACK_SIZE]
    omega
  refine ⟨_, _, _, hstart ▸ hfirst, ?_, ?_, ?_, h, by rw [hrun, withGuard_state]⟩
  · rw [huser', huser]
    rfl
  · by_contra hlong
    have hp := (Page.getElem?_rangeInclusive (by omega)).mp (List.getElem?_eq_getElem (Nat.lt_of_not_le hlong))
    omega
  · intro i p hi hp
    exact (Page.getElem?_rangeInclusive (by omega)).mpr (by omega)

/-- User addresses show the heap from the beginning of the allocation's first page on. -/
theorem mounted_inside (hpg : pg.Lawful) (hroom : KERNEL_HEAP_START + 4096 * pages < 2 ^ 64)
    (hheap : InHeap pages userStack)
    (h : (mountUserStack ar kernelTable userStack v : Ran _ KEvent ε Unit).outcome = .ok ())
    {u w : VirtAddr} {d : Nat}
    (hu : u.raw = USERSPACE_STACK_ADDR + d) (hw : w.raw = userStack - userStack % 4096 + d)
    (hd : d < 4096 * stackPages userStack) :
    userByte v.table u = none ∧
      userByte (mountUserStack ar kernelTable userStack v : Ran _ KEvent ε Unit).state.table u =
        kernelByte kernelTable w := by
  obtain ⟨range, first, userPage, hfirst, huser, hlen, hrange, hok, hstate⟩ := mountUserStack_pages hroom hheap h
  have hsmall : stackPages userStack ≤ 17 := by
    simp only [stackPages, USER_STACK_SIZE]
    omega
  simp only [InHeap, KERNEL_HEAP_START, USERSPACE_STACK_ADDR] at hroom hheap huser hu
  have hfirst' := first.index_cases
  have huser' := userPage.index_cases
  have hq : (Page.containingAddress u).start.raw = u.raw - u.raw % 4096 := rfl
  have hp : (Page.containingAddress w).start.raw = w.raw - w.raw % 4096 := rfl
  have hq' := (Page.containingAddress u).index_cases
  have hp' := (Page.containingAddress w).index_cases
  obtain ⟨hin, _⟩ := mountStackPages_leaf hpg (by omega) hok
  have hi : d / 4096 < stackPages userStack := by omega
  obtain ⟨hnone, leaf, hleaf, hsome⟩ := hin (d / 4096) (Page.containingAddress w) (Page.containingAddress u)
    (hrange _ _ hi (by omega)) (by omega)
  have hoffset : u.raw % 4096 = w.raw % 4096 := by omega
  have haccess : stackFlags &&& PageTableFlags.USER_ACCESSIBLE ≠ 0 := by decide
  constructor
  · simp only [userByte, hnone]
  · simp only [userByte, hstate, hsome, if_pos haccess, kernelByte, translatePage, hleaf,
      Option.map_some, hoffset]

theorem mounted_outside (hpg : pg.Lawful) (hroom : KERNEL_HEAP_START + 4096 * pages < 2 ^ 64)
    (hheap : InHeap pages userStack)
    (h : (mountUserStack ar kernelTable userStack v : Ran _ KEvent ε Unit).outcome = .ok ()) {u : VirtAddr}
    (hu : u.raw < USERSPACE_STACK_ADDR ∨ USERSPACE_STACK_ADDR + 4096 * stackPages userStack ≤ u.raw) :
    userByte (mountUserStack ar kernelTable userStack v : Ran _ KEvent ε Unit).state.table u =
    userByte v.table u := by
  obtain ⟨range, first, userPage, _, huser, hlen, _, hok, hstate⟩ := mountUserStack_pages hroom hheap h
  have hsmall : stackPages userStack ≤ 17 := by
    simp only [stackPages, USER_STACK_SIZE]
    omega
  simp only [USERSPACE_STACK_ADDR] at huser hu
  have huser' := userPage.index_cases
  have hq : (Page.containingAddress u).start.raw = u.raw - u.raw % 4096 := rfl
  have hq' := (Page.containingAddress u).index_cases
  have huc := u.canonical
  obtain ⟨_, hout⟩ := mountStackPages_leaf hpg (by omega) hok
  simp only [userByte, hstate, hout (Page.containingAddress u) (by omega)]

/-- An allocation that begins at a page is all that becomes visible. -/
theorem aligned_exposed (hpg : pg.Lawful) (hroom : KERNEL_HEAP_START + 4096 * pages < 2 ^ 64)
    (hheap : InHeap pages userStack) (haligned : userStack % 4096 = 0)
    (h : (mountUserStack ar kernelTable userStack v : Ran _ KEvent ε Unit).outcome = .ok ()) :
    StackExposed kernelTable v.table (mountUserStack ar kernelTable userStack v : Ran _ KEvent ε Unit).state.table
      userStack := by
  have hcount : 4096 * stackPages userStack = USER_STACK_SIZE := by
    simp only [stackPages, haligned, USER_STACK_SIZE]
  have hinside : ∀ u w : VirtAddr, USERSPACE_STACK_ADDR ≤ u.raw → u.raw < USERSPACE_STACK_ADDR + USER_STACK_SIZE →
      w.raw = userStack + (u.raw - USERSPACE_STACK_ADDR) → userByte v.table u = none ∧
        userByte (mountUserStack ar kernelTable userStack v : Ran _ KEvent ε Unit).state.table u =
          kernelByte kernelTable w := by
    intro u w hlo hhi hw
    refine mounted_inside (d := u.raw - USERSPACE_STACK_ADDR) hpg hroom hheap h ?_ ?_ ?_
    all_goals omega
  refine ⟨fun b => ⟨?_, ?_⟩, fun u w hlo hhi hw => (hinside u w hlo hhi hw).2⟩
  · rintro ⟨u, hnow, hbefore⟩
    by_cases hin : USERSPACE_STACK_ADDR ≤ u.raw ∧ u.raw < USERSPACE_STACK_ADDR + USER_STACK_SIZE
    · simp only [InHeap, KERNEL_HEAP_START, USER_STACK_SIZE] at hroom hheap hin
      obtain ⟨w, hw⟩ : ∃ w : VirtAddr, w.raw = userStack + (u.raw - USERSPACE_STACK_ADDR) :=
        ⟨⟨userStack + (u.raw - USERSPACE_STACK_ADDR), by omega⟩, rfl⟩
      refine ⟨w, by simp only [USER_STACK_SIZE]; omega, ?_⟩
      rw [← (hinside u w hin.1 hin.2 hw).2]
      exact hnow
    · have hsame := mounted_outside (u := u) hpg hroom hheap h (by omega)
      exact absurd (hsame.symm.trans hnow) hbefore
  · rintro ⟨w, ⟨hlo, hhi⟩, hb⟩
    simp only [USER_STACK_SIZE] at hhi
    obtain ⟨u, hu⟩ : ∃ u : VirtAddr, u.raw = USERSPACE_STACK_ADDR + (w.raw - userStack) :=
      ⟨⟨USERSPACE_STACK_ADDR + (w.raw - userStack), by simp only [USERSPACE_STACK_ADDR]; omega⟩, rfl⟩
    obtain ⟨hnone, hsome⟩ := hinside u w (by omega) (by simp only [USER_STACK_SIZE]; omega) (by omega)
    exact ⟨u, hsome.trans hb, by simp [hnone]⟩

/-- Otherwise the bytes before the allocation in its first page become visible too. -/
theorem unaligned_exposes (hpg : pg.Lawful) (hmapped : HeapMapped kernelTable pages)
    (hheap : InHeap pages userStack)
    (hunaligned : userStack % 4096 ≠ 0)
    (h : (mountUserStack ar kernelTable userStack v : Ran _ KEvent ε Unit).outcome = .ok ()) :
    ∃ b, Exposed v.table (mountUserStack ar kernelTable userStack v : Ran _ KEvent ε Unit).state.table b ∧
      ∀ w : VirtAddr, userStack ≤ w.raw → w.raw < userStack + USER_STACK_SIZE →
      kernelByte kernelTable w ≠ some b := by
  have hroom := hmapped.room
  have hheap' := hheap
  simp only [InHeap, KERNEL_HEAP_START, USER_STACK_SIZE] at hroom hheap'
  obtain ⟨w₀, hw₀⟩ : ∃ w : VirtAddr, w.raw = userStack - userStack % 4096 :=
    ⟨⟨userStack - userStack % 4096, by omega⟩, rfl⟩
  have hpage₀ : (Page.containingAddress w₀).start.raw = w₀.raw - w₀.raw % 4096 := rfl
  obtain ⟨frame, hframe⟩ := hmapped.mapped (Page.containingAddress w₀) (by simp only [KERNEL_HEAP_START]; omega)
    (by simp only [KERNEL_HEAP_START]; omega)
  have hbyte : kernelByte kernelTable w₀ = some (frame.start.raw + w₀.raw % 4096) := by
    simp only [kernelByte, hframe, Option.map_some]
  obtain ⟨hnone, hsome⟩ := mounted_inside hpg hmapped.room hheap h (u := ⟨USERSPACE_STACK_ADDR, .inl (by decide)⟩)
    (w := w₀) (d := 0) rfl hw₀ (by simp only [stackPages, USER_STACK_SIZE]; omega)
  refine ⟨_, ⟨_, hsome.trans hbyte, by simp [hnone]⟩, fun w hlo hhi he => ?_⟩
  simp only [USER_STACK_SIZE] at hhi
  have hpage : (Page.containingAddress w).start.raw = w.raw - w.raw % 4096 := rfl
  obtain ⟨frame', hframe'⟩ := hmapped.mapped (Page.containingAddress w) (by simp only [KERNEL_HEAP_START]; omega)
    (by simp only [KERNEL_HEAP_START]; omega)
  simp only [kernelByte, hframe', Option.map_some, Option.some.injEq] at he
  have haligned := frame.aligned
  have haligned' := frame'.aligned
  have hsame : frame' = frame := PhysFrame.ext (by omega)
  have hpages : Page.containingAddress w = Page.containingAddress w₀ := by
    refine hmapped.distinct _ _ ?_ ?_ ?_ ?_ (by rw [hframe, hframe', hsame])
    all_goals simp only [KERNEL_HEAP_START]; omega
  have hstarts : (Page.containingAddress w).start.raw = (Page.containingAddress w₀).start.raw := by rw [hpages]
  omega

/-- User code sees exactly the stack, and sees it in order, if and only if it begins at a page. -/
theorem user_stack_exposed_iff (hpg : pg.Lawful) (hmapped : HeapMapped kernelTable pages)
    (hheap : InHeap pages userStack)
    (h : (mountUserStack ar kernelTable userStack v : Ran _ KEvent ε Unit).outcome = .ok ()) :
    StackExposed kernelTable v.table (mountUserStack ar kernelTable userStack v : Ran _ KEvent ε Unit).state.table
      userStack ↔ userStack % 4096 = 0 := by
  constructor
  · intro hexposed
    by_contra hunaligned
    obtain ⟨b, hb, hforeign⟩ := unaligned_exposes hpg hmapped hheap hunaligned h
    obtain ⟨w, ⟨hlo, hhi⟩, hw⟩ := (hexposed.exactly b).mp hb
    exact hforeign w hlo hhi hw
  · intro haligned
    exact aligned_exposed hpg hmapped.room hheap haligned h

end Bytes

/-! ## A heap -/

/-- The heap behind frames of the same numbers as its pages. -/
def heapTable (pages : Nat) : FlatTable := fun p =>
  if KERNEL_HEAP_START ≤ p.start.raw ∧ p.start.raw < KERNEL_HEAP_START + 4096 * pages then
    some (frameAt p.index (by have := p.index_lt; omega),
      PageTableFlags.PRESENT ||| PageTableFlags.WRITABLE ||| PageTableFlags.NO_EXECUTE)
  else none

theorem heapTable_mapped {pages : Nat} (hroom : KERNEL_HEAP_START + 4096 * pages < 2 ^ 64) :
    @HeapMapped .flat (heapTable pages) pages := by
  have htranslate : ∀ p : Page, KERNEL_HEAP_START ≤ p.start.raw → p.start.raw < KERNEL_HEAP_START + 4096 * pages →
      @translatePage .flat (heapTable pages) p =
        some (frameAt p.index (by have := p.index_lt; omega)) := by
    intro p hlo hhi
    have hin : KERNEL_HEAP_START ≤ p.start.raw ∧ p.start.raw < KERNEL_HEAP_START + 4096 * pages := ⟨hlo, hhi⟩
    simp only [translatePage, Paging.flat, heapTable, if_pos hin, Option.map_some]
  refine ⟨hroom, fun p hlo hhi => ⟨_, htranslate p hlo hhi⟩, fun p q hlo hhi hlo' hhi' he => ?_⟩
  rw [htranslate p hlo hhi, htranslate q hlo' hhi'] at he
  have hraw : p.index * 4096 = q.index * 4096 := congrArg (fun f : PhysFrame => f.start.raw) (Option.some.inj he)
  exact Page.index_inj (by omega)

/-- Before the first task the lower half is empty. -/
def emptyVm : Vm .flat := ⟨fun _ => none, (0 : Nat), fun _ => 0⟩

theorem user_stack_exposed_aligned : (mountUserStack .checked (heapTable 64)
    (KERNEL_HEAP_START + 0x2000) emptyVm :
      Ran _ KEvent Empty Unit).outcome = .ok () ∧
    (@StackExposed .flat (heapTable 64) emptyVm.table
      (mountUserStack .checked (heapTable 64) (KERNEL_HEAP_START + 0x2000) emptyVm : Ran _ KEvent Empty
      Unit).state.table
      (KERNEL_HEAP_START + 0x2000) ↔ (KERNEL_HEAP_START + 0x2000) % 4096 = 0) :=
  have hok : (mountUserStack .checked (heapTable 64) (KERNEL_HEAP_START + 0x2000) emptyVm :
      Ran _ KEvent Empty Unit).outcome = .ok () := by decide +kernel
  ⟨hok, user_stack_exposed_iff Paging.flat_lawful (heapTable_mapped (by decide)) (by decide) hok⟩

/-- The stack is allocated after one small block, and the block is then visible below it. -/
theorem user_stack_exposes_block :
    (∃ w, Runs.run (HeapWorld.step .checked)
        (HeapWorld.fresh (F := bump (KERNEL_HEAP_START + 0x40000)) KERNEL_HEAP_START fun _ => 0)
        [.alloc boxLayout, .alloc stackLayout] = some w ∧
      w.live = [(KERNEL_HEAP_START + 32, stackLayout), (KERNEL_HEAP_START, boxLayout)]) ∧
    (mountUserStack .checked (heapTable 64) (KERNEL_HEAP_START + 32) emptyVm : Ran _ KEvent Empty Unit).outcome =
      .ok () ∧
    ¬ @StackExposed .flat (heapTable 64) emptyVm.table
      (mountUserStack .checked (heapTable 64) (KERNEL_HEAP_START + 32) emptyVm : Ran _ KEvent Empty
      Unit).state.table
      (KERNEL_HEAP_START + 32) := by
  have hok : (mountUserStack .checked (heapTable 64) (KERNEL_HEAP_START + 32) emptyVm :
      Ran _ KEvent Empty Unit).outcome = .ok () := by decide +kernel
  refine ⟨⟨_, rfl, rfl⟩, hok, fun hexposed => ?_⟩
  obtain ⟨b, hb, hforeign⟩ := unaligned_exposes Paging.flat_lawful (heapTable_mapped (by decide)) (by decide)
    (by decide) hok
  obtain ⟨w, ⟨hlo, hhi⟩, hw⟩ := (hexposed.exactly b).mp hb
  exact hforeign w hlo hhi hw

end Idkernel
