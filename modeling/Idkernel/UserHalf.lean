import Idkernel.MemoryCalls

/-!
# Requests in the upper half

Every page that a mapping is requested for is noted in the log, so that a run
that fails or panics can be asked what it has requested. The only test of an
address is its top bit, and a range that ends behind the middle of the address
space passes it at both ends.
-/
namespace Idkernel

open Address Traced Locks

variable {pg : Paging} {ε : Type}

/-- Every page requested so far is one of the lower half. -/
def InLowerHalf (es : List KEvent) : Prop :=
  ∀ page frame, Note.mapRequest page frame ∈ notes es → page.LowerHalf

/-! ## Ranges that reach the upper half -/

/-- Such a range ends behind the middle; where additions wrap, a longer one may come back
to it after it has gone through all of the upper half. -/
def ReachesUpper (ar : Arith) (pos len : Nat) : Prop :=
  pos % 4096 = 0 ∧ len % 4096 = 0 ∧ 0 < len ∧ 2 ^ 47 < pos + len ∧
    (pos + len < 2 ^ 48 ∨ ar = .wrapping ∧ 2 ^ 47 ≤ pos ∧ 2 ^ 48 < len ∧ pos + len < 2 ^ 49)

section Ranges

variable {ar : Arith} {σ κ : Type} {s : σ} {pos len : Nat} {a b p : Page}

theorem reachesUpper_of_mem (hpos : pos < 2 ^ 64) (hlen : len < 2 ^ 64)
    (h : (parsePageRange ar pos len s : Ran σ κ _ _).outcome = .ok (a, b)) (hp : p ∈ Page.range ar a b)
    (hup : ¬ p.LowerHalf) : ReachesUpper ar pos len := by
  obtain ⟨hcheck, ⟨sum, last, hsum, hlast, hcheck'⟩, ha, hb⟩ := parsePageRange_ok.mp h
  obtain ⟨stop, hstop, hb⟩ := Option.bind_eq_some_iff.mp hb
  rw [checkAddrUserspace_ok hpos] at hcheck
  have hlast_lt : last < 2 ^ 64 := by
    have h₁ := Arith.add_cases hsum
    have h₂ := Arith.sub_cases hlast
    omega
  rw [checkAddrUserspace_ok hlast_lt] at hcheck'
  rw [Page.mem_range] at hp
  rw [Page.lowerHalf_iff] at hup
  have hab : a.start.raw < b.start.raw := Page.index_lt_index.mp (hp.1.trans_lt hp.2)
  have hbup : 2 ^ 64 - 2 ^ 47 < b.start.raw := by
    have hbi := b.index_cases
    omega
  clear hp hup
  have hsum := Arith.add_cases hsum
  have hlast := Arith.sub_cases hlast
  have hstop := Arith.add_cases hstop
  have ha' := VirtAddr.new_cases ha
  have hb' := VirtAddr.new_cases hb
  have haa := a.aligned
  have hba := b.aligned
  unfold ReachesUpper
  cases ar with
  | checked =>
    simp only [reduceCtorEq, false_and, or_false] at hsum hlast hstop ⊢
    omega
  | wrapping =>
    simp only [true_and] at hsum hlast hstop ⊢
    omega

theorem ReachesUpper.sum (h : ReachesUpper ar pos len) : ar.add pos len = some (pos + len) := by
  unfold ReachesUpper at h
  exact Arith.add_of_lt ar (by omega)

theorem ReachesUpper.length (h : ReachesUpper ar pos len) : 0 < len ∧ len < 2 ^ 49 ∧ len % 4096 = 0 := by
  unfold ReachesUpper at h
  omega

/-- The address such a range starts at, and the one behind its end. -/
theorem ReachesUpper.ends (h : ReachesUpper ar pos len) :
    ∃ start stop, VirtAddr.new pos = some start ∧ start.add ar len = some stop ∧
      (pos < 2 ^ 47 ∧ start.raw = pos ∧ stop.raw = pos + len + (2 ^ 64 - 2 ^ 48) ∨
        2 ^ 47 ≤ pos ∧ start.raw = pos + (2 ^ 64 - 2 ^ 48) ∧ pos + len < 2 ^ 48 ∧
          stop.raw = pos + len + (2 ^ 64 - 2 ^ 48) ∨
        2 ^ 47 ≤ pos ∧ start.raw = pos + (2 ^ 64 - 2 ^ 48) ∧ 2 ^ 48 < len ∧
          stop.raw = pos + len + (2 ^ 64 - 2 ^ 48) - 2 ^ 48) := by
  have hsum := h.sum
  obtain ⟨hpa, hla, hl, hup, hcases⟩ := h
  by_cases hlow : pos < 2 ^ 47
  · obtain ⟨stop, hstop, hraw⟩ := VirtAddr.new_sign (n := pos + len) (by omega) (by omega)
    refine ⟨⟨pos, .inl hlow⟩, stop, VirtAddr.new_raw ⟨pos, .inl hlow⟩, ?_, .inl ⟨hlow, rfl, hraw⟩⟩
    simp only [VirtAddr.add, hsum, Option.bind_some, hstop]
  obtain ⟨start, hstart, hraw⟩ := VirtAddr.new_sign (n := pos) (by omega) (by omega)
  by_cases hshort : pos + len < 2 ^ 48
  · have hadd : ar.add start.raw len = some (start.raw + len) := Arith.add_of_lt ar (by omega)
    have hcan : start.raw + len < 2 ^ 47 ∨ 2 ^ 64 - 2 ^ 47 ≤ start.raw + len ∧
      start.raw + len < 2 ^ 64 := by omega
    refine ⟨start, ⟨start.raw + len, hcan⟩, hstart, ?_,
      .inr (.inl ⟨by omega, hraw, hshort, by dsimp only; omega⟩)⟩
    simp only [VirtAddr.add, hadd, Option.bind_some]
    exact VirtAddr.new_raw ⟨start.raw + len, hcan⟩
  · obtain ⟨rfl, _, hlong, _⟩ := hcases.resolve_left hshort
    have hadd : Arith.wrapping.add start.raw len = some ((start.raw + len) % 2 ^ 64) := if_neg (by omega)
    obtain ⟨stop, hstop, hraw'⟩ := VirtAddr.new_sign (n := (start.raw + len) % 2 ^ 64) (by omega) (by omega)
    refine ⟨start, stop, hstart, ?_, .inr (.inr ⟨by omega, hraw, hlong, by omega⟩)⟩
    simp only [VirtAddr.add, hadd, Option.bind_some, hstop]

/-- The pages at its ends, the second one in the upper half. -/
theorem ReachesUpper.pages (h : ReachesUpper ar pos len) :
    ∃ a b : Page, VirtAddr.new pos = some a.start ∧ a.start.add ar len = some b.start ∧
      max (2 ^ 35) a.index < b.index ∧ b.index ≤ a.index + len / 4096 := by
  obtain ⟨start, stop, hstart, hstop, hraws⟩ := h.ends
  obtain ⟨hpa, hla, hl, hup, _⟩ := h
  obtain ⟨a, rfl⟩ : ∃ a : Page, a.start = start := ⟨⟨start, by omega⟩, rfl⟩
  obtain ⟨b, rfl⟩ : ∃ b : Page, b.start = stop := ⟨⟨stop, by omega⟩, rfl⟩
  have hai := a.index_cases
  have hbi := b.index_cases
  exact ⟨a, b, hstart, hstop, by omega, by omega⟩

/-- Whatever range reaches the upper half is accepted, with a page of that half in it. -/
theorem ReachesUpper.parses (h : ReachesUpper ar pos len) (hpos : pos < 2 ^ 64) (s : σ) :
    ∃ a b p i, (parsePageRange ar pos len s : Ran σ κ _ _).outcome = .ok (a, b) ∧
      (Page.range ar a b)[i]? = some p ∧ ¬ p.LowerHalf ∧ i < len / 4096 := by
  obtain ⟨a, b, ha, hb, hbi, hbl⟩ := h.pages
  have hsum := h.sum
  obtain ⟨_, _, hl, hup, hcases⟩ := h
  have hlast : ar.sub (pos + len) 1 = some (pos + len - 1) := if_pos (by omega)
  have hcheck : checkAddrUserspace pos = .ok () := (checkAddrUserspace_ok hpos).mpr (by omega)
  have hcheck' : checkAddrUserspace (pos + len - 1) = .ok () := (checkAddrUserspace_ok (by omega)).mpr (by omega)
  have hword := b.index_lt
  obtain ⟨p, hp⟩ := Page.exists_index (n := max (2 ^ 35) a.index) (by omega)
  refine ⟨a, b, p, p.index - a.index, ?_, ?_, ?_, ?_⟩
  · exact parsePageRange_ok.mpr ⟨hcheck, ⟨_, _, hsum, hlast, hcheck'⟩, ha, hb⟩
  · exact Page.getElem?_range.mpr (by omega)
  · rw [Page.lowerHalf_iff]
    omega
  · omega

end Ranges

/-! ## What the calls request -/

/-- What both calls do once their ranges are parsed: a request comes from the loop, after the
capability and the permissions were checked. -/
theorem lockedMap_requests {q : (t : TaskId) → TaskContext pg t → Prop} [∀ t task, Decidable (q t task)]
    {perms : Nat} {xs : List β} {f : PageTableFlags → β → VmM pg SyscallError Unit} {k : Kernel pg} {n : Note}
    (h : n ∈ notes ((do
      let t ← currentTask
      withGuard (.task t) .read do
        let task ← getTask t
        Comp.require (q t task) .wrongCapability
        let flags ← Comp.ofExcept (memoryFlags perms)
        withGuard .frameAllocator .write (inTable task (Comp.forEach xs (f flags))) :
          KernelM pg SyscallError Unit) k).events) :
    ∃ t task flags, k.taskId = some t ∧ k.tasks.lookup t = some task ∧ q t task ∧
      memoryFlags perms = .ok flags ∧ ∃ x ∈ xs, ∃ v, n ∈ notes (f flags x v).events := by
  obtain ⟨t, hcur, h⟩ := mem_notes_bind (currentTask_notes k) h
  rw [currentTask_state, withGuard_notes] at h
  obtain ⟨task, hfound, h⟩ := mem_notes_decide (getTask_still t) h
  obtain ⟨_, hcap, h⟩ := mem_notes_decide Comp.Still.require h
  obtain ⟨flags, hflags, h⟩ := mem_notes_decide (Comp.Still.ofExcept _) h
  rw [withGuard_notes] at h
  obtain ⟨x, hx, v, h⟩ := mem_notes_forEach (s := (⟨task.pageTable, k.frames, k.memory⟩ : Vm pg)) h
  exact ⟨t, task, flags, currentTask_ok hcur, getTask_ok hfound, Comp.require_ok hcap,
    Comp.ofExcept_ok_inv hflags, x, hx, v, h⟩

/-- A request of `map_virt` has passed all checks before the loop. -/
theorem mapVirt_requests {env : Env pg} {pos len perms : Nat} {k : Kernel pg} {n : Note}
    (h : n ∈ notes (MemoryCall.mapVirt env pos len perms k).events) :
    ∃ a b t task p frame, (parsePageRange env.arith pos len k : Ran _ KEvent _ _).outcome = .ok (a, b) ∧
      k.taskId = some t ∧ k.tasks.lookup t = some task ∧
      (∃ x ∈ task.capabilities.handles, x.2.ctype = .mapVirtualToRam) ∧ (∃ flags, memoryFlags perms = .ok flags) ∧
      p ∈ Page.range env.arith a b ∧ n = .mapRequest p frame := by
  unfold MemoryCall.mapVirt at h
  obtain ⟨⟨a, b⟩, hparse, h⟩ := mem_notes_decide (parsePageRange_still _ _ _) h
  obtain ⟨t, task, flags, hcur, hfound, hcap, hflags, p, hp, v, h⟩ := lockedMap_requests h
  obtain ⟨frame, hframe⟩ := mapVirtPage_notes h
  exact ⟨a, b, t, task, p, frame, hparse, hcur, hfound, hcap, ⟨flags, hflags⟩, hp, hframe⟩

/-- A request of `map_phys` has passed one more parser and another check. -/
theorem mapPhys_requests {env : Env pg} {virtAt virtLen perms physAt : Nat} {k : Kernel pg} {n : Note}
    (h : n ∈ notes (MemoryCall.mapPhys env virtAt virtLen perms physAt k).events) :
    ∃ a b p q f g t task page frame,
      (parsePageRange env.arith virtAt virtLen k : Ran _ KEvent _ _).outcome = .ok (a, b) ∧
      (parseFrameRange env.arith virtLen physAt k : Ran _ KEvent _ _).outcome = .ok (p, q, f, g) ∧
      k.taskId = some t ∧ k.tasks.lookup t = some task ∧
      (∃ x ∈ task.capabilities.handles, x.2.ctype.covers p q) ∧ (∃ flags, memoryFlags perms = .ok flags) ∧
      page ∈ Page.range env.arith a b ∧ n = .mapRequest page frame := by
  unfold MemoryCall.mapPhys at h
  obtain ⟨⟨a, b⟩, hparse, h⟩ := mem_notes_decide (parsePageRange_still _ _ _) h
  obtain ⟨⟨p, q, f, g⟩, hframes, h⟩ := mem_notes_decide (parseFrameRange_still _ _ _) h
  obtain ⟨t, task, flags, hcur, hfound, hcap, hflags, x, hx, v, h⟩ := lockedMap_requests h
  exact ⟨a, b, p, q, f, g, t, task, x.1, x.2, hparse, hframes, hcur, hfound, hcap, ⟨flags, hflags⟩,
    (List.of_mem_zip hx).1, mapPhysPage_notes h⟩

/-- A call that passes all checks requests what its loop requests. -/
theorem mapVirt_notes (env : Env pg) {pos len perms : Nat} {k : Kernel pg} {id : TaskId}
    {task : TaskContext pg id}
    {a b : Page} {flags : PageTableFlags}
    (hparse : (parsePageRange env.arith pos len k : Ran _ KEvent _ _).outcome = .ok (a, b))
    (hcur : k.taskId = some id) (hfound : k.tasks.lookup id = some task)
    (hcap : ∃ x ∈ task.capabilities.handles, x.2.ctype = .mapVirtualToRam)
    (hflags : memoryFlags perms = .ok flags) :
    notes (MemoryCall.mapVirt env pos len perms k).events =
      notes (Comp.forEach (Page.range env.arith a b) (mapVirtPage (flags ||| PageTableFlags.BIT_10))
        (⟨task.pageTable, k.frames, k.memory⟩ : Vm pg)).events := by
  unfold MemoryCall.mapVirt
  rw [(parsePageRange_still _ _ _).bind_ok hparse]
  dsimp only
  rw [currentTask_bind hcur hfound, after_events, notes_append, withGuard_notes, getTask_bind hfound,
    Comp.require_true hcap, Comp.ret_bind, hflags, Comp.ofExcept_ok, Comp.ret_bind, withGuard_notes]
  rfl

theorem mapPhys_notes (env : Env pg) {virtAt virtLen perms physAt : Nat} {k : Kernel pg} {id : TaskId}
    {task : TaskContext pg id} {a b : Page} {p q : PhysAddr} {f g : PhysFrame} {flags : PageTableFlags}
    (hparse : (parsePageRange env.arith virtAt virtLen k : Ran _ KEvent _ _).outcome = .ok (a, b))
    (hframes : (parseFrameRange env.arith virtLen physAt k : Ran _ KEvent _ _).outcome = .ok (p, q, f, g))
    (hcur : k.taskId = some id) (hfound : k.tasks.lookup id = some task)
    (hcap : ∃ x ∈ task.capabilities.handles, x.2.ctype.covers p q) (hflags : memoryFlags perms = .ok flags) :
    notes (MemoryCall.mapPhys env virtAt virtLen perms physAt k).events =
      notes (Comp.forEach ((Page.range env.arith a b).zip (PhysFrame.range env.arith f g)) (mapPhysPage flags)
        (⟨task.pageTable, k.frames, k.memory⟩ : Vm pg)).events := by
  unfold MemoryCall.mapPhys
  rw [(parsePageRange_still _ _ _).bind_ok hparse]
  dsimp only
  rw [(parseFrameRange_still _ _ _).bind_ok hframes]
  dsimp only
  rw [currentTask_bind hcur hfound, after_events, notes_append, withGuard_notes, getTask_bind hfound,
    Comp.require_true hcap, Comp.ret_bind, hflags, Comp.ofExcept_ok, Comp.ret_bind, withGuard_notes]
  rfl

/-- A segment ends below the middle if its end is not in the upper half. -/
theorem segment_lower {ar : Arith} {a p : Page} {stop last : VirtAddr}
    (hcheck : checkAddrUserspace stop.raw = .ok ()) (hlast : stop.sub 1 = some last)
    (hp : p ∈ Page.rangeInclusive ar a (Page.containingAddress last)) : p.LowerHalf := by
  have hlt := (checkAddrUserspace_ok stop.raw_lt).mp hcheck
  have hstop := stop.canonical
  have hraw : last.raw < 2 ^ 47 := by
    unfold VirtAddr.sub at hlast
    split at hlast
    · have hcases := VirtAddr.new_cases hlast
      omega
    · cases hlast
  have hb := Page.containingAddress_index hraw
  rw [Page.mem_rangeInclusive (by omega)] at hp
  rw [Page.lowerHalf_iff]
  omega

/-- The loader tests both ends of a segment after they have been made canonical. -/
theorem mountInto_lower (ar : Arith) (elf : Elf) (v : Vm pg) :
    InLowerHalf (elf.mountInto ar v : Ran _ KEvent ε Unit).events := by
  intro page frame h
  unfold Elf.mountInto at h
  rw [withGuard_notes] at h
  obtain ⟨header, _, v, h⟩ := mem_notes_forEach h
  obtain ⟨data, _, h⟩ := mem_notes_decide (Comp.Still.unwrap _) h
  split at h
  · unfold Elf.mountSegment at h
    obtain ⟨start, hstart, h⟩ := mem_notes_decide (Comp.Still.unwrap _) h
    obtain ⟨stop, hstop, h⟩ := mem_notes_decide (Comp.Still.unwrap _) h
    obtain ⟨_, _, h⟩ := mem_notes_decide Comp.Still.expect h
    obtain ⟨_, hcheck, h⟩ := mem_notes_decide Comp.Still.expect h
    obtain ⟨last, hlast, h⟩ := mem_notes_decide (Comp.Still.unwrap _) h
    obtain ⟨flags, _, h⟩ := mem_notes_decide (Comp.Still.unwrap _) h
    obtain ⟨p, hp, v, h⟩ := mem_notes_forEach h
    obtain ⟨_, hn⟩ := Elf.mountPage_notes h
    cases hn
    exact segment_lower (Comp.expect_ok hcheck) (Comp.unwrap_ok hlast) hp
  · cases h

/-! ## A machine on which nothing fails -/

section Flat

variable {flags : PageTableFlags} {mem : Memory}

theorem flat_mapTo {page : Page} {t : FlatTable} (hp : t page = none) (n : Nat) (frame : PhysFrame)
    (flags parentFlags : PageTableFlags) : Paging.flat.mapTo t n page frame flags parentFlags =
      (.ok (), Function.update t page (some (frame, flags)), n) := by
  change flatMapTo t n page frame flags = _
  unfold flatMapTo
  rw [hp]

theorem flat_mapVirtPage {page : Page} {t : FlatTable} {n : Nat} (hp : t page = none) (hn : n < 2 ^ 40) :
    mapVirtPage flags page (⟨t, n, mem⟩ : Vm .flat) =
      ⟨.ok (), ⟨Function.update t page (some (frameAt n hn, flags)), Nat.succ n, mem⟩,
        [.note (.mapRequest page (frameAt n hn))]⟩ := by
  have halloc : Paging.flat.allocateFrame n = (some (frameAt n hn), Nat.succ n) := dif_pos hn
  unfold mapVirtPage
  rw [Comp.bind_run, allocateFrame_run]
  dsimp only
  rw [halloc]
  dsimp only
  rw [Comp.okOr_some, Comp.ret_bind, Comp.bind_run, mapTo_run]
  dsimp only
  rw [flat_mapTo hp]
  rfl

theorem flat_mapPhysPage {x : Page × PhysFrame} {t : FlatTable} {n : Nat} (hp : t x.1 = none) :
    mapPhysPage flags x (⟨t, n, mem⟩ : Vm .flat) =
      ⟨.ok (), ⟨Function.update t x.1 (some (x.2, flags)), n, mem⟩, [.note (.mapRequest x.1 x.2)]⟩ := by
  unfold mapPhysPage
  rw [Comp.bind_run, mapTo_run]
  dsimp only
  rw [flat_mapTo hp]
  rfl

/-- With enough frames, every page of a list without repetitions is requested. -/
theorem flat_mapVirtLoop (flags : PageTableFlags) (mem : Memory) {xs : List Page} (hxs : xs.Nodup)
    {t : FlatTable} (ht : ∀ p ∈ xs, t p = none) {n : Nat}
    (hn : n + xs.length ≤ 2 ^ 40) {p : Page} (hp : p ∈ xs) : ∃ frame, Note.mapRequest p frame ∈
      notes (Comp.forEach xs (mapVirtPage flags) (⟨t, n, mem⟩ : Vm .flat)).events := by
  let I : List Page → Vm .flat → Prop := fun rest v => ∃ (t : FlatTable) (n : Nat) (mem : Memory),
    v = ⟨t, n, mem⟩ ∧ rest.Nodup ∧ (∀ p ∈ rest, t p = none) ∧ n + rest.length ≤ 2 ^ 40
  have hstep : ∀ x rest v, I (x :: rest) v →
      (mapVirtPage flags x v).outcome = .ok () ∧ I rest (mapVirtPage flags x v).state := by
    rintro x rest _ ⟨t, n, mem, rfl, hnodup, hfree, hroom⟩
    have hlt : n < 2 ^ 40 := by
      simp only [List.length_cons] at hroom
      omega
    rw [flat_mapVirtPage (hfree x (by simp)) hlt]
    refine ⟨rfl, _, _, _, rfl, hnodup.of_cons, ?_, ?_⟩
    · intro p hp
      have hne : p ≠ x := by
        rintro rfl
        exact (List.nodup_cons.mp hnodup).1 hp
      rw [Function.update_of_ne hne]
      exact hfree p (by simp [hp])
    · simp only [List.length_cons] at hroom
      omega
  obtain ⟨rest, _, ⟨t', n', mem', rfl, _, hfree, hroom⟩, hevents⟩ :=
    Comp.forEach_visits hstep ⟨t, n, mem, rfl, hxs, ht, hn⟩ hp
  have hlt : n' < 2 ^ 40 := by
    simp only [List.length_cons] at hroom
    omega
  rw [flat_mapVirtPage (hfree p (by simp)) hlt] at hevents
  exact ⟨_, mem_notes.mpr (hevents _ (List.mem_singleton.mpr rfl))⟩

theorem flat_mapPhysLoop (flags : PageTableFlags) (mem : Memory) {xs : List (Page × PhysFrame)}
    (hxs : xs.Pairwise fun x y => x.1 ≠ y.1) {t : FlatTable}
    (ht : ∀ x ∈ xs, t x.1 = none) {n : Nat} {x : Page × PhysFrame} (hx : x ∈ xs) : Note.mapRequest x.1 x.2 ∈
      notes (Comp.forEach xs (mapPhysPage flags) (⟨t, n, mem⟩ : Vm .flat)).events := by
  let I : List (Page × PhysFrame) → Vm .flat → Prop := fun rest v => ∃ (t : FlatTable) (n : Nat) (mem : Memory),
    v = ⟨t, n, mem⟩ ∧ rest.Pairwise (fun x y => x.1 ≠ y.1) ∧ ∀ x ∈ rest, t x.1 = none
  have hstep : ∀ x rest v, I (x :: rest) v →
      (mapPhysPage flags x v).outcome = .ok () ∧ I rest (mapPhysPage flags x v).state := by
    rintro x rest _ ⟨t, n, mem, rfl, hpairs, hfree⟩
    rw [flat_mapPhysPage (hfree x (by simp))]
    obtain ⟨hne, hrest⟩ := List.pairwise_cons.mp hpairs
    refine ⟨rfl, _, _, _, rfl, hrest, ?_⟩
    intro y hy
    rw [Function.update_of_ne (hne y hy).symm]
    exact hfree y (by simp [hy])
  obtain ⟨rest, _, ⟨t', n', mem', rfl, _, hfree⟩, hevents⟩ :=
    Comp.forEach_visits hstep ⟨t, n, mem, rfl, hxs, ht⟩ hx
  rw [flat_mapPhysPage (hfree x (by simp))] at hevents
  exact mem_notes.mpr (hevents _ (List.mem_singleton.mpr rfl))

end Flat

/-! ## When no request leaves the lower half -/

/-- Nothing but the range keeps `map_virt` from its loop. -/
def MayMapVirt (perms : Nat) (caps : TaskCapabilityStorage) : Prop :=
  (∃ flags, memoryFlags perms = .ok flags) ∧ ∃ x ∈ caps.handles, x.2.ctype = .mapVirtualToRam

def MayMapPhys (len perms physAt : Nat) (caps : TaskCapabilityStorage) : Prop :=
  (∃ flags, memoryFlags perms = .ok flags) ∧ physAt % 4096 = 0 ∧ physAt % 2 ^ 52 + len < 2 ^ 52 ∧
    ∃ x ∈ caps.handles, ∃ f t, x.2.ctype = .mapPhysical f t ∧ f.raw ≤ physAt % 2 ^ 52 ∧
      physAt % 2 ^ 52 + len ≤ t.raw + 1

/-- A task with these capabilities makes the call in any state of any machine. -/
def MapVirtLower (ar : Arith) (pos len perms : Nat) (caps : TaskCapabilityStorage) : Prop :=
  ∀ (pg : Paging) (env : Env pg) (k : Kernel pg) (id : TaskId) (task : TaskContext pg id), env.arith = ar →
    k.taskId = some id → k.tasks.lookup id = some task → task.capabilities = caps →
      InLowerHalf (MemoryCall.mapVirt env pos len perms k).events

def MapPhysLower (ar : Arith) (virtAt virtLen perms physAt : Nat) (caps : TaskCapabilityStorage) : Prop :=
  ∀ (pg : Paging) (env : Env pg) (k : Kernel pg) (id : TaskId) (task : TaskContext pg id), env.arith = ar →
    k.taskId = some id → k.tasks.lookup id = some task → task.capabilities = caps →
      InLowerHalf (MemoryCall.mapPhys env virtAt virtLen perms physAt k).events

section Calls

variable {ar : Arith} {pos len perms physAt : Nat} {caps : TaskCapabilityStorage}

theorem parseFrameRange_end {σ : Type} {s : σ} {p q : PhysAddr} {f g : PhysFrame} (hpos : 0 < len)
    (hlen : len < 2 ^ 49)
    (h : (parseFrameRange ar len physAt s : Ran _ KEvent _ _).outcome = .ok (p, q, f, g)) :
    g.start.raw = physAt % 2 ^ 52 + len := by
  obtain ⟨hp, _, hg⟩ := parseFrameRange_raw h
  obtain ⟨_, ⟨sum, hsum, hsub⟩, _⟩ := parseFrameRange_ok.mp h
  have hb := p.bounded
  have hraw : sum.raw = p.raw + len := by
    unfold PhysAddr.add at hsum
    rw [Arith.add_of_lt ar (by omega)] at hsum
    exact (PhysAddr.new_cases hsum).1
  unfold PhysAddr.sub at hsub
  rw [if_pos (by omega)] at hsub
  have hq := (PhysAddr.new_cases hsub).1
  omega

/-- The frames are parsed and covered exactly when the range fits and lies in a capability. -/
theorem mayMapPhys_iff {σ : Type} (ar : Arith) (s : σ) (hpos : 0 < len) (hlen : len < 2 ^ 49)
    (hal : len % 4096 = 0) :
    (∃ p q f g, (parseFrameRange ar len physAt s : Ran _ KEvent _ _).outcome = .ok (p, q, f, g) ∧
      ∃ x ∈ caps.handles, x.2.ctype.covers p q) ↔
    physAt % 4096 = 0 ∧ physAt % 2 ^ 52 + len < 2 ^ 52 ∧
      ∃ x ∈ caps.handles, ∃ f t, x.2.ctype = .mapPhysical f t ∧ f.raw ≤ physAt % 2 ^ 52 ∧
        physAt % 2 ^ 52 + len ≤ t.raw + 1 := by
  have hraw : (PhysAddr.newTruncate physAt).raw = physAt % 2 ^ 52 := rfl
  have hadd : (PhysAddr.newTruncate physAt).add ar len = PhysAddr.new (physAt % 2 ^ 52 + len) := by
    unfold PhysAddr.add
    rw [hraw, Arith.add_of_lt ar (by omega), Option.bind_some]
  constructor
  · rintro ⟨p, q, f, g, hparse, x, hx, hcovers⟩
    obtain ⟨hp, hf, hg⟩ := parseFrameRange_raw hparse
    have hend := parseFrameRange_end hpos hlen hparse
    have hg' := g.start.bounded
    have hal := f.aligned
    refine ⟨by omega, by omega, x, hx, ?_⟩
    cases hc : x.2.ctype with
    | mapPhysical lo hi =>
      rw [hc] at hcovers
      obtain ⟨hlo, hhi⟩ := hcovers
      rw [PhysAddr.le_def] at hlo hhi
      exact ⟨lo, hi, rfl, by omega, by omega⟩
    | mapVirtualToRam => rw [hc] at hcovers; exact hcovers.elim
    | processSpawn => rw [hc] at hcovers; exact hcovers.elim
    | channelCreate => rw [hc] at hcovers; exact hcovers.elim
  · rintro ⟨hphys, hfits, x, hx, lo, hi, hc, hlo, hhi⟩
    let p := PhysAddr.newTruncate physAt
    let q : PhysAddr := ⟨physAt % 2 ^ 52 + len - 1, by omega⟩
    let f : PhysFrame := ⟨p, by rw [hraw]; omega⟩
    let g : PhysFrame := ⟨⟨physAt % 2 ^ 52 + len, hfits⟩, by dsimp only; omega⟩
    have hq : PhysAddr.new (physAt % 2 ^ 52 + len - 1) = some q := dif_pos (by omega)
    have hg : PhysAddr.new (physAt % 2 ^ 52 + len) = some g.start := dif_pos hfits
    refine ⟨p, q, f, g, parseFrameRange_ok.mpr ⟨rfl, ⟨g.start, hadd.trans hg, ?_⟩, rfl, ?_⟩, x, hx, ?_⟩
    · exact (if_pos (by dsimp only [g]; omega)).trans hq
    · have hsucc : q.raw + 1 = physAt % 2 ^ 52 + len := by
        dsimp only [q]
        omega
      unfold PhysAddr.add
      rw [Arith.add_of_lt ar (by omega), Option.bind_some, hsucc, hg]
    · rw [hc]
      exact ⟨hlo, PhysAddr.le_def.mpr (by dsimp only [q]; omega)⟩

/-- There are as many frames as pages. -/
theorem parseFrameRange_nth {σ : Type} {s : σ} {q r : PhysAddr} {f g : PhysFrame} {i : Nat}
    (hbounds : 0 < len ∧ len < 2 ^ 49 ∧ len % 4096 = 0)
    (h : (parseFrameRange ar len physAt s : Ran σ KEvent _ _).outcome = .ok (q, r, f, g)) (hi : i < len / 4096) :
    ∃ frame, (PhysFrame.range ar f g)[i]? = some frame := by
  obtain ⟨_, hf, _⟩ := parseFrameRange_raw h
  have hg := parseFrameRange_end hbounds.1 hbounds.2.1 h
  have hfi := f.raw_index
  have hgi := g.raw_index
  have hgb := g.start.bounded
  obtain ⟨frame, hindex⟩ := PhysFrame.exists_index (n := f.index + i) (by omega)
  exact ⟨frame, PhysFrame.getElem?_range.mpr (by omega)⟩

theorem pairwise_zip {α β : Type} {xs : List α} (hxs : xs.Nodup) (ys : List β) :
    (xs.zip ys).Pairwise fun x y => x.1 ≠ y.1 := by
  rw [List.pairwise_iff_getElem]
  intro i j hi hj hij
  simp only [List.getElem_zip]
  exact List.pairwise_iff_getElem.mp hxs i j _ _ hij

theorem mapVirt_lower_iff (hpos : pos < 2 ^ 64) (hlen : len < 2 ^ 64) :
    MapVirtLower ar pos len perms caps ↔ ¬ (ReachesUpper ar pos len ∧ MayMapVirt perms caps) := by
  constructor
  · rintro hlower ⟨hreach, ⟨flags, hflags⟩, hcap⟩
    let env : Env .flat := { Env.plain with arith := ar }
    let k := Kernel.family caps
    obtain ⟨a, b, p, i, hparse, hp, hup, _⟩ := hreach.parses (κ := KEvent) hpos k
    have hrun : notes (MemoryCall.mapVirt env pos len perms k).events = _ :=
      mapVirt_notes env hparse rfl rfl hcap hflags
    have hroom : 256 + (Page.range ar a b).length ≤ 2 ^ 40 := by
      have := Page.length_range_le ar a b
      omega
    obtain ⟨frame, hreq⟩ := flat_mapVirtLoop (flags ||| PageTableFlags.BIT_10) (fun _ => 0)
      (Page.nodup_range ar a b) (fun _ _ => rfl) hroom (List.mem_of_getElem? hp)
    have hmem : Note.mapRequest p frame ∈ notes (MemoryCall.mapVirt env pos len perms k).events := by
      rw [hrun]
      exact hreq
    exact hup (hlower .flat env k parentId _ rfl rfl rfl rfl p frame hmem)
  · intro hnot pg env k id task har hcur hfound hcaps page frame h
    obtain ⟨a, b, t, task', p, frame', hparse, hcur', hfound', hcap, hflags, hp, hn⟩ := mapVirt_requests h
    obtain rfl : id = t := Option.some.inj (hcur.symm.trans hcur')
    obtain rfl : task = task' := Option.some.inj (hfound.symm.trans hfound')
    cases hn
    subst har hcaps
    by_contra hup
    exact hnot ⟨reachesUpper_of_mem hpos hlen hparse hp hup, hflags, hcap⟩

theorem mapPhys_lower_iff (hpos : pos < 2 ^ 64) (hlen : len < 2 ^ 64) :
    MapPhysLower ar pos len perms physAt caps ↔
      ¬ (ReachesUpper ar pos len ∧ MayMapPhys len perms physAt caps) := by
  constructor
  · rintro hlower ⟨hreach, ⟨flags, hflags⟩, hframes⟩
    let env : Env .flat := { Env.plain with arith := ar }
    let k := Kernel.family caps
    have hbounds := hreach.length
    obtain ⟨q, r, f, g, hframes, hcap⟩ :=
      (mayMapPhys_iff ar k hbounds.1 hbounds.2.1 hbounds.2.2).mpr hframes
    obtain ⟨a, b, p, i, hparse, hp, hup, hi⟩ := hreach.parses (κ := KEvent) hpos k
    have hrun : notes (MemoryCall.mapPhys env pos len perms physAt k).events = _ :=
      mapPhys_notes env hparse hframes rfl rfl hcap hflags
    obtain ⟨frame, hframe⟩ := parseFrameRange_nth hbounds hframes hi
    have hitem : (p, frame) ∈ (Page.range ar a b).zip (PhysFrame.range ar f g) :=
      List.mem_of_getElem? (List.getElem?_zip_eq_some.mpr ⟨hp, hframe⟩)
    have hpairs : ((Page.range ar a b).zip (PhysFrame.range ar f g)).Pairwise fun x y => x.1 ≠ y.1 :=
      pairwise_zip (Page.nodup_range ar a b) _
    have hreq := flat_mapPhysLoop flags (fun _ => 0) (t := fun _ => none) (n := 256) hpairs (fun _ _ => rfl)
      hitem
    have hmem : Note.mapRequest p frame ∈ notes (MemoryCall.mapPhys env pos len perms physAt k).events := by
      rw [hrun]
      exact hreq
    exact hup (hlower .flat env k parentId _ rfl rfl rfl rfl p frame hmem)
  · intro hnot pg env k id task har hcur hfound hcaps page frame h
    obtain ⟨a, b, q, r, f, g, t, task', p, frame', hparse, hframes, hcur', hfound', hcap, hflags, hp, hn⟩ :=
      mapPhys_requests h
    obtain rfl : id = t := Option.some.inj (hcur.symm.trans hcur')
    obtain rfl : task = task' := Option.some.inj (hfound.symm.trans hfound')
    cases hn
    subst har hcaps
    by_contra hup
    have hreach := reachesUpper_of_mem hpos hlen hparse hp hup
    have hbounds := hreach.length
    exact hnot ⟨hreach, hflags, (mayMapPhys_iff _ _ hbounds.1 hbounds.2.1 hbounds.2.2).mp
      ⟨q, r, f, g, hframes, hcap⟩⟩

end Calls

/-- The loader never requests a page of the upper half; the two calls do exactly where their
range reaches it and nothing else refuses them. -/
theorem user_requests_lower (ar : Arith) :
    (∀ (pos len perms : UInt64) (caps : TaskCapabilityStorage),
      MapVirtLower ar pos.toNat len.toNat perms.toNat caps ↔
        ¬ (ReachesUpper ar pos.toNat len.toNat ∧ MayMapVirt perms.toNat caps)) ∧
    (∀ (virtAt virtLen perms physAt : UInt64) (caps : TaskCapabilityStorage),
      MapPhysLower ar virtAt.toNat virtLen.toNat perms.toNat physAt.toNat caps ↔
        ¬ (ReachesUpper ar virtAt.toNat virtLen.toNat ∧
          MayMapPhys virtLen.toNat perms.toNat physAt.toNat caps)) ∧
    ∀ (pg : Paging) (elf : Elf) (v : Vm pg),
      InLowerHalf (elf.mountInto ar v : Ran _ KEvent SyscallError Unit).events :=
  ⟨fun pos len _ _ => mapVirt_lower_iff pos.toNat_lt len.toNat_lt,
    fun pos len _ _ _ => mapPhys_lower_iff pos.toNat_lt len.toNat_lt, fun _ elf v => mountInto_lower ar elf v⟩

/-- Any memory may be mapped. -/
def ramOnly : TaskCapabilityStorage := ⟨1, [(0, ⟨.DUPLICATE, .mapVirtualToRam⟩)]⟩

/-- Two pages around the middle: both are mapped, the second one in the upper half. -/
theorem mapVirt_leaves_lower :
    (MemoryCall.mapVirt .plain 0x7ffffffff000 0x2000 1 (Kernel.family ramOnly)).outcome = .ok () ∧
      ¬ InLowerHalf (MemoryCall.mapVirt .plain 0x7ffffffff000 0x2000 1 (Kernel.family ramOnly)).events := by
  let page : Page := ⟨⟨0xffff800000000000, by decide⟩, by decide⟩
  let frame : PhysFrame := ⟨⟨0x101000, by decide⟩, by decide⟩
  have hreq : Note.mapRequest page frame ∈
      notes (MemoryCall.mapVirt .plain 0x7ffffffff000 0x2000 1 (Kernel.family ramOnly)).events := by decide
  have hup : ¬ page.LowerHalf := by decide
  exact ⟨by decide, fun h => hup (h page frame hreq)⟩

end Idkernel
