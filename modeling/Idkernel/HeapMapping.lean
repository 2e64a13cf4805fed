import Idkernel.HeapFrames

/-!
# The mapping of the heap

Heap pages take the frames of the memory map in order, and so do the page
tables that are missing on the way. The frame of a page is therefore found by
counting the tables before it.
-/
namespace Idkernel

open Address Traced

namespace Boot

/-! ## One page -/

/-- The first frame is gone. -/
def taken (s : Boot) : Boot := { s with frames := s.frames.tail }

/-- The next table is there. -/
def made (s : Boot) (level number : Nat) : Boot :=
  if s.entry level number = .unused then setEntry level number s.taken else s

/-- The levels at which a table is missing for a page number. -/
def missing (s : Boot) (levels : List Nat) (i : Nat) : List Nat :=
  levels.filter fun l => s.entry l (i / 512 ^ l) = .unused

def withTables (s : Boot) (levels : List Nat) (i : Nat) : Boot :=
  { s with
    frames := s.frames.drop (s.missing levels i).length
    entry := fun l n => if l ∈ levels ∧ n = i / 512 ^ l ∧ s.entry l n = .unused then .table else s.entry l n }

variable {κ ε : Type} {b : Boot} {addr : Nat} {rest : List Nat}

theorem allocateFrame_empty (h : b.frames = []) : (allocateFrame b : Ran _ κ ε _) = ⟨.ok none, b, []⟩ := by
  rw [allocateFrame, Comp.read_bind, h]
  rfl

theorem allocateFrame_first (h : b.frames = addr :: rest) {p : PhysAddr} (hp : PhysAddr.new addr = some p) :
    (allocateFrame b : Ran _ κ ε _) = ⟨.ok (some (.containingAddress p)), b.taken, []⟩ := by
  rw [allocateFrame, Comp.read_bind, h]
  dsimp only
  rw [Comp.write_bind, hp, taken, h]
  rfl

theorem allocateFrame_large (h : b.frames = addr :: rest) (hp : PhysAddr.new addr = none) :
    (allocateFrame b : Ran _ κ ε _).outcome = .panic := by
  rw [allocateFrame, Comp.read_bind, h]
  dsimp only
  rw [Comp.write_bind, hp]
  rfl

theorem large_of_new {a : Nat} (h : PhysAddr.new a = none) : 2 ^ 52 ≤ a := by
  by_contra hlt
  rw [PhysAddr.new, dif_pos (Nat.lt_of_not_le hlt)] at h
  cases h

/-- Frames have run out, or an entry maps a huge page. -/
def Stopped (s : Boot) (levels : List Nat) (i : Nat) : Prop :=
  s.frames.length < levels.length ∨ ∃ l ∈ levels, s.entry l (i / 512 ^ l) = .huge

def TooLarge (s : Boot) : Prop := ∃ a ∈ s.frames, 2 ^ 52 ≤ a

theorem createNextTable_spec (b : Boot) (l n : Nat) :
    Comp.Triple (fun s => s = b) (createNextTable l n : Comp Boot κ _ _)
    (fun _ s => s = b.made l n ∧ b.entry l n ≠ .huge)
      (fun s => s.leaf = b.leaf ∧ (b.frames = [] ∨ b.entry l n = .huge)) (fun _ => b.TooLarge) := by
  rintro s rfl
  rw [createNextTable, Comp.read_bind]
  cases hentry : s.entry l n with
  | table => simp [made, hentry]
  | huge => simp
  | unused =>
    dsimp only
    cases hframes : s.frames with
    | nil =>
      have hrun := allocateFrame_empty (κ := κ) (ε := MapToError) hframes
      rw [Comp.bind_ok (congrArg Ran.outcome hrun), hrun]
      simp
    | cons addr rest =>
      cases hp : PhysAddr.new addr with
      | some p =>
        have hrun := allocateFrame_first (κ := κ) (ε := MapToError) hframes hp
        rw [Comp.bind_ok (congrArg Ran.outcome hrun), hrun]
        simp [made, hentry]
      | none =>
        rw [Comp.bind_panic (allocateFrame_large hframes hp)]
        exact ⟨addr, by simp [hframes], large_of_new hp⟩

theorem made_withTables {l i : Nat} {ls : List Nat} (hl : l ∉ ls) :
    (b.made l (i / 512 ^ l)).withTables ls i = b.withTables (l :: ls) i := by
  have hmissing : ∀ s : Boot, (∀ q ∈ ls, s.entry q (i / 512 ^ q) = b.entry q (i / 512 ^ q)) →
      s.missing ls i = b.missing ls i := fun s hs => List.filter_congr fun q hq => by rw [hs q hq]
  by_cases hentry : b.entry l (i / 512 ^ l) = .unused
  · have hsame : ∀ q ∈ ls, (setEntry l (i / 512 ^ l) b.taken).entry q (i / 512 ^ q) =
      b.entry q (i / 512 ^ q) := by
      intro q hq
      have hne : q ≠ l := fun he => hl (he ▸ hq)
      simp [setEntry, hne, taken]
    have hall : b.missing (l :: ls) i = l :: b.missing ls i := by simp [missing, hentry]
    rw [made, if_pos hentry, withTables, withTables, hmissing _ hsame, hall]
    simp only [setEntry, taken, List.length_cons, List.drop_tail, Boot.mk.injEq, and_true, true_and]
    funext q n
    by_cases hq : q = l ∧ n = i / 512 ^ l
    · obtain ⟨rfl, rfl⟩ := hq
      simp [hentry]
    · by_cases hn : n = i / 512 ^ q
      · have hne : q ≠ l := fun he => hq ⟨he, he ▸ hn⟩
        simp [hne]
      · simp [hq, hn]
  · have hall : b.missing (l :: ls) i = b.missing ls i := by simp [missing, hentry]
    rw [made, if_neg hentry, withTables, withTables, hall]
    simp only [Boot.mk.injEq, and_true, true_and]
    funext q n
    by_cases hq : q = l
    · subst hq
      by_cases hn : n = i / 512 ^ q
      · simp [hn, hentry]
      · simp [hn]
    · simp [hq]

theorem Stopped.of_made {l n i : Nat} {ls : List Nat} (h : (b.made l n).Stopped ls i) :
    b.Stopped (l :: ls) i := by
  unfold made at h
  split at h
  · rcases h with hshort | ⟨q, hq, hhuge⟩
    · left
      simp only [setEntry, taken, List.length_tail] at hshort
      simp only [List.length_cons]
      omega
    · right
      refine ⟨q, List.mem_cons_of_mem _ hq, ?_⟩
      by_cases hthis : q = l ∧ i / 512 ^ q = n
      · obtain ⟨rfl, hn⟩ := hthis
        simp [setEntry, hn] at hhuge
      · simpa [setEntry, hthis, taken] using hhuge
  · rcases h with hshort | ⟨q, hq, hhuge⟩
    · exact .inl (by simp only [List.length_cons]; omega)
    · exact .inr ⟨q, List.mem_cons_of_mem _ hq, hhuge⟩

theorem TooLarge.of_made {l n : Nat} (h : (b.made l n).TooLarge) : b.TooLarge := by
  obtain ⟨a, ha, hlarge⟩ := h
  refine ⟨a, ?_, hlarge⟩
  unfold made at ha
  split at ha
  · exact List.mem_of_mem_tail ha
  · exact ha

@[simp] theorem made_leaf (b : Boot) (l n : Nat) : (b.made l n).leaf = b.leaf := by
  unfold made
  split <;> rfl

@[simp] theorem withTables_nil (b : Boot) (i : Nat) : b.withTables [] i = b := by simp [withTables, missing]

@[simp] theorem withTables_leaf (b : Boot) (ls : List Nat) (i : Nat) : (b.withTables ls i).leaf = b.leaf := rfl

theorem createTables_spec (i : Nat) {ls : List Nat} (hls : ls.Nodup) (b : Boot) :
    Comp.Triple (fun s => s = b) (Comp.forEach ls fun l => createNextTable l (i / 512 ^ l) : Comp Boot κ _ _)
      (fun _ s => s = b.withTables ls i) (fun s => s.leaf = b.leaf ∧ b.Stopped ls i) (fun _ => b.TooLarge) := by
  induction ls generalizing b with
  | nil =>
    rintro s rfl
    exact (withTables_nil s i).symm
  | cons l ls ih =>
    obtain ⟨hl, hrest⟩ := List.nodup_cons.mp hls
    have hfirst : Comp.Triple (fun s => s = b) (createNextTable l (i / 512 ^ l) : Comp Boot κ _ _)
        (fun _ s => s = b.made l (i / 512 ^ l)) (fun s => s.leaf = b.leaf ∧ b.Stopped (l :: ls) i)
        (fun _ => b.TooLarge) :=
      (createNextTable_spec b l (i / 512 ^ l)).conseq (fun _ hs => hs) (fun _ _ hs => hs.1)
        (fun s hs => ⟨hs.1, hs.2.imp (fun he => by simp [he]) fun he => ⟨l, by simp, he⟩⟩) (fun _ hs => hs)
    refine hfirst.bind fun _ => (ih hrest (b.made l (i / 512 ^ l))).conseq (fun _ hs => hs) ?_ ?_ ?_
    · intro _ s hs
      rw [hs, made_withTables hl]
    · intro s hs
      exact ⟨hs.1.trans (made_leaf b _ _), hs.2.of_made⟩
    · intro _ hs
      exact hs.of_made

/-- A page is mapped to a frame, under its tables. -/
def mapped (s : Boot) (i : Nat) (frame : PhysFrame) : Boot :=
  { s.withTables UPPER i with leaf := Function.update s.leaf i (some frame) }

theorem mapTo_spec (b : Boot) (page : Page) (frame : PhysFrame) :
    Comp.Triple (fun s => s = b) (mapTo page frame : Comp Boot κ _ _)
      (fun _ s => s = b.mapped page.index frame ∧ b.leaf page.index = none)
      (fun s => s.leaf = b.leaf ∧ (b.Stopped UPPER page.index ∨ b.leaf page.index ≠ none))
      (fun _ => b.TooLarge) := by
  have hnodup : UPPER.Nodup := by decide
  have htables := createTables_spec (κ := κ) page.index hnodup b
  refine (htables.conseq (fun _ hs => hs) (fun _ _ hs => hs) (fun _ hs => ⟨hs.1, .inl hs.2⟩)
    (fun _ hs => hs)).bind ?_
  rintro _ s rfl
  rw [Comp.read_bind]
  cases hleaf : b.leaf page.index with
  | none => simp [hleaf, mapped]
  | some f => simp [hleaf]

theorem TooLarge.of_taken (h : b.taken.TooLarge) : b.TooLarge := by
  obtain ⟨a, ha, hlarge⟩ := h
  exact ⟨a, List.mem_of_mem_tail ha, hlarge⟩

/-- The frame of a page is drawn before its tables. -/
theorem allocateOne_spec (ar : Arith) (b : Boot) (page : Page) :
    Comp.Triple (fun s => s = b) (allocateOne ar page : Comp Boot κ _ _)
      (fun next s => page.next ar = some next ∧ b.leaf page.index = none ∧
      ∃ addr rest p, b.frames = addr :: rest ∧
        PhysAddr.new addr = some p ∧ s = b.taken.mapped page.index (.containingAddress p))
      (fun s => s.leaf = b.leaf ∧
        (b.frames = [] ∨ b.taken.Stopped UPPER page.index ∨ b.leaf page.index ≠ none))
      (fun _ => b.TooLarge ∨ page.next ar = none) := by
  rintro s rfl
  rw [allocateOne]
  cases hframes : s.frames with
  | nil =>
    have hrun := allocateFrame_empty (κ := κ) (ε := MapToError) hframes
    rw [Comp.bind_ok (congrArg Ran.outcome hrun), hrun]
    simp
  | cons addr rest =>
    cases hp : PhysAddr.new addr with
    | none =>
      rw [Comp.bind_panic (allocateFrame_large hframes hp)]
      exact .inl ⟨addr, by simp [hframes], large_of_new hp⟩
    | some p =>
      have hrun := allocateFrame_first (κ := κ) (ε := MapToError) hframes hp
      rw [Comp.bind_ok (congrArg Ran.outcome hrun), hrun]
      dsimp only
      rw [Comp.okOr_some, Comp.ret_bind, after_nil]
      have hmap := mapTo_spec (κ := κ) s.taken page (.containingAddress p) s.taken rfl
      cases hrest : (mapTo page (.containingAddress p) s.taken : Ran _ κ _ _).outcome with
      | panic =>
        rw [hrest] at hmap
        rw [Comp.bind_panic hrest]
        exact .inl hmap.of_taken
      | err e =>
        rw [hrest] at hmap
        rw [Comp.bind_err hrest]
        exact ⟨hmap.1, .inr hmap.2⟩
      | ok u =>
        rw [hrest] at hmap
        rw [Comp.bind_ok hrest, hmap.1]
        cases hnext : page.next ar with
        | none => exact .inr rfl
        | some next => exact ⟨rfl, hmap.2, addr, rest, p, rfl, hp, rfl⟩

theorem allocateOne_empty (ar : Arith) (page : Page) (h : b.frames = []) :
    (allocateOne ar page b : Ran _ κ _ _).outcome = .err .frameAllocationFailed := by
  have hrun := allocateFrame_empty (κ := κ) (ε := MapToError) h
  rw [allocateOne, Comp.bind_ok (congrArg Ran.outcome hrun), hrun]
  rfl

/-! ## The loop -/

/-- One round of a loop that comes to its end. -/
theorem initHeapLoop_round {ar : Arith} {fuel n pages : Nat} {page : Page}
    (h : (initHeapLoop ar (fuel + 1) page n b : Ran _ κ ε _).outcome = .ok pages) :
    (pages = n ∧ (initHeapLoop ar (fuel + 1) page n b : Ran _ κ ε _).state.leaf = b.leaf ∧
      (b.frames = [] ∨ b.taken.Stopped UPPER page.index ∨ b.leaf page.index ≠ none)) ∨
    ∃ next addr rest p, page.next ar = some next ∧ b.leaf page.index = none ∧ b.frames = addr :: rest ∧
      PhysAddr.new addr = some p ∧ (initHeapLoop ar (fuel + 1) page n b : Ran _ κ ε _) =
        (initHeapLoop ar fuel next (n + 1) (b.taken.mapped page.index (.containingAddress p))).after
          (allocateOne ar page b : Ran _ κ _ _).events := by
  have hone := allocateOne_spec (κ := κ) ar b page b rfl
  rw [initHeapLoop, Comp.bind_run] at h ⊢
  cases hrun : (allocateOne ar page b : Ran _ κ _ _).outcome with
  | panic => simp [Comp.attempt, hrun] at h
  | err e =>
    left
    rw [hrun] at hone
    simp only [Comp.attempt, hrun, Comp.pure_run, after_outcome, Outcome.ok.injEq] at h
    simp only [Comp.attempt, hrun, Comp.pure_run, after_state]
    exact ⟨h.symm, hone.1, hone.2⟩
  | ok next =>
    right
    rw [hrun] at hone
    obtain ⟨hnext, hleaf, addr, rest, p, hframes, hp, hstate⟩ := hone
    refine ⟨next, addr, rest, p, hnext, hleaf, hframes, hp, ?_⟩
    simp only [Comp.attempt, hrun, hstate]

@[simp] theorem mapped_leaf (b : Boot) (i : Nat) (f : PhysFrame) :
    (b.mapped i f).leaf = Function.update b.leaf i (some f) := rfl

/-- What is mapped stays mapped. -/
theorem initHeapLoop_keeps {ar : Arith} {fuel n pages i : Nat} {page : Page} {f : PhysFrame}
    (h : (initHeapLoop ar fuel page n b : Ran _ κ ε _).outcome = .ok pages) (hi : b.leaf i = some f) :
    (initHeapLoop ar fuel page n b : Ran _ κ ε _).state.leaf i = some f := by
  induction fuel generalizing b n page with
  | zero => exact hi
  | succ fuel ih =>
    rcases initHeapLoop_round h with ⟨_, hleaf, _⟩ | ⟨next, addr, rest, p, _, hnone, _, _, hrun⟩
    · rw [hleaf, hi]
    · rw [hrun] at h ⊢
      have hne : i ≠ page.index := by
        rintro rfl
        rw [hi] at hnone
        cases hnone
      exact ih h (by simp [hne, taken, hi])

/-! ## Counting the tables -/

theorem heapStart_index : heapStart.index = 2 ^ 36 - 2 ^ 34 := by decide

theorem index_of_heap {v : VirtAddr} (hlow : KERNEL_HEAP_START ≤ v.raw) :
    (Page.containingAddress v).index = heapStart.index + heapPage v := by
  have htop := v.raw_lt
  rw [heapStart_index, Page.index, Page.containingAddress]
  simp only [heapPage, KERNEL_HEAP_START] at *
  rw [if_neg (by omega)]
  omega

/-- The part of the address space, `512 ^ level` pages long, that a heap page is in. -/
def part (level k : Nat) : Nat := (heapStart.index + k) / 512 ^ level

theorem part_mono (level : Nat) {j k : Nat} (h : j ≤ k) : part level j ≤ part level k :=
  Nat.div_le_div_right (Nat.add_le_add_left h _)

/-- The levels at which a table is made for a heap page. -/
def newTables (s : Boot) (k : Nat) : List Nat :=
  UPPER.filter fun l => s.entry l (part l k) = .unused ∧ (k = 0 ∨ part l (k - 1) ≠ part l k)

def tablesBefore (s : Boot) (k : Nat) : Nat := ((List.range k).map fun j => (s.newTables j).length).sum

theorem tablesBefore_succ (s : Boot) (k : Nat) :
    s.tablesBefore (k + 1) = s.tablesBefore k + (s.newTables k).length := by
  simp [tablesBefore, List.range_succ]

theorem tablesBefore_mono (s : Boot) {j k : Nat} (h : j ≤ k) : s.tablesBefore j ≤ s.tablesBefore k := by
  induction k, h using Nat.le_induction with
  | base => exact Nat.le_refl _
  | succ k _ ih =>
    rw [tablesBefore_succ]
    omega

theorem tablesBefore_le (s : Boot) (k : Nat) : s.tablesBefore k ≤ 3 * k := by
  induction k with
  | zero => exact Nat.le_refl _
  | succ k ih =>
    have hthree : (s.newTables k).length ≤ 3 := List.length_filter_le _ UPPER
    rw [tablesBefore_succ]
    omega

/-- The tables before two pages are the same when none is made from the one page to the other. -/
theorem tablesBefore_eq_iff (s : Boot) {j k : Nat} (h : j ≤ k) :
    s.tablesBefore j = s.tablesBefore k ↔ ∀ i, j ≤ i → i < k → s.newTables i = [] := by
  induction k, h using Nat.le_induction with
  | base =>
    refine iff_of_true rfl fun i hi hlt => ?_
    omega
  | succ k hk ih =>
    have hle := s.tablesBefore_mono hk
    rw [tablesBefore_succ]
    constructor
    · intro heq i hi hlt
      have hlen : (s.newTables k).length = 0 := by omega
      by_cases hik : i = k
      · exact hik ▸ List.eq_nil_of_length_eq_zero hlen
      · exact ih.mp (by omega) i hi (by omega)
    · intro hall
      rw [hall k hk (Nat.lt_succ_self k), ih.mpr fun i hi hlt => hall i hi (by omega)]
      rfl

/-- No table is made between the frames of two pages. -/
def Undrawn (s : Boot) (j k : Nat) : Prop := ∀ i, min j k ≤ i → i < max j k → s.newTables i = []

theorem undrawn_iff (s : Boot) (j k : Nat) : s.Undrawn j k ↔ s.tablesBefore j = s.tablesBefore k := by
  rcases Nat.le_total j k with h | h
  · rw [Undrawn, Nat.min_eq_left h, Nat.max_eq_right h, s.tablesBefore_eq_iff h]
  · rw [Undrawn, Nat.min_eq_right h, Nat.max_eq_left h, eq_comm, s.tablesBefore_eq_iff h]

/-! ## What the loop has laid out -/

/-- The state `n` rounds after the start from `s`. -/
structure Laid (s : Boot) (n : Nat) (b : Boot) : Prop where
  frames : b.frames = s.frames.drop (n + s.tablesBefore n)
  entry : ∀ l ∈ UPPER, ∀ m, n ≤ m →
    (b.entry l (part l m) = .unused ↔ s.entry l (part l m) = .unused ∧ (n = 0 ∨ part l (n - 1) ≠ part l m))

theorem Laid.start (s : Boot) : Laid s 0 s where
  frames := rfl
  entry := fun l hl m hm => by simp

theorem Laid.missing {s : Boot} {n : Nat} (h : Laid s n b) :
    b.taken.missing UPPER (heapStart.index + n) = s.newTables n := by
  refine List.filter_congr fun l hl => ?_
  exact decide_eq_decide.mpr (h.entry l hl n (Nat.le_refl n))

theorem Laid.next {s : Boot} {n : Nat} (h : Laid s n b) (f : PhysFrame) :
    Laid s (n + 1) (b.taken.mapped (heapStart.index + n) f) where
  frames := by
    have hframes : (b.taken.mapped (heapStart.index + n) f).frames =
      b.frames.tail.drop (s.newTables n).length := by
      rw [← h.missing]
      rfl
    rw [hframes, h.frames, List.tail_drop, List.drop_drop, tablesBefore_succ]
    congr 1
    omega
  entry := by
    intro l hl m hm
    have hold := h.entry l hl m (by omega)
    have hlow : part l (n - 1) ≤ part l n := part_mono l (by omega)
    have hhigh : part l n ≤ part l m := part_mono l (by omega)
    have hnew : (b.taken.mapped (heapStart.index + n) f).entry l (part l m) =
        if part l m = part l n ∧ b.entry l (part l m) = .unused then .table else b.entry l (part l m) :=
      if_congr (by simp [hl, taken, part]) rfl rfl
    rw [hnew, Nat.add_sub_cancel]
    by_cases hpart : part l m = part l n
    · by_cases hentry : b.entry l (part l m) = .unused
      · rw [if_pos ⟨hpart, hentry⟩]
        simp [hpart]
      · rw [if_neg fun hboth => hentry hboth.2]
        exact iff_of_false hentry (by simp [hpart])
    · have hapart : part l n ≠ part l m := fun he => hpart he.symm
      simp only [hpart, false_and, if_false, hold, Nat.add_eq_zero_iff, Nat.one_ne_zero, and_false, false_or,
        ne_eq, hapart, not_false_eq_true, and_true, and_iff_left_iff_imp]
      intro _
      right
      omega

/-- The frame that a heap page takes. -/
def frameOf (s : Boot) (k : Nat) : Option PhysFrame :=
  (s.frames[k + s.tablesBefore k]?.bind PhysAddr.new).map PhysFrame.containingAddress

theorem initHeapLoop_laid {s : Boot} {ar : Arith} {fuel n pages : Nat} {page : Page}
    (h : (initHeapLoop ar fuel page n b : Ran _ κ ε _).outcome = .ok pages)
    (hlaid : n < 2 ^ 34 → Laid s n b ∧ page.index = heapStart.index + n) {m : Nat} (hn : n ≤ m) (hm : m < pages)
    (hroom : m < 2 ^ 34) :
    ∃ f, s.frameOf m = some f ∧
      (initHeapLoop ar fuel page n b : Ran _ κ ε _).state.leaf (heapStart.index + m) = some f := by
  induction fuel generalizing b n page with
  | zero =>
    have hpages : n = pages := by simpa [initHeapLoop] using h
    omega
  | succ fuel ih =>
    rcases initHeapLoop_round h with ⟨hpages, _, _⟩ | ⟨next, addr, rest, p, hnext, hnone, hframes, hp, hrun⟩
    · omega
    · rw [hrun] at h ⊢
      obtain ⟨hlaid, hindex⟩ := hlaid (by omega)
      rw [hindex] at h ⊢
      rw [after_state]
      by_cases hmn : m = n
      · subst hmn
        refine ⟨.containingAddress p, ?_, initHeapLoop_keeps h (by simp)⟩
        have hget : s.frames[m + s.tablesBefore m]? = some addr := by
          rw [← Nat.add_zero (m + s.tablesBefore m), ← List.getElem?_drop, ← hlaid.frames, hframes]
          rfl
        rw [frameOf, hget]
        simp [hp]
      · refine ih h (fun hlt => ⟨hlaid.next _, ?_⟩) (by omega)
        have hbelow : page.index + 1 < 2 ^ 36 := by
          rw [hindex, heapStart_index]
          omega
        rw [Page.next_below hbelow hnext, hindex, Nat.add_assoc]

theorem initHeap_leaf {s : Boot} {ar : Arith} {pages m : Nat}
    (h : (initHeap ar s : Ran _ κ ε _).outcome = .ok pages) (hm : m < pages) (hroom : m < 2 ^ 34) :
    ∃ f, s.frameOf m = some f ∧ (initHeap ar s : Ran _ κ ε _).state.leaf (heapStart.index + m) = some f :=
  initHeapLoop_laid h (fun _ => ⟨.start s, rfl⟩) (Nat.zero_le m) hm hroom

/-! ## How far it comes -/

theorem mapped_frames_length (b : Boot) (i : Nat) (f : PhysFrame) :
    (b.taken.mapped i f).frames.length ≤ b.frames.length - 1 ∧
      b.frames.length ≤ (b.taken.mapped i f).frames.length + 4 := by
  have hmissing : (b.taken.missing UPPER i).length ≤ 3 := List.length_filter_le _ UPPER
  have hlength : (b.taken.mapped i f).frames.length = b.frames.length - 1 - (b.taken.missing UPPER i).length := by
    change (b.frames.tail.drop _).length = _
    rw [List.length_drop, List.length_tail]
  omega

/-- A round that succeeds takes at least the frame of its page. -/
theorem allocateOne_ok {ar : Arith} {page next : Page}
    (h : (allocateOne ar page b : Ran _ κ _ _).outcome = .ok next) : page.next ar = some next ∧
      ∃ addr rest p, b.frames = addr :: rest ∧ PhysAddr.new addr = some p ∧
        (allocateOne ar page b : Ran _ κ _ _).state = b.taken.mapped page.index (.containingAddress p) ∧
        (b.taken.mapped page.index (.containingAddress p)).frames.length < b.frames.length := by
  have hone := allocateOne_spec (κ := κ) ar b page b rfl
  rw [h] at hone
  obtain ⟨hnext, _, addr, rest, p, hframes, hp, hstate⟩ := hone
  have hlength := (mapped_frames_length b page.index (.containingAddress p)).1
  rw [hframes, List.length_cons] at hlength
  refine ⟨hnext, addr, rest, p, hframes, hp, hstate, ?_⟩
  rw [hframes, List.length_cons]
  omega

theorem mapped_huge {i l n : Nat} {f : PhysFrame} (h : b.entry l n ≠ .huge) :
    (b.taken.mapped i f).entry l n ≠ .huge := by
  change (if _ then TableEntry.table else b.entry l n) ≠ .huge
  split
  · simp
  · exact h

/-- No round is left out for want of fuel. -/
theorem initHeapLoop_fuel {ar : Arith} {fuel fuel' n : Nat} {page : Page} (h : b.frames.length < fuel)
    (h' : b.frames.length < fuel') :
    (initHeapLoop ar fuel page n b : Ran _ κ ε _) = initHeapLoop ar fuel' page n b := by
  induction fuel generalizing fuel' b n page with
  | zero => omega
  | succ fuel ih =>
    obtain ⟨fuel', rfl⟩ : ∃ k, fuel' = k + 1 := ⟨fuel' - 1, by omega⟩
    rw [initHeapLoop, initHeapLoop, Comp.bind_run, Comp.bind_run]
    cases hrun : (allocateOne ar page b : Ran _ κ _ _).outcome with
    | panic => simp [Comp.attempt, hrun]
    | err e => simp [Comp.attempt, hrun]
    | ok next =>
      obtain ⟨_, _, _, _, _, _, hstate, hshrinks⟩ := allocateOne_ok hrun
      simp only [Comp.attempt, hrun, hstate]
      exact congrArg (Ran.after _) (ih (by omega) (by omega))

theorem initHeapLoop_ok {ar : Arith} {fuel n : Nat} {page : Page} (hsmall : ¬ b.TooLarge)
    (hroom : page.index + b.frames.length < 2 ^ 36) :
    ∃ pages, (initHeapLoop ar fuel page n b : Ran _ κ ε _).outcome = .ok pages := by
  induction fuel generalizing b n page with
  | zero => exact ⟨n, rfl⟩
  | succ fuel ih =>
    rw [initHeapLoop, Comp.bind_run]
    cases hrun : (allocateOne ar page b : Ran _ κ _ _).outcome with
    | err e => exact ⟨n, by simp [Comp.attempt, hrun]⟩
    | panic =>
      have hone := allocateOne_spec (κ := κ) ar b page b rfl
      have hpos : 0 < b.frames.length := by
        by_contra hnone
        have hempty := List.eq_nil_of_length_eq_zero (Nat.eq_zero_of_not_pos hnone)
        rw [allocateOne_empty ar page hempty] at hrun
        cases hrun
      rw [hrun] at hone
      obtain ⟨next, hnext, _⟩ := Page.next_index ar (p := page) (by omega)
      simp [hnext, hsmall] at hone
    | ok next =>
      obtain ⟨hnext, _, _, p, _, _, hstate, hshrinks⟩ := allocateOne_ok hrun
      have hindex := Page.next_below (by omega) hnext
      simp only [Comp.attempt, hrun, hstate, after_outcome]
      refine ih (fun hlarge => hsmall ?_) (by omega)
      obtain ⟨a, ha, hle⟩ := hlarge
      exact ⟨a, List.mem_of_mem_tail (List.mem_of_mem_drop ha), hle⟩

theorem initHeapLoop_le {ar : Arith} {fuel n pages : Nat} {page : Page}
    (h : (initHeapLoop ar fuel page n b : Ran _ κ ε _).outcome = .ok pages) : n ≤ pages := by
  induction fuel generalizing b n page with
  | zero =>
    have hpages : n = pages := by simpa [initHeapLoop] using h
    omega
  | succ fuel ih =>
    rcases initHeapLoop_round h with ⟨hpages, _, _⟩ | ⟨next, addr, rest, p, _, _, _, _, hrun⟩
    · omega
    · rw [hrun] at h
      have hrest := ih h
      omega

/-- With frames for a page and all its tables left, a page is mapped. -/
theorem initHeapLoop_reaches {ar : Arith} {fuel n j pages : Nat} {page : Page}
    (h : (initHeapLoop ar fuel page n b : Ran _ κ ε _).outcome = .ok pages) (hj : j ≤ fuel)
    (hframes : 4 * j ≤ b.frames.length) (hhuge : ∀ l ∈ UPPER, ∀ k, b.entry l k ≠ .huge)
    (hfree : ∀ i, page.index ≤ i → b.leaf i = none) (hroom : page.index + j < 2 ^ 36) : n + j ≤ pages := by
  induction j generalizing fuel b n page with
  | zero => exact initHeapLoop_le h
  | succ j ih =>
    obtain ⟨fuel, rfl⟩ : ∃ k, fuel = k + 1 := ⟨fuel - 1, by omega⟩
    rcases initHeapLoop_round h with ⟨_, _, hstop⟩ | ⟨next, addr, rest, p, hnext, _, _, _, hrun⟩
    · rcases hstop with hempty | ⟨hshort | ⟨l, hl, hmaps⟩⟩ | htaken
      · simp [hempty] at hframes
      · simp only [taken, List.length_tail, UPPER, List.length_cons, List.length_nil] at hshort
        omega
      · exact absurd hmaps (hhuge l hl _)
      · exact absurd (hfree _ (Nat.le_refl _)) htaken
    · rw [hrun] at h
      have hlength := (mapped_frames_length b page.index (.containingAddress p)).2
      have hindex := Page.next_below (by omega) hnext
      have hrest := ih (n := n + 1) h (by omega) (by omega) (fun l hl k => mapped_huge (hhuge l hl k)) ?_
        (by omega)
      · omega
      · intro i hi
        rw [mapped_leaf, Function.update_of_ne (by omega)]
        exact hfree i (by omega)

theorem initHeap_run (ar : Arith) (s : Boot) :
    (initHeap ar s : Ran _ κ ε _) = initHeapLoop ar (s.frames.length + 1) heapStart 0 s := rfl

theorem initHeap_ok {s : Boot} (ar : Arith) (hsmall : ¬ s.TooLarge) (hroom : s.frames.length < 2 ^ 34) :
    ∃ pages, (initHeap ar s : Ran _ κ ε _).outcome = .ok pages := by
  rw [initHeap_run]
  refine initHeapLoop_ok hsmall ?_
  rw [heapStart_index]
  omega

theorem initHeap_reaches {s : Boot} {ar : Arith} {j pages : Nat}
    (h : (initHeap ar s : Ran _ κ ε _).outcome = .ok pages) (hframes : 4 * j ≤ s.frames.length)
    (hhuge : ∀ l ∈ UPPER, ∀ k, s.entry l k ≠ .huge) (hfree : ∀ i, heapStart.index ≤ i → s.leaf i = none)
    (hroom : j < 2 ^ 34) : j ≤ pages := by
  rw [initHeap_run] at h
  have htop : heapStart.index + j < 2 ^ 36 := by
    rw [heapStart_index]
    omega
  have hreach := initHeapLoop_reaches h (by omega) hframes hhuge hfree htop
  omega

end Boot

end Idkernel
