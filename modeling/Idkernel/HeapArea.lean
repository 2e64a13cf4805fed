import Idkernel.BootFrames

/-!
# The heap area

The loop that maps the heap ends by itself. It has then mapped one page after
another from the start of the heap on, and no frame of theirs is the frame of
another page or of a page table.
-/
namespace Idkernel

open Address Traced

namespace Boot

/-! ## Rounds -/

/-- So many rounds of the loop have succeeded. -/
inductive Rounds (ar : Arith) (s : Boot) : Nat → Page → Boot → Prop where
  | start : Rounds ar s 0 heapStart s
  | round {n : Nat} {page next : Page} {b : Boot} : Rounds ar s n page b →
    (allocateOne ar page b : Ran Boot Empty MapToError Page).outcome = .ok next →
    Rounds ar s (n + 1) next (allocateOne ar page b : Ran Boot Empty MapToError Page).state

/-- The addresses of the frames that a call takes. -/
def drawn {α ε : Type} (c : Comp Boot Empty ε α) (b : Boot) : List Nat :=
  b.frames.take (b.frames.length - (c b).state.frames.length)

/-- In some round, the last one included, `mapTo` takes the frame. -/
def TakenByMapTo (ar : Arith) (s : Boot) (x : Nat) : Prop :=
  ∃ n page b frame b', Rounds ar s n page b ∧
    (allocateFrame b : Ran Boot Empty MapToError _) = ⟨.ok (some frame), b', []⟩ ∧
    x ∈ drawn (mapTo page frame) b'

section Rounds

variable {ar : Arith} {s b b' : Boot} {n m : Nat} {page page' : Page}

theorem Rounds.unique (h : Rounds ar s n page b) (h' : Rounds ar s n page' b') : page = page' ∧ b = b' := by
  induction h generalizing page' b' with
  | start =>
    cases h'
    exact ⟨rfl, rfl⟩
  | round _ hok ih =>
    cases h' with
    | round h' hok' =>
      obtain ⟨rfl, rfl⟩ := ih h'
      rw [hok] at hok'
      cases hok'
      exact ⟨rfl, rfl⟩

/-- The rounds before have succeeded as well. -/
theorem Rounds.before (h : Rounds ar s n page b) (hm : m < n) :
    ∃ page' b' next, Rounds ar s m page' b' ∧
      (allocateOne ar page' b' : Ran Boot Empty MapToError Page).outcome = .ok next := by
  induction h with
  | start => omega
  | @round k p next c hrounds hok ih =>
    by_cases hk : m = k
    · subst hk
      exact ⟨p, c, next, hrounds, hok⟩
    · exact ih (by omega)

/-- What the rounds have left of the frames, and what they have mapped. -/
structure Progress (s : Boot) (n : Nat) (page : Page) (b : Boot) : Prop where
  laid : Laid s n b
  page : page.index = heapStart.index + n
  left : n + b.frames.length ≤ s.frames.length
  mapped : ∀ k < n, ∃ f, s.frameOf k = some f ∧ b.leaf (heapStart.index + k) = some f
  ahead : ∀ k, n ≤ k → b.leaf (heapStart.index + k) = s.leaf (heapStart.index + k)

theorem Rounds.progress (hroom : s.frames.length < 2 ^ 34) (h : Rounds ar s n page b) :
    Progress s n page b := by
  induction h with
  | start =>
    exact
      { laid := .start s
        page := rfl
        left := by omega
        mapped := by simp
        ahead := by simp }
  | @round n page next b _ hok ih =>
    obtain ⟨hnext, addr, rest, p, hframes, hp, hstate, hshrinks⟩ := allocateOne_ok hok
    have hleft := ih.left
    have hindex := ih.page
    have hbelow : page.index + 1 < 2 ^ 36 := by
      rw [hindex, heapStart_index]
      omega
    rw [hstate]
    rw [hindex] at hshrinks ⊢
    have hframe : s.frameOf n = some (.containingAddress p) := by
      have hget : s.frames[n + s.tablesBefore n]? = some addr := by
        rw [← Nat.add_zero (n + s.tablesBefore n), ← List.getElem?_drop, ← ih.laid.frames, hframes]
        rfl
      rw [frameOf, hget]
      simp [hp]
    exact
      { laid := ih.laid.next _
        page := by rw [Page.next_below hbelow hnext, hindex, Nat.add_assoc]
        left := by omega
        mapped := by
          intro k hk
          by_cases hkn : k = n
          · subst hkn
            exact ⟨_, hframe, by simp⟩
          · obtain ⟨f, hf, hleaf⟩ := ih.mapped k (by omega)
            exact ⟨f, hf, by simp [hkn, taken, hleaf]⟩
        ahead := by
          intro k hk
          have hne : k ≠ n := by omega
          simp [hne, taken, ih.ahead k (by omega)] }

/-! ## The end of the loop -/

/-- The loop leaves at the first round that does not succeed. -/
theorem initHeapLoop_ends {fuel pages : Nat} (h : Rounds ar s n page b) (hfuel : b.frames.length < fuel)
    (hrun : (initHeapLoop ar fuel page n b : Ran Boot Empty Empty Nat).outcome = .ok pages) :
    ∃ page' b' e, Rounds ar s pages page' b' ∧
      (allocateOne ar page' b' : Ran Boot Empty MapToError Page).outcome = .err e ∧
      (initHeapLoop ar fuel page n b : Ran Boot Empty Empty Nat).state =
        (allocateOne ar page' b' : Ran Boot Empty MapToError Page).state := by
  induction fuel generalizing b n page with
  | zero => omega
  | succ fuel ih =>
    rw [initHeapLoop, Comp.bind_run] at hrun ⊢
    cases hok : (allocateOne ar page b : Ran Boot Empty MapToError Page).outcome with
    | panic => simp [Comp.attempt, hok] at hrun
    | err e =>
      simp only [Comp.attempt, hok, Comp.pure_run, after_outcome, Outcome.ok.injEq] at hrun
      subst hrun
      exact ⟨page, b, e, h, hok, by simp only [Comp.attempt, hok, Comp.pure_run, after_state]⟩
    | ok next =>
      obtain ⟨_, _, _, _, _, _, hstate, hshrinks⟩ := allocateOne_ok hok
      simp only [Comp.attempt, hok, after_outcome, after_state] at hrun ⊢
      exact ih (h.round hok) (by rw [hstate]; omega) hrun

/-- Each round takes a frame, so some round does not succeed. -/
theorem Rounds.ends (h : Rounds ar s n page b) : ∃ k page' b', Rounds ar s k page' b' ∧
    ∀ next, (allocateOne ar page' b' : Ran Boot Empty MapToError Page).outcome ≠ .ok next := by
  induction hlen : b.frames.length using Nat.strongRecOn generalizing n page b with
  | ind len ih =>
    cases hok : (allocateOne ar page b : Ran Boot Empty MapToError Page).outcome with
    | panic => exact ⟨n, page, b, h, by simp [hok]⟩
    | err e => exact ⟨n, page, b, h, by simp [hok]⟩
    | ok next =>
      obtain ⟨_, _, _, _, _, _, hstate, hshrinks⟩ := allocateOne_ok hok
      exact ih _ (by rw [hstate]; omega) (h.round hok) rfl

/-! ## Frames of tables -/

theorem allocateFrame_inv {κ ε : Type} {frame : PhysFrame}
    (h : (allocateFrame b : Ran _ κ ε _) = ⟨.ok (some frame), b', []⟩) : b.frames ≠ [] ∧ b' = b.taken := by
  cases hframes : b.frames with
  | nil =>
    rw [allocateFrame_empty hframes] at h
    cases h
  | cons addr rest =>
    cases hp : PhysAddr.new addr with
    | none =>
      have hpanic := allocateFrame_large (κ := κ) (ε := ε) hframes hp
      rw [h] at hpanic
      cases hpanic
    | some p =>
      rw [allocateFrame_first hframes hp] at h
      simp only [Ran.mk.injEq, Outcome.ok.injEq, and_true] at h
      exact ⟨by simp, h.2.symm⟩

/-- Tables come behind the frame of their page, and before that of the next page if there is one. -/
theorem TakenByMapTo.position {x : Nat} (hroom : s.frames.length < 2 ^ 34) (h : TakenByMapTo ar s x) :
    ∃ n page b i, Rounds ar s n page b ∧ s.frames[i]? = some x ∧ n + s.tablesBefore n < i ∧
      ∀ next, (allocateOne ar page b : Ran Boot Empty MapToError Page).outcome = .ok next →
        i ≤ n + s.tablesBefore (n + 1) := by
  obtain ⟨n, page, b, frame, b', hrounds, hframe, hx⟩ := h
  have hprogress := hrounds.progress hroom
  obtain ⟨hne, rfl⟩ := allocateFrame_inv hframe
  obtain ⟨i, hi, hget⟩ := List.mem_take_iff_getElem.mp hx
  have hfront : b.taken.frames = s.frames.drop (n + s.tablesBefore n + 1) := by
    rw [taken, hprogress.laid.frames, List.tail_drop]
  have hat : s.frames[n + s.tablesBefore n + 1 + i]? = some x := by
    rw [← List.getElem?_drop, ← hfront, List.getElem?_eq_getElem (by omega), hget]
  refine ⟨n, page, b, _, hrounds, hat, by omega, fun next hok => ?_⟩
  rw [allocateOne, Comp.bind_ok (congrArg Ran.outcome hframe), hframe, after_nil, Comp.okOr_some,
    Comp.ret_bind] at hok
  obtain ⟨_, hmapped, _⟩ := Comp.bind_inv hok
  have hspec := mapTo_spec (κ := Empty) b.taken page frame b.taken rfl
  rw [hmapped] at hspec
  have hleft : (mapTo page frame b.taken : Ran Boot Empty _ _).state.frames =
      b.taken.frames.drop (s.newTables n).length := by
    rw [hspec.1, hprogress.page, ← hprogress.laid.missing]
    rfl
  rw [hleft, List.length_drop] at hi
  rw [tablesBefore_succ]
  omega

/-- The frame of a page is no table's, whatever round it is and whether that succeeds. -/
theorem not_taken {last : Page} {t : Boot} {pages k : Nat} {x : Nat} (hroom : s.frames.length < 2 ^ 34)
    (hnodup : s.frames.Nodup) (h : Rounds ar s pages last t) (hk : k < pages)
    (hx : s.frames[k + s.tablesBefore k]? = some x) : ¬ TakenByMapTo ar s x := by
  intro htaken
  obtain ⟨n, page, b, i, hrounds, hi, hlow, hhigh⟩ := htaken.position hroom
  have hplace : i = k + s.tablesBefore k :=
    (List.getElem?_inj (List.getElem?_eq_some_iff.mp hi).1 hnodup).mp (hi.trans hx.symm)
  by_cases hnk : k ≤ n
  · have hmono := s.tablesBefore_mono hnk
    omega
  · obtain ⟨page', b', next, hrounds', hok⟩ := h.before (show n < pages by omega)
    obtain ⟨rfl, rfl⟩ := hrounds.unique hrounds'
    have hbefore := hhigh next hok
    have hmono := s.tablesBefore_mono (show n + 1 ≤ k by omega)
    omega

end Rounds

/-! ## The heap -/

/-- Exactly the first pages of the heap area are mapped, to frames of usable memory that nothing
else takes. -/
structure HeapMapped (ar : Arith) (map : List MemoryRegion) (s : Boot) (allocated : Nat) (t : Boot) : Prop where
  room : allocated < 2 ^ 34
  exactly : ∀ k < 2 ^ 34, (t.leaf (heapStart.index + k)).isSome ↔ k < allocated
  usable : ∀ k < 2 ^ 34, ∀ f, t.leaf (heapStart.index + k) = some f → ∃ r ∈ map, r.kind = .usable ∧ r.Holds f
  distinct : ∀ j < 2 ^ 34, ∀ k < 2 ^ 34, ∀ f, t.leaf (heapStart.index + j) = some f →
    t.leaf (heapStart.index + k) = some f → j = k
  notTables : ∀ k < 2 ^ 34, ∀ f, t.leaf (heapStart.index + k) = some f → ¬ TakenByMapTo ar s f.start.raw
  covered : ∀ v : VirtAddr, KERNEL_HEAP_START ≤ v.raw → v.raw < KERNEL_HEAP_START + allocated * 4096 →
    (t.translateAddr v).isSome

/-- The bytes of usable memory. -/
def usableSize (map : List MemoryRegion) : Nat := ((usableRegions map).map fun r => r.stop - r.start).sum

theorem length_usableFrames {map : List MemoryRegion} (hmap : ValidMap map) :
    4096 * (usableFrames map).length = usableSize map := by
  have haligned := hmap.aligned
  simp only [usableFrames, usableSize]
  generalize usableRegions map = regions at haligned
  induction regions with
  | nil => rfl
  | cons r rest ih =>
    have hfirst := haligned r (by simp)
    have hrest := ih fun q hq => haligned q (by simp [hq])
    have hlength : r.frames.length = (r.stop - r.start + 4095) / 4096 := by simp [MemoryRegion.frames]
    rw [List.flatMap_cons, List.length_append, List.map_cons, List.sum_cons, hlength]
    omega

/-- The address behind a frame of the map. -/
theorem frameOf_usable {map : List MemoryRegion} {s : Boot} {used k : Nat} {f : PhysFrame} (hmap : ValidMap map)
    (hframes : s.frames = (usableFrames map).drop used) (hf : s.frameOf k = some f) :
    s.frames[k + s.tablesBefore k]? = some f.start.raw ∧ ∃ r ∈ map, r.kind = .usable ∧ r.Holds f := by
  obtain ⟨p, hp, rfl⟩ := Option.map_eq_some_iff.mp hf
  obtain ⟨addr, haddr, hnew⟩ := Option.bind_eq_some_iff.mp hp
  obtain ⟨hraw, _⟩ := PhysAddr.new_cases hnew
  have hmem : addr ∈ usableFrames map := List.mem_of_mem_drop (hframes ▸ List.mem_of_getElem? haddr)
  have hwhole : ∀ r ∈ map, r.kind = .usable → r.WholeFrames := fun r hr hkind _ =>
    hmap.aligned r (mem_usableRegions.mpr ⟨hr, hkind⟩)
  obtain ⟨hzero, r, hr, hkind, hlow, hhigh⟩ := mem_usableFrames_aligned hwhole hmem
  have hstart : (PhysFrame.containingAddress p).start.raw = addr := by
    simp only [PhysFrame.containingAddress]
    omega
  rw [hstart]
  exact ⟨haddr, r, hr, hkind, by omega, by omega⟩

/-- Pages have places of their own. -/
theorem place_inj (s : Boot) {j k : Nat} (h : j + s.tablesBefore j = k + s.tablesBefore k) : j = k := by
  rcases Nat.le_total j k with hle | hle
  · have hmono := s.tablesBefore_mono hle
    omega
  · have hmono := s.tablesBefore_mono hle
    omega

/-- A page that is mapped in the heap area is one of those of the rounds. -/
theorem Progress.leaf {s b : Boot} {n k : Nat} {page : Page} {f : PhysFrame} (h : Progress s n page b)
    (hfree : s.leaf (heapStart.index + k) = none) (hf : b.leaf (heapStart.index + k) = some f) :
    k < n ∧ s.frameOf k = some f := by
  by_cases hlt : k < n
  · obtain ⟨g, hg, hgleaf⟩ := h.mapped k hlt
    rw [hf] at hgleaf
    cases hgleaf
    exact ⟨hlt, hg⟩
  · rw [h.ahead k (by omega), hfree] at hf
    cases hf

/-- The heap after the loop has left at a round that failed. -/
theorem Rounds.mapped {ar : Arith} {map : List MemoryRegion} {s b t : Boot} {used allocated : Nat} {page : Page}
    (hmap : ValidMap map) (hframes : s.frames = (usableFrames map).drop used) (hroom : s.frames.length < 2 ^ 34)
    (hfree : ∀ k < 2 ^ 34, s.leaf (heapStart.index + k) = none) (h : Rounds ar s allocated page b)
    (ht : t.leaf = b.leaf) : HeapMapped ar map s allocated t := by
  have hprogress := h.progress hroom
  have hleft := hprogress.left
  have hnodup : s.frames.Nodup := by
    rw [hframes]
    exact (List.drop_sublist used _).nodup (usableFrames_nodup hmap.disjoint)
  have hleaf : ∀ k < 2 ^ 34, ∀ f, t.leaf (heapStart.index + k) = some f →
      k < allocated ∧ s.frameOf k = some f := by
    intro k hk f hf
    exact hprogress.leaf (hfree k hk) (ht ▸ hf)
  exact
    { room := by omega
      exactly := by
        intro k hk
        constructor
        · intro hsome
          obtain ⟨f, hf⟩ := Option.isSome_iff_exists.mp hsome
          exact (hleaf k hk f hf).1
        · intro hlt
          obtain ⟨f, _, hf⟩ := hprogress.mapped k hlt
          rw [ht, hf]
          rfl
      usable := by
        intro k hk f hf
        exact (frameOf_usable hmap hframes (hleaf k hk f hf).2).2
      distinct := by
        intro j hj k hk f hjf hkf
        have hjat := (frameOf_usable hmap hframes (hleaf j hj f hjf).2).1
        have hkat := (frameOf_usable hmap hframes (hleaf k hk f hkf).2).1
        have hplace : j + s.tablesBefore j = k + s.tablesBefore k :=
          (List.getElem?_inj (List.getElem?_eq_some_iff.mp hjat).1 hnodup).mp (hjat.trans hkat.symm)
        exact s.place_inj hplace
      notTables := by
        intro k hk f hf
        obtain ⟨hlt, hframe⟩ := hleaf k hk f hf
        exact not_taken hroom hnodup h hlt (frameOf_usable hmap hframes hframe).1
      covered := by
        intro v hlow hhigh
        have hpage : heapPage v < allocated := by
          simp only [heapPage]
          omega
        obtain ⟨f, _, hf⟩ := hprogress.mapped _ hpage
        rw [translateAddr, index_of_heap hlow, ht, hf]
        rfl }

/-- For every memory map of whole frames with less memory than the heap area has room for, some
round of the loop fails. It does not panic where the memory has physical addresses. Then the rounds
before it have mapped the heap. -/
theorem init_heap_maps (ar : Arith) {map : List MemoryRegion} (s : Boot) (used : Nat) (hmap : ValidMap map)
    (hframes : s.frames = (usableFrames map).drop used) (hsize : usableSize map < 2 ^ 46)
    (hfree : ∀ k < 2 ^ 34, s.leaf (heapStart.index + k) = none) :
    (∃ n page b, Rounds ar s n page b ∧
      ∀ next, (allocateOne ar page b : Ran Boot Empty MapToError Page).outcome ≠ .ok next) ∧
    ((∀ r ∈ usableRegions map, r.stop ≤ 2 ^ 52) →
      ∃ allocated, (initHeap ar s : Ran Boot Empty Empty Nat).outcome = .ok allocated) ∧
    ∀ allocated, (initHeap ar s : Ran Boot Empty Empty Nat).outcome = .ok allocated →
      (∃ page b e, Rounds ar s allocated page b ∧
        (allocateOne ar page b : Ran Boot Empty MapToError Page).outcome = .err e) ∧
      HeapMapped ar map s allocated (initHeap ar s : Ran Boot Empty Empty Nat).state := by
  have hroom : s.frames.length < 2 ^ 34 := by
    have hlength := length_usableFrames hmap
    rw [hframes, List.length_drop]
    omega
  refine ⟨Rounds.ends .start, fun hphysical => ?_, fun allocated hok => ?_⟩
  · refine initHeap_ok ar ?_ hroom
    rintro ⟨x, hx, hlarge⟩
    rw [hframes] at hx
    obtain ⟨r, hr, _, _, _, hstop⟩ := mem_usableFrames.mp (List.mem_of_mem_drop hx)
    have hbound := hphysical r hr
    omega
  · rw [initHeap_run] at hok ⊢
    have hstart : Rounds ar s 0 heapStart s := .start
    obtain ⟨page, b, e, hrounds, herr, hstate⟩ := initHeapLoop_ends hstart (Nat.lt_succ_self _) hok
    have hone := allocateOne_spec (κ := Empty) ar b page b rfl
    rw [herr] at hone
    have hleaf := congrArg Boot.leaf hstate
    exact ⟨⟨page, b, e, hrounds, herr⟩, hrounds.mapped hmap hframes hroom hfree (hleaf.trans hone.1)⟩

theorem init_heap_maps_region :
    (∃ n page b, Rounds .checked (emptyBoot (oneRegion 8 eight_frames)) n page b ∧
      ∀ next, (allocateOne .checked page b : Ran Boot Empty MapToError Page).outcome ≠ .ok next) ∧
    ((∀ r ∈ usableRegions (oneRegion 8 eight_frames), r.stop ≤ 2 ^ 52) →
      ∃ allocated,
        (initHeap .checked (emptyBoot (oneRegion 8 eight_frames)) : Ran Boot Empty Empty Nat).outcome =
          .ok allocated) ∧
    ∀ allocated, (initHeap .checked (emptyBoot (oneRegion 8 eight_frames)) : Ran Boot Empty Empty Nat).outcome =
        .ok allocated →
      (∃ page b e, Rounds .checked (emptyBoot (oneRegion 8 eight_frames)) allocated page b ∧
        (allocateOne .checked page b : Ran Boot Empty MapToError Page).outcome = .err e) ∧
      HeapMapped .checked (oneRegion 8 eight_frames) (emptyBoot (oneRegion 8 eight_frames)) allocated
        (initHeap .checked (emptyBoot (oneRegion 8 eight_frames)) : Ran Boot Empty Empty Nat).state :=
  init_heap_maps .checked (emptyBoot (oneRegion 8 eight_frames)) 0 (oneRegion_valid _) (emptyBoot_frames _)
    (by decide) fun _ _ => rfl

/-- Eight frames hold five pages and the three tables above them. -/
example : (initHeap .checked (emptyBoot (oneRegion 8 eight_frames)) : Ran Boot Empty Empty Nat).outcome =
    .ok 5 := by decide +kernel

end Boot

end Idkernel
