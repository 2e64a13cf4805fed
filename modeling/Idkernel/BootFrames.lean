import Idkernel.HeapRoundTrip

/-!
# The frames of the memory map

The boot allocator steps through a usable region from its first byte and rounds
every address down to a frame. All frames within the regions come out so. Only
they do, and once each, exactly when the regions are made of whole frames.
-/
namespace Idkernel

open Address Traced

namespace MemoryRegion

/-- A frame lies in the region with all of its bytes. -/
def Holds (r : MemoryRegion) (f : PhysFrame) : Prop := r.start ≤ f.start.raw ∧ f.start.raw + 4096 ≤ r.stop

instance (r : MemoryRegion) (f : PhysFrame) : Decidable (r.Holds f) := by
  unfold Holds
  infer_instance

/-- Both ends of a region that is not empty are at the beginning of a frame. -/
def WholeFrames (r : MemoryRegion) : Prop := r.start < r.stop → r.start % 4096 = 0 ∧ r.stop % 4096 = 0

instance (r : MemoryRegion) : Decidable r.WholeFrames := by
  unfold WholeFrames
  infer_instance

theorem mem_frames {r : MemoryRegion} {x : Nat} :
    x ∈ r.frames ↔ ∃ i, x = r.start + 4096 * i ∧ r.contains x := by
  constructor
  · intro h
    obtain ⟨i, hi⟩ := List.mem_iff_getElem?.mp h
    exact ⟨i, getElem?_frames hi⟩
  · rintro ⟨i, rfl, _, hstop⟩
    exact List.mem_map_of_mem (List.mem_range.mpr (by omega))

theorem frames_nodup (r : MemoryRegion) : r.frames.Nodup :=
  List.Nodup.map (fun i j h => by omega) List.nodup_range

end MemoryRegion

theorem mem_usableRegions {map : List MemoryRegion} {r : MemoryRegion} :
    r ∈ usableRegions map ↔ r ∈ map ∧ r.kind = .usable := by
  simp [usableRegions]

theorem mem_usableFrames {map : List MemoryRegion} {x : Nat} :
    x ∈ usableFrames map ↔ ∃ r ∈ usableRegions map, ∃ i, x = r.start + 4096 * i ∧ r.contains x := by
  simp only [usableFrames, List.mem_flatMap, MemoryRegion.mem_frames]

/-- No address is in two regions. -/
def ApartRegions (map : List MemoryRegion) : Prop :=
  map.Pairwise fun r q => ∀ x, r.contains x → ¬ q.contains x

theorem ApartRegions.unique {map : List MemoryRegion} (h : ApartRegions map) {r q : MemoryRegion} (hr : r ∈ map)
    (hq : q ∈ map) {x : Nat} (hxr : r.contains x) (hxq : q.contains x) : r = q :=
  apart_unique h hr hq hxr hxq

theorem usableFrames_nodup {map : List MemoryRegion} (h : ApartRegions (usableRegions map)) :
    (usableFrames map).Nodup := by
  refine List.nodup_flatMap.mpr ⟨fun r _ => r.frames_nodup, ?_⟩
  refine h.imp fun hrq => List.disjoint_left.mpr ?_
  intro x hr hq
  obtain ⟨_, _, hxr⟩ := MemoryRegion.mem_frames.mp hr
  obtain ⟨_, _, hxq⟩ := MemoryRegion.mem_frames.mp hq
  exact hrq x hxr hxq

/-! ## Calls in a row -/

namespace Boot

/-- `BootInfoFrameAllocator::init` -/
def init (tables : Boot) (map : List MemoryRegion) : Boot := { tables with frames := usableFrames map }

variable {κ ε : Type}

/-- What so many calls return. -/
def allocateFrames : Nat → Comp Boot κ ε (List (Option PhysFrame))
  | 0 => return []
  | n + 1 => do
    let frame ← allocateFrame
    let frames ← allocateFrames n
    return frame :: frames

/-- The frame of an address that the regions were stepped through to. -/
def frameAt (x : Nat) : PhysFrame := .containingAddress (.newTruncate x)

/-- The answers are the frames of the list, in order, and nothing after its end. -/
theorem allocateFrames_run (n : Nat) {b : Boot} (hsmall : ¬ b.TooLarge) :
    (allocateFrames n b : Ran _ κ ε _).outcome =
      .ok ((List.range n).map fun i => b.frames[i]?.map frameAt) := by
  induction n generalizing b with
  | zero => rfl
  | succ n ih =>
    rw [allocateFrames, List.range_succ_eq_map, List.map_cons, List.map_map]
    cases hframes : b.frames with
    | nil =>
      have hrun := allocateFrame_empty (κ := κ) (ε := ε) hframes
      rw [Comp.bind_ok (congrArg Ran.outcome hrun), hrun, after_outcome, Comp.bind_outcome, ih hsmall, hframes]
      rfl
    | cons addr rest =>
      have haddr : addr < 2 ^ 52 := by
        by_contra hlarge
        exact hsmall ⟨addr, by simp [hframes], Nat.le_of_not_lt hlarge⟩
      have hp : PhysAddr.new addr = some (.newTruncate addr) := by
        rw [PhysAddr.new, dif_pos haddr]
        exact congrArg some (PhysAddr.ext (Nat.mod_eq_of_lt haddr).symm)
      have hrun := allocateFrame_first (κ := κ) (ε := ε) hframes hp
      have hrest : b.taken.frames = rest := by simp [taken, hframes]
      rw [Comp.bind_ok (congrArg Ran.outcome hrun), hrun, after_outcome, Comp.bind_outcome,
        ih fun h => hsmall h.of_taken, hrest]
      rfl

/-- The answers of an allocator that was made for a map. -/
def answers (tables : Boot) (map : List MemoryRegion) (n : Nat) : Outcome Empty (List (Option PhysFrame)) :=
  (allocateFrames n (init tables map) : Ran Boot Empty Empty _).outcome

/-- Exactly the frames within usable regions are handed out, no frame twice. -/
structure HandsOutUsable (tables : Boot) (map : List MemoryRegion) : Prop where
  total : ∀ n, ∃ frames, answers tables map n = .ok frames
  once : ∀ n frames, answers tables map n = .ok frames → ∀ (i j : Nat) f,
    frames[i]? = some (some f) → frames[j]? = some (some f) → i = j
  inside : ∀ n frames, answers tables map n = .ok frames → ∀ f, some f ∈ frames →
    ∃ r ∈ map, r.kind = .usable ∧ r.Holds f
  complete : ∀ f, (∃ r ∈ map, r.kind = .usable ∧ r.Holds f) →
    ∃ n frames, answers tables map n = .ok frames ∧ some f ∈ frames

variable {tables : Boot} {map : List MemoryRegion}

theorem answers_eq (hsmall : ∀ r ∈ map, r.stop < 2 ^ 52) (n : Nat) : answers tables map n =
    .ok ((List.range n).map fun i => (usableFrames map)[i]?.map frameAt) := by
  refine allocateFrames_run n ?_
  rintro ⟨x, hx, hlarge⟩
  obtain ⟨r, hr, _, _, _, hstop⟩ := mem_usableFrames.mp hx
  have hbound := hsmall r (mem_usableRegions.mp hr).1
  omega

variable (tables) in
/-- Some call returns a frame exactly when some address that was stepped to is in it. -/
theorem answered_iff (hsmall : ∀ r ∈ map, r.stop < 2 ^ 52) {f : PhysFrame} :
    (∃ n frames, answers tables map n = .ok frames ∧ some f ∈ frames) ↔
      ∃ x ∈ usableFrames map, x - x % 4096 = f.start.raw := by
  have hframe : ∀ x ∈ usableFrames map, frameAt x = f ↔ x - x % 4096 = f.start.raw := by
    intro x hx
    obtain ⟨r, hr, _, _, _, hstop⟩ := mem_usableFrames.mp hx
    have hbound := hsmall r (mem_usableRegions.mp hr).1
    have hraw : (frameAt x).start.raw = x - x % 4096 := by
      simp only [frameAt, PhysFrame.containingAddress, PhysAddr.newTruncate]
      omega
    exact ⟨fun he => he ▸ hraw.symm, fun he => PhysFrame.ext (hraw.trans he)⟩
  constructor
  · rintro ⟨n, frames, hframes, hf⟩
    rw [answers_eq hsmall] at hframes
    cases hframes
    obtain ⟨i, _, hi⟩ := List.mem_map.mp hf
    obtain ⟨x, hx, hxf⟩ := Option.map_eq_some_iff.mp hi
    have hmem := List.mem_of_getElem? hx
    exact ⟨x, hmem, (hframe x hmem).mp hxf⟩
  · rintro ⟨x, hx, hxf⟩
    obtain ⟨i, hi⟩ := List.mem_iff_getElem?.mp hx
    refine ⟨i + 1, _, answers_eq hsmall _, List.mem_map.mpr ⟨i, List.self_mem_range_succ, ?_⟩⟩
    rw [hi, Option.map_some, (hframe x hx).mpr hxf]

/-- Rounding down misses no frame that a region holds, wherever the region starts. -/
theorem answers_complete (hsmall : ∀ r ∈ map, r.stop < 2 ^ 52) {f : PhysFrame} {r : MemoryRegion} (hr : r ∈ map)
    (hkind : r.kind = .usable) (hf : r.Holds f) :
    ∃ n frames, answers tables map n = .ok frames ∧ some f ∈ frames := by
  obtain ⟨hlow, hhigh⟩ := hf
  have haligned := f.aligned
  -- the step that falls into the frame
  let i := (f.start.raw - r.start + 4095) / 4096
  refine (answered_iff tables hsmall).mpr ⟨r.start + 4096 * i, ?_, by omega⟩
  exact mem_usableFrames.mpr ⟨r, mem_usableRegions.mpr ⟨hr, hkind⟩, i, rfl, by omega, by omega⟩

/-- In whole frames there is nothing to round. -/
theorem mem_usableFrames_aligned (hwhole : ∀ r ∈ map, r.kind = .usable → r.WholeFrames) {x : Nat}
    (hx : x ∈ usableFrames map) :
    x % 4096 = 0 ∧ ∃ r ∈ map, r.kind = .usable ∧ r.start ≤ x ∧ x + 4096 ≤ r.stop := by
  obtain ⟨r, hr, i, rfl, hlow, hhigh⟩ := mem_usableFrames.mp hx
  obtain ⟨hmem, hkind⟩ := mem_usableRegions.mp hr
  obtain ⟨hstart, hstop⟩ := hwhole r hmem hkind (by omega)
  exact ⟨by omega, r, hmem, hkind, by omega, by omega⟩

theorem handsOut_of_whole (hapart : ApartRegions map) (hsmall : ∀ r ∈ map, r.stop < 2 ^ 52)
    (hwhole : ∀ r ∈ map, r.kind = .usable → r.WholeFrames) : HandsOutUsable tables map where
  total := fun n => ⟨_, answers_eq hsmall n⟩
  once := by
    intro n frames hframes i j f hi hj
    rw [answers_eq hsmall] at hframes
    cases hframes
    -- every answer is the address it was stepped to
    have hat : ∀ k : Nat, ((List.range n).map fun i => (usableFrames map)[i]?.map frameAt)[k]? = some (some f) →
        (usableFrames map)[k]? = some f.start.raw := by
      intro k hk
      simp only [List.getElem?_map, Option.map_eq_some_iff, List.getElem?_eq_some_iff, List.length_range,
        List.getElem_range] at hk
      obtain ⟨_, ⟨hlt, rfl⟩, x, hx, rfl⟩ := hk
      obtain ⟨hzero, r, hr, _, _, hstop⟩ := mem_usableFrames_aligned hwhole (List.getElem_mem hx.1)
      have hbound := hsmall r hr
      have hraw : (frameAt x).start.raw = x := by
        simp only [frameAt, PhysFrame.containingAddress, PhysAddr.newTruncate]
        omega
      rw [List.getElem?_eq_some_iff, hraw]
      exact hx
    have hregions : ApartRegions (usableRegions map) := hapart.filter _
    exact (List.getElem?_inj (List.getElem?_eq_some_iff.mp (hat i hi)).1 (usableFrames_nodup hregions)).mp
      ((hat i hi).trans (hat j hj).symm)
  inside := by
    intro n frames hframes f hf
    obtain ⟨x, hx, hxf⟩ := (answered_iff tables hsmall).mp ⟨n, frames, hframes, hf⟩
    obtain ⟨hzero, r, hr, hkind, hlow, hhigh⟩ := mem_usableFrames_aligned hwhole hx
    exact ⟨r, hr, hkind, by omega, by omega⟩
  complete := fun f ⟨_, hr, hkind, hf⟩ => answers_complete hsmall hr hkind hf

/-- The frame of an address that is stepped to has to be in the region of the address. -/
theorem HandsOutUsable.holds (h : HandsOutUsable tables map) (hapart : ApartRegions map)
    (hsmall : ∀ r ∈ map, r.stop < 2 ^ 52) {r : MemoryRegion} (hr : r ∈ map) (hkind : r.kind = .usable) {i : Nat}
    (hi : r.contains (r.start + 4096 * i)) :
    r.start ≤ r.start + 4096 * i - (r.start + 4096 * i) % 4096 ∧
      r.start + 4096 * i - (r.start + 4096 * i) % 4096 + 4096 ≤ r.stop := by
  have hbound := hsmall r hr
  have hin := hi.2
  let f : PhysFrame := frameAt (r.start + 4096 * i)
  have hraw : f.start.raw = r.start + 4096 * i - (r.start + 4096 * i) % 4096 := by
    simp only [f, frameAt, PhysFrame.containingAddress, PhysAddr.newTruncate]
    omega
  have hmem : r.start + 4096 * i ∈ usableFrames map :=
    mem_usableFrames.mpr ⟨r, mem_usableRegions.mpr ⟨hr, hkind⟩, i, rfl, hi⟩
  obtain ⟨n, frames, hframes, hf⟩ := (answered_iff tables hsmall).mpr ⟨_, hmem, hraw.symm⟩
  obtain ⟨q, hq, _, hlow, hhigh⟩ := h.inside n frames hframes f hf
  obtain rfl : r = q := hapart.unique hr hq hi ⟨by omega, by omega⟩
  omega

/-- The frames handed out are those of the usable memory exactly when all usable regions are made of whole
frames. -/
theorem handsOutUsable_iff (tables : Boot) (map : List MemoryRegion) (hapart : ApartRegions map)
    (hsmall : ∀ r ∈ map, r.stop < 2 ^ 52) :
    HandsOutUsable tables map ↔ ∀ r ∈ map, r.kind = .usable → r.WholeFrames := by
  constructor
  · intro h r hr hkind hne
    -- the first and the last step
    have hfirst := h.holds hapart hsmall hr hkind (i := 0) ⟨by omega, by omega⟩
    have hlast := h.holds hapart hsmall hr hkind (i := (r.stop - r.start - 1) / 4096) ⟨by omega, by omega⟩
    omega
  · intro hwhole
    exact handsOut_of_whole hapart hsmall hwhole

/-- Two usable regions of whole frames with reserved memory between and behind them. -/
def wholeFrames : List MemoryRegion :=
  [⟨0x1000, 0x3000, .usable, by decide, by decide⟩, ⟨0x3000, 0x3800, .unknownBios 2, by decide, by decide⟩,
    ⟨0x4000, 0x6000, .usable, by decide, by decide⟩, ⟨0x6000, 0x6100, .bootloader, by decide, by decide⟩]

theorem wholeFrames_apart : ApartRegions wholeFrames := by
  have hbefore : ∀ r s : MemoryRegion, r.stop ≤ s.start → ∀ x, r.contains x → ¬ s.contains x := by
    intro r s hle x hr hs
    unfold MemoryRegion.contains at hr hs
    omega
  have hsorted : wholeFrames.Pairwise fun r s => r.stop ≤ s.start := by decide
  exact hsorted.imp (hbefore _ _)

theorem handsOutUsable_iff_whole : HandsOutUsable (emptyBoot []) wholeFrames ↔
    ∀ r ∈ wholeFrames, r.kind = .usable → r.WholeFrames :=
  handsOutUsable_iff (emptyBoot []) wholeFrames wholeFrames_apart (by decide)

/-- Usable memory that begins in the middle of a frame; the firmware uses the first half. -/
def sharedFrame : List MemoryRegion :=
  [⟨0, 0x1800, .unknownBios 2, by decide, by decide⟩, ⟨0x1800, 0x3000, .usable, by decide, by decide⟩]

/-- The frame that the firmware uses is handed out. -/
theorem shared_frame_handed_out : ApartRegions sharedFrame ∧ (∀ r ∈ sharedFrame, r.stop < 2 ^ 52) ∧
    answers (emptyBoot []) sharedFrame 1 =
      .ok [some ⟨⟨0x1000, by decide⟩, by decide⟩] ∧
    ¬ HandsOutUsable (emptyBoot []) sharedFrame := by
  have hfirst : answers (emptyBoot []) sharedFrame 1 =
      .ok [some ⟨⟨0x1000, by decide⟩, by decide⟩] := rfl
  refine ⟨?_, by decide, hfirst, fun h => ?_⟩
  · simp only [ApartRegions, sharedFrame, List.pairwise_cons, List.mem_singleton, forall_eq,
      MemoryRegion.contains, List.not_mem_nil, false_imp_iff, implies_true, List.Pairwise.nil, and_true]
    omega
  · obtain ⟨r, hr, hkind, hlow, hhigh⟩ := h.inside 1 _ hfirst _ (List.mem_singleton_self _)
    simp only [sharedFrame, List.mem_cons, List.not_mem_nil, or_false] at hr
    rcases hr with rfl | rfl
    · cases hkind
    · exact absurd hlow (by decide)

end Boot

end Idkernel
