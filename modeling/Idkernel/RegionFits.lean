import Idkernel.Conservation

/-!
# Regions at the end of the address space

Only the sum of the aligned start and the size is checked when a region is
tried. Adding the alignment to the start is not, so a region close to the end of
the address space either stops the kernel or is entered at the null pointer, and
a layout close to the greatest size cannot be brought to the alignment of a
node.
-/
namespace Idkernel

open Address Objects LinkedListAllocator

open ListNode (SIZE ALIGN)

namespace LinkedListAllocator

/-- What a region answers a layout with, whichever way the machine counts: an aligned block of it, or an error. -/
structure AnswersInside (layout : Layout) (startAddr : Nat) (region : ListNode) (size align : Nat)
    (answer : Except Unit Nat) : Prop where
  adjusted : sizeAlign layout = some (size, align)
  word : size < 2 ^ 63 ∧ align < 2 ^ 64
  rounded : ∀ ar, ∃ a, alignUp (.machine ar) startAddr align = some a ∧ startAddr ≤ a ∧ a < 2 ^ 64 ∧ align ∣ a
  same : ∀ ar, allocFromRegion (.machine ar) startAddr region size align = some answer
  aligned : ∀ a, answer = .ok a → align ∣ a ∧ layout.align ∣ a
  within : ∀ a, answer = .ok a → startAddr ≤ a ∧ a + size ≤ startAddr + region.size

/-- The sums that are not checked stay in the word. -/
def SumsFit (layout : Layout) (startAddr : Nat) : Prop :=
  layout.size + max layout.align ALIGN ≤ 2 ^ 63 ∧ startAddr + max layout.align ALIGN < 2 ^ 64

instance (layout : Layout) (startAddr : Nat) : Decidable (SumsFit layout startAddr) :=
  inferInstanceAs (Decidable (_ ∧ _))

section Region

variable {layout : Layout} {startAddr size align : Nat} {region : ListNode}

theorem answersInside (hregion : startAddr + region.size < 2 ^ 64) (h : sizeAlign layout = some (size, align))
    (hsum : startAddr + align < 2 ^ 64) :
    AnswersInside layout startAddr region size align
      (if Room size align (startAddr, region.size) then .ok (roundUp startAddr align) else .error ()) := by
  obtain ⟨hpower, _, hdvd, _⟩ := sizeAlign_spec h
  have hpos : 0 < align := by
    obtain ⟨k, rfl⟩ := hpower
    exact Nat.two_pow_pos k
  obtain ⟨hmultiple, hle, hlt⟩ := roundUp_spec startAddr hpos
  exact
    { adjusted := h
      word := ⟨(sizeAlign_lt h).1, by omega⟩
      rounded := by
        intro ar
        have hstart : (Words.machine ar).Fits (startAddr + align) := hsum
        exact ⟨_, alignUp_rounds startAddr hpower hstart.rounds, hle, by omega, hmultiple⟩
      same := by
        intro ar
        have hstart : (Words.machine ar).Fits (startAddr + align) := hsum
        have hend : (Words.machine ar).Fits (startAddr + region.size) := hregion
        rw [allocFromRegion_rounds size hpower hstart.rounds hend]
        exact allocFromRegion_naturals startAddr region size hpower
      aligned := by
        intro a ha
        split at ha
        · injection ha with ha
          subst ha
          exact ⟨hmultiple, Nat.dvd_trans hdvd hmultiple⟩
        · cases ha
      within := by
        intro a ha
        split at ha
        · rename_i hroom
          injection ha with ha
          subst ha
          simp only [Room] at hroom
          omega
        · cases ha }

end Region

/-- A region anywhere in the address space is tried without leaving the word exactly when the sums that
nothing checks fit into it. -/
theorem fits_region_iff (layout : Layout) (startAddr : Nat) (region : ListNode)
    (hregion : startAddr + region.size ≤ 2 ^ 64 - 1) :
    (∃ size align answer, AnswersInside layout startAddr region size align answer) ↔
    SumsFit layout startAddr := by
  constructor
  · intro ⟨size, align, answer, hinside⟩
    have hfit := sizeAlign_isSome.mp (Option.isSome_of_mem hinside.adjusted)
    have halign := sizeAlign_align hinside.adjusted
    obtain ⟨a, hup, _⟩ := hinside.rounded .checked
    have hsum : startAddr + align < 2 ^ 64 := by
      by_contra hexcess
      rw [alignUp_checked (Nat.not_lt.mp hexcess)] at hup
      cases hup
    rw [halign] at hsum
    exact ⟨hfit, hsum⟩
  · intro ⟨hfit, hsum⟩
    have hsome := sizeAlign_isSome.mpr hfit
    obtain ⟨⟨size, align⟩, hadjusted⟩ := Option.isSome_iff_exists.mp hsome
    have halign := sizeAlign_align hadjusted
    rw [← halign] at hsum
    exact ⟨size, align, _, answersInside (by omega) hadjusted hsum⟩

/-- A page of a heap in the higher half. -/
theorem fits_region_iff_higher_half :
    (∃ size align answer, AnswersInside ⟨24, 4096, ⟨12, rfl⟩, by decide⟩ 0xFFFF_FFFF_9000_0008 ⟨0x2000, none⟩
      size align answer) ↔ SumsFit ⟨24, 4096, ⟨12, rfl⟩, by decide⟩ 0xFFFF_FFFF_9000_0008 :=
  fits_region_iff ⟨24, 4096, ⟨12, rfl⟩, by decide⟩ 0xFFFF_FFFF_9000_0008 ⟨0x2000, none⟩ (by decide)

/-- A page is found at the null pointer, in a region of less than a page, and a kernel that checks stops. -/
theorem last_region_entered_at_null :
    0xFFFF_FFFF_FFFF_F800 + 0x7F0 ≤ 2 ^ 64 - 1 ∧
      sizeAlign ⟨16, 4096, ⟨12, rfl⟩, by decide⟩ = some (4096, 4096) ∧
      allocFromRegion (.machine .wrapping) 0xFFFF_FFFF_FFFF_F800 ⟨0x7F0, none⟩ 4096 4096 = some (.ok 0) ∧
      allocFromRegion (.machine .checked) 0xFFFF_FFFF_FFFF_F800 ⟨0x7F0, none⟩ 4096 4096 = none ∧
      ¬ ∃ size align answer,
        AnswersInside ⟨16, 4096, ⟨12, rfl⟩, by decide⟩ 0xFFFF_FFFF_FFFF_F800
        ⟨0x7F0, none⟩ size align answer := by
  refine ⟨by decide, by decide, by decide, by decide, ?_⟩
  intro ⟨size, align, answer, hinside⟩
  have hadjusted : sizeAlign ⟨16, 4096, ⟨12, rfl⟩, by decide⟩ = some (4096, 4096) := by decide
  have heq := hadjusted.symm.trans hinside.adjusted
  injection heq with heq
  injection heq with hsize halign
  subst hsize halign
  have hnone : allocFromRegion (.machine .checked) 0xFFFF_FFFF_FFFF_F800 ⟨0x7F0, none⟩ 4096 4096 =
    none := by decide
  have hsame := hinside.same .checked
  rw [hnone] at hsame
  cases hsame

end LinkedListAllocator

end Idkernel
