import Idkernel.MemoryCalls

/-!
# The address arithmetic of the memory syscalls

The sums of a request are taken in checked arithmetic, where an overflow is a
panic, and go through constructors that refuse non-canonical and too large
values. The requests that come through are those that stay below the top of
both address spaces.
-/
namespace Address

/-! ## Constructors -/

theorem VirtAddr.new_some_iff {n : Nat} :
    (∃ v, VirtAddr.new n = some v) ↔ n < 2 ^ 48 ∨ 2 ^ 64 - 2 ^ 47 ≤ n ∧ n < 2 ^ 64 := by
  constructor
  · rintro ⟨v, hv⟩
    rcases VirtAddr.new_cases hv with ⟨hn, _⟩ | ⟨⟨_, hn⟩, _⟩ | ⟨hn, _⟩
    · exact .inl (by omega)
    · exact .inl hn
    · exact .inr hn
  · intro h
    unfold VirtAddr.new
    split
    · exact ⟨_, rfl⟩
    · split
      · exact ⟨_, rfl⟩
      · rw [dif_pos (by omega)]
        exact ⟨_, rfl⟩

/-- The sign extension leaves the place in the page alone. -/
theorem VirtAddr.new_mod {n : Nat} {v : VirtAddr} (h : VirtAddr.new n = some v) : v.raw % 4096 = n % 4096 := by
  rcases VirtAddr.new_cases h with ⟨_, hraw⟩ | ⟨_, hraw⟩ | ⟨_, hraw⟩ <;> omega

theorem Arith.add_checked_iff {a b c : Nat} : Arith.checked.add a b = some c ↔ c = a + b ∧ a + b < 2 ^ 64 := by
  constructor
  · intro h
    rcases Arith.add_cases h with ⟨hc, hlt⟩ | ⟨har, _⟩
    · exact ⟨hc, hlt⟩
    · cases har
  · rintro ⟨rfl, hlt⟩
    exact Arith.add_of_lt _ hlt

theorem Arith.sub_checked_iff {a b c : Nat} : Arith.checked.sub a b = some c ↔ c = a - b ∧ b ≤ a := by
  constructor
  · intro h
    rcases Arith.sub_cases h with ⟨hc, hle⟩ | ⟨har, _⟩
    · exact ⟨hc, hle⟩
    · cases har
  · rintro ⟨rfl, hle⟩
    exact if_pos hle

theorem VirtAddr.add_checked_iff {v stop : VirtAddr} {len : Nat} : v.add .checked len = some stop ↔
    v.raw + len < 2 ^ 64 ∧ VirtAddr.new (v.raw + len) = some stop := by
  simp only [VirtAddr.add, Option.bind_eq_some_iff, Arith.add_checked_iff, and_assoc, exists_eq_left]

theorem PhysAddr.new_raw (p : PhysAddr) : PhysAddr.new p.raw = some p := dif_pos p.bounded

theorem PhysAddr.add_checked_iff {p q : PhysAddr} {len : Nat} : p.add .checked len = some q ↔
    q.raw = p.raw + len := by
  have hbound := q.bounded
  simp only [PhysAddr.add, Option.bind_eq_some_iff, Arith.add_checked_iff, and_assoc, exists_eq_left]
  constructor
  · rintro ⟨_, hq⟩
    exact (PhysAddr.new_cases hq).1
  · intro hq
    exact ⟨by omega, by rw [← hq, PhysAddr.new_raw]⟩

theorem PhysAddr.sub_iff {p q : PhysAddr} {len : Nat} : p.sub len = some q ↔ len ≤ p.raw ∧ q.raw + len = p.raw := by
  unfold PhysAddr.sub
  constructor
  · intro h
    split at h
    · have hq := (PhysAddr.new_cases h).1
      exact ⟨by assumption, by omega⟩
    · cases h
  · rintro ⟨hle, hq⟩
    have hraw : p.raw - len = q.raw := by omega
    rw [if_pos hle, hraw, PhysAddr.new_raw]

end Address

namespace Idkernel

open Address Traced

variable {σ κ : Type}

/-! ## Pages -/

theorem checkAddrUserspace_error {addr : Nat} {e : SyscallError} (h : checkAddrUserspace addr = .error e) :
    e = .wrongParameters := by
  unfold checkAddrUserspace at h
  split at h
  · cases h
  · cases h
    rfl

/-- The error of a request that is refused. -/
def Refused (e : SyscallError) : Prop := e = .wrongParameters

theorem refused : Refused .wrongParameters := rfl

/-- Every sum and every address of the pages exists, as far as the request gets. -/
theorem parsePageRange_settles {ar : Arith} {pos len : Nat} {s : σ} :
    Comp.Settles (parsePageRange ar pos len : Comp σ κ _ _) Refused s ↔
      (checkAddrUserspace pos = .ok () → ∃ sum, ar.add pos len = some sum ∧ ∃ last, ar.sub sum 1 = some last ∧
        (checkAddrUserspace last = .ok () → ∃ start, VirtAddr.new pos = some start ∧
          (start.raw % 4096 = 0 → ∃ stop, start.add ar len = some stop))) := by
  have hcheck : ∀ addr e, checkAddrUserspace addr = .error e → Refused e := fun _ _ => checkAddrUserspace_error
  have haligned : ∀ (v : VirtAddr) (P : Prop), (∀ p, Page.fromStartAddress v = some p → P) ↔
      (v.raw % 4096 = 0 → P) := by
    intro v P
    constructor
    · intro h hv
      exact h _ (dif_pos hv)
    · intro h p hp
      exact h (Page.fromStartAddress_cases hp).2
  simp only [parsePageRange, Comp.settles_check_bind (hcheck _), Comp.settles_unwrap_bind,
    Comp.settles_okOr_bind refused, Comp.settles_pure, haligned, implies_true, and_true]

/-- The pages of a request are those of a range below `2 ^ 48`. -/
def PagesParsed (pos len : Nat) : Prop := pos % 4096 = 0 ∧ len % 4096 = 0 ∧ 0 < pos + len ∧ pos + len < 2 ^ 48

/-- The requests whose pages are computed or refused. -/
def PagesComputable (pos len : Nat) : Prop :=
  2 ^ 63 ≤ pos ∨ 0 < pos + len ∧ pos + len < 2 ^ 64 ∧
    (2 ^ 63 < pos + len ∨ pos < 2 ^ 48 ∧ (pos % 4096 ≠ 0 ∨ pos + len < 2 ^ 48))

instance (pos len : Nat) : Decidable (PagesComputable pos len) := by
  unfold PagesComputable
  infer_instance

/-- The sum is taken after the sign extension of the start. -/
theorem add_new_iff {pos len : Nat} {start : VirtAddr} (hsum : pos + len ≤ 2 ^ 63)
    (hstart : VirtAddr.new pos = some start) :
    (∃ stop, start.add .checked len = some stop) ↔ pos + len < 2 ^ 48 := by
  simp only [VirtAddr.add_checked_iff, exists_and_left, VirtAddr.new_some_iff]
  rcases VirtAddr.new_cases hstart with ⟨hpos, hraw⟩ | ⟨⟨hlow, hhigh⟩, hraw⟩ | ⟨⟨hlow, hhigh⟩, hraw⟩
  · omega
  · omega
  · omega

theorem parsePageRange_checked {pos len : Nat} (hpos : pos < 2 ^ 64) {s : σ} :
    Comp.Settles (parsePageRange .checked pos len : Comp σ κ _ _) Refused s ↔ PagesComputable pos len := by
  have hcheck := checkAddrUserspace_ok hpos
  rw [parsePageRange_settles, hcheck, PagesComputable]
  simp only [Arith.add_checked_iff, Arith.sub_checked_iff, and_assoc, exists_eq_left]
  by_cases hhigh : 2 ^ 63 ≤ pos
  · exact iff_of_true (fun h => by omega) (.inl hhigh)
  · by_cases hsum : 0 < pos + len ∧ pos + len < 2 ^ 64
    · have hlast : checkAddrUserspace (pos + len - 1) = .ok () ↔ pos + len - 1 < 2 ^ 63 :=
        checkAddrUserspace_ok (by omega)
      rw [hlast]
      by_cases htop : 2 ^ 63 < pos + len
      · refine iff_of_true (fun _ => ⟨by omega, by omega, fun h => ?_⟩) (.inr ⟨hsum.1, hsum.2, .inl htop⟩)
        omega
      · -- from here on the addresses themselves are made
        have hnew := VirtAddr.new_some_iff (n := pos)
        constructor
        · intro h
          obtain ⟨_, _, hmade⟩ := h (by omega)
          obtain ⟨start, hstart, hstop⟩ := hmade (by omega)
          have hpos48 : pos < 2 ^ 48 := by
            have := hnew.mp ⟨start, hstart⟩
            omega
          rw [VirtAddr.new_mod hstart, add_new_iff (by omega) hstart] at hstop
          exact .inr ⟨hsum.1, hsum.2, .inr ⟨hpos48, by omega⟩⟩
        · intro h _
          have hcases : pos < 2 ^ 48 ∧ (pos % 4096 ≠ 0 ∨ pos + len < 2 ^ 48) := by omega
          obtain ⟨start, hstart⟩ := hnew.mpr (.inl hcases.1)
          refine ⟨hsum.2, by omega, fun _ => ⟨start, hstart, ?_⟩⟩
          rw [VirtAddr.new_mod hstart, add_new_iff (by omega) hstart]
          omega
    · refine iff_of_false (fun h => ?_) (by omega)
      obtain ⟨hlt, hle, _⟩ := h (by omega)
      omega

/-- The pages come out exactly for a range of whole pages that is not empty at address zero. -/
theorem parsePageRange_parsed {pos len : Nat} (hpos : pos < 2 ^ 64) {s : σ} :
    (∃ pages, (parsePageRange .checked pos len s : Ran σ κ _ _).outcome = .ok pages) ↔ PagesParsed pos len := by
  constructor
  · rintro ⟨⟨a, b⟩, h⟩
    obtain ⟨hlow, ⟨sum, last, hsum, hlast, hcheck⟩, hstart, hstop⟩ := parsePageRange_ok.mp h
    obtain ⟨rfl, hlt⟩ := Arith.add_checked_iff.mp hsum
    obtain ⟨rfl, hone⟩ := Arith.sub_checked_iff.mp hlast
    have hword : pos + len - 1 < 2 ^ 64 := by omega
    have hle := (checkAddrUserspace_ok hword).mp hcheck
    have htop := (add_new_iff (by omega) hstart).mp ⟨b.start, hstop⟩
    have hmod := VirtAddr.new_mod hstart
    have hmod' := VirtAddr.new_mod (VirtAddr.add_checked_iff.mp hstop).2
    have ha := a.aligned
    have hb := b.aligned
    exact ⟨by omega, by omega, by omega, htop⟩
  · rintro ⟨hmod, hlen, hone, htop⟩
    obtain ⟨start, hstart⟩ := VirtAddr.new_some_iff.mpr (.inl (show pos < 2 ^ 48 by omega))
    obtain ⟨stop, hstop⟩ := (add_new_iff (by omega) hstart).mpr htop
    have ha := VirtAddr.new_mod hstart
    have hb := VirtAddr.new_mod (VirtAddr.add_checked_iff.mp hstop).2
    have hlow := (checkAddrUserspace_ok hpos).mpr (by omega)
    have hword : pos + len - 1 < 2 ^ 64 := by omega
    have hlast := (checkAddrUserspace_ok hword).mpr (by omega)
    have hsum : Arith.checked.add pos len = some (pos + len) := Arith.add_checked_iff.mpr ⟨rfl, by omega⟩
    have hsub : Arith.checked.sub (pos + len) 1 = some (pos + len - 1) := Arith.sub_checked_iff.mpr ⟨rfl, by omega⟩
    exact ⟨(⟨start, by omega⟩, ⟨stop, by omega⟩),
      parsePageRange_ok.mpr ⟨hlow, ⟨_, _, hsum, hsub, hlast⟩, hstart, hstop⟩⟩

/-! ## Frames -/

/-- What `map_phys` computes before it looks at the capabilities. -/
def mapPhysRanges (ar : Arith) (virtAt virtLen physAt : Nat) :
    Comp σ κ SyscallError ((Page × Page) × PhysAddr × PhysAddr × PhysFrame × PhysFrame) := do
  let pages ← parsePageRange ar virtAt virtLen
  let frames ← parseFrameRange ar virtLen physAt
  return (pages, frames)

theorem parseFrameRange_checked {len physAt : Nat} {s : σ} :
    Comp.Settles (parseFrameRange .checked len physAt : Comp σ κ _ _) Refused s ↔
      0 < physAt % 2 ^ 52 + len ∧ physAt % 2 ^ 52 + len < 2 ^ 52 := by
  have htruncate : (PhysAddr.newTruncate physAt).raw = physAt % 2 ^ 52 := rfl
  simp only [parseFrameRange, Comp.settles_unwrap_bind, Comp.settles_okOr_bind refused, Comp.settles_pure,
    implies_true, and_true, PhysAddr.add_checked_iff, PhysAddr.sub_iff, htruncate]
  constructor
  · rintro ⟨p, hp, q, ⟨hpos, _⟩, _⟩
    have hbound := p.bounded
    omega
  · rintro ⟨hpos, hlt⟩
    let p : PhysAddr := ⟨_, hlt⟩
    have hprev : physAt % 2 ^ 52 + len - 1 < 2 ^ 52 := by omega
    refine ⟨p, rfl, ⟨_, hprev⟩, ⟨hpos, by dsimp only [p]; omega⟩, fun _ _ => ⟨p, by dsimp only [p]; omega⟩⟩

/-- The requests whose pages and frames are computed or refused. -/
def RangesComputable (pos len physAt : Nat) : Prop :=
  PagesComputable pos len ∧
    (PagesParsed pos len → 0 < physAt % 2 ^ 52 + len ∧ physAt % 2 ^ 52 + len < 2 ^ 52)

theorem mapPhysRanges_checked {pos len physAt : Nat} (hpos : pos < 2 ^ 64) {s : σ} :
    Comp.Settles (mapPhysRanges .checked pos len physAt : Comp σ κ _ _) Refused s ↔
      RangesComputable pos len physAt := by
  have hframes : ∀ pages : Page × Page, Comp.Settles (do
      let frames ← parseFrameRange .checked len physAt
      return (pages, frames) : Comp σ κ SyscallError _) Refused s ↔
        0 < physAt % 2 ^ 52 + len ∧ physAt % 2 ^ 52 + len < 2 ^ 52 := by
    intro pages
    rw [(parseFrameRange_still _ _ _).settles_bind, parseFrameRange_checked (κ := κ)]
    exact and_iff_left fun _ _ => Comp.settles_pure _
  rw [mapPhysRanges, (parsePageRange_still _ _ _).settles_bind, parsePageRange_checked (κ := κ) hpos,
    RangesComputable, ← parsePageRange_parsed (κ := κ) (s := s) hpos]
  simp only [hframes, forall_exists_index]

/-- A request whose ranges cannot be computed brings the kernel down. -/
theorem MemoryCall.mapPhys_panics {pg : Paging} (env : Env pg) (k : Kernel pg) (virtAt virtLen perms physAt : Nat)
    (h : (mapPhysRanges env.arith virtAt virtLen physAt k : Ran _ KEvent _ _).outcome = .panic) :
    (mapPhys env virtAt virtLen perms physAt k).outcome = .panic := by
  rw [mapPhysRanges, Comp.bind_outcome] at h
  rw [mapPhys, Comp.bind_outcome]
  cases hpages : (parsePageRange env.arith virtAt virtLen k : Ran _ KEvent _ _).outcome with
  | panic => rfl
  | err e => simp [hpages] at h
  | ok pages =>
    rw [hpages] at h
    dsimp only at h ⊢
    rw [Comp.bind_outcome] at h ⊢
    cases hframes : (parseFrameRange env.arith virtLen physAt
        (parsePageRange env.arith virtAt virtLen k : Ran _ KEvent _ _).state : Ran _ KEvent _ _).outcome with
    | panic => rfl
    | err e => simp [hframes] at h
    | ok frames => simp [hframes] at h

/-! ## Totality -/

/-- Both computations return or refuse, in arithmetic where an overflow is a panic. -/
def AddressesTotal (pos len physAt : Nat) : Prop :=
  Comp.Settles (parsePageRange .checked pos len : Comp Unit Empty _ _) Refused () ∧
    Comp.Settles (mapPhysRanges .checked pos len physAt : Comp Unit Empty _ _) Refused ()

/-- The address computations are total exactly on the requests whose sums stay in both address spaces. -/
theorem addressesTotal_iff (pos len physAt : Nat) (hpos : pos < 2 ^ 64) :
    AddressesTotal pos len physAt ↔ RangesComputable pos len physAt := by
  rw [AddressesTotal, parsePageRange_checked hpos, mapPhysRanges_checked hpos]
  exact and_iff_right_of_imp And.left

theorem addressesTotal_iff_page : AddressesTotal 0x1000 0x1000 0 ↔ RangesComputable 0x1000 0x1000 0 :=
  addressesTotal_iff _ _ _ (by decide)

/-- A length of zero at address zero, a start beyond the lower half and a range that ends where the physical
addresses do. -/
theorem addresses_not_total : (∀ ar, (parsePageRange ar (2 ^ 48) 0x1000 () : Ran Unit Empty _ _).outcome = .panic) ∧
    ¬ AddressesTotal 0 0 0 ∧ ¬ AddressesTotal (2 ^ 48) 0x1000 0 ∧ ¬ AddressesTotal 0 0x1000 (2 ^ 52 - 0x1000) := by
  have hempty : (parsePageRange .checked 0 0 () : Ran Unit Empty _ _).outcome = .panic := rfl
  have hhigh : ∀ ar, (parsePageRange ar (2 ^ 48) 0x1000 () : Ran Unit Empty _ _).outcome = .panic := by
    intro ar
    cases ar <;> rfl
  have hend : (mapPhysRanges .checked 0 0x1000 (2 ^ 52 - 0x1000) () : Ran Unit Empty _ _).outcome = .panic := rfl
  exact ⟨hhigh, fun h => Comp.settles_not_panic h.1 hempty, fun h => Comp.settles_not_panic h.1 (hhigh _),
    fun h => Comp.settles_not_panic h.2 hend⟩

end Idkernel
