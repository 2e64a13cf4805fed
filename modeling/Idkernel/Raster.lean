import Mathlib.Algebra.Order.Group.Nat
import Mathlib.Logic.Basic

/-!
# Rasters

Counted loops that may fail, and lists of samples that are read by row, column
and plane. A row has a number of pixels and a pixel a number of samples; what is
drawn may leave some of both alone.
-/
namespace Raster

variable {σ τ ι α : Type}

/-! ## Loops -/

/-- The body is run for 0, 1 and so on, up to the first failure. -/
def loop : Nat → (Nat → σ → Option σ) → σ → Option σ
  | 0, _, s => some s
  | n + 1, body, s => loop n body s >>= body n

/-- What holds at first, and is taken on by each turn, holds in the end. -/
theorem loop_inv {I : Nat → σ → Prop} {n : Nat} {body : Nat → σ → Option σ} {s : σ} (h : I 0 s)
    (hstep : ∀ i < n, ∀ s, I i s → ∃ s', body i s = some s' ∧ I (i + 1) s') :
    ∃ s', loop n body s = some s' ∧ I n s' := by
  induction n with
  | zero => exact ⟨s, rfl, h⟩
  | succ n ih =>
    obtain ⟨s', hloop, hs'⟩ := ih fun i hi => hstep i (Nat.lt_succ_of_lt hi)
    obtain ⟨s'', hbody, hs''⟩ := hstep n (Nat.lt_succ_self n) s' hs'
    exact ⟨s'', by rw [loop, hloop]; exact hbody, hs''⟩

/-- Two folds over one list, in step. -/
theorem foldlM_simulates {R : σ → τ → Prop} {f : σ → ι → Option σ} {g : τ → ι → τ} {s : σ} {t : τ} (h : R s t)
    (hstep : ∀ x s t, R s t → ∃ s', f s x = some s' ∧ R s' (g t x)) (xs : List ι) :
    ∃ s', xs.foldlM f s = some s' ∧ R s' (xs.foldl g t) := by
  induction xs generalizing s t with
  | nil => exact ⟨s, rfl, h⟩
  | cons x xs ih =>
    obtain ⟨s', hx, hs'⟩ := hstep x s t h
    obtain ⟨s'', hxs, hs''⟩ := ih hs'
    exact ⟨s'', by rw [List.foldlM_cons, hx]; exact hxs, hs''⟩

/-! ## Places -/

structure Format where
  /-- Pixels in a row. -/
  stride : Nat
  /-- Samples in a pixel. -/
  depth : Nat

namespace Format

variable {f : Format} {y x z y' x' z' : Nat}

def place (f : Format) (y x z : Nat) : Nat := (y * f.stride + x) * f.depth + z

theorem digits_inj {a b a' b' n : Nat} (hb : b < n) (hb' : b' < n) (h : a * n + b = a' * n + b') :
    a = a' ∧ b = b' := by
  have hn : 0 < n := Nat.lt_of_le_of_lt (Nat.zero_le b) hb
  have hdiv : (a * n + b) / n = a := by
    rw [Nat.mul_comm, Nat.mul_add_div hn, Nat.div_eq_of_lt hb, Nat.add_zero]
  have hdiv' : (a' * n + b') / n = a' := by
    rw [Nat.mul_comm, Nat.mul_add_div hn, Nat.div_eq_of_lt hb', Nat.add_zero]
  have ha : a = a' := by rw [← hdiv, h, hdiv']
  subst ha
  exact ⟨rfl, Nat.add_left_cancel h⟩

/-- Samples of different pixels or planes do not share a place. -/
theorem place_inj (hx : x < f.stride) (hx' : x' < f.stride) (hz : z < f.depth) (hz' : z' < f.depth)
    (h : f.place y x z = f.place y' x' z') : y = y' ∧ x = x' ∧ z = z' := by
  obtain ⟨hpixel, hplane⟩ := digits_inj hz hz' h
  obtain ⟨hrow, hcolumn⟩ := digits_inj hx hx' hpixel
  exact ⟨hrow, hcolumn, hplane⟩

theorem place_zero_add (f : Format) (y x z : Nat) : f.place y x 0 + z = f.place y x z := rfl

theorem place_next (f : Format) (y x : Nat) : f.place y x 0 + f.depth = f.place y (x + 1) 0 := by
  simp only [place, Nat.add_zero, ← Nat.add_assoc, Nat.succ_mul]

/-- The rest of a row leads to the next one. -/
theorem place_wrap (f : Format) {w : Nat} (y x : Nat) (h : w ≤ f.stride) :
    f.place y (x + w) 0 + (f.stride - w) * f.depth = f.place (y + 1) x 0 := by
  have hrow : y * f.stride + (x + w) + (f.stride - w) = (y + 1) * f.stride + x := by
    rw [Nat.succ_mul]
    omega
  simp only [place, Nat.add_zero, ← Nat.add_mul, hrow]

theorem place_mono (h : y < y' ∨ y = y' ∧ x ≤ x') (hx : x ≤ f.stride) : f.place y x 0 ≤ f.place y' x' 0 := by
  have hpixel : y * f.stride + x ≤ y' * f.stride + x' := by
    cases h with
    | inl hlt =>
      have hmul : (y + 1) * f.stride ≤ y' * f.stride := Nat.mul_le_mul_right _ hlt
      rw [Nat.succ_mul] at hmul
      omega
    | inr hle =>
      rw [hle.1]
      omega
  exact Nat.mul_le_mul_right _ hpixel

theorem place_lt {height : Nat} (hy : y < height) (hx : x < f.stride) (hz : z < f.depth) :
    f.place y x z < f.stride * height * f.depth := by
  have hnext : f.place y x z < f.place y (x + 1) 0 := by
    rw [← place_next, ← place_zero_add]
    omega
  have hend : f.place y (x + 1) 0 ≤ f.place height 0 0 := place_mono (.inl hy) hx
  have hall : f.place height 0 0 = f.stride * height * f.depth := by
    simp only [place, Nat.add_zero, Nat.mul_comm height]
  omega

end Format

/-! ## Drawing -/

/-- A write that is checked. -/
def store (b : List α) (i : Nat) (v : α) : Option (List α) := if i < b.length then some (b.set i v) else none

/-- `b'` has the samples `v` in a region, and those of `b` outside of it. -/
structure Drawn (f : Format) (b b' : List α) (region : Nat → Nat → Nat → Prop)
    (v : Nat → Nat → Nat → α) : Prop where
  length : b'.length = b.length
  inside : ∀ y x z, x < f.stride → z < f.depth → region y x z → b'[f.place y x z]? = some (v y x z)
  outside : ∀ y x z, x < f.stride → z < f.depth → ¬ region y x z → b'[f.place y x z]? = b[f.place y x z]?

/-- The pixels of a block up to a row and a column of it. -/
def Block (y₀ x₀ w planes r c : Nat) (y x z : Nat) : Prop :=
  z < planes ∧ x₀ ≤ x ∧ x < x₀ + w ∧ y₀ ≤ y ∧ (y < y₀ + r ∨ y = y₀ + r ∧ x < x₀ + c)

namespace Drawn

variable {f : Format} {b b' b'' : List α} {P P' : Nat → Nat → Nat → Prop} {v : Nat → Nat → Nat → α}
  {y₀ x₀ w planes r c : Nat}

theorem congr (h : Drawn f b b' P v) (hP : ∀ y x z, P y x z ↔ P' y x z) : Drawn f b b' P' v where
  length := h.length
  inside y x z hx hz hp := h.inside y x z hx hz ((hP y x z).mpr hp)
  outside y x z hx hz hp := h.outside y x z hx hz fun hq => hp ((hP y x z).mp hq)

theorem nothing (hP : ∀ y x z, ¬ P y x z) : Drawn f b b P v where
  length := rfl
  inside y x z _ _ hp := absurd hp (hP y x z)
  outside _ _ _ _ _ _ := rfl

/-- One more sample. -/
theorem set (h : Drawn f b b' P v) {y x z : Nat} (hx : x < f.stride) (hz : z < f.depth)
    (hroom : f.place y x z < b.length) :
    Drawn f b (b'.set (f.place y x z) (v y x z)) (fun y' x' z' => P y' x' z' ∨ y' = y ∧ x' = x ∧ z' = z) v where
  length := by rw [List.length_set, h.length]
  inside y' x' z' hx' hz' hp := by
    by_cases heq : f.place y x z = f.place y' x' z'
    · obtain ⟨rfl, rfl, rfl⟩ := Format.place_inj hx hx' hz hz' heq
      rw [List.getElem?_set_self (by rw [h.length]; exact hroom)]
    · rw [List.getElem?_set_ne heq]
      cases hp with
      | inl hp => exact h.inside y' x' z' hx' hz' hp
      | inr hsame =>
        obtain ⟨rfl, rfl, rfl⟩ := hsame
        exact absurd rfl heq
  outside y' x' z' hx' hz' hp := by
    obtain ⟨hp, hother⟩ := not_or.mp hp
    have hne : f.place y x z ≠ f.place y' x' z' := by
      intro heq
      obtain ⟨rfl, rfl, rfl⟩ := Format.place_inj hx hx' hz hz' heq
      exact hother ⟨rfl, rfl, rfl⟩
    rw [List.getElem?_set_ne hne]
    exact h.outside y' x' z' hx' hz' hp

theorem block_start : Drawn f b b (Block y₀ x₀ w planes 0 0) v :=
  nothing fun y x z h => by
    unfold Block at h
    omega

/-- A row that is complete is the beginning of the next. -/
theorem block_row (h : Drawn f b b' (Block y₀ x₀ w planes r w) v) :
    Drawn f b b' (Block y₀ x₀ w planes (r + 1) 0) v :=
  h.congr fun y x z => by
    unfold Block
    omega

/-- The samples of one pixel. -/
theorem block_pixel {body : Nat → List α → Option (List α)} (h : Drawn f b b' (Block y₀ x₀ w planes r c) v)
    (hc : c < w) (hwidth : x₀ + w ≤ f.stride) (hplanes : planes ≤ f.depth)
    (hroom : ∀ z < planes, f.place (y₀ + r) (x₀ + c) z < b.length)
    (hbody : ∀ z < planes, ∀ s, body z s = store s (f.place (y₀ + r) (x₀ + c) 0 + z) (v (y₀ + r) (x₀ + c) z)) :
    ∃ b'', loop planes body b' = some b'' ∧ Drawn f b b'' (Block y₀ x₀ w planes r (c + 1)) v := by
  let Upto : Nat → List α → Prop := fun n s =>
    Drawn f b s (fun y x z => Block y₀ x₀ w planes r c y x z ∨ y = y₀ + r ∧ x = x₀ + c ∧ z < n) v
  have hstart : Upto 0 b' := h.congr fun y x z => by simp
  have hstep : ∀ z < planes, ∀ s, Upto z s → ∃ s', body z s = some s' ∧ Upto (z + 1) s' := by
    intro z hz s hs
    have hlen : f.place (y₀ + r) (x₀ + c) 0 + z < s.length := by
      rw [hs.length]
      exact hroom z hz
    refine ⟨_, (hbody z hz s).trans (if_pos hlen), ?_⟩
    refine (hs.set (by omega) (by omega) (hroom z hz)).congr fun y x z' => ?_
    rw [or_assoc]
    exact or_congr_right (by omega)
  obtain ⟨b'', hloop, hb''⟩ := loop_inv hstart hstep
  refine ⟨b'', hloop, hb''.congr fun y x z => ?_⟩
  unfold Block
  omega

end Drawn

end Raster
