import Mathlib.Algebra.Group.Nat.Defs
import Mathlib.Data.List.Nodup
import Mathlib.Order.Basic

/-!
# 64-bit addresses

Machine words are naturals below `2 ^ 64`; additions either panic on overflow or
wrap, as the program was built. Virtual addresses are canonical and physical
ones have 52 bits. Both carry that as a field, so the constructors are the
only places where a raw word is checked, sign-extended or refused, and `none`
stands for the panic of such a constructor.
-/
namespace Address

/-- How the compiler was told to treat an overflowing addition. -/
inductive Arith where
  | checked | wrapping
  deriving DecidableEq, Repr

def Arith.add (ar : Arith) (a b : Nat) : Option Nat :=
  if a + b < 2 ^ 64 then some (a + b) else match ar with
    | .checked => none
    | .wrapping => some ((a + b) % 2 ^ 64)

def Arith.sub (ar : Arith) (a b : Nat) : Option Nat :=
  if b ≤ a then some (a - b) else match ar with
    | .checked => none
    | .wrapping => some (a + 2 ^ 64 - b)

theorem Arith.add_of_lt (ar : Arith) {a b : Nat} (h : a + b < 2 ^ 64) : ar.add a b = some (a + b) :=
  if_pos h

theorem Arith.add_cases {ar : Arith} {a b c : Nat} (h : ar.add a b = some c) :
    c = a + b ∧ a + b < 2 ^ 64 ∨ ar = .wrapping ∧ c = (a + b) % 2 ^ 64 ∧ 2 ^ 64 ≤ a + b := by
  unfold Arith.add at h
  split at h
  · left; simp_all
  · right; cases ar <;> simp_all

theorem Arith.sub_cases {ar : Arith} {a b c : Nat} (h : ar.sub a b = some c) :
    c = a - b ∧ b ≤ a ∨ ar = .wrapping ∧ c = a + 2 ^ 64 - b ∧ a < b := by
  unfold Arith.sub at h
  split at h
  · left; simp_all
  · right; cases ar <;> simp_all

/-- Bits 47 to 63 are equal. -/
structure VirtAddr where
  raw : Nat
  canonical : raw < 2 ^ 47 ∨ 2 ^ 64 - 2 ^ 47 ≤ raw ∧ raw < 2 ^ 64
  deriving DecidableEq, Repr

namespace VirtAddr

@[ext] theorem ext {v w : VirtAddr} (h : v.raw = w.raw) : v = w := by
  cases v; cases w; simp_all

theorem raw_lt (v : VirtAddr) : v.raw < 2 ^ 64 := by
  have h := v.canonical
  omega

def zero : VirtAddr := ⟨0, .inl (by decide)⟩

/-- Bits 48 to 63 are either already a sign extension, or all zero and replaced by one. -/
def new (n : Nat) : Option VirtAddr :=
  if h : n < 2 ^ 47 then some ⟨n, .inl h⟩
  else if h : n < 2 ^ 48 then some ⟨n + (2 ^ 64 - 2 ^ 48), .inr (by omega)⟩
  else if h : 2 ^ 64 - 2 ^ 47 ≤ n ∧ n < 2 ^ 64 then some ⟨n, .inr h⟩
  else none

def add (ar : Arith) (v : VirtAddr) (k : Nat) : Option VirtAddr := (ar.add v.raw k).bind new

/-- The subtraction is checked in every build. -/
def sub (v : VirtAddr) (k : Nat) : Option VirtAddr := if k ≤ v.raw then new (v.raw - k) else none

def LowerHalf (v : VirtAddr) : Prop := v.raw < 2 ^ 47

instance (v : VirtAddr) : Decidable v.LowerHalf := inferInstanceAs (Decidable (_ < _))

theorem new_low {n : Nat} (h : n < 2 ^ 47) : new n = some ⟨n, .inl h⟩ := by
  unfold new
  rw [dif_pos h]

theorem new_raw (v : VirtAddr) : new v.raw = some v := by
  have hc := v.canonical
  unfold new
  by_cases h : v.raw < 2 ^ 47
  · rw [dif_pos h]
  · have h48 : ¬ v.raw < 2 ^ 48 := by omega
    have hhigh : 2 ^ 64 - 2 ^ 47 ≤ v.raw ∧ v.raw < 2 ^ 64 := by omega
    rw [dif_neg h, dif_neg h48, dif_pos hhigh]

theorem new_cases {n : Nat} {v : VirtAddr} (h : new n = some v) :
    n < 2 ^ 47 ∧ v.raw = n ∨
    (2 ^ 47 ≤ n ∧ n < 2 ^ 48) ∧ v.raw = n + (2 ^ 64 - 2 ^ 48) ∨
    (2 ^ 64 - 2 ^ 47 ≤ n ∧ n < 2 ^ 64) ∧ v.raw = n := by
  unfold new at h
  split at h
  · cases h; exact .inl ⟨by assumption, rfl⟩
  · split at h
    · cases h; right; left; dsimp only; omega
    · split at h
      · cases h; right; right; dsimp only; omega
      · cases h

theorem new_sign {n : Nat} (h : 2 ^ 47 ≤ n) (h' : n < 2 ^ 48) :
    ∃ v, new n = some v ∧ v.raw = n + (2 ^ 64 - 2 ^ 48) := by
  refine ⟨⟨n + (2 ^ 64 - 2 ^ 48), .inr (by omega)⟩, ?_, rfl⟩
  have hn : ¬ n < 2 ^ 47 := by omega
  unfold new
  rw [dif_neg hn, dif_pos h']

end VirtAddr

structure PhysAddr where
  raw : Nat
  bounded : raw < 2 ^ 52
  deriving DecidableEq, Repr

namespace PhysAddr

@[ext] theorem ext {p q : PhysAddr} (h : p.raw = q.raw) : p = q := by
  cases p; cases q; simp_all

def new (n : Nat) : Option PhysAddr := if h : n < 2 ^ 52 then some ⟨n, h⟩ else none

def newTruncate (n : Nat) : PhysAddr := ⟨n % 2 ^ 52, Nat.mod_lt _ (by decide)⟩

def add (ar : Arith) (p : PhysAddr) (k : Nat) : Option PhysAddr := (ar.add p.raw k).bind new

def sub (p : PhysAddr) (k : Nat) : Option PhysAddr := if k ≤ p.raw then new (p.raw - k) else none

instance : LE PhysAddr := ⟨fun p q => p.raw ≤ q.raw⟩
instance (p q : PhysAddr) : Decidable (p ≤ q) := inferInstanceAs (Decidable (p.raw ≤ q.raw))

theorem le_def {p q : PhysAddr} : p ≤ q ↔ p.raw ≤ q.raw := Iff.rfl

instance : Preorder PhysAddr where
  le_refl p := Nat.le_refl p.raw
  le_trans _ _ _ h h' := Nat.le_trans h h'

theorem new_cases {n : Nat} {p : PhysAddr} (h : new n = some p) : p.raw = n ∧ n < 2 ^ 52 := by
  unfold new at h
  split at h
  · cases h; exact ⟨rfl, by assumption⟩
  · cases h

end PhysAddr

/-! ## Pages, frames and their ranges -/

/-- The items an iterator yields: it stops at the first one that is not inside. -/
def walk {α : Type} (inside : α → Bool) (next : α → Option α) : Nat → α → List α
  | 0, _ => []
  | n + 1, a => if inside a then a :: (match next a with
      | some b => walk inside next n b
      | none => []) else []

section Walk

variable {α : Type} {inside : α → Bool} {next : α → Option α} {index : α → Nat} {n i b : Nat} {a x : α}

/-- Items are numbered: the next one has the next number. -/
theorem walk_getElem? (hnext : ∀ x y, inside x = true → next x = some y → index y = index x + 1)
    (h : (walk inside next n a)[i]? = some x) : index x = index a + i ∧ inside x = true := by
  induction n generalizing a i with
  | zero => simp [walk] at h
  | succ n ih =>
    by_cases hin : inside a = true
    · simp only [walk, hin, if_true] at h
      cases i with
      | zero =>
        obtain rfl : a = x := by simpa using h
        exact ⟨rfl, hin⟩
      | succ i =>
        rw [List.getElem?_cons_succ] at h
        cases hq : next a with
        | none => simp [hq] at h
        | some q =>
          rw [hq] at h
          have hindex := hnext a q hin hq
          have hrest := ih h
          exact ⟨by omega, hrest.2⟩
    · simp [walk, hin] at h

/-- Every number inside is reached, as long as the iteration may go on. -/
theorem walk_reaches (hin : ∀ x, inside x = true ↔ index x < b)
    (hmore : ∀ x, index x + 1 < b → ∃ y, next x = some y ∧ index y = index x + 1) (hi : i < n)
    (hb : index a + i < b) :
    ∃ x, (walk inside next n a)[i]? = some x := by
  induction n generalizing a i with
  | zero => omega
  | succ n ih =>
    have ha : inside a = true := (hin a).mpr (by omega)
    simp only [walk, ha, if_true]
    cases i with
    | zero => exact ⟨a, rfl⟩
    | succ i =>
      obtain ⟨q, hq, hindex⟩ := hmore a (by omega)
      rw [List.getElem?_cons_succ, hq]
      exact ih (by omega) (by omega)

/-- The item with a number comes after the first one by the difference. -/
theorem walk_getElem?_iff (hin : ∀ x, inside x = true ↔ index x < b)
    (hnext : ∀ x y, inside x = true → next x = some y → index y = index x + 1)
    (hmore : ∀ x, index x + 1 < b → ∃ y, next x = some y ∧ index y = index x + 1)
    (hinj : ∀ {x y}, index x = index y → x = y) (hfuel : index x = index a + i → index x < b → i < n) :
    (walk inside next n a)[i]? = some x ↔ index x = index a + i ∧ index x < b := by
  constructor
  · intro h
    obtain ⟨hi, hx⟩ := walk_getElem? hnext h
    exact ⟨hi, (hin x).mp hx⟩
  · rintro ⟨hi, hx⟩
    obtain ⟨y, hy⟩ := walk_reaches (a := a) hin hmore (hfuel hi hx) (by omega)
    obtain ⟨hi', _⟩ := walk_getElem? hnext hy
    obtain rfl : x = y := hinj (hi.trans hi'.symm)
    exact hy

end Walk

structure Page where
  start : VirtAddr
  aligned : start.raw % 4096 = 0
  deriving DecidableEq, Repr

namespace Page

@[ext] theorem ext {p q : Page} (h : p.start.raw = q.start.raw) : p = q := by
  obtain ⟨v, hv⟩ := p
  obtain ⟨w, hw⟩ := q
  obtain rfl : v = w := VirtAddr.ext h
  rfl

def LowerHalf (p : Page) : Prop := p.start.LowerHalf

instance (p : Page) : Decidable p.LowerHalf := inferInstanceAs (Decidable p.start.LowerHalf)

def fromStartAddress (v : VirtAddr) : Option Page :=
  if h : v.raw % 4096 = 0 then some ⟨v, h⟩ else none

def containingAddress (v : VirtAddr) : Page :=
  ⟨⟨v.raw - v.raw % 4096, by have := v.canonical; omega⟩, by dsimp only; omega⟩

/-- `page += 1`, through the address constructor. -/
def next (ar : Arith) (p : Page) : Option Page := (p.start.add ar 4096).map containingAddress

def range (ar : Arith) (a b : Page) : List Page :=
  walk (fun p => p.start.raw < b.start.raw) (next ar) ((b.start.raw - a.start.raw) / 4096) a

def rangeInclusive (ar : Arith) (a b : Page) : List Page :=
  walk (fun p => p.start.raw ≤ b.start.raw) (next ar) ((b.start.raw - a.start.raw) / 4096 + 1) a

theorem fromStartAddress_cases {v : VirtAddr} {p : Page} (h : fromStartAddress v = some p) :
    p.start = v ∧ v.raw % 4096 = 0 := by
  unfold fromStartAddress at h
  split at h
  · cases h; exact ⟨rfl, by assumption⟩
  · cases h

/-- The number of a page, with no gap between the two halves. -/
def index (p : Page) : Nat :=
  if p.start.raw < 2 ^ 47 then p.start.raw / 4096 else (p.start.raw - (2 ^ 64 - 2 ^ 48)) / 4096

theorem index_cases (p : Page) : p.start.raw < 2 ^ 47 ∧ p.start.raw = 4096 * p.index ∨
    2 ^ 64 - 2 ^ 47 ≤ p.start.raw ∧ p.start.raw = 4096 * p.index + (2 ^ 64 - 2 ^ 48) := by
  have hp := p.aligned
  have hc := p.start.canonical
  unfold index
  split
  · left
    omega
  · right
    omega

theorem index_lt (p : Page) : p.index < 2 ^ 36 := by
  have hc := p.start.canonical
  have hp := p.index_cases
  omega

theorem index_lt_index {p q : Page} : p.index < q.index ↔ p.start.raw < q.start.raw := by
  have hpc := p.start.canonical
  have hqc := q.start.canonical
  have hp := p.index_cases
  have hq := q.index_cases
  omega

theorem index_le_index {p q : Page} : p.index ≤ q.index ↔ p.start.raw ≤ q.start.raw := by
  rw [← Nat.not_lt, index_lt_index, Nat.not_lt]

theorem index_inj {p q : Page} (h : p.index = q.index) : p = q := by
  have hpq : p.start.raw ≤ q.start.raw := index_le_index.mp (Nat.le_of_eq h)
  have hqp : q.start.raw ≤ p.start.raw := index_le_index.mp (Nat.le_of_eq h.symm)
  exact Page.ext (by omega)

theorem exists_index {n : Nat} (h : n < 2 ^ 36) : ∃ p : Page, p.index = n := by
  by_cases hn : n < 2 ^ 35
  · refine ⟨⟨⟨4096 * n, .inl (by omega)⟩, by dsimp only; omega⟩, ?_⟩
    have hlt : 4096 * n < 2 ^ 47 := by omega
    simp only [index, if_pos hlt]
    omega
  · refine ⟨⟨⟨4096 * n + (2 ^ 64 - 2 ^ 48), .inr (by omega)⟩, by dsimp only; omega⟩, ?_⟩
    have hge : ¬ 4096 * n + (2 ^ 64 - 2 ^ 48) < 2 ^ 47 := by omega
    simp only [index, if_neg hge]
    omega

theorem lowerHalf_iff {p : Page} : p.LowerHalf ↔ p.index < 2 ^ 35 := by
  have hc := p.start.canonical
  have hp := p.index_cases
  unfold LowerHalf VirtAddr.LowerHalf
  omega

/-- The page after `2 ^ 47 - 4096` is the first one of the higher half; below the
top of the address space stepping never panics. -/
theorem next_index (ar : Arith) {p : Page} (h : p.index + 1 < 2 ^ 36) :
    ∃ q, next ar p = some q ∧ q.index = p.index + 1 := by
  have hp := p.aligned
  have hc := p.start.canonical
  have hi := p.index_cases
  have hlt : p.start.raw + 4096 < 2 ^ 64 := by omega
  have hadd : p.start.add ar 4096 = VirtAddr.new (p.start.raw + 4096) := by
    simp [VirtAddr.add, Arith.add_of_lt ar hlt]
  have hstep : ∀ v : VirtAddr, VirtAddr.new (p.start.raw + 4096) = some v → v.raw % 4096 = 0 →
      (v.raw = p.start.raw + 4096 ∧ p.start.raw + 4096 ≠ 2 ^ 47 ∨
        v.raw = 2 ^ 64 - 2 ^ 47 ∧ p.start.raw + 4096 = 2 ^ 47) →
      ∃ q, next ar p = some q ∧ q.index = p.index + 1 := by
    intro v hv hal hraw
    refine ⟨containingAddress v, by simp [next, hadd, hv], ?_⟩
    have hstart : (containingAddress v).start.raw = v.raw := by
      simp only [containingAddress]
      omega
    have hq := (containingAddress v).index_cases
    have hqc := (containingAddress v).start.canonical
    omega
  by_cases he : p.start.raw + 4096 = 2 ^ 47
  · obtain ⟨v, hv, hr⟩ := VirtAddr.new_sign (n := p.start.raw + 4096) (by omega) (by omega)
    exact hstep v hv (by omega) (by omega)
  · have hcan : p.start.raw + 4096 < 2 ^ 47 ∨
        2 ^ 64 - 2 ^ 47 ≤ p.start.raw + 4096 ∧ p.start.raw + 4096 < 2 ^ 64 := by omega
    have hv := VirtAddr.new_raw ⟨p.start.raw + 4096, hcan⟩
    exact hstep ⟨p.start.raw + 4096, hcan⟩ hv (by dsimp only; omega) (.inl ⟨rfl, he⟩)

theorem next_below {ar : Arith} {p q : Page} (hp : p.index + 1 < 2 ^ 36) (h : next ar p = some q) :
    q.index = p.index + 1 := by
  obtain ⟨q', hq', hi⟩ := next_index ar hp
  rw [h] at hq'
  rw [Option.some.inj hq', hi]

/-- The `i`-th page of a range. -/
theorem getElem?_range {ar : Arith} {a b p : Page} {i : Nat} :
    (range ar a b)[i]? = some p ↔ p.index = a.index + i ∧ p.index < b.index := by
  have hb := b.index_lt
  have hin : ∀ p : Page, decide (p.start.raw < b.start.raw) = true ↔ p.index < b.index := fun p => by
    rw [decide_eq_true_iff, index_lt_index]
  have hmore : ∀ p : Page, p.index + 1 < b.index → ∃ q, next ar p = some q ∧ q.index = p.index + 1 :=
    fun p hp => next_index ar (by omega)
  have hnext : ∀ p q : Page, decide (p.start.raw < b.start.raw) = true → next ar p = some q →
      q.index = p.index + 1 := fun p q hp h => next_below (by rw [hin] at hp; omega) h
  refine walk_getElem?_iff hin hnext hmore index_inj fun hi hp => ?_
  have hac := a.index_cases
  have hbc := b.index_cases
  have hcan := a.start.canonical
  omega

theorem getElem?_rangeInclusive {ar : Arith} {a b p : Page} {i : Nat} (hb : b.index + 1 < 2 ^ 36) :
    (rangeInclusive ar a b)[i]? = some p ↔ p.index = a.index + i ∧ p.index ≤ b.index := by
  have hin : ∀ p : Page, decide (p.start.raw ≤ b.start.raw) = true ↔ p.index < b.index + 1 := fun p => by
    rw [decide_eq_true_iff, ← index_le_index, Nat.lt_succ_iff]
  have hmore : ∀ p : Page, p.index + 1 < b.index + 1 → ∃ q, next ar p = some q ∧ q.index = p.index + 1 :=
    fun p hp => next_index ar (by omega)
  have hnext : ∀ p q : Page, decide (p.start.raw ≤ b.start.raw) = true → next ar p = some q →
      q.index = p.index + 1 := fun p q hp h => next_below (by rw [hin] at hp; omega) h
  rw [← Nat.lt_succ_iff]
  refine walk_getElem?_iff hin hnext hmore index_inj fun hi hp => ?_
  have hac := a.index_cases
  have hbc := b.index_cases
  have hcan := a.start.canonical
  omega

theorem nodup_range (ar : Arith) (a b : Page) : (range ar a b).Nodup := by
  rw [List.nodup_iff_getElem?_ne_getElem?]
  intro i j hij hj he
  have hlast : (range ar a b)[j]? = some (range ar a b)[j] := List.getElem?_eq_getElem hj
  have h₁ := getElem?_range.mp (he.trans hlast)
  have h₂ := getElem?_range.mp hlast
  omega

theorem length_range_le (ar : Arith) (a b : Page) : (range ar a b).length ≤ 2 ^ 36 := by
  by_cases h : (range ar a b).length ≤ 2 ^ 36
  · exact h
  have hlt : 2 ^ 36 < (range ar a b).length := by omega
  have hp := getElem?_range.mp (List.getElem?_eq_getElem hlt)
  have := (range ar a b)[2 ^ 36].index_lt
  omega

/-- The iteration visits exactly the pages between the two ends. -/
theorem mem_range {ar : Arith} {a b p : Page} :
    p ∈ range ar a b ↔ a.index ≤ p.index ∧ p.index < b.index := by
  rw [List.mem_iff_getElem?]
  constructor
  · rintro ⟨i, h⟩
    rw [getElem?_range] at h
    omega
  · intro h
    exact ⟨p.index - a.index, getElem?_range.mpr (by omega)⟩

theorem mem_rangeInclusive {ar : Arith} {a b p : Page} (hb : b.index + 1 < 2 ^ 36) :
    p ∈ rangeInclusive ar a b ↔ a.index ≤ p.index ∧ p.index ≤ b.index := by
  rw [List.mem_iff_getElem?]
  constructor
  · rintro ⟨i, h⟩
    rw [getElem?_rangeInclusive hb] at h
    omega
  · intro h
    exact ⟨p.index - a.index, (getElem?_rangeInclusive hb).mpr (by omega)⟩

theorem nodup_rangeInclusive {ar : Arith} {a b : Page} (hb : b.index + 1 < 2 ^ 36) : (rangeInclusive ar a b).Nodup := by
  rw [List.nodup_iff_getElem?_ne_getElem?]
  intro i j hij hj he
  have hlast : (rangeInclusive ar a b)[j]? = some (rangeInclusive ar a b)[j] := List.getElem?_eq_getElem hj
  have h₁ := (getElem?_rangeInclusive hb).mp (he.trans hlast)
  have h₂ := (getElem?_rangeInclusive hb).mp hlast
  omega

theorem length_rangeInclusive {ar : Arith} {a b : Page} (hb : b.index + 1 < 2 ^ 36) :
    (rangeInclusive ar a b).length = b.index + 1 - a.index := by
  have hin : ∀ i, i < (rangeInclusive ar a b).length ↔ i < b.index + 1 - a.index := by
    intro i
    constructor
    · intro hi
      have hp := (getElem?_rangeInclusive hb).mp (List.getElem?_eq_getElem hi)
      omega
    · intro hi
      obtain ⟨p, hp⟩ := exists_index (n := a.index + i) (by omega)
      have hat : (rangeInclusive ar a b)[i]? = some p := (getElem?_rangeInclusive hb).mpr ⟨hp, by omega⟩
      exact (List.getElem?_eq_some_iff.mp hat).1
  have hlength := hin (b.index + 1 - a.index)
  have hcount := hin (rangeInclusive ar a b).length
  omega

theorem containingAddress_index {v : VirtAddr} (h : v.raw < 2 ^ 47) :
    (containingAddress v).index = v.raw / 4096 := by
  have hi := (containingAddress v).index_cases
  have hraw : (containingAddress v).start.raw = v.raw - v.raw % 4096 := rfl
  omega

end Page

structure PhysFrame where
  start : PhysAddr
  aligned : start.raw % 4096 = 0
  deriving DecidableEq, Repr

namespace PhysFrame

@[ext] theorem ext {f g : PhysFrame} (h : f.start.raw = g.start.raw) : f = g := by
  obtain ⟨v, hv⟩ := f
  obtain ⟨w, hw⟩ := g
  obtain rfl : v = w := PhysAddr.ext h
  rfl

def fromStartAddress (p : PhysAddr) : Option PhysFrame :=
  if h : p.raw % 4096 = 0 then some ⟨p, h⟩ else none

def containingAddress (p : PhysAddr) : PhysFrame :=
  ⟨⟨p.raw - p.raw % 4096, by have := p.bounded; omega⟩, by dsimp only; omega⟩

def next (ar : Arith) (f : PhysFrame) : Option PhysFrame := (f.start.add ar 4096).map containingAddress

def range (ar : Arith) (a b : PhysFrame) : List PhysFrame :=
  walk (fun f => f.start.raw < b.start.raw) (next ar) ((b.start.raw - a.start.raw) / 4096) a

theorem fromStartAddress_cases {p : PhysAddr} {f : PhysFrame} (h : fromStartAddress p = some f) :
    f.start = p ∧ p.raw % 4096 = 0 := by
  unfold fromStartAddress at h
  split at h
  · cases h; exact ⟨rfl, by assumption⟩
  · cases h

def index (f : PhysFrame) : Nat := f.start.raw / 4096

theorem raw_index (f : PhysFrame) : f.start.raw = 4096 * f.index := by
  have hf := f.aligned
  unfold index
  omega

theorem index_inj {f g : PhysFrame} (h : f.index = g.index) : f = g := by
  have hf := f.raw_index
  have hg := g.raw_index
  exact PhysFrame.ext (by omega)

theorem exists_index {n : Nat} (h : n < 2 ^ 40) : ∃ f : PhysFrame, f.index = n :=
  ⟨⟨⟨4096 * n, by omega⟩, by dsimp only; omega⟩, by simp [index]⟩

theorem next_index (ar : Arith) {f : PhysFrame} (h : f.index + 1 < 2 ^ 40) :
    ∃ g, next ar f = some g ∧ g.index = f.index + 1 := by
  have hf := f.raw_index
  have hlt : f.start.raw + 4096 < 2 ^ 52 := by omega
  have hadd : ar.add f.start.raw 4096 = some (f.start.raw + 4096) := Arith.add_of_lt ar (by omega)
  refine ⟨containingAddress ⟨f.start.raw + 4096, hlt⟩, ?_, ?_⟩
  · have hnew : PhysAddr.new (f.start.raw + 4096) = some ⟨f.start.raw + 4096, hlt⟩ := dif_pos hlt
    rw [next, PhysAddr.add, hadd, Option.bind_some, hnew, Option.map_some]
  · have hg := (containingAddress ⟨f.start.raw + 4096, hlt⟩).raw_index
    simp only [containingAddress] at hg ⊢
    omega

theorem next_cases {ar : Arith} {f g : PhysFrame} (h : next ar f = some g) : g.index = f.index + 1 := by
  have hf := f.raw_index
  have hb := f.start.bounded
  have hadd : ar.add f.start.raw 4096 = some (f.start.raw + 4096) := Arith.add_of_lt ar (by omega)
  simp only [next, PhysAddr.add, hadd, Option.bind_some, Option.map_eq_some_iff] at h
  obtain ⟨p, hp, rfl⟩ := h
  have hraw := PhysAddr.new_cases hp
  have hg := (containingAddress p).raw_index
  simp only [containingAddress] at hg ⊢
  omega

/-- The `i`-th frame of a range. -/
theorem getElem?_range {ar : Arith} {a b f : PhysFrame} {i : Nat} :
    (range ar a b)[i]? = some f ↔ f.index = a.index + i ∧ f.index < b.index := by
  have hin : ∀ f : PhysFrame, decide (f.start.raw < b.start.raw) = true ↔ f.index < b.index := fun f => by
    have hf := f.raw_index
    have hb := b.raw_index
    rw [decide_eq_true_iff]
    omega
  have hnext : ∀ f g : PhysFrame, decide (f.start.raw < b.start.raw) = true → next ar f = some g →
      g.index = f.index + 1 := fun _ _ _ h => next_cases h
  have hbb := b.start.bounded
  have hb := b.raw_index
  have hmore : ∀ f : PhysFrame, f.index + 1 < b.index → ∃ g, next ar f = some g ∧ g.index = f.index + 1 :=
    fun f hf => next_index ar (by omega)
  refine walk_getElem?_iff hin hnext hmore index_inj fun hi hf => ?_
  have ha := a.raw_index
  omega

end PhysFrame

end Address
