import Mathlib.Data.List.Nodup
import Mathlib.Data.List.Perm.Subperm

/-!
# Objects in memory

A cell of memory holds a byte, or one part of an object that was written there
as a whole. An object is read back only while all its parts are in their places,
so nothing has to be said about how it is encoded. Blocks are intervals of
addresses.
-/
namespace Objects

variable {α : Type}

inductive Cell (α : Type) where
  | byte : UInt8 → Cell α
  | part : α → Nat → Cell α
  deriving DecidableEq

abbrev Memory (α : Type) := Nat → Cell α

def put (width : Nat) (m : Memory α) (p : Nat) (x : α) : Memory α := fun a =>
  if p ≤ a ∧ a < p + width then .part x (a - p) else m a

def get [DecidableEq α] (width : Nat) (m : Memory α) (p : Nat) : Option α :=
  match m p with
  | .part x _ => if ∀ i, i < width → m (p + i) = .part x i then some x else none
  | .byte _ => none

section Access

variable {width : Nat} {m m' : Memory α} {p q a : Nat} {x y : α}

theorem put_outside (h : ¬ (p ≤ a ∧ a < p + width)) : put width m p x a = m a := if_neg h

theorem put_at {i : Nat} (h : i < width) : put width m p x (p + i) = .part x i := by
  have hin : p ≤ p + i ∧ p + i < p + width := by omega
  simp only [put, if_pos hin, Nat.add_sub_cancel_left]

variable [DecidableEq α]

theorem get_put (h : 0 < width) : get width (put width m p x) p = some x := by
  have hfirst : put width m p x p = .part x 0 := put_at h
  have hall : ∀ i, i < width → put width m p x (p + i) = .part x i := fun i hi => put_at hi
  simp only [get, hfirst, if_pos hall]

theorem get_congr (h : 0 < width) (hsame : ∀ a, p ≤ a → a < p + width → m' a = m a) :
    get width m' p = get width m p := by
  have hfirst : m' p = m p := hsame p (by omega) (by omega)
  have hall : ∀ i, i < width → m' (p + i) = m (p + i) := fun i hi => hsame (p + i) (by omega) (by omega)
  cases hp : m p with
  | byte b => simp only [get, hfirst, hp]
  | part x i =>
    have hiff : (∀ i, i < width → m' (p + i) = .part x i) ↔ ∀ i, i < width → m (p + i) = .part x i :=
      forall_congr' fun i => imp_congr_right fun hi => by rw [hall i hi]
    simp only [get, hfirst, hp, hiff]

theorem get_put_apart (h : 0 < width) (hapart : p + width ≤ q ∨ q + width ≤ p) :
    get width (put width m p x) q = get width m q :=
  get_congr h fun a ha ha' => put_outside (by omega)

/-- What is read back where an object was written is that object, in its place. -/
theorem get_put_overlap (h : get width (put width m p x) q = some y) (hlow : q < p + width) (hhigh : p < q + width) :
    q = p ∧ y = x := by
  have hparts : ∀ i, i < width → put width m p x (q + i) = .part y i := by
    unfold get at h
    split at h
    · split at h
      · cases h
        assumption
      · cases h
    · cases h
  rcases Nat.le_total p q with hle | hle
  · obtain ⟨j, rfl⟩ := Nat.exists_eq_add_of_le hle
    have hcell := (put_at (m := m) (x := x) (p := p) (i := j) (by omega)).symm.trans (hparts 0 (by omega))
    obtain ⟨rfl, rfl⟩ := Cell.part.inj hcell
    exact ⟨rfl, rfl⟩
  · obtain ⟨j, rfl⟩ := Nat.exists_eq_add_of_le hle
    have hcell := (put_at (m := m) (x := x) (p := q + j) (i := 0) (by omega)).symm.trans (hparts j (by omega))
    obtain ⟨rfl, rfl⟩ := Cell.part.inj hcell
    exact ⟨rfl, rfl⟩

end Access

/-! ## Blocks -/

/-- A first address and a length. -/
abbrev Block := Nat × Nat

def Apart (a b : Block) : Prop := a.1 + a.2 ≤ b.1 ∨ b.1 + b.2 ≤ a.1

def Inside (a b : Block) : Prop := b.1 ≤ a.1 ∧ a.1 + a.2 ≤ b.1 + b.2

theorem Apart.symm {a b : Block} (h : Apart a b) : Apart b a := Or.symm h

theorem Inside.trans {a b c : Block} (h : Inside a b) (h' : Inside b c) : Inside a c := by
  unfold Inside at *
  omega

/-- A part of a block is apart from what the block is apart from. -/
theorem Apart.inside {a b c : Block} (h : Apart b c) (hin : Inside a b) : Apart a c := by
  unfold Apart Inside at *
  omega

/-- The lengths together. -/
def sizes : List Block → Nat
  | [] => 0
  | b :: bs => b.2 + sizes bs

@[simp] theorem sizes_nil : sizes [] = 0 := rfl

@[simp] theorem sizes_cons (b : Block) (bs : List Block) : sizes (b :: bs) = b.2 + sizes bs := rfl

@[simp] theorem sizes_append (as bs : List Block) : sizes (as ++ bs) = sizes as + sizes bs := by
  induction as with
  | nil => simp
  | cons a as ih => simp [ih, Nat.add_assoc]

theorem sizes_perm {as bs : List Block} (h : as.Perm bs) : sizes as = sizes bs := by
  induction h with
  | nil => rfl
  | cons b _ ih => simp [ih]
  | swap a b _ => simp only [sizes_cons]; omega
  | trans _ _ ih ih' => exact ih.trans ih'

theorem length_le_sizes {bs : List Block} (hpos : ∀ b ∈ bs, 0 < b.2) : bs.length ≤ sizes bs := by
  induction bs with
  | nil => exact Nat.le_refl 0
  | cons b bs ih =>
    obtain ⟨hb, hbs⟩ := List.forall_mem_cons.mp hpos
    have hrest := ih hbs
    rw [List.length_cons, sizes_cons]
    omega

def addressesOf (bs : List Block) : List Nat := bs.flatMap fun b => List.range' b.1 b.2

theorem mem_addressesOf {bs : List Block} {x : Nat} :
    x ∈ addressesOf bs ↔ ∃ b ∈ bs, b.1 ≤ x ∧ x < b.1 + b.2 := by
  simp [addressesOf, List.mem_flatMap, List.mem_range'_1]

theorem length_addressesOf (bs : List Block) : (addressesOf bs).length = sizes bs := by
  induction bs with
  | nil => rfl
  | cons b bs ih =>
    have hsplit : addressesOf (b :: bs) = List.range' b.1 b.2 ++ addressesOf bs := rfl
    rw [hsplit, List.length_append, List.length_range', ih, sizes_cons]

theorem addressesOf_nodup {bs : List Block} (h : bs.Pairwise Apart) : (addressesOf bs).Nodup := by
  refine List.nodup_flatMap.mpr ⟨fun b _ => List.nodup_range', h.imp fun {a b} hab => ?_⟩
  intro x hx hx'
  rw [List.mem_range'_1] at hx hx'
  unfold Apart at hab
  omega

section Packed

variable {bs : List Block} {whole : Block}

theorem addressesOf_subperm (hapart : bs.Pairwise Apart) (hin : ∀ b ∈ bs, Inside b whole) :
    (addressesOf bs).Subperm (List.range' whole.1 whole.2) := by
  refine (addressesOf_nodup hapart).subperm fun x hx => ?_
  obtain ⟨b, hb, hlow, hhigh⟩ := mem_addressesOf.mp hx
  have hbin := hin b hb
  unfold Inside at hbin
  exact List.mem_range'_1.mpr ⟨by omega, by omega⟩

/-- Blocks of a block are not longer than it. -/
theorem sizes_le (hapart : bs.Pairwise Apart) (hin : ∀ b ∈ bs, Inside b whole) : sizes bs ≤ whole.2 := by
  have hlen := (addressesOf_subperm hapart hin).length_le
  rwa [length_addressesOf, List.length_range'] at hlen

/-- A block has room for as many blocks as it has addresses. -/
theorem length_le (hapart : bs.Pairwise Apart) (hin : ∀ b ∈ bs, Inside b whole) (hpos : ∀ b ∈ bs, 0 < b.2) :
    bs.length ≤ whole.2 :=
  Nat.le_trans (length_le_sizes hpos) (sizes_le hapart hin)

/-- Blocks that are as long as the block they are in cover it. -/
theorem covers_of_sizes (hapart : bs.Pairwise Apart) (hin : ∀ b ∈ bs, Inside b whole)
    (hsize : sizes bs = whole.2) {x : Nat} (hlow : whole.1 ≤ x) (hhigh : x < whole.1 + whole.2) :
    ∃ b ∈ bs, b.1 ≤ x ∧ x < b.1 + b.2 := by
  have hlen : (List.range' whole.1 whole.2).length = (addressesOf bs).length := by
    rw [length_addressesOf, List.length_range', hsize]
  have hperm := (addressesOf_subperm hapart hin).perm_of_length_le (Nat.le_of_eq hlen)
  have hx : x ∈ List.range' whole.1 whole.2 := List.mem_range'_1.mpr ⟨hlow, hhigh⟩
  exact mem_addressesOf.mp (hperm.mem_iff.mpr hx)

end Packed

end Objects
