import Idkernel.Runs

/-!
# Tables with a counter

Entries are numbered by a counter that only grows, found from the front, and
taken out in place. The list then stays sorted, so a number denotes at most one
entry, and one that was taken out denotes none for ever.
-/
namespace Numbered

open Runs

variable {α σ ℓ : Type}

structure Table (α : Type) where
  next : Nat
  entries : List (Nat × α)

def find (k : Nat) (l : List (Nat × α)) : Option α := (l.find? fun x => x.1 = k).map fun x => x.2

def Table.lookup (t : Table α) (k : Nat) : Option α := find k t.entries

structure Table.Ordered (t : Table α) : Prop where
  sorted : t.entries.Pairwise fun x y => x.1 < y.1
  below : ∀ x ∈ t.entries, x.1 < t.next

/-! ## Looking up -/

section Find

variable {k : Nat} {a : α} {l l' : List (Nat × α)}

theorem find_cons (x : Nat × α) : find k (x :: l) = if x.1 = k then some x.2 else find k l := by
  by_cases h : x.1 = k <;> simp [find, h]

theorem find_none : find k l = none ↔ ∀ x ∈ l, x.1 ≠ k := by simp [find]

theorem find_append : find k (l ++ l') = (find k l).or (find k l') := by
  induction l with
  | nil => simp [find]
  | cons x l ih =>
    rw [List.cons_append, find_cons, find_cons, ih]
    split <;> simp

theorem find_of_mem (hs : l.Pairwise fun x y => x.1 < y.1) (h : (k, a) ∈ l) : find k l = some a := by
  induction l with
  | nil => cases h
  | cons x l ih =>
    obtain ⟨hx, hs⟩ := List.pairwise_cons.mp hs
    rw [find_cons]
    rcases List.mem_cons.mp h with rfl | h
    · rw [if_pos rfl]
    · have hlt := hx _ h
      dsimp only at hlt
      rw [if_neg (by omega), ih hs h]

end Find

/-! ## Changes -/

/-- What a step can do to a table; the counter may also run on alone. -/
inductive Change (α : Type) where
  | keep
  | push : α → Change α
  | replace : Nat → Change α
  | remove : Nat → Change α

/-- The number whose entry changes. -/
def Change.touched : Change α → Option Nat
  | .keep => none
  | .push _ => none
  | .replace k => some k
  | .remove k => some k

inductive Changes : Table α → Change α → Table α → Prop where
  | keep {n n' : Nat} {l : List (Nat × α)} : n ≤ n' → Changes ⟨n, l⟩ .keep ⟨n', l⟩
  | push {n n' : Nat} {l : List (Nat × α)} {a : α} : n < n' → Changes ⟨n, l⟩ (.push a) ⟨n', l ++ [(n, a)]⟩
  | replace {n k : Nat} {before after : List (Nat × α)} {a b : α} :
      Changes ⟨n, before ++ (k, a) :: after⟩ (.replace k) ⟨n, before ++ (k, b) :: after⟩
  | remove {n k : Nat} {before after : List (Nat × α)} {a : α} :
      Changes ⟨n, before ++ (k, a) :: after⟩ (.remove k) ⟨n, before ++ after⟩

section Changes

variable {t t' : Table α} {c : Change α} {k : Nat} {a : α}

theorem Changes.next_le (h : Changes t c t') : t.next ≤ t'.next := by
  cases h with
  | keep hn => exact hn
  | push hn => exact Nat.le_of_lt hn
  | replace => exact Nat.le_refl _
  | remove => exact Nat.le_refl _

theorem Changes.ordered (h : Changes t c t') (ht : t.Ordered) : t'.Ordered := by
  obtain ⟨hs, hb⟩ := ht
  cases h with
  | keep hn => exact ⟨hs, fun x hx => Nat.lt_of_lt_of_le (hb x hx) hn⟩
  | push hn =>
    refine ⟨List.pairwise_append.mpr ⟨hs, List.pairwise_singleton _ _, fun x hx y hy => ?_⟩, fun x hx => ?_⟩
    · rw [List.mem_singleton.mp hy]
      exact hb x hx
    · rcases List.mem_append.mp hx with hx | hx
      · exact Nat.lt_trans (hb x hx) hn
      · rw [List.mem_singleton.mp hx]
        exact hn
  | @replace n k before after a b =>
    obtain ⟨hbefore, hafter, hacross⟩ := List.pairwise_append.mp hs
    obtain ⟨hk, hafter⟩ := List.pairwise_cons.mp hafter
    constructor
    · refine List.pairwise_append.mpr ⟨hbefore, List.pairwise_cons.mpr ⟨hk, hafter⟩, fun x hx y hy => ?_⟩
      rcases List.mem_cons.mp hy with rfl | hy
      · exact hacross x hx (k, a) (by simp)
      · exact hacross x hx y (by simp [hy])
    · intro x hx
      rcases List.mem_append.mp hx with hx | hx
      · exact hb x (by simp [hx])
      · rcases List.mem_cons.mp hx with rfl | hx
        · exact hb (k, a) (by simp)
        · exact hb x (by simp [hx])
  | @remove n k before after a =>
    have hsub : (before ++ after).Sublist (before ++ (k, a) :: after) :=
      (List.sublist_cons_self (k, a) after).append_left before
    exact ⟨hs.sublist hsub, fun x hx => hb x (hsub.subset hx)⟩

/-- The entry of a number that is not touched stays. -/
theorem Changes.lookup_kept (h : Changes t c t') (hc : c.touched ≠ some k) (hk : t.lookup k = some a) :
    t'.lookup k = some a := by
  unfold Table.lookup at hk ⊢
  cases h with
  | keep => exact hk
  | push => rw [find_append, hk, Option.some_or]
  | @replace n j before after b b' =>
    have hne : j ≠ k := fun he => hc (congrArg some he)
    rw [find_append, find_cons, if_neg hne] at hk ⊢
    exact hk
  | @remove n j before after b =>
    have hne : j ≠ k := fun he => hc (congrArg some he)
    rw [find_append, find_cons, if_neg hne] at hk
    rw [find_append]
    exact hk

theorem Changes.lookup_replace (h : Changes t (.replace k) t') {j : Nat} (hj : j ≠ k) : t'.lookup j = t.lookup j := by
  unfold Table.lookup
  cases h with
  | replace => rw [find_append, find_append, find_cons, find_cons, if_neg (Ne.symm hj), if_neg (Ne.symm hj)]

/-- A number that was given out and denotes nothing will never denote anything. -/
theorem Changes.lookup_none (h : Changes t c t') (hlt : k < t.next) (hk : t.lookup k = none) : t'.lookup k = none := by
  unfold Table.lookup at hk ⊢
  rw [find_none] at hk ⊢
  cases h with
  | keep => exact hk
  | push =>
    intro x hx
    rcases List.mem_append.mp hx with hx | hx
    · exact hk x hx
    · rw [List.mem_singleton.mp hx]
      exact Nat.ne_of_gt hlt
  | @replace n j before after b b' =>
    intro x hx
    rcases List.mem_append.mp hx with hx | hx
    · exact hk x (by simp [hx])
    · rcases List.mem_cons.mp hx with rfl | hx
      · exact hk (j, b) (by simp)
      · exact hk x (by simp [hx])
  | @remove n j before after b =>
    intro x hx
    rcases List.mem_append.mp hx with hx | hx
    · exact hk x (by simp [hx])
    · exact hk x (by simp [hx])

theorem Changes.removed (h : Changes t (.remove k) t') (ht : t.Ordered) : k < t'.next ∧ t'.lookup k = none := by
  obtain ⟨hs, hb⟩ := ht
  cases h with
  | @remove n _ before after a =>
    obtain ⟨_, hafter, hacross⟩ := List.pairwise_append.mp hs
    obtain ⟨hk, _⟩ := List.pairwise_cons.mp hafter
    refine ⟨hb (k, a) (by simp), find_none.mpr fun x hx => ?_⟩
    rcases List.mem_append.mp hx with hx | hx
    · exact Nat.ne_of_lt (hacross x hx (k, a) (by simp))
    · exact Nat.ne_of_gt (hk x hx)

end Changes

/-! ## Runs -/

section Runs

variable {step : σ → ℓ → Option σ} {view : σ → Table α} {I : σ → Prop} {touches : ℓ → Nat → Prop}
  (hstep : ∀ s l s', I s → step s l = some s' →
    I s' ∧ ∃ c, Changes (view s) c (view s') ∧ ∀ k, c.touched = some k → touches l k)
  {s t : σ} {ls : List ℓ} {k : Nat} {a : α}

include hstep

theorem run_ordered (hI : I s) (hs : (view s).Ordered) (h : run step s ls = some t) : I t ∧ (view t).Ordered := by
  refine run_invariant (I := fun s => I s ∧ (view s).Ordered) (fun s l s' hs hl => ?_) ⟨hI, hs⟩ h
  obtain ⟨hI', c, hc, _⟩ := hstep s l s' hs.1 hl
  exact ⟨hI', hc.ordered hs.2⟩

/-- What was taken out is not found again. -/
theorem run_lookup_none (hI : I s) (hlt : k < (view s).next) (hk : (view s).lookup k = none)
    (h : run step s ls = some t) : (view t).lookup k = none := by
  have hall : I t ∧ k < (view t).next ∧ (view t).lookup k = none := by
    refine run_invariant (I := fun u => I u ∧ k < (view u).next ∧ (view u).lookup k = none) (fun u l u' hu hl => ?_)
      ⟨hI, hlt, hk⟩ h
    obtain ⟨hI', c, hc, _⟩ := hstep u l u' hu.1 hl
    exact ⟨hI', Nat.lt_of_lt_of_le hu.2.1 hc.next_le, hc.lookup_none hu.2.1 hu.2.2⟩
  exact hall.2.2

/-- What the steps of a run are not about stays. -/
theorem run_lookup_kept (hI : I s) (hother : ∀ l ∈ ls, ¬ touches l k) (hk : (view s).lookup k = some a)
    (h : run step s ls = some t) : (view t).lookup k = some a := by
  induction ls generalizing s with
  | nil =>
    cases h
    exact hk
  | cons l ls ih =>
    obtain ⟨u, hu, hrest⟩ := Option.bind_eq_some_iff.mp h
    obtain ⟨hI', c, hc, htouch⟩ := hstep s l u hI hu
    have hkept := hc.lookup_kept (fun hk => hother l (by simp) (htouch k hk)) hk
    exact ih hI' (fun l' hl' => hother l' (by simp [hl'])) hkept hrest

end Runs

end Numbered
