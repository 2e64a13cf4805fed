import Mathlib.Data.List.Chain
import Mathlib.Order.Lattice

/-!
# Labelled spans

Half-open spans of a linear order, each with a label, in lists. Neighbours that
meet and have the same label are joined as an iterator does it: the last span is
carried along and handed out when the next one does not join.
-/
namespace Spans

structure Span (α κ : Type) where
  start : α
  stop : α
  label : κ
  deriving DecidableEq, Repr

variable {α κ ι β : Type}

/-! ## Loops -/

/-- What a loop yields, where each turn yields a list or fails. -/
def gather : List ι → (ι → Option (List β)) → Option (List β)
  | [], _ => some []
  | x :: xs, f => do
    let ys ← f x
    let rest ← gather xs f
    return ys ++ rest

theorem gather_eq_some {xs : List ι} {f : ι → Option (List β)} {ys : List β} :
    gather xs f = some ys ↔ (∀ x ∈ xs, ∃ zs, f x = some zs) ∧ ys = xs.flatMap fun x => (f x).getD [] := by
  induction xs generalizing ys with
  | nil => simp [gather, eq_comm]
  | cons x xs ih =>
    cases hx : f x with
    | none => simp [gather, hx]
    | some zs =>
      have hrest : gather (x :: xs) f = (gather xs f).map fun rest => zs ++ rest := by
        simp only [gather, hx]
        cases gather xs f <;> rfl
      simp only [hrest, Option.map_eq_some_iff, ih, List.forall_mem_cons, List.flatMap_cons, hx]
      constructor
      · rintro ⟨rest, ⟨hxs, rfl⟩, rfl⟩
        exact ⟨⟨⟨zs, rfl⟩, hxs⟩, rfl⟩
      · rintro ⟨⟨_, hxs⟩, rfl⟩
        exact ⟨_, ⟨hxs, rfl⟩, rfl⟩

/-- The last turn yields the end of the whole list. -/
theorem gather_suffix {xs : List ι} {x : ι} {f : ι → Option (List β)} {ys : List β}
    (h : gather (xs ++ [x]) f = some ys) : ∃ zs, f x = some zs ∧ zs <:+ ys := by
  obtain ⟨hall, rfl⟩ := gather_eq_some.mp h
  obtain ⟨zs, hzs⟩ := hall x (by simp)
  refine ⟨zs, hzs, xs.flatMap fun x => (f x).getD [], ?_⟩
  simp [hzs]

/-- The carried item, and the items that are still to come. -/
def coalesceFrom (f : β → β → Except (β × β) β) (last : β) : List β → List β
  | [] => [last]
  | x :: xs => match f last x with
    | .ok joined => coalesceFrom f joined xs
    | .error (done, next) => done :: coalesceFrom f next xs

def coalesce (f : β → β → Except (β × β) β) : List β → List β
  | [] => []
  | x :: xs => coalesceFrom f x xs

/-! ## Joining -/

section Joining

variable [DecidableEq α] [DecidableEq κ] {s t r y : Span α κ} {xs : List (Span α κ)}

/-- One ends where the other starts, with the same label. -/
def Joinable (s t : Span α κ) : Prop := s.stop = t.start ∧ s.label = t.label

instance (s t : Span α κ) : Decidable (Joinable s t) := inferInstanceAs (Decidable (_ ∧ _))

def Span.join (s t : Span α κ) : Except (Span α κ × Span α κ) (Span α κ) :=
  if Joinable s t then .ok ⟨s.start, t.stop, s.label⟩ else .error (s, t)

theorem coalesceFrom_joined (h : Joinable s t) :
    coalesceFrom Span.join s (t :: xs) = coalesceFrom Span.join ⟨s.start, t.stop, s.label⟩ xs := by
  simp [coalesceFrom, Span.join, h]

theorem coalesceFrom_done (h : ¬ Joinable s t) :
    coalesceFrom Span.join s (t :: xs) = s :: coalesceFrom Span.join t xs := by
  simp [coalesceFrom, Span.join, h]

/-- The carried span may grow, but it keeps its start and its label. -/
theorem coalesceFrom_head (s : Span α κ) (xs : List (Span α κ)) : ∃ r rest,
    coalesceFrom Span.join s xs = r :: rest ∧ r.start = s.start ∧ r.label = s.label := by
  induction xs generalizing s with
  | nil => exact ⟨s, [], rfl, rfl, rfl⟩
  | cons t xs ih =>
    by_cases h : Joinable s t
    · rw [coalesceFrom_joined h]
      exact ih _
    · rw [coalesceFrom_done h]
      exact ⟨s, _, rfl, rfl, rfl⟩

theorem coalesceFrom_separate (s : Span α κ) (xs : List (Span α κ)) :
    (coalesceFrom Span.join s xs).IsChain fun r r' => ¬ Joinable r r' := by
  induction xs generalizing s with
  | nil => exact .singleton s
  | cons t xs ih =>
    by_cases h : Joinable s t
    · rw [coalesceFrom_joined h]
      exact ih _
    · rw [coalesceFrom_done h]
      have hrest := ih t
      obtain ⟨r, rest, heq, hstart, hlabel⟩ := coalesceFrom_head t xs
      rw [heq] at hrest ⊢
      refine .cons_cons ?_ hrest
      rwa [Joinable, hstart, hlabel]

theorem coalesceFrom_start (h : r ∈ coalesceFrom Span.join s xs) : ∃ t ∈ s :: xs, r.start = t.start := by
  induction xs generalizing s with
  | nil =>
    obtain rfl : r = s := by simpa [coalesceFrom] using h
    exact ⟨r, by simp, rfl⟩
  | cons t xs ih =>
    by_cases hjoin : Joinable s t
    · rw [coalesceFrom_joined hjoin] at h
      obtain ⟨u, hu, hstart⟩ := ih h
      rcases List.mem_cons.mp hu with rfl | hu
      · exact ⟨s, by simp, hstart⟩
      · exact ⟨u, by simp [hu], hstart⟩
    · rw [coalesceFrom_done hjoin] at h
      rcases List.mem_cons.mp h with rfl | h
      · exact ⟨r, by simp, rfl⟩
      · obtain ⟨u, hu, hstart⟩ := ih h
        exact ⟨u, List.mem_cons_of_mem s hu, hstart⟩

/-- The end of the last span is not lost. -/
theorem coalesceFrom_stop (h : [y] <:+ s :: xs) : ∃ r ∈ coalesceFrom Span.join s xs, r.stop = y.stop := by
  induction xs generalizing s with
  | nil =>
    obtain rfl : y = s := by simpa using h.subset (List.mem_singleton_self y)
    exact ⟨y, by simp [coalesceFrom], rfl⟩
  | cons t xs ih =>
    have hrest : [y] <:+ t :: xs := by
      rcases List.suffix_cons_iff.mp h with heq | hrest
      · simp at heq
      · exact hrest
    by_cases hjoin : Joinable s t
    · rw [coalesceFrom_joined hjoin]
      cases xs with
      | nil =>
        obtain rfl : y = t := by simpa using hrest.subset (List.mem_singleton_self y)
        exact ⟨_, List.mem_singleton_self _, rfl⟩
      | cons u xs =>
        rcases List.suffix_cons_iff.mp hrest with heq | hrest
        · simp at heq
        · exact ih (hrest.trans (List.suffix_cons _ _))
    · rw [coalesceFrom_done hjoin]
      obtain ⟨r, hr, hstop⟩ := ih hrest
      exact ⟨r, List.mem_cons_of_mem s hr, hstop⟩

end Joining

/-! ## Spans of a linear order -/

section Order

variable [LinearOrder α] {s t : Span α κ} {xs : List (Span α κ)} {a : α} {l : κ}

def Span.Contains (s : Span α κ) (a : α) : Prop := s.start ≤ a ∧ a < s.stop

/-- No span is empty, and each ends before the later ones start. -/
structure Sorted (xs : List (Span α κ)) : Prop where
  nonempty : ∀ s ∈ xs, s.start < s.stop
  apart : xs.Pairwise fun s t => s.stop ≤ t.start

/-- A point lies in a span with this label. -/
def Labels (xs : List (Span α κ)) (a : α) (l : κ) : Prop := ∃ s ∈ xs, s.Contains a ∧ s.label = l

theorem sorted_cons : Sorted (s :: xs) ↔ s.start < s.stop ∧ (∀ t ∈ xs, s.stop ≤ t.start) ∧ Sorted xs := by
  constructor
  · intro h
    have happart := List.pairwise_cons.mp h.apart
    exact ⟨h.nonempty s (by simp), happart.1, fun t ht => h.nonempty t (by simp [ht]), happart.2⟩
  · rintro ⟨hs, happart, h⟩
    exact ⟨List.forall_mem_cons.mpr ⟨hs, h.nonempty⟩, List.pairwise_cons.mpr ⟨happart, h.apart⟩⟩

theorem sorted_nil : Sorted ([] : List (Span α κ)) := ⟨by simp, .nil⟩

theorem sorted_singleton (h : s.start < s.stop) : Sorted [s] := sorted_cons.mpr ⟨h, by simp, sorted_nil⟩

theorem sorted_flatMap {xs : List ι} {f : ι → List (Span α κ)} (hparts : ∀ x ∈ xs, Sorted (f x))
    (happart : xs.Pairwise fun x y => ∀ s ∈ f x, ∀ t ∈ f y, s.stop ≤ t.start) : Sorted (xs.flatMap f) := by
  constructor
  · intro s hs
    obtain ⟨x, hx, hs⟩ := List.mem_flatMap.mp hs
    exact (hparts x hx).nonempty s hs
  · exact List.pairwise_flatMap.mpr ⟨fun x hx => (hparts x hx).apart, happart⟩

theorem labels_cons : Labels (s :: xs) a l ↔ s.Contains a ∧ s.label = l ∨ Labels xs a l := by
  simp [Labels]

theorem labels_flatMap {xs : List ι} {f : ι → List (Span α κ)} :
    Labels (xs.flatMap f) a l ↔ ∃ x ∈ xs, Labels (f x) a l := by
  simp only [Labels, List.mem_flatMap]
  constructor
  · rintro ⟨s, ⟨x, hx, hs⟩, h⟩
    exact ⟨x, hx, s, hs, h⟩
  · rintro ⟨x, hx, s, hs, h⟩
    exact ⟨s, ⟨x, hx, hs⟩, h⟩

/-! ## Other labels -/

def Span.relabel (g : κ → κ) (s : Span α κ) : Span α κ := ⟨s.start, s.stop, g s.label⟩

theorem sorted_relabel {g : κ → κ} (h : Sorted xs) : Sorted (xs.map (Span.relabel g)) := by
  constructor
  · intro s hs
    obtain ⟨t, ht, rfl⟩ := List.mem_map.mp hs
    exact h.nonempty t ht
  · exact List.pairwise_map.mpr h.apart

theorem labels_relabel {g : κ → κ} : Labels (xs.map (Span.relabel g)) a l ↔ ∃ k, Labels xs a k ∧ g k = l := by
  constructor
  · rintro ⟨s, hs, hcontains, rfl⟩
    obtain ⟨t, ht, rfl⟩ := List.mem_map.mp hs
    exact ⟨t.label, ⟨t, ht, hcontains, rfl⟩, rfl⟩
  · rintro ⟨k, ⟨t, ht, hcontains, rfl⟩, rfl⟩
    exact ⟨t.relabel g, List.mem_map_of_mem ht, hcontains, rfl⟩

/-! ## What joining keeps -/

/-- A joined span has the points of both. -/
theorem joined_contains (hs : s.start < s.stop) (ht : t.start < t.stop) (h : Joinable s t) :
    (⟨s.start, t.stop, s.label⟩ : Span α κ).Contains a ↔ s.Contains a ∨ t.Contains a := by
  have hmeet := h.1
  simp only [Span.Contains]
  constructor
  · rintro ⟨hstart, hstop⟩
    rcases lt_or_ge a s.stop with ha | ha
    · exact .inl ⟨hstart, ha⟩
    · exact .inr ⟨hmeet ▸ ha, hstop⟩
  · rintro (⟨hstart, hstop⟩ | ⟨hstart, hstop⟩)
    · exact ⟨hstart, hstop.trans (hmeet ▸ ht)⟩
    · exact ⟨(hs.trans_le (hmeet ▸ hstart)).le, hstop⟩

theorem sorted_joined (hsorted : Sorted (s :: t :: xs)) (h : Joinable s t) :
    Sorted (⟨s.start, t.stop, s.label⟩ :: xs) := by
  obtain ⟨hs, _, hrest⟩ := sorted_cons.mp hsorted
  obtain ⟨ht, happart, hxs⟩ := sorted_cons.mp hrest
  exact sorted_cons.mpr ⟨(hs.trans_eq h.1).trans ht, happart, hxs⟩

variable [DecidableEq κ]

theorem sorted_coalesceFrom (h : Sorted (s :: xs)) : Sorted (coalesceFrom Span.join s xs) := by
  induction xs generalizing s with
  | nil => exact h
  | cons t xs ih =>
    by_cases hjoin : Joinable s t
    · rw [coalesceFrom_joined hjoin]
      exact ih (sorted_joined h hjoin)
    · obtain ⟨hs, happart, hrest⟩ := sorted_cons.mp h
      rw [coalesceFrom_done hjoin]
      refine sorted_cons.mpr ⟨hs, fun r hr => ?_, ih hrest⟩
      obtain ⟨u, hu, hstart⟩ := coalesceFrom_start hr
      rw [hstart]
      exact happart u hu

theorem labels_coalesceFrom (h : Sorted (s :: xs)) :
    Labels (coalesceFrom Span.join s xs) a l ↔ Labels (s :: xs) a l := by
  induction xs generalizing s with
  | nil => rfl
  | cons t xs ih =>
    obtain ⟨hs, _, hrest⟩ := sorted_cons.mp h
    by_cases hjoin : Joinable s t
    · rw [coalesceFrom_joined hjoin, ih (sorted_joined h hjoin), labels_cons, labels_cons, labels_cons,
        joined_contains hs (sorted_cons.mp hrest).1 hjoin, ← hjoin.2, or_and_right, or_assoc]
    · rw [coalesceFrom_done hjoin, labels_cons, labels_cons, ih hrest]

/-! ## The whole list -/

theorem coalesce_separate (xs : List (Span α κ)) :
    (coalesce Span.join xs).IsChain fun r r' => ¬ Joinable r r' := by
  cases xs with
  | nil => exact .nil
  | cons s xs => exact coalesceFrom_separate s xs

theorem sorted_coalesce (h : Sorted xs) : Sorted (coalesce Span.join xs) := by
  cases xs with
  | nil => exact h
  | cons s xs => exact sorted_coalesceFrom h

theorem labels_coalesce (h : Sorted xs) : Labels (coalesce Span.join xs) a l ↔ Labels xs a l := by
  cases xs with
  | nil => rfl
  | cons s xs => exact labels_coalesceFrom h

theorem coalesce_stop (h : [s] <:+ xs) : ∃ r ∈ coalesce Span.join xs, r.stop = s.stop := by
  cases xs with
  | nil => simp at h
  | cons t xs => exact coalesceFrom_stop h

end Order

end Spans
