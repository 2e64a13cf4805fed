import Mathlib.Data.List.Induction

/-!
# Runs of a step function

A step takes a state and a label and is `none` where the label cannot happen or
stops the machine. Runs are lists of labels, and an invariant may speak of the
labels that led to a state.
-/
namespace Runs

variable {σ ℓ : Type} {step : σ → ℓ → Option σ}

def run (step : σ → ℓ → Option σ) : σ → List ℓ → Option σ
  | s, [] => some s
  | s, l :: ls => (step s l).bind fun t => run step t ls

@[simp] theorem run_nil (s : σ) : run step s [] = some s := rfl

theorem run_append (s : σ) (as bs : List ℓ) :
    run step s (as ++ bs) = (run step s as).bind fun t => run step t bs := by
  induction as generalizing s with
  | nil => rfl
  | cons l as ih =>
    simp only [List.cons_append, run]
    cases step s l with
    | none => rfl
    | some t => exact ih t

theorem run_snoc {s u : σ} {ls : List ℓ} {l : ℓ} :
    run step s (ls ++ [l]) = some u ↔ ∃ t, run step s ls = some t ∧ step t l = some u := by
  rw [run_append]
  cases run step s ls with
  | none => simp
  | some t => simp [run]

/-- A run has passed through the state of each of its beginnings. -/
theorem run_front {s u : σ} {as bs : List ℓ} (h : run step s (as ++ bs) = some u) :
    ∃ t, run step s as = some t ∧ run step t bs = some u := by
  rw [run_append] at h
  cases ht : run step s as with
  | none => simp [ht] at h
  | some t => exact ⟨t, rfl, by simpa [ht] using h⟩

/-- What holds at the start and is kept by each step holds along every run, with the
labels so far at hand. -/
theorem run_induction {s : σ} {I : List ℓ → σ → Prop} (start : I [] s)
    (keep : ∀ ls t l u, run step s ls = some t → I ls t → step t l = some u → I (ls ++ [l]) u)
    (ls : List ℓ) : ∀ t, run step s ls = some t → I ls t := by
  induction ls using List.reverseRecOn with
  | nil =>
    intro t ht
    cases ht
    exact start
  | append_singleton ls l ih =>
    intro u hu
    obtain ⟨t, ht, hl⟩ := run_snoc.mp hu
    exact keep ls t l u ht (ih t ht) hl

theorem run_invariant {I : σ → Prop} (keep : ∀ t l u, I t → step t l = some u → I u)
    {s t : σ} {ls : List ℓ} (start : I s) (h : run step s ls = some t) : I t :=
  run_induction (I := fun _ => I) start (fun _ t l u _ hI hs => keep t l u hI hs) ls t h

/-- A run of which every step costs something is no longer than what there is at the start. -/
theorem run_length_le {Good : ℓ → Prop} {measure : σ → Nat}
    (down : ∀ t l u, Good l → step t l = some u → measure u < measure t) {s t : σ} {ls : List ℓ}
    (good : ∀ l ∈ ls, Good l) (h : run step s ls = some t) : ls.length + measure t ≤ measure s := by
  induction ls generalizing s with
  | nil =>
    cases h
    exact Nat.le_of_eq (Nat.zero_add _)
  | cons l ls ih =>
    obtain ⟨u, hu, hrest⟩ := Option.bind_eq_some_iff.mp h
    have hdown := down s l u (good l List.mem_cons_self) hu
    have hlater := ih (fun m hm => good m (List.mem_cons_of_mem l hm)) hrest
    rw [List.length_cons]
    omega

/-- Where a step of a run keeps an invariant exactly when it is a good one, the run keeps it
throughout exactly when it has good steps only. -/
theorem run_good_iff {I : σ → Prop} {Good : σ → ℓ → Prop} {s u : σ} {ls : List ℓ}
    (hstep : ∀ as l bs t v, ls = as ++ l :: bs → run step s as = some t → I t → step t l = some v →
      (I v ↔ Good t l)) (start : I s) (h : run step s ls = some u) :
    (∀ as bs t, ls = as ++ bs → run step s as = some t → I t) ↔
      ∀ as l bs t, ls = as ++ l :: bs → run step s as = some t → Good t l := by
  constructor
  · rintro hall as l bs t rfl ht
    obtain ⟨t', ht', hrest⟩ := run_front h
    obtain rfl : t = t' := Option.some.inj (ht.symm.trans ht')
    obtain ⟨v, hv, _⟩ := Option.bind_eq_some_iff.mp hrest
    have hI : I v := hall (as ++ [l]) bs v (by simp) (run_snoc.mpr ⟨t, ht, hv⟩)
    exact (hstep as l bs t v rfl ht (hall as (l :: bs) t rfl ht) hv).mp hI
  · intro hgood as
    induction as using List.reverseRecOn with
    | nil =>
      rintro bs t - ht
      cases ht
      exact start
    | append_singleton as l ih =>
      rintro bs v hls hv
      obtain ⟨t, ht, hl⟩ := run_snoc.mp hv
      have hsplit : ls = as ++ l :: bs := by rw [hls]; simp
      have hI : I t := ih (l :: bs) t hsplit ht
      exact (hstep as l bs t v hsplit ht hI hl).mpr (hgood as l bs t hsplit ht)

/-- Where a step from a state with both invariants is made and keeps the first exactly when it is a good one,
and a good one keeps the second, a run is made and keeps the first throughout exactly when it has good
steps only. -/
theorem run_made_iff {I J : σ → Prop} {Good : σ → ℓ → Prop} {s : σ} {ls : List ℓ}
    (hstep : ∀ as l bs t, ls = as ++ l :: bs → run step s as = some t → I t → J t →
      ((∃ v, step t l = some v ∧ I v) ↔ Good t l))
    (hkeep : ∀ as l bs t v, ls = as ++ l :: bs → run step s as = some t → J t → Good t l → step t l = some v → J v)
    (hI : I s) (hJ : J s) :
    ((∃ u, run step s ls = some u) ∧ ∀ as bs t, ls = as ++ bs → run step s as = some t → I t) ↔
      ∀ as l bs t, ls = as ++ l :: bs → run step s as = some t → Good t l := by
  constructor
  · rintro ⟨⟨u, hu⟩, hall⟩
    have hgood : ∀ as l bs t, ls = as ++ l :: bs → run step s as = some t → J t → Good t l := by
      rintro as l bs t rfl ht hJt
      obtain ⟨t', ht', hrest⟩ := run_front hu
      obtain rfl : t = t' := Option.some.inj (ht.symm.trans ht')
      obtain ⟨v, hv, _⟩ := Option.bind_eq_some_iff.mp hrest
      have hIv : I v := hall (as ++ [l]) bs v (by simp) (run_snoc.mpr ⟨t, ht, hv⟩)
      exact (hstep as l bs t rfl ht (hall as (l :: bs) t rfl ht) hJt).mp ⟨v, hv, hIv⟩
    have hsound : ∀ as bs t, ls = as ++ bs → run step s as = some t → J t := by
      intro as
      induction as using List.reverseRecOn with
      | nil =>
        rintro bs t - ht
        cases ht
        exact hJ
      | append_singleton as l ih =>
        rintro bs v hls hv
        obtain ⟨t, ht, hl⟩ := run_snoc.mp hv
        have hsplit : ls = as ++ l :: bs := by rw [hls]; simp
        have hJt : J t := ih (l :: bs) t hsplit ht
        exact hkeep as l bs t v hsplit ht hJt (hgood as l bs t hsplit ht hJt) hl
    exact fun as l bs t hls ht => hgood as l bs t hls ht (hsound as (l :: bs) t hls ht)
  · intro hgood
    have hmade : ∀ as bs, ls = as ++ bs → ∃ t, run step s as = some t ∧ I t ∧ J t := by
      intro as
      induction as using List.reverseRecOn with
      | nil => exact fun bs _ => ⟨s, rfl, hI, hJ⟩
      | append_singleton as l ih =>
        intro bs hls
        have hsplit : ls = as ++ l :: bs := by rw [hls]; simp
        obtain ⟨t, ht, hIt, hJt⟩ := ih (l :: bs) hsplit
        have hl := hgood as l bs t hsplit ht
        obtain ⟨v, hv, hIv⟩ := (hstep as l bs t hsplit ht hIt hJt).mpr hl
        exact ⟨v, run_snoc.mpr ⟨t, ht, hv⟩, hIv, hkeep as l bs t v hsplit ht hJt hl hv⟩
    refine ⟨?_, fun as bs t hls ht => ?_⟩
    · obtain ⟨u, hu, _⟩ := hmade ls [] (by simp)
      exact ⟨u, hu⟩
    · obtain ⟨t', ht', hIt, _⟩ := hmade as bs hls
      obtain rfl : t = t' := Option.some.inj (ht.symm.trans ht')
      exact hIt

theorem run_invariant_iff {I : σ → Prop} {Bad : σ → ℓ → Prop}
    (hstep : ∀ t l u, I t → step t l = some u → (I u ↔ ¬ Bad t l)) {s u : σ} {ls : List ℓ} (start : I s)
    (h : run step s ls = some u) :
    (∀ as bs t, ls = as ++ bs → run step s as = some t → I t) ↔
      ∀ as l bs t, ls = as ++ l :: bs → run step s as = some t → ¬ Bad t l :=
  run_good_iff (fun _ l _ t v _ _ hI hl => hstep t l v hI hl) start h

end Runs
