import Mathlib.Algebra.GroupWithZero.Nat
import Idkernel.Locks

/-!
# Computations that take what is free

Such a computation ends well exactly if it is sound in itself and everything it
wants is free, as long as there is room. What it wanted is then no longer free,
so one that comes after it must want something else.
-/
namespace Traced.Comp

open Locks

variable {σ κ ε α ρ : Type} {room : Nat → σ → Prop} {free : σ → ρ → Prop}

def Takes (room : Nat → σ → Prop) (free : σ → ρ → Prop) (n : Nat) (sound : Prop) (wanted : ρ → Prop)
    (m : Comp σ κ ε Unit) : Prop :=
  ∀ k s, room (n + k) s →
    ((m s).outcome = .ok () ↔ sound ∧ ∀ r, wanted r → free s r) ∧
    ((m s).outcome = .ok () → room k (m s).state ∧ ∀ r, free (m s).state r ↔ free s r ∧ ¬ wanted r)

variable {n n' : Nat} {sound sound' : Prop} {wanted wanted' : ρ → Prop} {m m' : Comp σ κ ε Unit}

theorem Takes.ret : Takes room free 0 True (fun _ => False) (ret () : Comp σ κ ε Unit) := by
  intro k s hroom
  rw [Nat.zero_add] at hroom
  simp [hroom]

theorem Takes.never (h : ∀ s, (m s).outcome ≠ .ok ()) : Takes room free n False wanted m := by
  intro k s _
  exact ⟨by simp [h s], fun hok => absurd hok (h s)⟩

theorem Takes.congr (h : Takes room free n sound wanted m) (hsound : sound' ↔ sound)
    (hwanted : ∀ r, wanted' r ↔ wanted r) : Takes room free n sound' wanted' m := by
  obtain rfl : wanted' = wanted := funext fun r => propext (hwanted r)
  obtain rfl : sound' = sound := propext hsound
  exact h

theorem Takes.of_eq (h : Takes room free n sound wanted m) (hsame : ∀ s, m' s = m s) :
    Takes room free n sound wanted m' := by
  obtain rfl : m' = m := funext hsame
  exact h

theorem Takes.withGuard {L : Type} {l : L} {mode : Mode} {m : Comp σ (Event L κ) ε Unit}
    (h : Takes room free n sound wanted m) : Takes room free n sound wanted (withGuard l mode m) := h

/-- What the second one wants must not be what the first one takes. -/
theorem Takes.bind (h : Takes room free n sound wanted m) (h' : Takes room free n' sound' wanted' m') :
    Takes room free (n + n') (sound ∧ sound' ∧ ∀ r, wanted r → ¬ wanted' r) (fun r => wanted r ∨ wanted' r)
      (m >>= fun _ => m') := by
  intro k s hroom
  rw [Nat.add_assoc] at hroom
  obtain ⟨hok, hstate⟩ := h (n' + k) s hroom
  by_cases hfirst : (m s).outcome = .ok ()
  · obtain ⟨hroom', hfree⟩ := hstate hfirst
    obtain ⟨hok', hstate'⟩ := h' k (m s).state hroom'
    obtain ⟨hsound, hwanted⟩ := hok.mp hfirst
    rw [bind_ok hfirst, after_outcome, after_state, hok']
    constructor
    · constructor
      · rintro ⟨hsound', hleft⟩
        have hleft : ∀ r, wanted' r → free s r ∧ ¬ wanted r := fun r hr => (hfree r).mp (hleft r hr)
        refine ⟨⟨hsound, hsound', fun r hr hr' => (hleft r hr').2 hr⟩, fun r hr => ?_⟩
        exact hr.elim (hwanted r) fun hr' => (hleft r hr').1
      · rintro ⟨⟨_, hsound', hapart⟩, hall⟩
        exact ⟨hsound', fun r hr' => (hfree r).mpr ⟨hall r (.inr hr'), fun hr => hapart r hr hr'⟩⟩
    · intro hsecond
      obtain ⟨hroom'', hfree'⟩ := hstate' (hok'.mpr hsecond)
      refine ⟨hroom'', fun r => ?_⟩
      rw [hfree', hfree, not_or, and_assoc]
  · have hnot : ((m >>= fun _ => m') s).outcome ≠ .ok () := by
      intro hboth
      obtain ⟨_, hm, _⟩ := bind_inv hboth
      exact hfirst hm
    refine ⟨iff_of_false hnot ?_, fun hboth => absurd hboth hnot⟩
    rintro ⟨⟨hsound, _, _⟩, hall⟩
    exact hfirst (hok.mpr ⟨hsound, fun r hr => hall r (.inl hr)⟩)

/-- The loop rule: what any two bodies want must differ. -/
theorem Takes.forEach {xs : List α} {f : α → Comp σ κ ε Unit} {n : α → Nat} {sound : α → Prop}
    {wanted : α → ρ → Prop} (h : ∀ x ∈ xs, Takes room free (n x) (sound x) (wanted x) (f x)) :
    Takes room free (xs.map n).sum
      ((∀ x ∈ xs, sound x) ∧ xs.Pairwise fun x y => ∀ r, wanted x r → ¬ wanted y r)
      (fun r => ∃ x ∈ xs, wanted x r) (forEach xs f) := by
  induction xs with
  | nil => exact Takes.ret.congr (by simp) (by simp)
  | cons x xs ih =>
    have hx := h x (by simp)
    have hrest := ih fun y hy => h y (by simp [hy])
    refine (hx.bind hrest).congr ?_ ?_
    · rw [List.forall_mem_cons, List.pairwise_cons]
      constructor
      · rintro ⟨⟨hsound, hall⟩, hapart, hpairs⟩
        exact ⟨hsound, ⟨hall, hpairs⟩, fun r hr ⟨y, hy, hyr⟩ => hapart y hy r hr hyr⟩
      · rintro ⟨hsound, ⟨hall, hpairs⟩, hapart⟩
        exact ⟨⟨hsound, hall⟩, fun y hy r hr hyr => hapart r hr ⟨y, hy, hyr⟩, hpairs⟩
    · intro r
      simp

end Traced.Comp
