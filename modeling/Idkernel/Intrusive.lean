import Mathlib.Algebra.Group.Nat.Defs
import Mathlib.Data.List.Nodup

/-!
# Lists threaded through the memory they manage

A free list has no storage of its own. The address of the next block stands in
the first eight bytes of each, and the list is what one reads from there.
-/
namespace Intrusive

abbrev Bytes := Nat → UInt8

/-! ## Numbers in memory -/

/-- The least significant byte comes first. -/
def number (m : Bytes) (p : Nat) : Nat → Nat
  | 0 => 0
  | k + 1 => (m p).toNat + 256 * number m (p + 1) k

def setNumber (m : Bytes) (p k n : Nat) : Bytes := fun x =>
  if p ≤ x ∧ x < p + k then UInt8.ofNat (n / 256 ^ (x - p)) else m x

theorem setNumber_outside {m : Bytes} {p k n x : Nat} (h : ¬ (p ≤ x ∧ x < p + k)) : setNumber m p k n x = m x :=
  if_neg h

theorem number_congr {m m' : Bytes} {p k : Nat} (h : ∀ x, p ≤ x → x < p + k → m' x = m x) :
    number m' p k = number m p k := by
  induction k generalizing p with
  | zero => rfl
  | succ k ih =>
    have hhead : m' p = m p := h p (by omega) (by omega)
    have htail : number m' (p + 1) k = number m (p + 1) k := ih fun x hx hx' => h x (by omega) (by omega)
    simp only [number, hhead, htail]

/-- Digits in base 256 make up the number again. -/
theorem number_digits {m : Bytes} {p k n : Nat} (h : ∀ i, i < k → m (p + i) = UInt8.ofNat (n / 256 ^ i)) :
    number m p k = n % 256 ^ k := by
  induction k generalizing p n with
  | zero => simp [number, Nat.mod_one]
  | succ k ih =>
    have hhead : (m p).toNat = n % 256 := by
      have h0 := h 0 (by omega)
      simp only [Nat.add_zero, Nat.pow_zero, Nat.div_one] at h0
      simp [h0]
    have htail : number m (p + 1) k = n / 256 % 256 ^ k := by
      refine ih fun i hi => ?_
      have hi' := h (i + 1) (by omega)
      rw [Nat.div_div_eq_div_mul, ← Nat.pow_succ', Nat.add_assoc, Nat.add_comm 1 i]
      exact hi'
    rw [number, hhead, htail, Nat.pow_succ', Nat.mod_mul]

theorem number_setNumber {m : Bytes} {p k n : Nat} (h : n < 256 ^ k) : number (setNumber m p k n) p k = n := by
  rw [number_digits (n := n), Nat.mod_eq_of_lt h]
  intro i hi
  have hin : p ≤ p + i ∧ p + i < p + k := by omega
  simp only [setNumber, if_pos hin, Nat.add_sub_cancel_left]

/-! ## Nodes -/

/-- The pointer at the beginning of a block; zero is no pointer. -/
def node (m : Bytes) (p : Nat) : Option Nat := if number m p 8 = 0 then none else some (number m p 8)

def setNode (m : Bytes) (p : Nat) (next : Option Nat) : Bytes := setNumber m p 8 (next.getD 0)

theorem setNode_outside {m : Bytes} {p x : Nat} {next : Option Nat} (h : ¬ (p ≤ x ∧ x < p + 8)) :
    setNode m p next x = m x := setNumber_outside h

theorem node_congr {m m' : Bytes} {p : Nat} (h : ∀ x, p ≤ x → x < p + 8 → m' x = m x) : node m' p = node m p := by
  simp only [node, number_congr h]

theorem node_setNode {m : Bytes} {p : Nat} {next : Option Nat} (h : ∀ q, next = some q → q ≠ 0 ∧ q < 2 ^ 64) :
    node (setNode m p next) p = next := by
  cases next with
  | none =>
    have hzero : number (setNumber m p 8 0) p 8 = 0 := number_setNumber (by decide)
    simp [node, setNode, hzero]
  | some q =>
    obtain ⟨hq, hlt⟩ := h q rfl
    have hread : number (setNumber m p 8 q) p 8 = q := number_setNumber (by omega)
    simp [node, setNode, hread, hq]

/-! ## Lists -/

/-- Following the pointers from the head one comes past exactly these blocks. -/
def Threads (m : Bytes) : Option Nat → List Nat → Prop
  | head, [] => head = none
  | head, p :: ps => head = some p ∧ Threads m (node m p) ps

theorem Threads.head {m : Bytes} {head : Option Nat} {ps : List Nat} (h : Threads m head ps) :
    head = ps.head? := by
  cases ps with
  | nil => exact h
  | cons p ps => exact h.1

/-- A list does not notice writes outside the first eight bytes of its blocks. -/
theorem Threads.frame {m m' : Bytes} {head : Option Nat} {ps : List Nat} (h : Threads m head ps)
    (hsame : ∀ p ∈ ps, ∀ x, p ≤ x → x < p + 8 → m' x = m x) : Threads m' head ps := by
  induction ps generalizing head with
  | nil => exact h
  | cons p ps ih =>
    obtain ⟨hhead, hrest⟩ := h
    refine ⟨hhead, ?_⟩
    rw [node_congr (hsame p (by simp))]
    exact ih hrest fun q hq => hsame q (by simp [hq])

theorem Threads.push {m : Bytes} {p : Nat} {head : Option Nat} {ps : List Nat} (h : Threads m head ps)
    (hvalid : ∀ q ∈ ps, q ≠ 0 ∧ q < 2 ^ 64) (hclear : ∀ q ∈ ps, ∀ x, q ≤ x → x < q + 8 → ¬ (p ≤ x ∧ x < p + 8)) :
    Threads (setNode m p head) (some p) (p :: ps) := by
  refine ⟨rfl, ?_⟩
  rw [node_setNode]
  · exact h.frame fun q hq x hx hx' => setNode_outside (hclear q hq x hx hx')
  · intro q hq
    rw [h.head] at hq
    exact hvalid q (List.mem_of_head? hq)

theorem Threads.pop {m : Bytes} {p : Nat} {ps : List Nat} (h : Threads m (some p) ps) :
    ∃ rest, ps = p :: rest ∧ Threads m (node m p) rest := by
  cases ps with
  | nil => cases h
  | cons q rest =>
    obtain rfl : p = q := Option.some.inj h.1
    exact ⟨rest, rfl, h.2⟩

theorem Threads.unique {m : Bytes} {head : Option Nat} {ps qs : List Nat} (h : Threads m head ps)
    (h' : Threads m head qs) : ps = qs := by
  induction ps generalizing head qs with
  | nil =>
    cases qs with
    | nil => rfl
    | cons q qs => cases h.symm.trans h'.1
  | cons p ps ih =>
    obtain ⟨rfl, hps⟩ := h
    obtain ⟨qs', rfl, hqs⟩ := h'.pop
    rw [ih hps hqs]

/-! ## Families of lists -/

/-- Taking the first element off one list of a family takes it off the whole. -/
theorem flatMap_perm {ι β : Type} {l : List ι} (hl : l.Nodup) {i : ι} (hi : i ∈ l) {f g : ι → List β} {x : β}
    (hfirst : f i = x :: g i) (hsame : ∀ j, j ≠ i → f j = g j) : (l.flatMap f).Perm (x :: l.flatMap g) := by
  induction l with
  | nil => cases hi
  | cons j l ih =>
    obtain ⟨hj, hl⟩ := List.nodup_cons.mp hl
    rw [List.flatMap_cons, List.flatMap_cons]
    by_cases hij : j = i
    · subst hij
      have hrest : l.flatMap f = l.flatMap g :=
        List.flatMap_congr fun k hk => hsame k fun he => hj (he ▸ hk)
      rw [hfirst, hrest, List.cons_append]
    · have hmem : i ∈ l := (List.mem_cons.mp hi).resolve_left (Ne.symm hij)
      rw [hsame j hij]
      exact ((ih hl hmem).append_left (g j)).trans List.perm_middle

end Intrusive
