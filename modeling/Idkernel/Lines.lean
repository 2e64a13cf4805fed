import Mathlib.Algebra.Ring.Nat

/-!
# Lines

Lists, each of them followed by a separator, in one list.
-/
namespace Lines

variable {α : Type} {sep : α} {xss : List (List α)}

def terminated (sep : α) (xss : List (List α)) : List α := xss.flatMap fun xs => xs ++ [sep]

@[simp] theorem terminated_nil : terminated sep [] = [] := rfl

@[simp] theorem terminated_cons (xs : List α) :
    terminated sep (xs :: xss) = xs ++ sep :: terminated sep xss := by
  simp [terminated]

theorem terminated_append (yss : List (List α)) :
    terminated sep (xss ++ yss) = terminated sep xss ++ terminated sep yss := by
  simp [terminated]

theorem length_terminated : (terminated sep xss).length = (xss.map fun xs => xs.length + 1).sum := by
  induction xss with
  | nil => rfl
  | cons xs xss ih =>
    simp only [terminated_cons, List.length_append, List.length_cons, ih, List.map_cons, List.sum_cons]
    omega

/-- What precedes the separators. -/
def lines [BEq α] (sep : α) (xs : List α) : List (List α) := (xs.splitOn sep).dropLast

theorem splitOn_terminated [BEq α] [LawfulBEq α] (h : ∀ xs ∈ xss, sep ∉ xs) :
    (terminated sep xss).splitOn sep = xss ++ [[]] := by
  induction xss with
  | nil => rfl
  | cons xs xss ih =>
    obtain ⟨hxs, hxss⟩ := List.forall_mem_cons.mp h
    rw [terminated_cons, List.splitOn_append_cons_self_of_not_mem hxs, ih hxss, List.cons_append]

/-- Lists without a separator are the lines of what they make up. -/
theorem lines_terminated [BEq α] [LawfulBEq α] (h : ∀ xs ∈ xss, sep ∉ xs) :
    lines sep (terminated sep xss) = xss := by
  rw [lines, splitOn_terminated h, List.dropLast_concat]

end Lines
