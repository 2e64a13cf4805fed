import Mathlib.Logic.Function.Basic

/-!
# A terminal

A grid of cells, each of them cleared or with a character in it, and the cell
that is printed to next. Rows are printed from left to right; a row that is
begun is cleared first, and the row after the last one is the first.
-/

structure Terminal (γ : Type) (rows cols : Nat) where
  cells : Fin rows → Fin cols → Option γ
  row : Fin rows
  col : Fin cols

namespace Terminal

variable {γ : Type} {rows cols : Nat}

/-- The number after a number, or zero. -/
def wrapped {n : Nat} (i : Fin n) : Fin n := if h : i.val + 1 < n then ⟨i.val + 1, h⟩ else ⟨0, i.pos⟩

/-- All cells are cleared, and the first one is next. -/
def cleared (hrows : 0 < rows) (hcols : 0 < cols) : Terminal γ rows cols :=
  ⟨fun _ _ => none, ⟨0, hrows⟩, ⟨0, hcols⟩⟩

def newLine (t : Terminal γ rows cols) : Terminal γ rows cols where
  cells := Function.update t.cells (wrapped t.row) fun _ => none
  row := wrapped t.row
  col := ⟨0, t.col.pos⟩

theorem newLine_cells (t : Terminal γ rows cols) (row : Fin rows) (col : Fin cols) :
    t.newLine.cells row col = if row = wrapped t.row then none else t.cells row col := by
  by_cases h : row = wrapped t.row <;> simp [newLine, h]

def put (t : Terminal γ rows cols) (g : γ) : Terminal γ rows cols :=
  { t with cells := Function.update t.cells t.row (Function.update (t.cells t.row) t.col (some g)) }

theorem put_cells (t : Terminal γ rows cols) (g : γ) (row : Fin rows) (col : Fin cols) :
    (t.put g).cells row col = if row = t.row ∧ col = t.col then some g else t.cells row col := by
  by_cases hr : row = t.row
  · subst hr
    by_cases hc : col = t.col <;> simp [put, hc]
  · simp [put, hr]

def print (t : Terminal γ rows cols) (g : γ) : Terminal γ rows cols :=
  if h : t.col.val + 1 < cols then { t.put g with col := ⟨t.col.val + 1, h⟩ } else (t.put g).newLine

/-- Bytes that are not printable are printed as a question mark. -/
def write (t : Terminal UInt8 rows cols) (byte : UInt8) : Terminal UInt8 rows cols :=
  if byte = 0x0A then t.newLine else if 0x20 ≤ byte ∧ byte ≤ 0x7E then t.print byte else t.print 0x3F

def writeAll (t : Terminal UInt8 rows cols) (bytes : List UInt8) : Terminal UInt8 rows cols :=
  bytes.foldl write t

end Terminal
