import Idkernel.Framebuffer
import Idkernel.Terminal

/-!
# What the console shows

Both ways of drawing fill blocks of whole characters, pixel by pixel, and the
places they count on agree. So each character of the grid is drawn as the cell
of a terminal that is given the same bytes.
-/
namespace Idkernel

open Raster

namespace Console

/-! ## Pixels -/

def format (info : FrameBufferInfo) : Format := ⟨info.stride, info.bytesPerPixel⟩

def sample (color : Color) (z : Nat) : UInt8 := if h : z < 3 then color ⟨z, h⟩ else 0

theorem component_eq (color : Color) {z : Nat} (h : z < 3) : component color z = some (sample color z) := by
  rw [component, dif_pos h, sample, dif_pos h]

theorem pixels_le {p : PixelFormat} {planes : Nat} (h : p.pixels = some planes) : planes ≤ 3 := by
  cases p <;> simp [PixelFormat.pixels] at h <;> omega

/-- The buffer is large enough for what is shown, and the grid is made up of whole characters. -/
structure Fits (planes : Nat) (w : VgaColorWriter) : Prop where
  width : 8 ≤ w.info.width
  height : 8 ≤ w.info.height
  stride : w.info.width ≤ w.info.stride
  pixels : w.info.pixelFormat.pixels = some planes
  depth : planes ≤ w.info.bytesPerPixel
  room : w.info.stride * w.info.height * w.info.bytesPerPixel ≤ w.buffer.length
  bounded : w.buffer.length < 2 ^ 63
  maxX : w.maxX = w.info.width / 8
  maxY : w.maxY = w.info.height / 8

section Drawing

variable {planes : Nat} {w : VgaColorWriter}

theorem Fits.place_lt (h : Fits planes w) {y x z : Nat} (hy : y < w.info.height) (hx : x < w.info.stride)
    (hz : z < planes) : (format w.info).place y x z < w.buffer.length := by
  have hdepth : z < (format w.info).depth := Nat.lt_of_lt_of_le hz h.depth
  exact Nat.lt_of_lt_of_le (Format.place_lt hy hx hdepth) h.room

/-- Places up to the end of the row behind the picture are words. -/
theorem Fits.word_place (h : Fits planes w) {y x : Nat} (hy : y ≤ w.info.height) (hx : x ≤ w.info.stride) :
    word ((format w.info).place y x 0) = some ((format w.info).place y x 0) := by
  have hrow : (format w.info).place y x 0 ≤ (format w.info).place (w.info.height + 1) 0 0 :=
    Format.place_mono (.inl (Nat.lt_succ_of_le hy)) hx
  have hend : (format w.info).place (w.info.height + 1) 0 0 ≤
      2 * (w.info.stride * w.info.height * w.info.bytesPerPixel) := by
    have hheight := h.height
    have hrows : (w.info.height + 1) * w.info.stride ≤ 2 * (w.info.stride * w.info.height) := by
      rw [← Nat.mul_assoc, Nat.mul_comm (w.info.height + 1), Nat.mul_comm 2, Nat.mul_assoc]
      exact Nat.mul_le_mul_left _ (by omega)
    simp only [format, Format.place, Nat.add_zero, ← Nat.mul_assoc] at hrows ⊢
    exact Nat.mul_le_mul_right _ hrows
  have hroom := h.room
  have hbounded := h.bounded
  exact if_pos (by omega)

theorem putPixel_drawn (h : Fits planes w) {y₀ x₀ cols r c : Nat} {buffer : List UInt8} {color : Color}
    {v : Nat → Nat → Nat → UInt8}
    (hdrawn : Drawn (format w.info) w.buffer buffer (Block y₀ x₀ cols planes r c) v) (hc : c < cols)
    (hwidth : x₀ + cols ≤ w.info.stride) (hheight : y₀ + r < w.info.height)
    (hcolor : ∀ z, v (y₀ + r) (x₀ + c) z = sample color z) :
    ∃ buffer', putPixel planes ((format w.info).place (y₀ + r) (x₀ + c) 0) color buffer = some buffer' ∧
      Drawn (format w.info) w.buffer buffer' (Block y₀ x₀ cols planes r (c + 1)) v := by
  have hplanes := pixels_le h.pixels
  refine hdrawn.block_pixel hc hwidth h.depth (fun z hz => h.place_lt hheight (by omega) hz) fun z hz s => ?_
  rw [component_eq color (by omega), hcolor]
  rfl

section Rectangle

variable {y₀ x₀ cols r c : Nat} {color : Color} {s : List UInt8 × Nat}

/-- The block is drawn up to a pixel, and the place of this pixel is next. -/
def FilledTo (w : VgaColorWriter) (planes y₀ x₀ cols : Nat) (color : Color) (r c : Nat)
    (s : List UInt8 × Nat) : Prop :=
  s.2 = (format w.info).place (y₀ + r) (x₀ + c) 0 ∧
    Drawn (format w.info) w.buffer s.1 (Block y₀ x₀ cols planes r c) fun _ _ => sample color

theorem fillColumn_drawn (h : Fits planes w) (hs : FilledTo w planes y₀ x₀ cols color r c s) (hc : c < cols)
    (hwidth : x₀ + cols ≤ w.info.stride) (hheight : y₀ + r < w.info.height) :
    ∃ s', w.fillColumn planes color s = some s' ∧ FilledTo w planes y₀ x₀ cols color r (c + 1) s' := by
  obtain ⟨buffer, i⟩ := s
  have hi : i = (format w.info).place (y₀ + r) (x₀ + c) 0 := hs.1
  obtain ⟨buffer', hput, hdrawn⟩ := putPixel_drawn h hs.2 hc hwidth hheight fun _ => rfl
  have hnext : i + w.info.bytesPerPixel = (format w.info).place (y₀ + r) (x₀ + (c + 1)) 0 := by
    rw [hi]
    exact Format.place_next (format w.info) (y₀ + r) (x₀ + c)
  have hword := h.word_place (y := y₀ + r) (x := x₀ + (c + 1)) (Nat.le_of_lt hheight) (by omega)
  refine ⟨(buffer', (format w.info).place (y₀ + r) (x₀ + (c + 1)) 0), ?_, rfl, hdrawn⟩
  rw [← hi] at hput
  simp only [VgaColorWriter.fillColumn, hput, hnext, hword, Option.bind_eq_bind, Option.bind_some]

theorem fillRow_drawn (h : Fits planes w) {cells : Nat} (hs : FilledTo w planes y₀ x₀ (cells * 8) color r 0 s)
    (hwidth : x₀ + cells * 8 ≤ w.info.stride) (hheight : y₀ + r < w.info.height) :
    ∃ s', w.fillRow planes cells color s = some s' ∧
      FilledTo w planes y₀ x₀ (cells * 8) color (r + 1) 0 s' := by
  obtain ⟨⟨buffer, i⟩, hloop, hrow⟩ := loop_inv hs fun c hc s hc' => fillColumn_drawn h hc' hc hwidth hheight
  have hi : i = (format w.info).place (y₀ + r) (x₀ + cells * 8) 0 := hrow.1
  have hless : less w.info.stride (cells * 8) = some (w.info.stride - cells * 8) := if_pos (by omega)
  have hnext : i + (w.info.stride - cells * 8) * w.info.bytesPerPixel =
      (format w.info).place (y₀ + (r + 1)) (x₀ + 0) 0 := by
    rw [hi]
    exact Format.place_wrap (format w.info) (y₀ + r) x₀ (by simp only [format]; omega)
  have hword := h.word_place (y := y₀ + (r + 1)) (x := x₀ + 0) hheight (by omega)
  refine ⟨(buffer, (format w.info).place (y₀ + (r + 1)) (x₀ + 0) 0), ?_, rfl, hrow.2.block_row⟩
  simp only [VgaColorWriter.fillRow, hloop, hless, hnext, hword, Option.bind_eq_bind, Option.bind_some]

end Rectangle

theorem fillRect_drawn (h : Fits planes w) {x y cols rows : Nat} (hx : (x + cols) * 8 ≤ w.info.stride)
    (hy : (y + rows) * 8 ≤ w.info.height) (color : Color) :
    ∃ buffer, w.fillRect x y cols rows color = some { w with buffer := buffer } ∧
      Drawn (format w.info) w.buffer buffer (Block (y * 8) (x * 8) (cols * 8) planes (rows * 8) 0)
        fun _ _ => sample color := by
  have hindex : (y * w.info.stride + x) * 8 * w.info.bytesPerPixel =
      (format w.info).place (y * 8) (x * 8) 0 := by
    simp only [format, Format.place, Nat.add_zero, Nat.add_mul, Nat.mul_right_comm]
  have hstart : FilledTo w planes (y * 8) (x * 8) (cols * 8) color 0 0
      (w.buffer, (format w.info).place (y * 8) (x * 8) 0) := ⟨rfl, Drawn.block_start⟩
  have hstep : ∀ r < rows * 8, ∀ s, FilledTo w planes (y * 8) (x * 8) (cols * 8) color r 0 s →
      ∃ s', w.fillRow planes cols color s = some s' ∧
        FilledTo w planes (y * 8) (x * 8) (cols * 8) color (r + 1) 0 s' := fun r hr s hs =>
    fillRow_drawn h hs (by omega) (by omega)
  obtain ⟨⟨buffer, i⟩, hloop, _, hdrawn⟩ :=
    loop_inv (I := fun r => FilledTo w planes (y * 8) (x * 8) (cols * 8) color r 0) hstart hstep
  have hword := h.word_place (y := y * 8) (x := x * 8) (by omega) (by omega)
  refine ⟨buffer, ?_, hdrawn⟩
  simp only [VgaColorWriter.fillRect, hindex, hword, h.pixels, hloop, Option.bind_eq_bind, Option.bind_some]

/-- A row of a glyph, as a number. -/
def glyphRow (image : Fin 8 → UInt8) (dy : Nat) : Nat := if h : dy < 8 then (image ⟨dy, h⟩).toNat else 0

/-- The pixels of a glyph that have the colour of the foreground. -/
def lit (image : Fin 8 → UInt8) (dy dx : Nat) : Bool := (glyphRow image dy).testBit dx

section Glyph

variable {y₀ x₀ r c : Nat} {image : Fin 8 → UInt8} {s : List UInt8 × Nat}

/-- The glyph is drawn up to a pixel, and `i` counts from its first one. -/
def SplatTo (w : VgaColorWriter) (planes y₀ x₀ : Nat) (image : Fin 8 → UInt8) (r c : Nat)
    (s : List UInt8 × Nat) : Prop :=
  s.2 = (format w.info).place r c 0 ∧
    Drawn (format w.info) w.buffer s.1 (Block y₀ x₀ 8 planes r c) fun y x =>
      sample (if lit image (y - y₀) (x - x₀) then w.foreground else w.background)

/-- What is left of the glyph's row has been shifted to its lowest bit. -/
def ShiftedTo (w : VgaColorWriter) (planes y₀ x₀ : Nat) (image : Fin 8 → UInt8) (r c : Nat)
    (s : List UInt8 × Nat × UInt8) : Prop :=
  s.2.2.toNat = glyphRow image r >>> c ∧ SplatTo w planes y₀ x₀ image r c (s.1, s.2.1)

theorem place_add (f : Format) (y x y' x' : Nat) :
    f.place y x 0 + f.place y' x' 0 = f.place (y + y') (x + x') 0 := by
  have hpixel : y * f.stride + x + (y' * f.stride + x') = (y + y') * f.stride + (x + x') := by
    rw [Nat.add_mul]
    omega
  simp only [Format.place, Nat.add_zero, ← Nat.add_mul, hpixel]

theorem shifted_bit (row : UInt8) : (row &&& 1 ≠ 0) ↔ row.toNat.testBit 0 = true := by
  rw [Nat.testBit_zero, decide_eq_true_iff, ne_eq, ← UInt8.toNat_inj, UInt8.toNat_and]
  have hone : (1 : UInt8).toNat = 1 := rfl
  have hzero : (0 : UInt8).toNat = 0 := rfl
  rw [hone, hzero, Nat.and_one_is_mod]
  omega

theorem splatColumn_drawn (h : Fits planes w) {s : List UInt8 × Nat × UInt8}
    (hs : ShiftedTo w planes y₀ x₀ image r c s) (hc : c < 8) (hwidth : x₀ + 8 ≤ w.info.stride)
    (hheight : y₀ + r < w.info.height) :
    ∃ s', w.splatColumn planes ((format w.info).place y₀ x₀ 0) s = some s' ∧
      ShiftedTo w planes y₀ x₀ image r (c + 1) s' := by
  obtain ⟨buffer, i, row⟩ := s
  have hrow : row.toNat = glyphRow image r >>> c := hs.1
  have hi : i = (format w.info).place r c 0 := hs.2.1
  have hbit : (row &&& 1 ≠ 0) ↔ lit image r c = true := by
    rw [shifted_bit, hrow, Nat.testBit_shiftRight, Nat.add_zero, lit]
  have hcolor : ∀ z, sample (if lit image (y₀ + r - y₀) (x₀ + c - x₀) then w.foreground else w.background) z =
      sample (if row &&& 1 ≠ 0 then w.foreground else w.background) z := by
    intro z
    rw [Nat.add_sub_cancel_left, Nat.add_sub_cancel_left]
    simp only [hbit]
  obtain ⟨buffer', hput, hdrawn⟩ := putPixel_drawn h hs.2.2 hc hwidth hheight hcolor
  have hat : (format w.info).place y₀ x₀ 0 + i = (format w.info).place (y₀ + r) (x₀ + c) 0 := by
    rw [hi, place_add]
  have hnext : i + w.info.bytesPerPixel = (format w.info).place r (c + 1) 0 := by
    rw [hi]
    exact Format.place_next (format w.info) r c
  have hword := h.word_place (y := r) (x := c + 1) (by omega) (by omega)
  have hshift : (row >>> 1).toNat = glyphRow image r >>> (c + 1) := by
    rw [UInt8.toNat_shiftRight, hrow, Nat.shiftRight_add]
    rfl
  refine ⟨(buffer', (format w.info).place r (c + 1) 0, row >>> 1), ?_, hshift, rfl, hdrawn⟩
  simp only [VgaColorWriter.splatColumn, hat, hput, hnext, hword, Option.bind_eq_bind, Option.bind_some]

theorem splatRow_drawn (h : Fits planes w) (hs : SplatTo w planes y₀ x₀ image r 0 s) (hr : r < 8)
    (hwidth : x₀ + 8 ≤ w.info.stride) (hheight : y₀ + r < w.info.height) :
    ∃ s', w.splatRow planes ((format w.info).place y₀ x₀ 0) image r s = some s' ∧
      SplatTo w planes y₀ x₀ image (r + 1) 0 s' := by
  have hstart : ShiftedTo w planes y₀ x₀ image r 0 (s.1, s.2, image ⟨r, hr⟩) := by
    refine ⟨?_, hs⟩
    rw [glyphRow, dif_pos hr]
    rfl
  have hstep : ∀ c < 8, ∀ s, ShiftedTo w planes y₀ x₀ image r c s →
      ∃ s', w.splatColumn planes ((format w.info).place y₀ x₀ 0) s = some s' ∧
        ShiftedTo w planes y₀ x₀ image r (c + 1) s' := fun c hc s hs =>
    splatColumn_drawn h hs hc hwidth hheight
  obtain ⟨⟨buffer, i, row⟩, hloop, hrow⟩ := loop_inv hstart hstep
  have hi : i = (format w.info).place r 8 0 := hrow.2.1
  have hless : less w.info.stride 8 = some (w.info.stride - 8) := if_pos (by omega)
  have hnext : i + (w.info.stride - 8) * w.info.bytesPerPixel = (format w.info).place (r + 1) 0 0 := by
    rw [hi]
    have hwrap := Format.place_wrap (format w.info) (w := 8) r 0 (by simp only [format]; omega)
    rwa [Nat.zero_add] at hwrap
  have hword := h.word_place (y := r + 1) (x := 0) (by omega) (Nat.zero_le _)
  refine ⟨(buffer, (format w.info).place (r + 1) 0 0), ?_, rfl, hrow.2.2.block_row⟩
  simp only [VgaColorWriter.splatRow, dif_pos hr, hloop, hless, hnext, hword, Option.bind_eq_bind,
    Option.bind_some]

theorem splatChar_drawn (h : Fits planes w) (font : Font) {code : UInt8} (hcode : code < 128)
    (hwidth : x₀ + 8 ≤ w.info.stride) (hheight : y₀ + 8 ≤ w.info.height) :
    ∃ buffer, w.splatChar font code x₀ y₀ = some { w with buffer := buffer } ∧
      Drawn (format w.info) w.buffer buffer (Block y₀ x₀ 8 planes 8 0) fun y x =>
        sample (if lit (font code) (y - y₀) (x - x₀) then w.foreground else w.background) := by
  have hbegin : (y₀ * w.info.stride + x₀) * w.info.bytesPerPixel = (format w.info).place y₀ x₀ 0 := rfl
  have hstart : SplatTo w planes y₀ x₀ (font code) 0 0 (w.buffer, 0) := by
    refine ⟨?_, Drawn.block_start⟩
    simp [Format.place]
  have hstep : ∀ r < 8, ∀ s, SplatTo w planes y₀ x₀ (font code) r 0 s →
      ∃ s', w.splatRow planes ((format w.info).place y₀ x₀ 0) (font code) r s = some s' ∧
        SplatTo w planes y₀ x₀ (font code) (r + 1) 0 s' := fun r hr s hs =>
    splatRow_drawn h hs hr hwidth (by omega)
  obtain ⟨⟨buffer, i⟩, hloop, _, hdrawn⟩ :=
    loop_inv (I := fun r => SplatTo w planes y₀ x₀ (font code) r 0) hstart hstep
  have hword := h.word_place (y := y₀) (x := x₀) (by omega) (by omega)
  refine ⟨buffer, ?_, hdrawn⟩
  simp only [VgaColorWriter.splatChar, hbegin, hword, if_pos hcode, h.pixels, hloop, Option.bind_eq_bind,
    Option.bind_some]

end Glyph

end Drawing

/-! ## The grid -/

/-- A pixel of a cell: that of the glyph, or the background of a cleared cell. -/
def cellColor (font : Font) (w : VgaColorWriter) (cell : Option UInt8) (dy dx : Nat) : Color :=
  match cell with
  | none => w.background
  | some code => if lit (font code) dy dx then w.foreground else w.background

/-- With the geometry and the colours of `o`, the blocks of the grid are the cells of a terminal. -/
structure Renders (font : Font) (planes : Nat) (o w : VgaColorWriter)
    (t : Terminal UInt8 (o.info.height / 8) (o.info.width / 8)) : Prop where
  info : w.info = o.info
  background : w.background = o.background
  foreground : w.foreground = o.foreground
  maxX : w.maxX = o.maxX
  maxY : w.maxY = o.maxY
  length : w.buffer.length = o.buffer.length
  currX : w.currX = t.col
  currY : w.currY = t.row
  blocks : ∀ (row : Fin (o.info.height / 8)) (col : Fin (o.info.width / 8)) (dy dx z : Nat),
    dy < 8 → dx < 8 → z < planes →
      w.buffer[((row * 8 + dy) * o.info.stride + (col * 8 + dx)) * o.info.bytesPerPixel + z]? =
        component (cellColor font o (t.cells row col) dy dx) z

section Grid

variable {font : Font} {planes : Nat} {o w : VgaColorWriter}
  {t : Terminal UInt8 (o.info.height / 8) (o.info.width / 8)}

theorem Renders.fits (h : Renders font planes o w t) (ho : Fits planes o) : Fits planes w where
  width := h.info ▸ ho.width
  height := h.info ▸ ho.height
  stride := h.info ▸ ho.stride
  pixels := h.info ▸ ho.pixels
  depth := h.info ▸ ho.depth
  room := by rw [h.info, h.length]; exact ho.room
  bounded := by rw [h.length]; exact ho.bounded
  maxX := by rw [h.maxX, h.info]; exact ho.maxX
  maxY := by rw [h.maxY, h.info]; exact ho.maxY

/-- The pixels of a cell are drawn with the cells of a block. -/
theorem block_cell {y₀ x₀ rows cols row col dy dx z : Nat} (hdy : dy < 8) (hdx : dx < 8) (hz : z < planes) :
    Block (y₀ * 8) (x₀ * 8) (cols * 8) planes (rows * 8) 0 (row * 8 + dy) (col * 8 + dx) z ↔
      y₀ ≤ row ∧ row < y₀ + rows ∧ x₀ ≤ col ∧ col < x₀ + cols := by
  unfold Block
  omega

theorem Fits.pixel_inside (h : Fits planes w) {col dx z : Nat} (hcol : col < w.info.width / 8) (hdx : dx < 8)
    (hz : z < planes) : col * 8 + dx < (format w.info).stride ∧ z < (format w.info).depth := by
  have hstride := h.stride
  have hdepth := h.depth
  simp only [format]
  omega

/-- Drawing over some cells changes these cells alone. -/
theorem Renders.draw (h : Renders font planes o w t) (ho : Fits planes o) {y₀ x₀ rows cols : Nat}
    {v : Nat → Nat → Nat → UInt8} {buffer : List UInt8}
    (hdrawn : Drawn (format w.info) w.buffer buffer (Block (y₀ * 8) (x₀ * 8) (cols * 8) planes (rows * 8) 0) v)
    {t' : Terminal UInt8 (o.info.height / 8) (o.info.width / 8)} {w' : VgaColorWriter}
    (hw : w' = { w with currX := t'.col, currY := t'.row, buffer := buffer })
    (hinside : ∀ (row : Fin (o.info.height / 8)) (col : Fin (o.info.width / 8)),
      y₀ ≤ row.val → row.val < y₀ + rows → x₀ ≤ col.val → col.val < x₀ + cols →
      ∀ dy < 8, ∀ dx < 8, ∀ z, v (row * 8 + dy) (col * 8 + dx) z =
        sample (cellColor font o (t'.cells row col) dy dx) z)
    (houtside : ∀ (row : Fin (o.info.height / 8)) (col : Fin (o.info.width / 8)),
      ¬ (y₀ ≤ row.val ∧ row.val < y₀ + rows ∧ x₀ ≤ col.val ∧ col.val < x₀ + cols) →
      t'.cells row col = t.cells row col) : Renders font planes o w' t' := by
  have hplanes := pixels_le ho.pixels
  have hfits := h.fits ho
  subst hw
  refine ⟨h.info, h.background, h.foreground, h.maxX, h.maxY, hdrawn.length.trans h.length, rfl, rfl, ?_⟩
  intro row col dy dx z hdy hdx hz
  have hcol : col.val < w.info.width / 8 := by
    rw [h.info]
    exact col.isLt
  have hplace : ((row * 8 + dy) * o.info.stride + (col * 8 + dx)) * o.info.bytesPerPixel + z =
      (format w.info).place (row * 8 + dy) (col * 8 + dx) z := by rw [h.info]; rfl
  obtain ⟨hx, hzd⟩ := hfits.pixel_inside hcol hdx hz
  by_cases hin : y₀ ≤ row.val ∧ row.val < y₀ + rows ∧ x₀ ≤ col.val ∧ col.val < x₀ + cols
  · have hblock := (block_cell hdy hdx hz).mpr hin
    obtain ⟨h₁, h₂, h₃, h₄⟩ := hin
    rw [component_eq _ (by omega), ← hinside row col h₁ h₂ h₃ h₄ dy hdy dx hdx z, hplace]
    exact hdrawn.inside _ _ _ hx hzd hblock
  · have hblock := mt (block_cell hdy hdx hz).mp hin
    rw [houtside row col hin, ← h.blocks row col dy dx z hdy hdx hz, hplace]
    exact hdrawn.outside _ _ _ hx hzd hblock

/-- The row the cursor is moved to. -/
theorem newLine_eq (ho : Fits planes o) (h : Renders font planes o w t) :
    w.newLine = VgaColorWriter.cleanRow { w with currX := 0, currY := Terminal.wrapped t.row } := by
  have hmaxY : w.maxY = o.info.height / 8 := by rw [h.maxY, ho.maxY]
  have hcurrY := h.currY
  by_cases hlast : t.row.val + 1 < o.info.height / 8
  · have hwrapped : (Terminal.wrapped t.row).val = w.currY + 1 := by
      rw [Terminal.wrapped, dif_pos hlast, hcurrY]
    have hno : ¬ w.currY + 1 ≥ w.maxY := by omega
    rw [VgaColorWriter.newLine, hwrapped]
    simp only [if_neg hno]
  · have hwrapped : (Terminal.wrapped t.row).val = 0 := by rw [Terminal.wrapped, dif_neg hlast]
    have hyes : w.currY + 1 ≥ w.maxY := by omega
    rw [VgaColorWriter.newLine, hwrapped]
    simp only [if_pos hyes]

theorem newLine_renders (ho : Fits planes o) (h : Renders font planes o w t) :
    ∃ w', w.newLine = some w' ∧ Renders font planes o w' t.newLine := by
  have hw := h.fits ho
  have hrow := (Terminal.wrapped t.row).isLt
  have hinfo := h.info
  have hmaxX : w.maxX = o.info.width / 8 := by rw [h.maxX, ho.maxX]
  have hstride := hw.stride
  have hmoved : Fits planes { w with currX := 0, currY := Terminal.wrapped t.row } :=
    ⟨hw.width, hw.height, hw.stride, hw.pixels, hw.depth, hw.room, hw.bounded, hw.maxX, hw.maxY⟩
  have hwidth : (0 + w.maxX) * 8 ≤ w.info.stride := by
    rw [hw.maxX]
    omega
  have hheight : ((Terminal.wrapped t.row).val + 1) * 8 ≤ w.info.height := by
    rw [hinfo]
    omega
  obtain ⟨buffer, hfill, hdrawn⟩ := fillRect_drawn hmoved hwidth hheight w.background
  refine ⟨_, (newLine_eq ho h).trans hfill, h.draw ho hdrawn rfl ?_ ?_⟩
  · intro row col hge hlt _ _ dy _ dx _ z
    have hsame : row = Terminal.wrapped t.row := Fin.ext (by omega)
    rw [Terminal.newLine_cells, if_pos hsame, cellColor, h.background]
  · intro row col hout
    have hcol := col.isLt
    have hne : row ≠ Terminal.wrapped t.row := by
      intro hsame
      have hval := congrArg Fin.val hsame
      exact hout ⟨by omega, by omega, by omega, by omega⟩
    rw [Terminal.newLine_cells, if_neg hne]

theorem splatChar_renders (ho : Fits planes o) (h : Renders font planes o w t) {code : UInt8}
    (hcode : code < 128) :
    ∃ w', w.splatChar font code (w.currX * 8) (w.currY * 8) = some w' ∧
      Renders font planes o w' (t.put code) := by
  have hw := h.fits ho
  have hrow := t.row.isLt
  have hcol := t.col.isLt
  have hstride := ho.stride
  have hcurrX := h.currX
  have hcurrY := h.currY
  have hwidth : w.currX * 8 + 8 ≤ w.info.stride := by
    rw [h.info]
    omega
  have hheight : w.currY * 8 + 8 ≤ w.info.height := by
    rw [h.info]
    omega
  obtain ⟨buffer, hsplat, hdrawn⟩ := splatChar_drawn hw font hcode hwidth hheight
  have hcell : Drawn (format w.info) w.buffer buffer
      (Block (w.currY * 8) (w.currX * 8) (1 * 8) planes (1 * 8) 0) fun y x =>
        sample (if lit (font code) (y - w.currY * 8) (x - w.currX * 8) then w.foreground
          else w.background) := hdrawn
  have hmoved : { w with buffer := buffer } =
      { w with currX := (t.put code).col, currY := (t.put code).row, buffer := buffer } := by
    simp only [Terminal.put, ← h.currX, ← h.currY]
  refine ⟨_, hsplat, h.draw ho hcell hmoved ?_ ?_⟩
  · intro row col hy hy' hx hx' dy hdy dx hdx z
    have hr : row = t.row := Fin.ext (by omega)
    have hc : col = t.col := Fin.ext (by omega)
    have hdown : row * 8 + dy - w.currY * 8 = dy := by omega
    have hright : col * 8 + dx - w.currX * 8 = dx := by omega
    have hput : (t.put code).cells row col = some code := by rw [Terminal.put_cells, if_pos ⟨hr, hc⟩]
    rw [hdown, hright, hput, cellColor, h.foreground, h.background]
  · intro row col hout
    have hne : ¬ (row = t.row ∧ col = t.col) := by
      rintro ⟨rfl, rfl⟩
      exact hout ⟨by omega, by omega, by omega, by omega⟩
    rw [Terminal.put_cells, if_neg hne]

theorem print_renders (ho : Fits planes o) (h : Renders font planes o w t) {code : UInt8} (hcode : code < 128)
    (hline : code ≠ 0x0A) :
    ∃ w', w.writeByte font code = some w' ∧ Renders font planes o w' (t.print code) := by
  obtain ⟨w₁, hsplat, h₁⟩ := splatChar_renders ho h hcode
  have hwrite : w.writeByte font code = w₁.advanceChar := by
    rw [VgaColorWriter.writeByte, if_neg hline, hsplat]
    rfl
  have hmaxX : w₁.maxX = o.info.width / 8 := by rw [h₁.maxX, ho.maxX]
  have hcurrX : w₁.currX = t.col := h₁.currX
  rw [hwrite, VgaColorWriter.advanceChar]
  by_cases hlast : t.col.val + 1 < o.info.width / 8
  · have hno : ¬ w₁.currX + 1 ≥ w₁.maxX := by omega
    rw [Terminal.print, dif_pos hlast]
    simp only [if_neg hno]
    refine ⟨_, rfl, h₁.info, h₁.background, h₁.foreground, h₁.maxX, h₁.maxY, h₁.length, ?_, h₁.currY, h₁.blocks⟩
    simp only [hcurrX]
  · have hyes : w₁.currX + 1 ≥ w₁.maxX := by omega
    have hsame : VgaColorWriter.newLine { w₁ with currX := w₁.currX + 1 } = w₁.newLine := rfl
    rw [Terminal.print, dif_neg hlast]
    simp only [if_pos hyes, hsame]
    exact newLine_renders ho h₁

/-- What `write_string` makes of a byte. -/
theorem write_renders (ho : Fits planes o) (h : Renders font planes o w t) (byte : UInt8) :
    ∃ w', (if 0x20 ≤ byte ∧ byte ≤ 0x7E ∨ byte = 0x0A then w.writeByte font byte else w.writeByte font 0x3F) =
        some w' ∧ Renders font planes o w' (t.write byte) := by
  by_cases hline : byte = 0x0A
  · rw [if_pos (.inr hline), hline]
    exact newLine_renders ho h
  · by_cases hprintable : 0x20 ≤ byte ∧ byte ≤ 0x7E
    · have hcode : byte < 128 := UInt8.lt_of_le_of_lt hprintable.2 (by decide)
      rw [if_pos (.inl hprintable), Terminal.write, if_neg hline, if_pos hprintable]
      exact print_renders ho h hcode hline
    · rw [if_neg (not_or.mpr ⟨hprintable, hline⟩), Terminal.write, if_neg hline, if_neg hprintable]
      exact print_renders ho h (by decide) (by decide)

theorem writeString_renders (ho : Fits planes o) (h : Renders font planes o w t) (s : List UInt8) :
    ∃ w', w.writeString font s = some w' ∧ Renders font planes o w' (t.writeAll s) :=
  foldlM_simulates h (fun byte _ _ h => write_renders ho h byte) s

theorem Fits.rows_pos (ho : Fits planes o) : 0 < o.info.height / 8 := by
  have hheight := ho.height
  omega

theorem Fits.cols_pos (ho : Fits planes o) : 0 < o.info.width / 8 := by
  have hwidth := ho.width
  omega

theorem cleanScreen_renders (font : Font) (ho : Fits planes o) :
    ∃ w', o.cleanScreen = some w' ∧ Renders font planes o w' (.cleared ho.rows_pos ho.cols_pos) := by
  have hstride := ho.stride
  have hplanes := pixels_le ho.pixels
  have hmaxX := ho.maxX
  have hmaxY := ho.maxY
  have hwidth : (0 + o.maxX) * 8 ≤ o.info.stride := by omega
  have hheight : (0 + o.maxY) * 8 ≤ o.info.height := by omega
  obtain ⟨buffer, hfill, hdrawn⟩ := fillRect_drawn ho hwidth hheight o.background
  refine ⟨{ o with currX := 0, currY := 0, buffer := buffer }, ?_, rfl, rfl, rfl, rfl, rfl,
    hdrawn.length, rfl, rfl, ?_⟩
  · rw [VgaColorWriter.cleanScreen, hfill]
    rfl
  · intro row col dy dx z hdy hdx hz
    have hrow := row.isLt
    have hcol := col.isLt
    have hblock :
        Block (0 * 8) (0 * 8) (o.maxX * 8) planes (o.maxY * 8) 0 (row * 8 + dy) (col * 8 + dx) z :=
      (block_cell hdy hdx hz).mpr ⟨by omega, by omega, by omega, by omega⟩
    obtain ⟨hx, hzd⟩ := ho.pixel_inside hcol hdx hz
    have hcolor : cellColor font o ((Terminal.cleared ho.rows_pos ho.cols_pos).cells row col) dy dx =
      o.background := rfl
    rw [hcolor, component_eq _ (by omega)]
    exact hdrawn.inside _ _ _ hx hzd hblock

end Grid

/-- The console shows what a terminal shows that is given the same bytes, and nothing it does leaves the
buffer. -/
theorem console_renders (font : Font) {planes : Nat} {o : VgaColorWriter} (ho : Fits planes o)
    (texts : List (List UInt8)) :
    ∃ w, (o.cleanScreen >>= fun cleared => texts.foldlM (VgaColorWriter.writeString font) cleared) = some w ∧
      w.currX < o.maxX ∧ w.currY < o.maxY ∧
      Renders font planes o w (texts.foldl Terminal.writeAll (.cleared ho.rows_pos ho.cols_pos)) := by
  obtain ⟨w₁, hclean, h₁⟩ := cleanScreen_renders font ho
  obtain ⟨w, hwrite, h⟩ := foldlM_simulates h₁ (fun s _ _ h => writeString_renders ho h s) texts
  refine ⟨w, ?_, ?_, ?_, h⟩
  · rw [hclean]
    exact hwrite
  · rw [h.currX, ho.maxX]
    exact Fin.isLt _
  · rw [h.currY, ho.maxY]
    exact Fin.isLt _

/-- Two cells in gray, in rows of twenty pixels. -/
def gray : VgaColorWriter := .new ⟨16, 8, .u8, 1, 20⟩ (List.replicate 160 7)

theorem gray_fits : Fits 1 gray where
  width := by decide
  height := by decide
  stride := by decide
  pixels := rfl
  depth := by decide
  room := by
    rw [gray, VgaColorWriter.new, List.length_replicate]
    decide
  bounded := by
    rw [gray, VgaColorWriter.new, List.length_replicate]
    decide
  maxX := rfl
  maxY := rfl

theorem console_renders_gray :
    ∃ w, (gray.cleanScreen >>= fun cleared =>
        [[0x41], [0x0A, 0x80]].foldlM (VgaColorWriter.writeString fun _ _ => 255) cleared) = some w ∧
      w.currX < gray.maxX ∧ w.currY < gray.maxY ∧
      Renders (fun _ _ => 255) 1 gray w
        ([[0x41], [0x0A, 0x80]].foldl Terminal.writeAll (.cleared gray_fits.rows_pos gray_fits.cols_pos)) :=
  console_renders (fun _ _ => 255) gray_fits [[0x41], [0x0A, 0x80]]

end Console

end Idkernel
