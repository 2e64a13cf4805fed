import Idkernel.Raster

/-!
# The text console

Characters of eight by eight pixels are drawn into a framebuffer. A pixel takes
at least as many bytes as it has colours, and a row at least as many pixels as
are shown. `none` is a panic, or a word that is left.
-/
namespace Idkernel

open Raster

namespace Console

inductive PixelFormat where
  | rgb | bgr | u8 | unknown
  deriving DecidableEq, Repr

structure FrameBufferInfo where
  width : Nat
  height : Nat
  pixelFormat : PixelFormat
  bytesPerPixel : Nat
  stride : Nat
  deriving DecidableEq, Repr

abbrev Color := Fin 3 → UInt8

/-- `color.0[z]` -/
def component (color : Color) (z : Nat) : Option UInt8 := if h : z < 3 then some (color ⟨z, h⟩) else none

structure VgaColorWriter where
  currX : Nat
  currY : Nat
  maxX : Nat
  maxY : Nat
  info : FrameBufferInfo
  buffer : List UInt8
  background : Color
  foreground : Color

/-- The rows of the glyphs; the lowest bit is the leftmost pixel. There are glyphs of the first 128 codes. -/
abbrev Font := UInt8 → Fin 8 → UInt8

/-- Sums and products on `usize`. -/
def word (n : Nat) : Option Nat := if n < 2 ^ 64 then some n else none

/-- Differences on `usize`. -/
def less (a b : Nat) : Option Nat := if b ≤ a then some (a - b) else none

def PixelFormat.pixels : PixelFormat → Option Nat
  | .rgb => some 3
  | .bgr => some 3
  | .u8 => some 1
  | .unknown => none

/-- `for z in 0..pixels { buffer[i + z] = color.0[z] }` -/
def putPixel (pixels i : Nat) (color : Color) (buffer : List UInt8) : Option (List UInt8) :=
  loop pixels (fun z buffer => do
    let v ← component color z
    store buffer (i + z) v) buffer

namespace VgaColorWriter

def new (info : FrameBufferInfo) (buffer : List UInt8) : VgaColorWriter where
  currX := 0
  currY := 0
  maxX := info.width / 8
  maxY := info.height / 8
  info := info
  buffer := buffer
  background := fun _ => 0
  foreground := fun _ => 255

/-- The body of the loop over the columns; `i` is carried from pixel to pixel. -/
def fillColumn (self : VgaColorWriter) (pixels : Nat) (color : Color) :
    List UInt8 × Nat → Option (List UInt8 × Nat) := fun (buffer, i) => do
  let buffer ← putPixel pixels i color buffer
  let i ← word (i + self.info.bytesPerPixel)
  some (buffer, i)

/-- The body of the loop over the rows. -/
def fillRow (self : VgaColorWriter) (pixels w : Nat) (color : Color) :
    List UInt8 × Nat → Option (List UInt8 × Nat) := fun (buffer, i) => do
  let (buffer, i) ← loop (w * 8) (fun _ => self.fillColumn pixels color) (buffer, i)
  let rest ← less self.info.stride (w * 8)
  let i ← word (i + rest * self.info.bytesPerPixel)
  some (buffer, i)

def fillRect (self : VgaColorWriter) (x y w h : Nat) (color : Color) : Option VgaColorWriter := do
  let index ← word ((y * self.info.stride + x) * 8 * self.info.bytesPerPixel)
  let pixels ← self.info.pixelFormat.pixels
  let (buffer, _) ← loop (h * 8) (fun _ => self.fillRow pixels w color) (self.buffer, index)
  some { self with buffer := buffer }

/-- The body of the loop over the columns of a glyph, which shifts its row. -/
def splatColumn (self : VgaColorWriter) (pixels beginPixel : Nat) :
    List UInt8 × Nat × UInt8 → Option (List UInt8 × Nat × UInt8) := fun (buffer, i, splatRow) => do
  let bit := splatRow &&& 1 ≠ 0
  let buffer ← putPixel pixels (beginPixel + i) (if bit then self.foreground else self.background) buffer
  let i ← word (i + self.info.bytesPerPixel)
  some (buffer, i, splatRow >>> 1)

/-- The body of the loop over the rows of a glyph. -/
def splatRow (self : VgaColorWriter) (pixels beginPixel : Nat) (image : Fin 8 → UInt8) (y : Nat) :
    List UInt8 × Nat → Option (List UInt8 × Nat) := fun (buffer, i) => do
  let splatRow ← if h : y < 8 then some (image ⟨y, h⟩) else none
  let (buffer, i, _) ← loop 8 (fun _ => self.splatColumn pixels beginPixel) (buffer, i, splatRow)
  let rest ← less self.info.stride 8
  let i ← word (i + rest * self.info.bytesPerPixel)
  some (buffer, i)

def splatChar (font : Font) (self : VgaColorWriter) (c : UInt8) (x y : Nat) : Option VgaColorWriter := do
  let beginPixel ← word ((y * self.info.stride + x) * self.info.bytesPerPixel)
  let image ← if c < 128 then some (font c) else none
  let pixels ← self.info.pixelFormat.pixels
  let (buffer, _) ← loop 8 (self.splatRow pixels beginPixel image) (self.buffer, 0)
  some { self with buffer := buffer }

def cleanRow (self : VgaColorWriter) : Option VgaColorWriter :=
  self.fillRect 0 self.currY self.maxX 1 self.background

def newLine (self : VgaColorWriter) : Option VgaColorWriter :=
  let self := { self with currY := self.currY + 1, currX := 0 }
  let self := if self.currY ≥ self.maxY then { self with currY := 0 } else self
  self.cleanRow

def advanceChar (self : VgaColorWriter) : Option VgaColorWriter :=
  let self := { self with currX := self.currX + 1 }
  if self.currX ≥ self.maxX then self.newLine else some self

def writeByte (font : Font) (self : VgaColorWriter) (byte : UInt8) : Option VgaColorWriter :=
  if byte = 0x0A then self.newLine
  else do
    let self ← self.splatChar font byte (self.currX * 8) (self.currY * 8)
    self.advanceChar

def writeString (font : Font) (self : VgaColorWriter) (s : List UInt8) : Option VgaColorWriter :=
  s.foldlM (fun self byte =>
    if 0x20 ≤ byte ∧ byte ≤ 0x7E ∨ byte = 0x0A then self.writeByte font byte
    else self.writeByte font 0x3F) self

def cleanScreen (self : VgaColorWriter) : Option VgaColorWriter := do
  let self ← self.fillRect 0 0 self.maxX self.maxY self.background
  some { self with currX := 0, currY := 0 }

end VgaColorWriter

end Console

end Idkernel
