/-
TensorProgram/Window.lean

Square windows that slide over images.  A window has a side length, a stride
and a padding; padded positions are never stored, they are skipped.

`Window.outputSize` counts the windows that lie inside the padded extent,
`Window.anchors` visits the output positions and `Window.taps` the input
positions under one window.  The visiting order is part of the meaning, because
sums are rounded in that order: output positions run over the second spatial
axis outside and the first inside, and so do the positions under a window.

Extents are words of 64 bits and coordinates that may be negative are signed ones,
and both wrap: padding of `2^63` or more is read as a negative number, so that its
windows start inside the image.
-/
import TensorProgram.Shape.Image

namespace TensorProgram

/-- A square sliding window. -/
structure Window where
  /-- Side length. -/
  kernel : Nat
  /-- Distance between neighbouring windows. -/
  stride : Nat
  /-- Padding on either side of both spatial axes. -/
  pad : Nat
deriving DecidableEq

/-- An output position and the input coordinate at which its window starts. -/
structure Anchor where
  /-- Output position along the first spatial axis. -/
  ax : Nat
  /-- Output position along the second spatial axis. -/
  ay : Nat
  /-- Start of the window along the first spatial axis of the input. -/
  x : Int64
  /-- Start of the window along the second spatial axis of the input. -/
  y : Int64
deriving DecidableEq

/-- A position under a window that lies inside the input. -/
structure Tap where
  /-- Position inside the window along the first spatial axis. -/
  fx : Nat
  /-- Position inside the window along the second spatial axis. -/
  fy : Nat
  /-- Position in the input along the first spatial axis. -/
  ox : Nat
  /-- Position in the input along the second spatial axis. -/
  oy : Nat
deriving DecidableEq

namespace Window

/-- An extent with the padding on either side of it, as a word. -/
def padded (win : Window) (input : Nat) : Nat :=
  (UInt64.ofNat input + 2 * UInt64.ofNat win.pad).toNat

/-- The number of windows along an axis: all that start a multiple of the
stride into the padded extent and end inside it. -/
def outputSize (win : Window) (input : Nat) : Except Error Nat :=
  if win.stride = 0 then .error .zeroStride
  else if win.kernel = 0 ∨ win.padded input < win.kernel then
    .error (.windowDoesNotFit win.kernel input win.pad)
  else .ok ((win.padded input - win.kernel) / win.stride + 1)

/-- The number of windows along both spatial axes of a batch of images. -/
def outputDims (win : Window) (images : NHWC) : Except Error (Nat × Nat) := do
  let height ← win.outputSize images.h
  let width ← win.outputSize images.w
  return (height, width)

/-- The anchor of the window that belongs to an output position. -/
def anchor (win : Window) (ax ay : Nat) : Anchor where
  ax := ax
  ay := ay
  x := -Int64.ofNat win.pad + Int64.ofNat ax * Int64.ofNat win.stride
  y := -Int64.ofNat win.pad + Int64.ofNat ay * Int64.ofNat win.stride

/-- The anchors of all output positions, the second spatial axis outermost. -/
def anchors (win : Window) (output : NHWC) : List Anchor :=
  (List.range output.w).flatMap fun ay =>
    (List.range output.h).map fun ax => win.anchor ax ay

/-- The input position under entry `(fx, fy)` of a window, if there is one. -/
def tap? (a : Anchor) (input : NHWC) (fx fy : Nat) : Option Tap :=
  let ox := a.x + Int64.ofNat fx
  let oy := a.y + Int64.ofNat fy
  if 0 ≤ ox ∧ 0 ≤ oy ∧ ox < Int64.ofNat input.h ∧ oy < Int64.ofNat input.w then
    some ⟨fx, fy, ox.toNatClampNeg, oy.toNatClampNeg⟩
  else none

/-- The input positions under a window, the second spatial axis outermost. -/
def taps (win : Window) (a : Anchor) (input : NHWC) : List Tap :=
  (List.range win.kernel).flatMap fun fy =>
    (List.range win.kernel).filterMap fun fx => tap? a input fx fy

end Window

end TensorProgram
