/-
TensorProgram/Shape/Image.lean

Two ways to read the extents of a shape.  As `NHWC` a shape of rank 4 is a
batch of images: batch, height, width and channels.  Flattened, a shape of any
positive rank is a batch of rows: its first extent and the product of the
others.  Neither reading moves an element.
-/
import TensorProgram.Failure

namespace TensorProgram

/-- The extents of a batch of images with channels. -/
structure NHWC where
  /-- Number of images. -/
  n : Nat
  /-- Height of an image. -/
  h : Nat
  /-- Width of an image. -/
  w : Nat
  /-- Number of channels. -/
  c : Nat
deriving DecidableEq

namespace NHWC

/-- Read a list of four extents as a batch of images. -/
def ofDims : List Nat → Except Error NHWC
  | [n, h, w, c] => .ok ⟨n, h, w, c⟩
  | dims => .error (.rankMismatch "NHWC shape" 4 dims.length)

/-- The shape with these four extents. -/
def toShape (d : NHWC) : Shape := ⟨[d.n, d.h, d.w, d.c]⟩

/-- The written form, such as `NHWC[1, 28, 28, 3]`. -/
def text (d : NHWC) : String := "NHWC" ++ bracketed [d.n, d.h, d.w, d.c]

end NHWC

/-- Read a list of extents as a batch of rows: the first extent and the volume of
the remaining ones. -/
def flattenRows : List Nat → Except Error (Nat × Nat)
  | first :: rest => .ok (first, Shape.volume rest)
  | [] => .error (.rankMismatch "flatten-cdr" 1 0)

end TensorProgram
