/-
TensorProgram/Shape/Agreement.lean

Demands on shapes, as checks that report the first violation: shapes agree, or
agree but for one axis, and an axis exists.  The subject of a check says in an
error what the shapes belong to.
-/
import TensorProgram.Failure

namespace TensorProgram

/-- Two shapes are equal. -/
def requireSameShape (subject : String) (expected got : Shape) : Except Error Unit :=
  if got = expected then .ok () else .error (.shapeMismatch subject expected got)

/-- Two shapes hold equally many elements. -/
def requireSameSize (subject : String) (expected got : Shape) : Except Error Unit :=
  if got.elemCount = expected.elemCount then .ok ()
  else .error (.shapeMismatch subject expected got)

/-- A shape has this rank. -/
def requireRank (subject : String) (s : Shape) (rank : Nat) : Except Error Unit :=
  if s.rank = rank then .ok () else .error (.rankMismatch subject rank s.rank)

/-- Two shapes of equal rank have the same extent along every axis but `axis`. -/
def Shape.agreesExcept (s t : Shape) (axis : Nat) : Bool :=
  s.rank == t.rank &&
    ((s.dims.zip t.dims).zipIdx).all fun ((a, b), d) => d == axis || a == b

/-- The extent of an axis. -/
def Shape.dim (s : Shape) (axis : Nat) : Except Error Nat :=
  match s.dims[axis]? with
  | some d => .ok d
  | none => .error (.dimOutOfRange axis s.rank)

end TensorProgram
