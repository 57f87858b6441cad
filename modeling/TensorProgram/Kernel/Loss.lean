/-
TensorProgram/Kernel/Loss.lean

The instructions that end a program with a loss.  Their way back does not read
the gradient of the output: it is the gradient of the loss itself.

A softmax turns a row into probabilities, `e^(x - m) / Σ e^(x - m)` with `m` the
largest entry of the row, and saves them; the way back adds the probabilities,
less one at the selected column.  A squared distance passes its input on; the
way back adds the difference from what was expected.
-/
import TensorProgram.Kernel.Elementwise

namespace TensorProgram

variable {α : Type} [Scalar α]

open Context (updateWeight updateWeightPair updateGrad)

/-! ### Softmax -/

/-- The largest entry of a list that begins with `first`.  An entry replaces
the largest so far only if it is strictly larger, so a leading not-a-number
stays. -/
def largest (first : α) (rest : List α) : α :=
  rest.foldl (fun m x => if Scalar.lt m x then x else m) first

/-- The probabilities of a row. -/
def probabilities : List α → List α
  | [] => []
  | first :: rest =>
      let m := largest first rest
      let powers := (first :: rest).map fun x => Scalar.exp (x - m)
      let total := Scalar.sum powers
      powers.map (· / total)

namespace Softmax

variable (i : Softmax)

/-- The number of rows and their length, which is positive; output and saved
probabilities have the shape of the input. -/
def dims (ctx : Context α) : Except Error (Nat × Nat) := do
  let src ← ctx.shapeOf i.src
  requireRank "softmax" src 2
  requireSameShape "softmax output" src (← ctx.shapeOf i.dest)
  requireSameShape "softmax saved exponentials" src (← ctx.shapeOf i.saved)
  let rows := src.dims.getD 0 0
  let columns := src.dims.getD 1 0
  if columns = 0 then throw .emptySoftmaxRow
  return (rows, columns)

/-- The forward kernel. -/
def forward : Run (Context α) Unit := do
  let (rows, columns) ← i.dims (← get)
  updateWeightPair i.dest i.saved fun ctx => do
    let src ← ctx.floats i.src
    Tensor.onFloatPair fun s saved =>
      (List.range rows).forM fun n => do
        let row ← (List.range columns).mapM fun c => src.get [n, c]
        let entries := (probabilities row).zipIdx
        Run.onSnd <| scatter overwrite entries (fun p => saved.position [n, p.2])
          fun p => return p.1
        Run.onFst <| scatter overwrite entries (fun p => s.position [n, p.2])
          fun p => return p.1

/-- The backward kernel. -/
def backward : Run (Context α) Unit := do
  let (rows, columns) ← i.dims (← get)
  requireSameShape "softmax selected labels" ⟨[rows, 1]⟩ (← (← get).shapeOf i.selected)
  updateGrad i.src fun ctx => do
    let saved ← ctx.floats i.saved
    let selected ← ctx.indices i.selected
    Tensor.onFloats fun s =>
      (List.range rows).forM fun n => do
        let label ← selected.get [n, 0]
        scatter accumulate (List.range columns) (fun c => s.position [n, c]) fun c => do
          return (← saved.get [n, c]) - (if label = c then 1 else 0)

end Softmax

/-! ### Squared distance -/

namespace Regression

variable (i : Regression)

/-- The forward kernel. -/
def forward : Run (Context α) Unit := do
  let ctx ← get
  requireSameShape "regression output" (← ctx.shapeOf i.src) (← ctx.shapeOf i.dest)
  Unary.move ⟨i.dest, i.src⟩

/-- The backward kernel. -/
def backward : Run (Context α) Unit := do
  let ctx ← get
  let src ← ctx.shapeOf i.src
  requireRank "regression" src 2
  requireSameShape "regression expected" src (← ctx.shapeOf i.expected)
  let rows := src.dims.getD 0 0
  let columns := src.dims.getD 1 0
  updateGrad i.src fun ctx => do
    let src ← ctx.floats i.src
    let expected ← ctx.floats i.expected
    Tensor.onFloats fun s =>
      scatter accumulate
        ((List.range rows).flatMap fun n => (List.range columns).map fun c => [n, c])
        s.position
        fun coord => do return (← src.get coord) - (← expected.get coord)

end Regression

end TensorProgram
