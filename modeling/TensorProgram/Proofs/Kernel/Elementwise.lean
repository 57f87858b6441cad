/-
TensorProgram/Proofs/Kernel/Elementwise.lean

What the kernels of copies, changes of shape, functions of one element and
operations on two compute.  Forward each fills its output: the result is a
function of the inputs alone, whatever the output held.  Backward each makes
deposits that are functions of the operands and of the output's gradient.
-/
import TensorProgram.Kernel.Elementwise
import TensorProgram.Proofs.Context.Deposits

namespace TensorProgram

variable {α : Type} [Scalar α]

open Context (shapeOf_eq floats_of_weights_eq floats_withoutWeight gradFloats_eq updateWeight_fills
  Deposits deposits_updateGrad)
open Run (Fills Performs liftM_check_ok)

/-! ### Checks -/

omit [Scalar α] in
@[simp] theorem requireSameShape_self (subject : String) (s : Shape) :
    requireSameShape subject s s = .ok () := by
  rw [requireSameShape, if_pos rfl]

theorem requireSameSize_of_eq (subject : String) {s t : Shape} (h : t.elemCount = s.elemCount) :
    requireSameSize subject s t = .ok () := by
  rw [requireSameSize, if_pos h]

/-! ### Copies and changes of shape -/

namespace View

omit [Scalar α] in
theorem fills_copyInto {src : View α} {n : Nat} (h : src.shape.elemCount = n) :
    Fills (src.copyInto : Run (Vector α n) Unit) (src.data.cast h) := by
  intro data
  rw [copyInto, dif_pos h]

theorem performs_addInto {src : View α} {s : Shape} (h : src.shape.elemCount = s.elemCount) :
    Performs accumulate (src.addInto s) (pointwise s.elemCount src.entry) := by
  rw [addInto, requireSameSize_of_eq _ h, liftM_check_ok, pure_bind]
  exact performs_pointwise (fun k hk => src.raw_eq (h ▸ hk)) (Nat.le_refl _)

end View

namespace Unary

variable (i : Unary) {c : Context α} {src out : View α} {s : Shape} {old : Vector α s.elemCount}

omit [Scalar α] in
/-- The output of a copied buffer. -/
theorem move_eq (hsrc : c.weights[i.src]? = some src.tensor)
    (hdest : c.weights[i.dest]? = some ⟨s, .float old⟩) (hne : i.dest ≠ i.src)
    (hsize : src.shape.elemCount = s.elemCount) :
    i.move c = .ok () (c.setWeight i.dest ⟨s, .float (src.data.cast hsize)⟩) := by
  apply updateWeight_fills hdest
  · rw [floats_withoutWeight hne hsrc, liftM_check_ok, pure_bind]
  · exact View.fills_copyInto hsize

omit [Scalar α] in
theorem requireAlike_ok (subject : String) {t t' : Tensor α} (hsrc : c.weights[i.src]? = some t)
    (hdest : c.weights[i.dest]? = some t') (hs : t.shape = t'.shape) :
    i.requireAlike subject c = .ok () c := by
  rw [requireAlike, Run.get_bind_apply, shapeOf_eq hsrc, shapeOf_eq hdest, hs]
  simp only [liftM_check_ok, pure_bind, requireSameShape_self]
  rfl

omit [Scalar α] in
theorem requireEquinumerous_ok {t t' : Tensor α} (hsrc : c.weights[i.src]? = some t)
    (hdest : c.weights[i.dest]? = some t') (hs : t'.shape.elemCount = t.shape.elemCount) :
    i.requireEquinumerous c = .ok () c := by
  rw [requireEquinumerous, Run.get_bind_apply, shapeOf_eq hsrc, shapeOf_eq hdest]
  simp only [liftM_check_ok, pure_bind, requireSameSize_of_eq _ hs]
  rfl

/-- The contribution of a moved buffer: the gradient of the output, position by
position. -/
theorem deposits_moveBack (hne : i.src ≠ i.dest) (hgrad : c.HasGrad i.src s)
    (hsize : out.shape.elemCount = s.elemCount) (hout : c.gradOrZeros i.dest = .ok out.tensor) :
    i.moveBack c = .ok () (c.deposits accumulate
      [(i.dest, []), (i.src, pointwise s.elemCount out.entry)]) := by
  apply Deposits.backward hout
  apply deposits_updateGrad hne hgrad
  · intro c' _ hgrads
    rw [gradFloats_eq hgrads, liftM_check_ok, pure_bind]
  · exact View.performs_addInto hsize

end Unary

/-! ### Functions of one element -/

namespace Activation

variable (f : Activation) (i : Unary) {c : Context α} {src dest out : View α} {s : Shape}
  {old : Vector α s.elemCount}

/-- The output of an activation function: its value at every element. -/
theorem forward_eq (hsrc : c.weights[i.src]? = some src.tensor)
    (hdest : c.weights[i.dest]? = some ⟨s, .float old⟩) (hne : i.dest ≠ i.src)
    (hs : src.shape = s) :
    f.forward i c = .ok () (c.setWeight i.dest
      ⟨s, .float (filled _ (pointwise s.elemCount fun k => f.value (src.entry k)))⟩) := by
  have halike : i.requireAlike "activation" c = .ok () c := i.requireAlike_ok _ hsrc hdest hs
  rw [forward, Run.bind_of_ok halike]
  apply updateWeight_fills hdest
  · rw [floats_withoutWeight hne hsrc, liftM_check_ok, pure_bind]
  · refine fills_pointwise fun k hk => ?_
    rw [src.raw_eq (hs ▸ hk)]
    rfl

/-- Adding the slope at every element. -/
theorem performs_slopes (hds : dest.shape = s) (hos : out.shape = s) :
    Performs accumulate (scatter accumulate (List.range s.elemCount) atPosition (fun k => do
        return f.slope (← dest.raw k) (← out.raw k)) : Run (Vector α s.elemCount) Unit)
      (pointwise s.elemCount fun k => f.slope (dest.entry k) (out.entry k)) := by
  refine performs_pointwise (fun k hk => ?_) (Nat.le_refl _)
  rw [dest.raw_eq (hds ▸ hk), out.raw_eq (hos ▸ hk)]
  rfl

/-- The contribution of an activation function: its slope at every element. -/
theorem backward_eq (hsrc : c.weights[i.src]? = some src.tensor)
    (hdest : c.weights[i.dest]? = some dest.tensor) (hne : i.src ≠ i.dest)
    (hgrad : c.HasGrad i.src s) (hss : src.shape = s) (hds : dest.shape = s)
    (hout : c.gradOrZeros i.dest = .ok out.tensor) (hos : out.shape = s) :
    f.backward i c = .ok () (c.deposits accumulate
      [(i.dest, []), (i.src, pointwise s.elemCount fun k => f.slope (dest.entry k) (out.entry k))]) := by
  have halike : i.requireAlike "activation" c = .ok () c :=
    i.requireAlike_ok _ hsrc hdest (hss.trans hds.symm)
  rw [backward, Run.bind_of_ok halike]
  apply Deposits.backward hout
  apply deposits_updateGrad hne hgrad
  · intro c' hweights hgrads
    rw [floats_of_weights_eq hweights hdest, gradFloats_eq hgrads]
    simp only [liftM_check_ok, pure_bind]
    rfl
  · exact f.performs_slopes hds hos

end Activation

/-! ### Operations on two elements -/

/-- What an output gradient contributes to the gradient of one operand, given
the element of the other. -/
def ArithmeticKind.slopeAt (kind : ArithmeticKind) (other dy : α) : α :=
  match kind with
  | add => dy
  | mul => other * dy

theorem ArithmeticKind.slope_ok (kind : ArithmeticKind) (other dy : α) :
    kind.slope (.ok other) dy = .ok (kind.slopeAt other dy) := by
  cases kind <;> rfl

namespace Arithmetic

variable (i : Arithmetic) {c : Context α} {lhs rhs dest out : View α} {s : Shape}
  {old : Vector α s.elemCount}

omit [Scalar α] in
theorem requireAlike_ok {t u v : Tensor α} (hlhs : c.weights[i.lhs]? = some t)
    (hrhs : c.weights[i.rhs]? = some u) (hdest : c.weights[i.dest]? = some v)
    (ht : t.shape = v.shape) (hu : u.shape = v.shape) : i.requireAlike c = .ok () c := by
  rw [requireAlike, Run.get_bind_apply, shapeOf_eq hdest, shapeOf_eq hlhs, shapeOf_eq hrhs, ht, hu]
  simp only [liftM_check_ok, pure_bind, requireSameShape_self]
  rfl

/-- The output of an operation: its value at every pair of elements. -/
theorem forward_eq (hlhs : c.weights[i.lhs]? = some lhs.tensor)
    (hrhs : c.weights[i.rhs]? = some rhs.tensor)
    (hdest : c.weights[i.dest]? = some ⟨s, .float old⟩) (hl : i.dest ≠ i.lhs) (hr : i.dest ≠ i.rhs)
    (hls : lhs.shape = s) (hrs : rhs.shape = s) :
    i.forward c = .ok () (c.setWeight i.dest
      ⟨s, .float (filled _ (pointwise s.elemCount fun k => i.kind.value (lhs.entry k) (rhs.entry k)))⟩) := by
  have halike : i.requireAlike c = .ok () c := i.requireAlike_ok hlhs hrhs hdest hls hrs
  rw [forward, Run.bind_of_ok halike]
  apply updateWeight_fills hdest
  · rw [floats_withoutWeight hl hlhs, floats_withoutWeight hr hrhs]
    simp only [liftM_check_ok, pure_bind]
    rfl
  · refine fills_pointwise fun k hk => ?_
    rw [lhs.raw_eq (hls ▸ hk), rhs.raw_eq (hrs ▸ hk)]
    rfl

/-- What an operation writes into the gradient of one operand. -/
def contribution (other out : View α) (n : Nat) : List (Nat × α) :=
  pointwise n fun k => i.kind.slopeAt (other.entry k) (out.entry k)

/-- Writing what an output gradient contributes to one operand, given the
other. -/
theorem performs_contribution (policy : GradientPolicy) {o : View α} (hos : o.shape = s)
    (houts : out.shape = s) :
    Performs policy.combine (scatter policy.combine (List.range out.size) atPosition (fun k => do
        i.kind.slope (o.raw k) (← out.raw k)) : Run (Vector α s.elemCount) Unit)
      (i.contribution o out s.elemCount) := by
  have hsize : out.size = s.elemCount := by rw [View.size, houts]
  rw [hsize]
  refine performs_pointwise (fun k hk => ?_) (Nat.le_refl _)
  rw [out.raw_eq (houts ▸ hk), o.raw_eq (hos ▸ hk), Except.ok_bind, ArithmeticKind.slope_ok]

/-- One operand's contribution. -/
theorem deposits_backwardInto (policy : GradientPolicy) {target other : ValueId} {o : View α}
    (ho : c.weights[other]? = some o.tensor) (hne : target ≠ i.dest) (hgrad : c.HasGrad target s)
    (hos : o.shape = s) (houts : out.shape = s) :
    Deposits c i.dest out policy.combine (i.backwardInto policy target other)
      [(target, i.contribution o out s.elemCount)] := by
  apply deposits_updateGrad hne hgrad
  · intro c' hweights hgrads
    rw [gradFloats_eq hgrads, floats_of_weights_eq hweights ho]
    simp only [liftM_check_ok, pure_bind]
    rfl
  · exact i.performs_contribution policy hos houts

/-- The contributions of an operation, to the left operand first. -/
theorem backward_eq (policy : GradientPolicy) (hlhs : c.weights[i.lhs]? = some lhs.tensor)
    (hrhs : c.weights[i.rhs]? = some rhs.tensor) (hdest : c.weights[i.dest]? = some dest.tensor)
    (hl : i.lhs ≠ i.dest) (hr : i.rhs ≠ i.dest) (hgl : c.HasGrad i.lhs s)
    (hgr : c.HasGrad i.rhs s) (hls : lhs.shape = s) (hrs : rhs.shape = s) (hds : dest.shape = s)
    (hout : c.gradOrZeros i.dest = .ok out.tensor) (houts : out.shape = s) :
    i.backward policy c = .ok () (c.deposits policy.combine
      [(i.dest, []), (i.lhs, i.contribution rhs out s.elemCount),
        (i.rhs, i.contribution lhs out s.elemCount)]) := by
  have halike : i.requireAlike c = .ok () c :=
    i.requireAlike_ok hlhs hrhs hdest (hls.trans hds.symm) (hrs.trans hds.symm)
  rw [backward, Run.bind_of_ok halike]
  exact Deposits.backward hout ((i.deposits_backwardInto policy hrhs hl hgl hrs houts).bind
    (i.deposits_backwardInto policy hlhs hr hgr hls houts))

end Arithmetic

end TensorProgram
