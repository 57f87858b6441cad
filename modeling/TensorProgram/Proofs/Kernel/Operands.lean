/-
TensorProgram/Proofs/Kernel/Operands.lean

What a way back with parameters has found.  Running backward, a convolution and
an affine map compare the shapes of their operands, make sure that the output has
a gradient and then update the gradients of input, filter and bias.  If all of
this succeeds in a context whose gradients mirror its weights, the operands are
four scalar values whose shapes fit (`Convolution.Operands`,
`FullyConnected.Operands`), and what the call has left are its deposits.
-/
import TensorProgram.Proofs.Context.Regrouping
import TensorProgram.Proofs.Kernel.Entry

namespace TensorProgram

variable {α : Type} [Scalar α] {c c' : Context α} {src filter bias out : View α}

open Context (shape_eq exists_weight_of_shapeOf weights_of_floats grads_of_grad of_ensureGrad_ok
  of_updateGrad_ok)
open Run (exists_of_bind_ok exists_of_check_ok get_bind_apply)

/-- Four values of which no two are the same. -/
theorem ne_of_nodup_four {a b c d : ValueId} (h : [a, b, c, d].Nodup) :
    a ≠ b ∧ a ≠ c ∧ a ≠ d ∧ b ≠ c ∧ b ≠ d ∧ c ≠ d := by
  simpa [and_assoc] using h

namespace Context

variable {id : ValueId} {s : Shape}

omit [Scalar α] in
/-- A gradient that is read as scalars is bound to them. -/
theorem grads_of_gradFloats {v : View α} (h : c.gradFloats id = .ok v) :
    c.grads[id]? = some v.tensor := by
  obtain ⟨⟨s, data | data⟩, hg, hv⟩ := Except.bind_eq_ok.mp h
  · rw [grads_of_grad hg, ← Except.ok.inj hv]
    rfl
  · cases hv

/-- Beside a gradient of scalars, the weight is one of scalars too. -/
theorem Mirrored.exists_weight (hc : c.Mirrored) {g : View α} (hg : c.gradOrZeros id = .ok g.tensor)
    (hs : c.shapeOf id = .ok s) : g.shape = s ∧ ∃ v : View α, c.weights[id]? = some v.tensor ∧
      v.shape = s := by
  obtain ⟨t, ht, rfl⟩ := exists_weight_of_shapeOf hs
  have hdecl : t.declaration = ⟨.float, g.shape⟩ := (hc.gradOrZeros hg ht).symm
  obtain ⟨data, rfl⟩ := Tensor.eq_float hdecl
  exact ⟨rfl, ⟨g.shape, data⟩, ht, rfl⟩

/-- The operands of a way back with parameters: three weights of scalars, and the
gradient of the output, or the zeros it starts from. -/
structure Operands (c : Context α) (idest isrc ifilter ibias : ValueId)
    (Fits : (src dest filter bias : Shape) → Prop) (src filter bias out : View α) : Prop where
  /-- Their shapes fit. -/
  fits : Fits src.shape out.shape filter.shape bias.shape
  /-- The input. -/
  src : c.weights[isrc]? = some src.tensor
  /-- The filter. -/
  filter : c.weights[ifilter]? = some filter.tensor
  /-- The bias. -/
  bias : c.weights[ibias]? = some bias.tensor
  /-- The output. -/
  dest : ∃ v : View α, c.weights[idest]? = some v.tensor ∧ v.shape = out.shape
  /-- Its gradient. -/
  out : c.gradOrZeros idest = .ok out.tensor

variable {idest isrc ifilter ibias : ValueId} {Fits : (src dest filter bias : Shape) → Prop}

/-- An entry check and the kinds of what is read make the operands. -/
theorem exists_operands (hc : c.Mirrored)
    (hfits : ∃ s t u v, c.shapeOf isrc = .ok s ∧ c.shapeOf idest = .ok t ∧
      c.shapeOf ifilter = .ok u ∧ c.shapeOf ibias = .ok v ∧ Fits s t u v)
    (hsrc : c.weights[isrc]? = some src.tensor) (hfilter : c.weights[ifilter]? = some filter.tensor)
    (hout : c.gradOrZeros idest = .ok out.tensor) {g : View α}
    (hg : c.gradOrZeros ibias = .ok g.tensor) :
    ∃ bias, c.Operands idest isrc ifilter ibias Fits src filter bias out := by
  obtain ⟨s, t, u, v, hs, ht, hu, hv, hfits⟩ := hfits
  obtain rfl : src.shape = s := shape_eq hs hsrc
  obtain rfl : filter.shape = u := shape_eq hu hfilter
  obtain ⟨rfl, old, hdest, hold⟩ := hc.exists_weight hout ht
  obtain ⟨rfl, bias, hbias, hshape⟩ := hc.exists_weight hg hv
  rw [← hshape] at hfits
  exact ⟨bias, hfits, hsrc, hfilter, hbias, ⟨old, hdest, hold⟩, hout⟩

end Context

/-! ### Convolutions -/

namespace Convolution

variable {i : Convolution} {d : ImageDims} {source : FilterGradSource}

/-- The operands of a convolution on the way back. -/
abbrev Operands (i : Convolution) (c : Context α) (d : ImageDims) :
    (src filter bias out : View α) → Prop :=
  c.Operands i.dest i.src i.filter i.bias (Fits i.window d)

theorem Operands.dims_eq (h : i.Operands c d src filter bias out) : i.dims c = .ok d := by
  obtain ⟨old, hdest, hold⟩ := h.dest
  refine i.dims_eq h.src hdest h.filter h.bias ?_
  rw [show old.tensor.shape = out.shape from hold]
  exact h.fits

/-- Over its operands the way back makes its deposits. -/
theorem Operands.backward_eq (h : i.Operands c d src filter bias out) (hc : c.Mirrored)
    (hids : [i.dest, i.src, i.filter, i.bias].Nodup) (source : FilterGradSource) :
    i.backward source c = .ok () (c.deposits accumulate
      [(i.dest, []), (i.filter, i.filterTerms source d src out), (i.src, i.inputTerms d filter out),
        (i.bias, i.biasTerms d out)]) := by
  obtain ⟨hds, hdf, hdb, -⟩ := ne_of_nodup_four hids
  obtain ⟨old, hdest, hold⟩ := h.dest
  have hfits : Fits i.window d src.shape old.tensor.shape filter.shape bias.shape := by
    rw [show old.tensor.shape = out.shape from hold]
    exact h.fits
  exact i.backward_eq h.src h.filter h.bias hdest hfits source hds.symm hdf.symm hdb.symm
    (hc.hasGrad h.src) (hc.hasGrad h.filter) (hc.hasGrad h.bias) h.out hold.symm

/-- A way back that succeeds has found its operands. -/
theorem exists_operands_of_backward (hc : c.Mirrored)
    (hids : [i.dest, i.src, i.filter, i.bias].Nodup) (hrun : i.backward source c = .ok () c') :
    ∃ (d : ImageDims) (src filter bias out : View α), i.Operands c d src filter bias out := by
  obtain ⟨hds, hdf, hdb, hsf, hsb, hfb⟩ := ne_of_nodup_four hids
  rw [backward, get_bind_apply] at hrun
  obtain ⟨d, hd, hrun⟩ := exists_of_check_ok hrun
  obtain ⟨_, c₁, hensure, hrun⟩ := exists_of_bind_ok hrun
  obtain ⟨g, hg, rfl⟩ := of_ensureGrad_ok hensure
  rw [get_bind_apply] at hrun
  obtain ⟨_, -, hrun⟩ := exists_of_check_ok hrun
  obtain ⟨_, -, hrun⟩ := exists_of_check_ok hrun
  obtain ⟨_, c₂, hfilter, hrun⟩ := exists_of_bind_ok hrun
  obtain ⟨_, c₃, hinput, hbias⟩ := exists_of_bind_ok hrun
  -- the first pass reads the input and the gradient of the output
  obtain ⟨_, gf, -, hinner, rfl⟩ := of_updateGrad_ok hfilter
  obtain ⟨src, hsrc, hinner⟩ := exists_of_check_ok hinner
  obtain ⟨out, hout, -⟩ := exists_of_check_ok hinner
  have hout := Context.grads_of_gradFloats hout
  rw [Context.grads_withoutGrad_of_ne hdf.symm, Context.grads_setGrad_self] at hout
  obtain rfl := Option.some.inj hout
  -- the second one the filter
  obtain ⟨_, gs, -, hinner, rfl⟩ := of_updateGrad_ok hinput
  obtain ⟨filter, hweight, -⟩ := exists_of_check_ok hinner
  -- and the third one finds a gradient of scalars for the bias
  obtain ⟨gb, _, hgb, hinner, -⟩ := of_updateGrad_ok hbias
  obtain ⟨_, -, hinner⟩ := exists_of_check_ok hinner
  obtain ⟨s, data, _, rfl, -⟩ := Tensor.of_onFloats_ok hinner
  have hkeep : (((c.setGrad i.dest out.tensor).setGrad i.filter gf).setGrad i.src gs).gradOrZeros
      i.bias = c.gradOrZeros i.bias := by
    refine Context.gradOrZeros_congr rfl rfl ?_
    rw [Context.grads_setGrad_of_ne hsb, Context.grads_setGrad_of_ne hfb,
      Context.grads_setGrad_of_ne hdb]
  obtain ⟨bias, h⟩ := Context.exists_operands (g := ⟨s, data⟩) hc (fits_of_dims hd)
    (weights_of_floats hsrc) (weights_of_floats hweight) hg (hkeep.symm.trans hgb)
  exact ⟨d, src, filter, bias, out, h⟩

end Convolution

/-! ### Affine maps -/

namespace FullyConnected

variable {i : FullyConnected} {d : Dims}

/-- The operands of an affine map on the way back. -/
abbrev Operands (i : FullyConnected) (c : Context α) (d : Dims) :
    (src filter bias out : View α) → Prop :=
  c.Operands i.dest i.src i.filter i.bias (Fits d)

theorem Operands.dims_eq (h : i.Operands c d src filter bias out) : i.dims c = .ok d := by
  obtain ⟨old, hdest, hold⟩ := h.dest
  refine i.dims_eq h.src hdest h.filter h.bias ?_
  rw [show old.tensor.shape = out.shape from hold]
  exact h.fits

/-- Over its operands the way back makes its deposits. -/
theorem Operands.backward_eq (h : i.Operands c d src filter bias out) (hc : c.Mirrored)
    (hids : [i.dest, i.src, i.filter, i.bias].Nodup) :
    i.backward c = .ok () (c.deposits accumulate
      [(i.dest, []), (i.src, inputTerms d filter out), (i.filter, filterTerms d src out),
        (i.bias, biasTerms d out)]) := by
  obtain ⟨hds, hdf, hdb, -⟩ := ne_of_nodup_four hids
  obtain ⟨old, hdest, hold⟩ := h.dest
  have hfits : Fits d src.shape old.tensor.shape filter.shape bias.shape := by
    rw [show old.tensor.shape = out.shape from hold]
    exact h.fits
  exact i.backward_eq h.src h.filter h.bias hdest hfits hds.symm hdf.symm hdb.symm
    (hc.hasGrad h.src) (hc.hasGrad h.filter) (hc.hasGrad h.bias) h.out hold.symm

/-- A way back that succeeds has found its operands. -/
theorem exists_operands_of_backward (hc : c.Mirrored)
    (hids : [i.dest, i.src, i.filter, i.bias].Nodup) (hrun : i.backward c = .ok () c') :
    ∃ (d : Dims) (src filter bias out : View α), i.Operands c d src filter bias out := by
  obtain ⟨hds, hdf, hdb, hsf, hsb, hfb⟩ := ne_of_nodup_four hids
  rw [backward, get_bind_apply] at hrun
  obtain ⟨d, hd, hrun⟩ := exists_of_check_ok hrun
  obtain ⟨_, c₁, hensure, hrun⟩ := exists_of_bind_ok hrun
  obtain ⟨g, hg, rfl⟩ := of_ensureGrad_ok hensure
  obtain ⟨_, c₂, hinput, hrun⟩ := exists_of_bind_ok hrun
  obtain ⟨_, c₃, hfilter, hbias⟩ := exists_of_bind_ok hrun
  -- the first pass reads both weights and the gradient of the output
  obtain ⟨_, gs, -, hinner, rfl⟩ := of_updateGrad_ok hinput
  obtain ⟨src, hsrc, hinner⟩ := exists_of_check_ok hinner
  obtain ⟨filter, hweight, hinner⟩ := exists_of_check_ok hinner
  obtain ⟨out, hout, -⟩ := exists_of_check_ok hinner
  have hout := Context.grads_of_gradFloats hout
  rw [Context.grads_withoutGrad_of_ne hds.symm, Context.grads_setGrad_self] at hout
  obtain rfl := Option.some.inj hout
  obtain ⟨_, gf, -, -, rfl⟩ := of_updateGrad_ok hfilter
  -- and the last one finds a gradient of scalars for the bias
  obtain ⟨gb, _, hgb, hinner, -⟩ := of_updateGrad_ok hbias
  obtain ⟨_, -, hinner⟩ := exists_of_check_ok hinner
  obtain ⟨s, data, _, rfl, -⟩ := Tensor.of_onFloats_ok hinner
  have hkeep : (((c.setGrad i.dest out.tensor).setGrad i.src gs).setGrad i.filter gf).gradOrZeros
      i.bias = c.gradOrZeros i.bias := by
    refine Context.gradOrZeros_congr rfl rfl ?_
    rw [Context.grads_setGrad_of_ne hfb, Context.grads_setGrad_of_ne hsb,
      Context.grads_setGrad_of_ne hdb]
  obtain ⟨bias, h⟩ := Context.exists_operands (g := ⟨s, data⟩) hc (fits_of_dims hd)
    (weights_of_floats hsrc) (weights_of_floats hweight) hg (hkeep.symm.trans hgb)
  exact ⟨d, src, filter, bias, out, h⟩

end FullyConnected

end TensorProgram
