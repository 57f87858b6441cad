/-
TensorProgram/Proofs/Kernel/OnePass.lean

Separate passes are one pass.  The way back of a convolution visits the outputs
three times, once for each gradient, and so does that of an affine map.  It could
as well visit them once and add to all three gradients on the way
(`Convolution.backwardOnce`, `FullyConnected.backwardOnce`): no pass reads a
gradient that another one writes, and each gradient receives the same additions in
the same order.  Nothing is asked of the scalars, so this holds of sums that round.

A visit of the one pass is a list of deposits of one write each, mixed over the
three values (`Convolution.onceDeposits`); the writes to each value are those of
its own pass, and deposits may be regrouped (`Context.deposits_regroup`).

Main statement: `separate_passes_are_one`.
-/
import TensorProgram.Proofs.Kernel.Operands
import TensorProgram.Scalar.Binary32

namespace TensorProgram

variable {α : Type} [Scalar α] {c c' : Context α} {src filter bias out : View α}

open Context (updateGrad Deposits deposits_updateGrad writesTo_nil writesTo_cons
  writesTo_flatMap weights_of_floats of_ensureGrad_ok)
open Run (Performs performs_pure liftM_check_ok exists_of_bind_ok exists_of_check_ok get_bind_apply)
open Shape (flat)

/-- One addition is one write. -/
theorem Run.performs_modifyAt {n k : Nat} (hk : k < n) (a : α) :
    Performs accumulate (modifyAt k (accumulate · a) : Run (Vector α n) Unit) [(k, a)] where
  lt w hw := by
    obtain rfl := List.mem_singleton.mp hw
    exact hk
  run data := by
    rw [modifyAt_of_lt hk, applyWrites_cons, applyWrites_nil, applyWrite, dif_pos hk]

/-! ### Single additions to a gradient -/

namespace Context

variable {c₀ : Context α} {id dest : ValueId} {s : Shape} {ids : List ValueId}

/-- Bind gradients of scalars to all of these values. -/
def bindGrads (ids : List ValueId) : Run (Context α) Unit :=
  ids.forM fun id => updateGrad id fun _ => Tensor.onFloats fun _ => pure ()

/-- Add a number to one element of a gradient. -/
def addToGrad (id : ValueId) (position : Shape → Outcome Nat) (a : α) : Run (Context α) Unit :=
  updateGrad id fun _ => Tensor.onFloats fun s => do modifyAt (← position s) (accumulate · a)

theorem deposits_bindGrads (h : ∀ id ∈ ids, id ≠ dest ∧ ∃ s, c₀.HasGrad id s) :
    Deposits c₀ dest out accumulate (bindGrads ids) (ids.map fun id => (id, [])) := by
  rw [List.map_eq_flatMap]
  refine .forM fun id hid => ?_
  obtain ⟨hne, s, hgrad⟩ := h id hid
  exact deposits_updateGrad hne hgrad (fun _ _ _ => rfl) performs_pure

theorem deposits_addToGrad (hne : id ≠ dest) (hgrad : c₀.HasGrad id s)
    {position : Shape → Outcome Nat} {k : Nat} (hposition : position s = .ok k)
    (hk : k < s.elemCount) (a : α) :
    Deposits c₀ dest out accumulate (addToGrad id position a) [(id, [(k, a)])] := by
  refine deposits_updateGrad hne hgrad (fun _ _ _ => rfl) ?_
  rw [hposition, Run.liftM_ok, pure_bind]
  exact Run.performs_modifyAt hk a

/-- Adding at a coordinate inside the shape deposits at its position. -/
theorem deposits_addToGrad_inside (hne : id ≠ dest) (hgrad : c₀.HasGrad id s)
    {dims : List Nat} (hs : s = ⟨dims⟩) (coord : List Nat) (hin : Shape.Inside dims coord)
    (hlen : coord.length = dims.length) (a : α) :
    Deposits c₀ dest out accumulate (addToGrad id (·.position coord) a)
      [(id, [(flat dims coord, a)])] := by
  subst hs
  exact deposits_addToGrad hne hgrad (Shape.position_eq hin) (Shape.flat_lt hin hlen) a

/-- What is read of input, filter and the gradient of the output is the same before
and after deposits. -/
theorem Operands.deposits_read {isrc ifilter ibias : ValueId}
    {Fits : (src dest filter bias : Shape) → Prop}
    (h : c₀.Operands dest isrc ifilter ibias Fits src filter bias out)
    {f : (src filter out : View α) → Run (Context α) Unit} {ds : List (Deposit α)}
    (hf : Deposits c₀ dest out accumulate (f src filter out) ds) :
    Deposits c₀ dest out accumulate (do
      let ctx ← get
      let src ← ctx.floats isrc
      let filter ← ctx.floats ifilter
      let out ← ctx.gradFloats dest
      f src filter out) ds := by
  refine ⟨hf.ne, fun c' hserves => ?_⟩
  rw [get_bind_apply, floats_eq (hserves.weight h.src), floats_eq (hserves.weight h.filter),
    gradFloats_eq hserves.grad]
  simp only [liftM_check_ok, pure_bind]
  exact hf.run c' hserves

/-- Binding the gradient that is there, or its zeros, changes no answer. -/
theorem gradOrZeros_setGrad {g : Tensor α} (hg : c.gradOrZeros id = .ok g) (j : ValueId) :
    (c.setGrad id g).gradOrZeros j = c.gradOrZeros j := by
  by_cases hj : id = j
  · subst hj
    rw [gradOrZeros_of_grad grads_setGrad_self, hg]
  · exact gradOrZeros_congr rfl rfl (grads_setGrad_of_ne hj)

/-- What binds gradients of scalars has found such gradients, or zeros, and changes
no answer. -/
theorem of_bindGrads_ok (h : bindGrads ids c = .ok () c') : c'.weights = c.weights ∧
    (∀ j, c'.gradOrZeros j = c.gradOrZeros j) ∧
      ∀ id ∈ ids, ∃ g : View α, c.gradOrZeros id = .ok g.tensor := by
  induction ids generalizing c with
  | nil =>
      obtain ⟨-, rfl⟩ := EStateM.Result.ok.inj h
      exact ⟨rfl, fun _ => rfl, by simp⟩
  | cons id ids ih =>
      rw [bindGrads, Run.forM_cons] at h
      obtain ⟨_, c₁, hfirst, hrest⟩ := exists_of_bind_ok h
      obtain ⟨_, _, hg, hinner, rfl⟩ := of_updateGrad_ok hfirst
      obtain ⟨s, data, _, rfl, hpure, rfl⟩ := Tensor.of_onFloats_ok hinner
      obtain ⟨-, rfl⟩ := EStateM.Result.ok.inj hpure
      obtain ⟨hweights, hgrads, hall⟩ := ih hrest
      -- what is bound is what was answered before, so no answer changes
      have hsame := gradOrZeros_setGrad hg
      refine ⟨hweights, fun j => (hgrads j).trans (hsame j), List.forall_mem_cons.mpr
        ⟨⟨⟨s, data⟩, hg⟩, fun j hj => ?_⟩⟩
      rw [← hsame j]
      exact hall j hj

/-- With all gradients bound, what is read of weights and of the gradient of the
output makes the operands. -/
theorem exists_operands_of_read {idest isrc ifilter ibias : ValueId}
    {Fits : (src dest filter bias : Shape) → Prop} {g : Tensor α} (hc : c.Mirrored)
    (hfits : ∃ s t u v, c.shapeOf isrc = .ok s ∧ c.shapeOf idest = .ok t ∧
      c.shapeOf ifilter = .ok u ∧ c.shapeOf ibias = .ok v ∧ Fits s t u v)
    (hg : c.gradOrZeros idest = .ok g) (hbind : bindGrads ids (c.setGrad idest g) = .ok () c')
    (hbias : ibias ∈ ids) (hsrc : c'.floats isrc = .ok src)
    (hfilter : c'.floats ifilter = .ok filter) (hout : c'.gradFloats idest = .ok out) :
    ∃ bias, c.Operands idest isrc ifilter ibias Fits src filter bias out := by
  obtain ⟨hweights, hgrads, hfloats⟩ := of_bindGrads_ok hbind
  have hread {id : ValueId} {v : View α} (h : c'.floats id = .ok v) :
      c.weights[id]? = some v.tensor :=
    (congrArg (·[id]?) hweights).symm.trans (weights_of_floats h)
  have hkept (j : ValueId) : c'.gradOrZeros j = c.gradOrZeros j :=
    (hgrads j).trans (gradOrZeros_setGrad hg j)
  have hdest : c.gradOrZeros idest = .ok out.tensor := by
    rw [← hkept, gradOrZeros_of_grad (grads_of_gradFloats hout)]
  obtain ⟨gb, hgb⟩ := hfloats ibias hbias
  exact exists_operands hc hfits (hread hsrc) (hread hfilter) hdest
    ((gradOrZeros_setGrad hg ibias).symm.trans hgb)

end Context

open Context (addToGrad bindGrads deposits_addToGrad deposits_addToGrad_inside deposits_bindGrads)

/-! ### Convolutions -/

namespace Convolution

variable (i : Convolution) (source : FilterGradSource)

/-- One pass over the outputs: at each the bias gradient is added to, and at every
tap and input channel the filter gradient and then the input gradient. -/
def addOnce (dims : ImageDims) (src filter out : View α) : Run (Context α) Unit :=
  (i.window.sites dims.output).forM fun o => do
    let g ← out.get o.coord
    addToGrad i.bias (·.position [o.d]) g
    (i.window.channelTaps o.anchor dims.input).forM fun t => do
      addToGrad i.filter (·.position (t.inFilter o.d))
        ((← src.get (t.inImage (source.image o.n))) * g)
      addToGrad i.src (·.position (t.inImage o.n)) ((← filter.get (t.inFilter o.d)) * g)

/-- The way back in one pass. -/
def backwardOnce : Run (Context α) Unit := do
  let dims ← i.dims (← get)
  Context.change (·.ensureGrad i.dest)
  let outGrad ← (← get).grad i.dest
  requireSameShape "convolution output gradient" dims.output.toShape outGrad.shape
  bindGrads [i.filter, i.src, i.bias]
  let ctx ← get
  let src ← ctx.floats i.src
  let filter ← ctx.floats i.filter
  let out ← ctx.gradFloats i.dest
  i.addOnce source dims src filter out

/-- The contributions of one pass, in its order. -/
def onceDeposits (d : ImageDims) (src filter out : View α) : List (Deposit α) :=
  (i.window.sites d.output).flatMap fun o =>
    (i.bias, [(flat [d.output.c] [o.d], out.elem o.coord)]) ::
      (i.window.channelTaps o.anchor d.input).flatMap fun t =>
        [(i.filter, [(flat [d.output.c, i.window.kernel, i.window.kernel, d.input.c] (t.inFilter o.d),
          src.elem (t.inImage (source.image o.n)) * out.elem o.coord)]),
          (i.src, [(flat d.input.toShape.dims (t.inImage o.n),
            filter.elem (t.inFilter o.d) * out.elem o.coord)])]

/-- All contributions of the way back in one pass: first every gradient is bound. -/
def allOnce (d : ImageDims) (src filter out : View α) : List (Deposit α) :=
  [(i.dest, []), (i.filter, []), (i.src, []), (i.bias, [])]
    ++ i.onceDeposits source d src filter out

variable {i source} {d : ImageDims} (hc : c.Mirrored)
  (hids : [i.dest, i.src, i.filter, i.bias].Nodup)

include hc hids

theorem Operands.deposits_addOnce (h : i.Operands c d src filter bias out) :
    Deposits c i.dest out accumulate (i.addOnce source d src filter out)
      (i.onceDeposits source d src filter out) := by
  obtain ⟨hds, hdf, hdb, -⟩ := ne_of_nodup_four hids
  refine .forM fun o ho => ?_
  rw [get_site h.fits.dest ho, Run.liftM_ok, pure_bind]
  have hn : o.n < d.input.n := i.site_lt ho h.fits
  have himage : source.image o.n < d.input.n := source.image_lt hn
  -- the bias once at the site, then filter and input at every tap
  refine (deposits_addToGrad_inside hdb.symm (hc.hasGrad h.bias) h.fits.bias [o.d] ?_ rfl _).bind
    (.forM fun t ht => ?_)
  · exact ⟨(i.window.mem_sites.mp ho).2.1, Shape.inside_nil _⟩
  · rw [i.get_src ht h.fits himage, i.get_filter ho ht h.fits]
    simp only [Run.liftM_ok, pure_bind]
    refine (deposits_addToGrad_inside hdf.symm (hc.hasGrad h.filter) h.fits.filter
        (t.inFilter o.d) ?_ rfl _).bind
      (deposits_addToGrad_inside hds.symm (hc.hasGrad h.src) h.fits.src (t.inImage o.n) ?_ rfl _)
    · exact i.inside_inFilter ho ht
    · exact i.inside_inImage ht hn

/-- Over its operands the one pass makes its deposits. -/
theorem Operands.backwardOnce_eq (h : i.Operands c d src filter bias out) :
    i.backwardOnce source c = .ok () (c.deposits accumulate (i.allOnce source d src filter out)) := by
  obtain ⟨hds, hdf, hdb, -⟩ := ne_of_nodup_four hids
  rw [backwardOnce, get_bind_apply, h.dims_eq, liftM_check_ok, pure_bind]
  apply Deposits.backward h.out
  have hbound : ∀ id ∈ [i.filter, i.src, i.bias], id ≠ i.dest ∧ ∃ s, c.HasGrad id s := by
    simp only [List.forall_mem_cons]
    exact ⟨⟨hdf.symm, _, hc.hasGrad h.filter⟩, ⟨hds.symm, _, hc.hasGrad h.src⟩,
      ⟨hdb.symm, _, hc.hasGrad h.bias⟩, by simp⟩
  have honce : Deposits c i.dest out accumulate (i.addOnce source d src filter out) _ :=
    h.deposits_addOnce hc hids
  have hstages := (deposits_bindGrads hbound).bind (h.deposits_read honce)
  refine ⟨hstages.ne, fun c' hserves => ?_⟩
  rw [get_bind_apply, Context.grad_eq hserves.grad, liftM_check_ok, pure_bind,
    show out.tensor.shape = d.output.toShape from h.fits.dest, requireSameShape_self,
    liftM_check_ok, pure_bind]
  exact hstages.run c' hserves

/-- Each gradient receives in the one pass what it receives in its own. -/
theorem Operands.regroup (h : i.Operands c d src filter bias out) :
    c.deposits accumulate (i.allOnce source d src filter out)
      = c.deposits accumulate [(i.dest, []), (i.filter, i.filterTerms source d src out),
          (i.src, i.inputTerms d filter out), (i.bias, i.biasTerms d out)] := by
  obtain ⟨hds, hdf, hdb, hsf, hsb, hfb⟩ := ne_of_nodup_four hids
  refine Context.deposits_regroup [(i.dest, []), (i.filter, i.filterTerms source d src out),
    (i.src, i.inputTerms d filter out), (i.bias, i.biasTerms d out)] (fun e he => ?_) ?_ ?_
  · obtain ⟨o, -, he⟩ := List.mem_flatMap.mp he
    rcases List.mem_cons.mp he with rfl | he
    · simp
    · obtain ⟨t, -, he⟩ := List.mem_flatMap.mp he
      simp only [List.mem_cons, List.not_mem_nil, or_false] at he
      rcases he with rfl | rfl <;> simp
  · simp only [List.map_cons, List.map_nil, List.forall_mem_cons]
    exact ⟨⟨_, _, h.out⟩, ⟨_, hc.hasGrad h.filter⟩, ⟨_, hc.hasGrad h.src⟩, ⟨_, hc.hasGrad h.bias⟩,
      by simp⟩
  · simp only [List.map_cons, List.map_nil, List.forall_mem_cons, onceDeposits, writesTo_flatMap,
      writesTo_cons, writesTo_nil]
    -- to each value the visits of the one pass write what its own pass writes
    refine ⟨?_, ?_, ?_, ?_, by simp⟩
    · simp [hds.symm, hdf.symm, hdb.symm]
    · simp [hdf, hsf, hfb.symm, filterTerms, List.map_eq_flatMap]
    · simp [hds, hsf.symm, hsb.symm, inputTerms, List.map_eq_flatMap]
    · have hnone (a : Anchor) : ((i.window.channelTaps a d.input).flatMap
          fun _ => ([] : List (Nat × α))) = [] := List.flatMap_eq_nil_iff.mpr fun _ _ => rfl
      simp [hdb, hsb, hfb, hnone, biasTerms, List.map_eq_flatMap]

omit hids in
/-- One pass that succeeds has found its operands. -/
theorem exists_operands_of_backwardOnce (hrun : i.backwardOnce source c = .ok () c') :
    ∃ (d : ImageDims) (src filter bias out : View α), i.Operands c d src filter bias out := by
  rw [backwardOnce, get_bind_apply] at hrun
  obtain ⟨d, hd, hrun⟩ := exists_of_check_ok hrun
  obtain ⟨_, c₁, hensure, hrun⟩ := exists_of_bind_ok hrun
  obtain ⟨g, hg, rfl⟩ := of_ensureGrad_ok hensure
  rw [get_bind_apply] at hrun
  obtain ⟨_, -, hrun⟩ := exists_of_check_ok hrun
  obtain ⟨_, -, hrun⟩ := exists_of_check_ok hrun
  obtain ⟨_, c₂, hbind, hrun⟩ := exists_of_bind_ok hrun
  rw [get_bind_apply] at hrun
  obtain ⟨src, hsrc, hrun⟩ := exists_of_check_ok hrun
  obtain ⟨filter, hfilter, hrun⟩ := exists_of_check_ok hrun
  obtain ⟨out, hout, -⟩ := exists_of_check_ok hrun
  obtain ⟨bias, h⟩ := Context.exists_operands_of_read hc (fits_of_dims hd) hg hbind (by simp)
    hsrc hfilter hout
  exact ⟨d, src, filter, bias, out, h⟩

/-- A convolution runs back in one pass as it does in three. -/
theorem backward_eq_ok_iff :
    i.backward source c = .ok () c' ↔ i.backwardOnce source c = .ok () c' := by
  have hboth {d : ImageDims} {src filter bias out : View α}
      (h : i.Operands c d src filter bias out) : i.backward source c = i.backwardOnce source c := by
    rw [h.backward_eq hc hids, h.backwardOnce_eq hc hids, h.regroup hc hids]
  constructor
  · intro hrun
    obtain ⟨_, _, _, _, _, h⟩ := exists_operands_of_backward hc hids hrun
    rwa [hboth h] at hrun
  · intro hrun
    obtain ⟨_, _, _, _, _, h⟩ := exists_operands_of_backwardOnce hc hrun
    rwa [← hboth h] at hrun

end Convolution

/-! ### Affine maps -/

namespace FullyConnected

variable (i : FullyConnected)

/-- One pass over rows and outputs: at each the bias gradient is added to, and at
every input the filter gradient and then the input gradient. -/
def addOnce (dims : Dims) (src filter out : View α) : Run (Context α) Unit :=
  forOutputs dims src.shape out fun start j g => do
    addToGrad i.bias (·.position [j]) g
    (List.range dims.inputs).forM fun k => do
      addToGrad i.filter (·.position [j, k]) ((← src.raw (start + k)) * g)
      addToGrad i.src (fun _ => atPosition (start + k)) ((← filter.get [j, k]) * g)

/-- The way back in one pass. -/
def backwardOnce : Run (Context α) Unit := do
  let dims ← i.dims (← get)
  Context.change (·.ensureGrad i.dest)
  bindGrads [i.src, i.filter, i.bias]
  let ctx ← get
  let src ← ctx.floats i.src
  let filter ← ctx.floats i.filter
  let out ← ctx.gradFloats i.dest
  i.addOnce dims src filter out

/-- The contributions of one pass, in its order. -/
def onceDeposits (d : Dims) (src filter out : View α) : List (Deposit α) :=
  (List.range d.batch).flatMap fun n => (List.range d.outputs).flatMap fun j =>
    (i.bias, [(flat [d.outputs] [j], out.entry (n * d.outputs + j))]) ::
      (List.range d.inputs).flatMap fun k =>
        [(i.filter, [(flat [d.outputs, d.inputs] [j, k],
            src.entry (n * d.inputs + k) * out.entry (n * d.outputs + j))]),
          (i.src, [(n * d.inputs + k, filter.elem [j, k] * out.entry (n * d.outputs + j))])]

/-- All contributions of the way back in one pass: first every gradient is bound. -/
def allOnce (d : Dims) (src filter out : View α) : List (Deposit α) :=
  [(i.dest, []), (i.src, []), (i.filter, []), (i.bias, [])] ++ i.onceDeposits d src filter out

variable {i} {d : Dims}

/-- A walk over rows and outputs makes the deposits of its visits. -/
theorem deposits_forOutputs {c₀ : Context α} {dest : ValueId} {s : Shape}
    {visit : (start j : Nat) → α → Run (Context α) Unit} {ds : (n j : Nat) → List (Deposit α)}
    (hs : IsRows s d.batch d.inputs) (hout : IsRows out.shape d.batch d.outputs)
    (h : ∀ n < d.batch, ∀ j < d.outputs, Deposits c₀ dest out accumulate
      (visit (n * d.inputs) j (out.entry (n * d.outputs + j))) (ds n j)) :
    Deposits c₀ dest out accumulate (forOutputs d s out visit)
      ((List.range d.batch).flatMap fun n => (List.range d.outputs).flatMap fun j => ds n j) := by
  rw [forOutputs_eq hs hout]
  refine .forM fun n hn => .forM fun j hj => ?_
  exact h n (List.mem_range.mp hn) j (List.mem_range.mp hj)

variable (hc : c.Mirrored) (hids : [i.dest, i.src, i.filter, i.bias].Nodup)

include hc hids

theorem Operands.deposits_addOnce (h : i.Operands c d src filter bias out) :
    Deposits c i.dest out accumulate (i.addOnce d src filter out)
      (i.onceDeposits d src filter out) := by
  obtain ⟨hds, hdf, hdb, -⟩ := ne_of_nodup_four hids
  refine deposits_forOutputs h.fits.src h.fits.dest fun n hn j hj => ?_
  refine (deposits_addToGrad_inside hdb.symm (hc.hasGrad h.bias) h.fits.bias [j] ?_ rfl _).bind
    (.forM fun k hk => ?_)
  · exact ⟨hj, Shape.inside_nil _⟩
  · have hk' : k < d.inputs := List.mem_range.mp hk
    rw [raw_src h.fits hn hk', elem_filter h.fits hj hk']
    simp only [Run.liftM_ok, pure_bind]
    refine (deposits_addToGrad_inside hdf.symm (hc.hasGrad h.filter) h.fits.filter
        [j, k] ?_ rfl _).bind
      (deposits_addToGrad hds.symm (hc.hasGrad h.src) rfl ?_ _)
    · exact ⟨hj, hk', Shape.inside_nil _⟩
    · rw [h.fits.src.elemCount]
      exact mul_add_lt_mul hn hk'

/-- Over its operands the one pass makes its deposits. -/
theorem Operands.backwardOnce_eq (h : i.Operands c d src filter bias out) :
    i.backwardOnce c = .ok () (c.deposits accumulate (i.allOnce d src filter out)) := by
  obtain ⟨hds, hdf, hdb, -⟩ := ne_of_nodup_four hids
  rw [backwardOnce, get_bind_apply, h.dims_eq, liftM_check_ok, pure_bind]
  have hbound : ∀ id ∈ [i.src, i.filter, i.bias], id ≠ i.dest ∧ ∃ s, c.HasGrad id s := by
    simp only [List.forall_mem_cons]
    exact ⟨⟨hds.symm, _, hc.hasGrad h.src⟩, ⟨hdf.symm, _, hc.hasGrad h.filter⟩,
      ⟨hdb.symm, _, hc.hasGrad h.bias⟩, by simp⟩
  exact Deposits.backward h.out
    ((deposits_bindGrads hbound).bind (h.deposits_read (h.deposits_addOnce hc hids)))

/-- Each gradient receives in the one pass what it receives in its own. -/
theorem Operands.regroup (h : i.Operands c d src filter bias out) :
    c.deposits accumulate (i.allOnce d src filter out)
      = c.deposits accumulate [(i.dest, []), (i.src, inputTerms d filter out),
          (i.filter, filterTerms d src out), (i.bias, biasTerms d out)] := by
  obtain ⟨hds, hdf, hdb, hsf, hsb, hfb⟩ := ne_of_nodup_four hids
  refine Context.deposits_regroup [(i.dest, []), (i.src, inputTerms d filter out),
    (i.filter, filterTerms d src out), (i.bias, biasTerms d out)] (fun e he => ?_) ?_ ?_
  · -- every deposit of the pass goes to one of the three gradients
    obtain ⟨n, -, he⟩ := List.mem_flatMap.mp he
    obtain ⟨j, -, he⟩ := List.mem_flatMap.mp he
    rcases List.mem_cons.mp he with rfl | he
    · simp
    · obtain ⟨k, -, he⟩ := List.mem_flatMap.mp he
      simp only [List.mem_cons, List.not_mem_nil, or_false] at he
      rcases he with rfl | rfl <;> simp
  · simp only [List.map_cons, List.map_nil, List.forall_mem_cons]
    exact ⟨⟨_, _, h.out⟩, ⟨_, hc.hasGrad h.src⟩, ⟨_, hc.hasGrad h.filter⟩, ⟨_, hc.hasGrad h.bias⟩,
      by simp⟩
  · simp only [List.map_cons, List.map_nil, List.forall_mem_cons, onceDeposits, writesTo_flatMap,
      writesTo_cons, writesTo_nil]
    refine ⟨?_, ?_, ?_, ?_, by simp⟩
    · simp [hds.symm, hdf.symm, hdb.symm]
    · simp [hds, hsf.symm, hsb.symm, inputTerms, forCells, List.map_eq_flatMap]
    · simp [hdf, hsf, hfb.symm, filterTerms, forCells, List.map_eq_flatMap]
    · have hnone : ((List.range d.inputs).flatMap fun _ => ([] : List (Nat × α))) = [] :=
        List.flatMap_eq_nil_iff.mpr fun _ _ => rfl
      simp [hdb, hsb, hfb, hnone, biasTerms, List.map_eq_flatMap]

omit hids in
/-- One pass that succeeds has found its operands. -/
theorem exists_operands_of_backwardOnce (hrun : i.backwardOnce c = .ok () c') :
    ∃ (d : Dims) (src filter bias out : View α), i.Operands c d src filter bias out := by
  rw [backwardOnce, get_bind_apply] at hrun
  obtain ⟨d, hd, hrun⟩ := exists_of_check_ok hrun
  obtain ⟨_, c₁, hensure, hrun⟩ := exists_of_bind_ok hrun
  obtain ⟨g, hg, rfl⟩ := of_ensureGrad_ok hensure
  obtain ⟨_, c₂, hbind, hrun⟩ := exists_of_bind_ok hrun
  rw [get_bind_apply] at hrun
  obtain ⟨src, hsrc, hrun⟩ := exists_of_check_ok hrun
  obtain ⟨filter, hfilter, hrun⟩ := exists_of_check_ok hrun
  obtain ⟨out, hout, -⟩ := exists_of_check_ok hrun
  obtain ⟨bias, h⟩ := Context.exists_operands_of_read hc (fits_of_dims hd) hg hbind (by simp)
    hsrc hfilter hout
  exact ⟨d, src, filter, bias, out, h⟩

/-- An affine map runs back in one pass as it does in three. -/
theorem backward_eq_ok_iff : i.backward c = .ok () c' ↔ i.backwardOnce c = .ok () c' := by
  have hboth {d : Dims} {src filter bias out : View α}
      (h : i.Operands c d src filter bias out) : i.backward c = i.backwardOnce c := by
    rw [h.backward_eq hc hids, h.backwardOnce_eq hc hids, h.regroup hc hids]
  constructor
  · intro hrun
    obtain ⟨_, _, _, _, _, h⟩ := exists_operands_of_backward hc hids hrun
    rwa [hboth h] at hrun
  · intro hrun
    obtain ⟨_, _, _, _, _, h⟩ := exists_operands_of_backwardOnce hc hrun
    rwa [← hboth h] at hrun

end FullyConnected

/-- **Separate passes are one pass.**  In a context whose gradients mirror its
weights, a convolution and an affine map over four values run back in their three
passes exactly as they would in a single one that adds to all three gradients on
the way, and leave the same context: every element receives the same additions in
the same order, so this holds of scalars without any law. -/
theorem separate_passes_are_one (i : Convolution) (j : FullyConnected)
    (source : FilterGradSource) (hc : c.Mirrored) :
    ([i.dest, i.src, i.filter, i.bias].Nodup →
      ∀ c', i.backward source c = .ok () c' ↔ i.backwardOnce source c = .ok () c') ∧
    ([j.dest, j.src, j.filter, j.bias].Nodup →
      ∀ c', j.backward c = .ok () c' ↔ j.backwardOnce c = .ok () c') :=
  ⟨fun hids _ => Convolution.backward_eq_ok_iff hc hids,
    fun hids _ => FullyConnected.backward_eq_ok_iff hc hids⟩

/-- A window of side two that moves by one. -/
def slidingPair : Convolution := ⟨0, 1, 2, 3, ⟨2, 1, 0⟩⟩

/-- A map of pairs to single numbers. -/
def weightedPair : FullyConnected := ⟨4, 5, 6, 7⟩

/-- A row under two windows, two pairs, and gradients for what is made of them. -/
def rowAndPairs : Context Float32 :=
  (((((((((({} : Context Float32).setWeight 0 (.full 0 ⟨[1, 1, 2, 1]⟩)).setWeight 1
    (.full 3 ⟨[1, 2, 3, 1]⟩)).setWeight 2 (.full 5 ⟨[1, 2, 2, 1]⟩)).setWeight 3
    (.full 7 ⟨[1]⟩)).setWeight 4 (.full 0 ⟨[2, 1]⟩)).setWeight 5 (.full 3 ⟨[2, 2]⟩)).setWeight 6
    (.full 5 ⟨[1, 2]⟩)).setWeight 7 (.full 7 ⟨[1]⟩)).setGrad 0 (.full 1 ⟨[1, 1, 2, 1]⟩)).setGrad 4
    (.full 1 ⟨[2, 1]⟩)

theorem mirrored_rowAndPairs : rowAndPairs.Mirrored := by
  refine Context.Mirrored.setGrad (.setGrad (fun _ _ _ _ hg => ?_) fun t ht => ?_) fun t ht => ?_
  · cases hg
  · obtain rfl := Option.some.inj ht
    rfl
  · obtain rfl := Option.some.inj ht
    rfl

theorem separate_passes_are_one_rowAndPairs : ∃ c d : Context Float32,
    slidingPair.backward .currentBatch rowAndPairs = .ok () c ∧
      slidingPair.backwardOnce .currentBatch rowAndPairs = .ok () c ∧
      weightedPair.backward rowAndPairs = .ok () d ∧
      weightedPair.backwardOnce rowAndPairs = .ok () d := by
  obtain ⟨c, hc⟩ : ∃ c, slidingPair.backward .currentBatch rowAndPairs = .ok () c := ⟨_, rfl⟩
  obtain ⟨d, hd⟩ : ∃ d, weightedPair.backward rowAndPairs = .ok () d := ⟨_, rfl⟩
  obtain ⟨hconv, haffine⟩ :=
    separate_passes_are_one slidingPair weightedPair .currentBatch mirrored_rowAndPairs
  exact ⟨c, d, hc, (hconv (by decide) c).mp hc, hd, (haffine (by decide) d).mp hd⟩

end TensorProgram
