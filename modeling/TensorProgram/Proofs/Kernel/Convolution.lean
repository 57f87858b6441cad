/-
TensorProgram/Proofs/Kernel/Convolution.lean

What a convolution computes.  Forward it writes one value at every site of the
output (`Convolution.forward_eq`).  The way back makes three deposits, to filter,
input and bias; each visits the taps of every site (`Convolution.backward_eq`).
-/
import TensorProgram.Proofs.Kernel.Elementwise
import TensorProgram.Proofs.Window

namespace TensorProgram

variable {α : Type} [Scalar α]

open Context (grad_eq shapeOf_eq floats_of_weights_eq floats_withoutWeight gradFloats_eq
  updateWeight_fills Deposits deposits_updateGrad)
open Run (Performs performs_scatter_inside liftM_check_ok)
open Shape (flat)

/-- The position of a site in the buffer of the output. -/
def OutputSite.position (output : NHWC) (o : OutputSite) : Nat := flat output.toShape.dims o.coord

/-- The image that the filter gradient reads is an image of the batch. -/
theorem FilterGradSource.image_lt {n batch : Nat} (source : FilterGradSource) (hn : n < batch) :
    source.image n < batch := by
  cases source with
  | firstBatch => exact Nat.zero_lt_of_lt hn
  | currentBatch => exact hn

/-! ### Walks over sites -/

section Sites

variable {win : Window} {output : NHWC} {s : Shape} {v : View α}

theorem get_site {o : OutputSite} (hv : v.shape = output.toShape) (ho : o ∈ win.sites output) :
    v.get o.coord = .ok (v.elem o.coord) := by
  refine v.get_eq ?_ ?_
  · rw [hv]
    exact win.inside_site ho
  · rw [hv]
    rfl

omit [Scalar α] in
/-- One value for every site of the output. -/
theorem performs_sites {combine : α → α → α} {value : OutputSite → Outcome α}
    {f : OutputSite → α} (hs : s = output.toShape)
    (hvalue : ∀ o ∈ win.sites output, value o = .ok (f o)) :
    Performs combine (scatter combine (win.sites output) (s.position ·.coord) value :
      Run (Vector α s.elemCount) Unit)
      ((win.sites output).map fun o => (o.position output, f o)) :=
  performs_scatter_inside hs hvalue (fun _ ho => win.inside_site ho) fun _ _ => rfl

omit [Scalar α] in
/-- Values for the sites of the output leave no position out. -/
theorem mem_fst_sites {f : OutputSite → α} (hs : s = output.toShape) {k : Nat}
    (hk : k < s.elemCount) :
    k ∈ ((win.sites output).map fun o => (o.position output, f o)).map Prod.fst := by
  rw [List.map_map]
  subst hs
  exact win.perm_sites.mem_iff.mpr (List.mem_range.mpr hk)

/-- Filled site by site, a buffer has the value for every site at its coordinate. -/
theorem elem_sites (f : OutputSite → α) (hs : s = output.toShape) {o : OutputSite}
    (ho : o ∈ win.sites output) :
    (View.mk s (filled _ ((win.sites output).map fun o => (o.position output, f o)))).elem o.coord
      = f o := by
  subst hs
  have hnodup :
      (((win.sites output).map fun o => (o.position output, f o)).map Prod.fst).Nodup := by
    rw [List.map_map]
    exact win.perm_sites.nodup_iff.mpr List.nodup_range
  exact View.entry_filled hnodup (List.mem_map.mpr ⟨o, ho, rfl⟩) (win.flat_site_lt ho)

end Sites

namespace Convolution

/-- The shapes of input, output, filter and bias fit these extents. -/
structure Fits (win : Window) (d : ImageDims) (src dest filter bias : Shape) : Prop where
  /-- The input. -/
  src : src = d.input.toShape
  /-- The output. -/
  dest : dest = d.output.toShape
  /-- There are as many images in as out. -/
  batch : d.input.n = d.output.n
  /-- The filter has an image of the window's size for every output channel. -/
  filter : filter = ⟨[d.output.c, win.kernel, win.kernel, d.input.c]⟩
  /-- The bias has an entry for every output channel. -/
  bias : bias = ⟨[d.output.c]⟩

variable (i : Convolution) {c : Context α} {src filter bias out : View α} {dest : Shape}
  {d : ImageDims}

omit [Scalar α] in
theorem dims_eq {t u v w : Tensor α} (hsrc : c.weights[i.src]? = some t)
    (hdest : c.weights[i.dest]? = some u) (hfilter : c.weights[i.filter]? = some v)
    (hbias : c.weights[i.bias]? = some w)
    (h : Fits i.window d t.shape u.shape v.shape w.shape) : i.dims c = .ok d := by
  have hbatch : ¬ d.input.n ≠ d.output.n := fun hne => hne h.batch
  rw [dims, shapeOf_eq hsrc, shapeOf_eq hdest, shapeOf_eq hfilter, shapeOf_eq hbias, h.src, h.dest,
    h.filter, h.bias]
  simp only [Except.ok_bind, NHWC.ofDims_toShape, requireSameShape_self, if_neg hbatch]
  rfl

/-! ### Elements under a window -/

section Elements

variable {s r u v : Shape} {o : OutputSite} {t : ChannelTap} (ho : o ∈ i.window.sites d.output)
  (ht : t ∈ i.window.channelTaps o.anchor d.input)

include ht in
theorem inside_inImage {n : Nat} (hn : n < d.input.n) :
    Shape.Inside d.input.toShape.dims (t.inImage n) := by
  obtain ⟨htap, hc⟩ := i.window.mem_channelTaps ht
  obtain ⟨-, -, hx, hy⟩ := i.window.mem_taps htap
  exact ⟨hn, hx, hy, hc, Shape.inside_nil _⟩

include ho ht in
theorem inside_inFilter :
    Shape.Inside [d.output.c, i.window.kernel, i.window.kernel, d.input.c] (t.inFilter o.d) := by
  obtain ⟨htap, hc⟩ := i.window.mem_channelTaps ht
  obtain ⟨hx, hy, -, -⟩ := i.window.mem_taps htap
  exact ⟨((i.window.mem_sites).mp ho).2.1, hx, hy, hc, Shape.inside_nil _⟩

include ht in
theorem get_src (h : Fits i.window d src.shape r u v) {n : Nat} (hn : n < d.input.n) :
    src.get (t.inImage n) = .ok (src.elem (t.inImage n)) := by
  refine src.get_eq ?_ ?_
  · rw [h.src]
    exact i.inside_inImage ht hn
  · rw [h.src]
    rfl

include ho ht in
theorem get_filter (h : Fits i.window d s r filter.shape v) :
    filter.get (t.inFilter o.d) = .ok (filter.elem (t.inFilter o.d)) := by
  refine filter.get_eq ?_ ?_
  · rw [h.filter]
    exact i.inside_inFilter ho ht
  · rw [h.filter]
    rfl

omit [Scalar α] in
include ho in
theorem site_lt (h : Fits i.window d s r u v) : o.n < d.input.n := by
  rw [h.batch]
  exact ((i.window.mem_sites).mp ho).1

end Elements

/-! ### Forward -/

/-- The element of the output at a site. -/
def cell (d : ImageDims) (src filter bias : View α) (o : OutputSite) : α :=
  Scalar.sum ((i.window.channelTaps o.anchor d.input).map fun t =>
    filter.elem (t.inFilter o.d) * src.elem (t.inImage o.n)) + bias.elem [o.d]

theorem value_eq (h : Fits i.window d src.shape dest filter.shape bias.shape) {o : OutputSite}
    (ho : o ∈ i.window.sites d.output) :
    i.value src filter bias d.input o = .ok (i.cell d src filter bias o) := by
  have hproducts : (i.window.channelTaps o.anchor d.input).mapM (fun t => do
      return (← filter.get (t.inFilter o.d)) * (← src.get (t.inImage o.n)) : ChannelTap → Outcome α)
      = .ok ((i.window.channelTaps o.anchor d.input).map fun t =>
          filter.elem (t.inFilter o.d) * src.elem (t.inImage o.n)) := by
    refine Outcome.mapM_eq_ok fun t ht => ?_
    rw [i.get_filter ho ht h, i.get_src ht h (i.site_lt ho h)]
    rfl
  have hbias : bias.get [o.d] = .ok (bias.elem [o.d]) := by
    refine bias.get_eq ?_ ?_
    · rw [h.bias]
      exact ⟨((i.window.mem_sites).mp ho).2.1, Shape.inside_nil _⟩
    · rw [h.bias]
      rfl
  rw [value, hproducts, Except.ok_bind, hbias]
  rfl

/-- What a convolution writes, site by site. -/
def writes (d : ImageDims) (src filter bias : View α) : List (Nat × α) :=
  (i.window.sites d.output).map fun o => (o.position d.output, i.cell d src filter bias o)

/-- The output of a convolution. -/
theorem forward_eq {old : Vector α dest.elemCount} (hsrc : c.weights[i.src]? = some src.tensor)
    (hfilter : c.weights[i.filter]? = some filter.tensor)
    (hbias : c.weights[i.bias]? = some bias.tensor)
    (hdest : c.weights[i.dest]? = some ⟨dest, .float old⟩) (hs : i.dest ≠ i.src)
    (hf : i.dest ≠ i.filter) (hb : i.dest ≠ i.bias)
    (h : Fits i.window d src.shape dest filter.shape bias.shape) :
    i.forward c = .ok () (c.setWeight i.dest
      ⟨dest, .float (filled _ (i.writes d src filter bias))⟩) := by
  rw [forward, Run.get_bind_apply, i.dims_eq hsrc hdest hfilter hbias h, liftM_check_ok, pure_bind]
  apply updateWeight_fills hdest
  · rw [floats_withoutWeight hs hsrc, floats_withoutWeight hf hfilter, floats_withoutWeight hb hbias]
    simp only [liftM_check_ok, pure_bind]
    rfl
  · exact (performs_sites h.dest fun o ho => i.value_eq h ho).fills fun k hk =>
      mem_fst_sites h.dest hk

/-! ### Backward -/

/-- The contributions to the filter gradient. -/
def filterTerms (source : FilterGradSource) (d : ImageDims) (src out : View α) :
    List (Nat × α) :=
  (i.window.sites d.output).flatMap fun o =>
    (i.window.channelTaps o.anchor d.input).map fun t =>
      (flat [d.output.c, i.window.kernel, i.window.kernel, d.input.c] (t.inFilter o.d),
        src.elem (t.inImage (source.image o.n)) * out.elem o.coord)

/-- The contributions to the input gradient. -/
def inputTerms (d : ImageDims) (filter out : View α) : List (Nat × α) :=
  (i.window.sites d.output).flatMap fun o =>
    (i.window.channelTaps o.anchor d.input).map fun t =>
      (flat d.input.toShape.dims (t.inImage o.n), filter.elem (t.inFilter o.d) * out.elem o.coord)

/-- The contributions to the bias gradient. -/
def biasTerms (d : ImageDims) (out : View α) : List (Nat × α) :=
  (i.window.sites d.output).map fun o => (flat [d.output.c] [o.d], out.elem o.coord)

section Terms

variable {s t u : Shape} (hout : out.shape = dest)

include hout in
/-- Adding to the filter gradient. -/
theorem performs_filterTerms (h : Fits i.window d src.shape dest s t)
    (source : FilterGradSource) :
    Performs accumulate ((i.window.sites d.output).forM fun o => do
        let g ← out.get o.coord
        scatter accumulate (i.window.channelTaps o.anchor d.input)
          (fun t => s.position (t.inFilter o.d))
          fun t => do return (← src.get (t.inImage (source.image o.n))) * g :
        Run (Vector α s.elemCount) Unit)
      (i.filterTerms source d src out) := by
  refine Performs.forM fun o ho => ?_
  rw [get_site (hout.trans h.dest) ho, Run.liftM_ok, pure_bind]
  have hn : o.n < d.input.n := i.site_lt ho h
  have himage : source.image o.n < d.input.n := source.image_lt hn
  refine performs_scatter_inside h.filter (fun t ht => ?_)
    (fun t ht => i.inside_inFilter ho ht) fun _ _ => rfl
  rw [i.get_src ht h himage]
  rfl

include hout in
/-- Adding to the input gradient. -/
theorem performs_inputTerms (h : Fits i.window d s dest filter.shape u) :
    Performs accumulate ((i.window.sites d.output).forM fun o => do
        let g ← out.get o.coord
        scatter accumulate (i.window.channelTaps o.anchor d.input)
          (fun t => s.position (t.inImage o.n))
          fun t => do return (← filter.get (t.inFilter o.d)) * g : Run (Vector α s.elemCount) Unit)
      (i.inputTerms d filter out) := by
  refine Performs.forM fun o ho => ?_
  rw [get_site (hout.trans h.dest) ho, Run.liftM_ok, pure_bind]
  have hn : o.n < d.input.n := i.site_lt ho h
  refine performs_scatter_inside h.src (fun t ht => ?_)
    (fun t ht => i.inside_inImage ht hn) fun _ _ => rfl
  rw [i.get_filter ho ht h]
  rfl

include hout in
/-- Adding to the bias gradient. -/
theorem performs_biasTerms (h : Fits i.window d s dest t u) :
    Performs accumulate (scatter accumulate (i.window.sites d.output) (fun o => u.position [o.d])
        (out.get ·.coord) : Run (Vector α u.elemCount) Unit) (i.biasTerms d out) := by
  refine performs_scatter_inside h.bias (fun o ho => ?_) (fun o ho => ?_) fun _ _ => rfl
  · exact get_site (hout.trans h.dest) ho
  · exact ⟨((i.window.mem_sites).mp ho).2.1, Shape.inside_nil _⟩

end Terms

section Backward

variable {t : Tensor α} (hsrc : c.weights[i.src]? = some src.tensor)
  (hfilter : c.weights[i.filter]? = some filter.tensor)
  (hbias : c.weights[i.bias]? = some bias.tensor) (hdest : c.weights[i.dest]? = some t)
  (h : Fits i.window d src.shape t.shape filter.shape bias.shape) (hout : out.shape = t.shape)

include hsrc h hout in
theorem deposits_backwardFilter (source : FilterGradSource) (hne : i.filter ≠ i.dest)
    (hgrad : c.HasGrad i.filter filter.shape) :
    Deposits c i.dest out accumulate (i.backwardFilter source d)
      [(i.filter, i.filterTerms source d src out)] := by
  apply deposits_updateGrad hne hgrad
  · intro c' hweights hgrads
    rw [floats_of_weights_eq hweights hsrc, gradFloats_eq hgrads]
    simp only [liftM_check_ok, pure_bind]
    rfl
  · exact i.performs_filterTerms hout h source

include hfilter h hout in
theorem deposits_backwardInput (hne : i.src ≠ i.dest) (hgrad : c.HasGrad i.src src.shape) :
    Deposits c i.dest out accumulate (i.backwardInput d) [(i.src, i.inputTerms d filter out)] := by
  apply deposits_updateGrad hne hgrad
  · intro c' hweights hgrads
    rw [floats_of_weights_eq hweights hfilter, gradFloats_eq hgrads]
    simp only [liftM_check_ok, pure_bind]
    rfl
  · exact i.performs_inputTerms hout h

include h hout in
theorem deposits_backwardBias (hne : i.bias ≠ i.dest) (hgrad : c.HasGrad i.bias bias.shape) :
    Deposits c i.dest out accumulate (i.backwardBias d) [(i.bias, i.biasTerms d out)] := by
  apply deposits_updateGrad hne hgrad
  · intro c' _ hgrads
    rw [gradFloats_eq hgrads, liftM_check_ok, pure_bind]
  · exact i.performs_biasTerms hout h

include hsrc hfilter hbias hdest h in
/-- The contributions of a convolution, to filter, input and bias in this
order. -/
theorem backward_eq (source : FilterGradSource) (hs : i.src ≠ i.dest) (hf : i.filter ≠ i.dest)
    (hb : i.bias ≠ i.dest) (hgs : c.HasGrad i.src src.shape)
    (hgf : c.HasGrad i.filter filter.shape) (hgb : c.HasGrad i.bias bias.shape)
    (hout : c.gradOrZeros i.dest = .ok out.tensor) (houts : out.shape = t.shape) :
    i.backward source c = .ok () (c.deposits accumulate
      [(i.dest, []), (i.filter, i.filterTerms source d src out), (i.src, i.inputTerms d filter out),
        (i.bias, i.biasTerms d out)]) := by
  rw [backward, Run.get_bind_apply, i.dims_eq hsrc hdest hfilter hbias h, liftM_check_ok, pure_bind]
  apply Deposits.backward hout
  have hstages := (i.deposits_backwardFilter hsrc h houts source hf hgf).bind
    ((i.deposits_backwardInput hfilter h houts hs hgs).bind
      (i.deposits_backwardBias h houts hb hgb))
  refine ⟨hstages.ne, fun c' hserves => ?_⟩
  have hshape : out.tensor.shape = d.output.toShape := houts.trans h.dest
  rw [Run.get_bind_apply, grad_eq hserves.grad, liftM_check_ok, pure_bind, hshape,
    requireSameShape_self, liftM_check_ok, pure_bind]
  exact hstages.run c' hserves

end Backward

end Convolution

end TensorProgram
