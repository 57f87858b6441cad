/-
TensorProgram/Proofs/Kernel/OnePixel.lean

An affine map of rows is a convolution of images of one pixel.  A batch of rows
and a batch of images of one pixel, whose channels are the entries of the rows,
have the same elements in the same order, so they may share a buffer
(`Reshapes`).  A window of side one has one output position and one tap over such
an image (`Window.sites_pixel`, `Window.channelTaps_pixel`), and both kernels make
the same writes to the same positions in the same order
(`FullyConnected.writes_images` and its companions).

The kernels address their operands in different ways, one by the starts of rows
and one by coordinates with four entries; both come to the same position of the
buffer.  Only the forward products have their factors the other way round.

Main statement: `FullyConnected.is_one_pixel_convolution`.
-/
import TensorProgram.Proofs.Kernel.Operands
import TensorProgram.Proofs.Scalar.Exact

namespace TensorProgram

variable {α : Type} [Scalar α]

open Context (weights_of_weight weight_eq weights_setWeight_self weights_setWeight_of_ne writesTo
  writesTo_cons)
open Shape (flat)

/-! ### One buffer under two shapes -/

omit [Scalar α] in
/-- Making writes depends on nothing but the buffer. -/
theorem toList_applyWrites {n m : Nat} {x : Vector α n} {y : Vector α m}
    (combine : α → α → α) (ws : List (Nat × α)) (h : x.toList = y.toList) :
    (applyWrites combine ws x).toList = (applyWrites combine ws y).toList := by
  obtain rfl : n = m := by simpa using congrArg List.length h
  rw [Vector.toList_inj.mp h]

/-- Two views of one buffer, with these shapes. -/
structure Reshapes (s t : Shape) (x y : View α) : Prop where
  /-- The shape of the first. -/
  left : x.shape = s
  /-- The shape of the second. -/
  right : y.shape = t
  /-- The buffer. -/
  data : x.data.toList = y.data.toList

/-- Two readings answer tensors of scalars over one buffer, with these shapes. -/
def Reshaped (s t : Shape) (x y : Except Error (Tensor α)) : Prop :=
  ∃ v w : View α, x = .ok v.tensor ∧ y = .ok w.tensor ∧ Reshapes s t v w

section Reshapes

variable {s t : Shape} {x y : View α}

theorem View.entry_eq_getD (v : View α) (k : Nat) : v.entry k = v.data.toList.getD k 0 := by
  rw [entry, List.getD_eq_getElem?_getD]
  split
  case isTrue hk => simp [hk]
  case isFalse hk => simp [Nat.not_lt.mp hk]

theorem Reshapes.entry (h : Reshapes s t x y) (k : Nat) : x.entry k = y.entry k := by
  rw [x.entry_eq_getD, y.entry_eq_getD, h.data]

/-- Coordinates with one position have one element. -/
theorem Reshapes.elem (h : Reshapes s t x y) {c d : List Nat} (hpos : flat s.dims c = flat t.dims d) :
    x.elem c = y.elem d := by
  rw [View.elem, View.elem, h.left, h.right, hpos, h.entry]

/-- Filled by the same writes, the two views have one buffer again. -/
theorem Reshapes.filled (h : Reshapes s t x y) (ws : List (Nat × α)) :
    Reshapes s t ⟨x.shape, TensorProgram.filled _ ws⟩ ⟨y.shape, TensorProgram.filled _ ws⟩ where
  left := h.left
  right := h.right
  data := by
    have hlength : x.shape.elemCount = y.shape.elemCount := by
      simpa using congrArg List.length h.data
    exact toList_applyWrites overwrite ws (by simp [hlength])

/-- Deposits with the same writes to a value keep its gradients over one buffer. -/
theorem Reshaped.deposits {c e : Context α} {id : ValueId} {combine : α → α → α}
    {ds es : List (Deposit α)} (h : Reshaped s t (c.gradOrZeros id) (e.gradOrZeros id))
    (hds : id ∈ ds.map Prod.fst) (hes : id ∈ es.map Prod.fst)
    (hwrites : writesTo id ds = writesTo id es) :
    Reshaped s t ((c.deposits combine ds).grad id) ((e.deposits combine es).grad id) := by
  obtain ⟨x, y, hx, hy, rfl, rfl, hdata⟩ := h
  refine ⟨⟨x.shape, applyWrites combine (writesTo id ds) x.data⟩,
    ⟨y.shape, applyWrites combine (writesTo id ds) y.data⟩, ?_, ?_, rfl, rfl,
    toList_applyWrites combine _ hdata⟩
  · exact Context.grad_eq (Context.grads_deposits hx hds)
  · rw [hwrites]
    exact Context.grad_eq (Context.grads_deposits hy hes)

omit [Scalar α] in
/-- Binding another weight keeps weights over one buffer. -/
theorem Reshaped.setWeight {c e : Context α} {id a : ValueId} {u v : Tensor α}
    (h : Reshaped s t (c.weight id) (e.weight id)) (hne : a ≠ id) :
    Reshaped s t ((c.setWeight a u).weight id) ((e.setWeight a v).weight id) := by
  rw [Context.weight, Context.weight, weights_setWeight_of_ne hne, weights_setWeight_of_ne hne]
  exact h

/-- Gradients of the shapes of two views fit these. -/
theorem Reshaped.hasGrad {c e : Context α} {id : ValueId}
    (h : Reshaped s t (c.gradOrZeros id) (e.gradOrZeros id)) (hxy : Reshapes s t x y) :
    c.HasGrad id x.shape ∧ e.HasGrad id y.shape := by
  rw [hxy.left, hxy.right]
  obtain ⟨v, w, hv, hw, rfl, rfl, -⟩ := h
  exact ⟨⟨v.data, hv⟩, ⟨w.data, hw⟩⟩

end Reshapes

/-! ### Images of one pixel -/

namespace Window

/-- The window of one pixel that moves by one, without padding. -/
def pixel : Window := ⟨1, 1, 0⟩

variable {β : Type}

theorem sites_pixel (n c : Nat) :
    pixel.sites ⟨n, 1, 1, c⟩ = (List.range n).flatMap fun k => (List.range c).map fun z =>
      ⟨k, z, pixel.anchor 0 0⟩ := by
  simp [sites, anchors, List.map_eq_flatMap]

theorem channelTaps_pixel (n c : Nat) :
    pixel.channelTaps (pixel.anchor 0 0) ⟨n, 1, 1, c⟩
      = (List.range c).map (ChannelTap.mk ⟨0, 0, 0, 0⟩) := by
  simp [channelTaps, taps, tap?, anchor, pixel]

/-- The outputs over images of one pixel are walked like rows and columns. -/
theorem map_sites_pixel (n c : Nat) (f : OutputSite → β) :
    (pixel.sites ⟨n, 1, 1, c⟩).map f = (List.range n).flatMap fun k => (List.range c).map fun z =>
      f ⟨k, z, pixel.anchor 0 0⟩ := by
  simp only [sites_pixel, List.map_flatMap, List.map_map, Function.comp_def]

/-- With the input channels, they are walked like rows, columns and sources. -/
theorem flatMap_taps_pixel (n c b : Nat) (f : OutputSite → ChannelTap → β) :
    ((pixel.sites ⟨n, 1, 1, c⟩).flatMap fun o => (pixel.channelTaps o.anchor ⟨n, 1, 1, b⟩).map (f o))
      = (List.range n).flatMap fun k => (List.range c).flatMap fun z => (List.range b).map fun ch =>
          f ⟨k, z, pixel.anchor 0 0⟩ ⟨⟨0, 0, 0, 0⟩, ch⟩ := by
  simp only [sites_pixel, List.flatMap_assoc, List.flatMap_map, channelTaps_pixel, List.map_map,
    Function.comp_def]

end Window

namespace FullyConnected

variable {i : FullyConnected} {d : Dims} {s t : Shape}

/-- The convolution of images of one pixel over the same values. -/
def convolution (i : FullyConnected) : Convolution :=
  ⟨i.dest, i.src, i.filter, i.bias, .pixel⟩

/-- The extents of rows as images of one pixel. -/
def Dims.images (d : Dims) : ImageDims := ⟨⟨d.batch, 1, 1, d.inputs⟩, ⟨d.batch, 1, 1, d.outputs⟩⟩

/-- The operands of an affine map, read as rows in one place and as images of one
pixel in another. -/
structure OnePixel (i : FullyConnected) (d : Dims) (s t : Shape)
    (rows images : ValueId → Except Error (Tensor α)) : Prop where
  /-- The input. -/
  src : Reshaped s ⟨[d.batch, 1, 1, d.inputs]⟩ (rows i.src) (images i.src)
  /-- The output. -/
  dest : Reshaped t ⟨[d.batch, 1, 1, d.outputs]⟩ (rows i.dest) (images i.dest)
  /-- The filter. -/
  filter : Reshaped ⟨[d.outputs, d.inputs]⟩ ⟨[d.outputs, 1, 1, d.inputs]⟩ (rows i.filter)
    (images i.filter)
  /-- The bias. -/
  bias : Reshaped ⟨[d.outputs]⟩ ⟨[d.outputs]⟩ (rows i.bias) (images i.bias)

/-! ### The same writes -/

/-- A position of a row is that of a channel of its image. -/
theorem flat_pixel (batch width n k : Nat) :
    flat [batch, 1, 1, width] [n, 0, 0, k] = n * width + k := by simp

theorem entry_pixel {batch width : Nat} {rows images : View α}
    (h : Reshapes s ⟨[batch, 1, 1, width]⟩ rows images) (n k : Nat) :
    rows.entry (n * width + k) = images.elem [n, 0, 0, k] := by
  rw [View.elem, h.right, flat_pixel, h.entry]

section Writes

variable {src src' filter filter' bias bias' out out' : View α}
  (hsrc : Reshapes s ⟨[d.batch, 1, 1, d.inputs]⟩ src src')
  (hfilter : Reshapes ⟨[d.outputs, d.inputs]⟩ ⟨[d.outputs, 1, 1, d.inputs]⟩ filter filter')
  (hbias : Reshapes ⟨[d.outputs]⟩ ⟨[d.outputs]⟩ bias bias')
  (hout : Reshapes t ⟨[d.batch, 1, 1, d.outputs]⟩ out out')

include hfilter in
theorem elem_pixel (j k : Nat) : filter.elem [j, k] = filter'.elem [j, 0, 0, k] :=
  hfilter.elem (by simp)

include hsrc hfilter hbias in
/-- Both kernels write the same values to the same positions in the same order. -/
theorem writes_images (hcomm : ∀ x y : α, x * y = y * x) :
    i.convolution.writes d.images src' filter' bias' = writes d src filter bias := by
  have hcell (n j : Nat) : i.convolution.cell d.images src' filter' bias'
      ⟨n, j, Window.pixel.anchor 0 0⟩ = cell d src filter bias n j := by
    rw [Convolution.cell, cell, hbias.elem rfl]
    show Scalar.sum ((Window.pixel.channelTaps (Window.pixel.anchor 0 0)
      ⟨d.batch, 1, 1, d.inputs⟩).map _) + _ = _
    rw [Window.channelTaps_pixel, List.map_map]
    congr 2
    refine List.map_congr_left fun k _ => ?_
    rw [entry_pixel hsrc, elem_pixel hfilter, hcomm]
    rfl
  refine (Window.map_sites_pixel d.batch d.outputs _).trans ?_
  refine List.flatMap_congr fun n _ => List.map_congr_left fun j _ => ?_
  exact congrArg₂ Prod.mk (flat_pixel ..) (hcell n j)

include hsrc hout in
theorem filterTerms_images :
    i.convolution.filterTerms .currentBatch d.images src' out' = filterTerms d src out := by
  refine (Window.flatMap_taps_pixel d.batch d.outputs d.inputs _).trans ?_
  refine List.flatMap_congr fun n _ => List.flatMap_congr fun j _ => List.map_congr_left fun k _ => ?_
  rw [entry_pixel hsrc, entry_pixel hout]
  refine congrArg₂ Prod.mk ?_ rfl
  show flat [d.outputs, 1, 1, d.inputs] [j, 0, 0, k] = flat [d.outputs, d.inputs] [j, k]
  simp

include hfilter hout in
theorem inputTerms_images :
    i.convolution.inputTerms d.images filter' out' = inputTerms d filter out := by
  refine (Window.flatMap_taps_pixel d.batch d.outputs d.inputs _).trans ?_
  refine List.flatMap_congr fun n _ => List.flatMap_congr fun j _ => List.map_congr_left fun k _ => ?_
  rw [elem_pixel hfilter, entry_pixel hout]
  exact congrArg₂ Prod.mk (flat_pixel ..) rfl

include hout in
theorem biasTerms_images : i.convolution.biasTerms d.images out' = biasTerms d out := by
  refine (Window.map_sites_pixel d.batch d.outputs _).trans ?_
  refine List.flatMap_congr fun n _ => List.map_congr_left fun j _ => ?_
  rw [entry_pixel hout]
  rfl

end Writes

/-- **An affine map of rows is a convolution of images of one pixel.**  Let two
contexts bind the operands to the same buffers, once with an input and an output
that flatten to rows and once as images of one pixel whose channels are the entries
of the rows.  If products commute, the affine map and the convolution with a window
of side one, which moves by one and does not pad, both succeed and leave the same
buffers; and whatever gradients the two contexts share, so do both ways back, with
the convolution reading the image that is propagated. -/
theorem is_one_pixel_convolution (hcomm : ∀ x y : α, x * y = y * x)
    (hids : [i.dest, i.src, i.filter, i.bias].Nodup)
    (hs : flattenRows s.dims = .ok (d.batch, d.inputs))
    (ht : flattenRows t.dims = .ok (d.batch, d.outputs)) {c e : Context α}
    (hweights : OnePixel i d s t c.weight e.weight) :
    (∃ c' e', i.forward c = .ok () c' ∧ i.convolution.forward e = .ok () e' ∧
      OnePixel i d s t c'.weight e'.weight) ∧
    (OnePixel i d s t c.gradOrZeros e.gradOrZeros →
      ∃ c' e', i.backward c = .ok () c' ∧ i.convolution.backward .currentBatch e = .ok () e' ∧
        OnePixel i d s t c'.grad e'.grad) := by
  obtain ⟨hds, hdf, hdb, hsf, hsb, hfb⟩ := ne_of_nodup_four hids
  obtain ⟨src, src', hcsrc, hesrc, hsrc⟩ := hweights.src
  obtain ⟨dest, dest', hcdest, hedest, hdest⟩ := hweights.dest
  obtain ⟨filter, filter', hcfilter, hefilter, hfilter⟩ := hweights.filter
  obtain ⟨bias, bias', hcbias, hebias, hbias⟩ := hweights.bias
  have hrows : Fits d src.shape dest.shape filter.shape bias.shape :=
    ⟨hsrc.left ▸ isRows_of_flattenRows hs, hdest.left ▸ isRows_of_flattenRows ht, hfilter.left,
      hbias.left⟩
  have himages : Convolution.Fits .pixel d.images src'.shape dest'.shape filter'.shape bias'.shape :=
    ⟨hsrc.right, hdest.right, rfl, hfilter.right, hbias.right⟩
  constructor
  · have hc := i.forward_eq (weights_of_weight hcsrc) (weights_of_weight hcfilter)
      (weights_of_weight hcbias) (weights_of_weight hcdest) hds hdf hdb hrows
    have he := i.convolution.forward_eq (weights_of_weight hesrc) (weights_of_weight hefilter)
      (weights_of_weight hebias) (weights_of_weight hedest) hds hdf hdb himages
    -- a window of one pixel has one tap for every channel, so both write one list
    rw [writes_images hsrc hfilter hbias hcomm] at he
    exact ⟨_, _, hc, he, hweights.src.setWeight hds,
      ⟨_, _, weight_eq weights_setWeight_self, weight_eq weights_setWeight_self, hdest.filled _⟩,
      hweights.filter.setWeight hdf, hweights.bias.setWeight hdb⟩
  · intro hgrads
    obtain ⟨out, out', hcout, heout, hout⟩ := hgrads.dest
    obtain ⟨hcgs, hegs⟩ := hgrads.src.hasGrad hsrc
    obtain ⟨hcgf, hegf⟩ := hgrads.filter.hasGrad hfilter
    obtain ⟨hcgb, hegb⟩ := hgrads.bias.hasGrad hbias
    have hc := i.backward_eq (weights_of_weight hcsrc) (weights_of_weight hcfilter)
      (weights_of_weight hcbias) (weights_of_weight hcdest) hrows hds.symm hdf.symm hdb.symm
      hcgs hcgf hcgb hcout (hout.left.trans hdest.left.symm)
    have he := i.convolution.backward_eq (weights_of_weight hesrc) (weights_of_weight hefilter)
      (weights_of_weight hebias) (weights_of_weight hedest) himages .currentBatch hds.symm hdf.symm
      hdb.symm hegs hegf hegb heout (hout.right.trans hdest.right.symm)
    -- the contributions to every gradient are one list as well
    rw [filterTerms_images hsrc hout, inputTerms_images hfilter hout, biasTerms_images hout] at he
    refine ⟨_, _, hc, he, hgrads.src.deposits (by simp) (by simp [convolution]) ?_,
      hgrads.dest.deposits (by simp) (by simp [convolution]) ?_,
      hgrads.filter.deposits (by simp) (by simp [convolution]) ?_,
      hgrads.bias.deposits (by simp) (by simp [convolution]) ?_⟩
    · simp [writesTo_cons, convolution, hds, hsf.symm, hsb.symm]
    · simp [writesTo_cons, convolution, hds.symm, hdf.symm, hdb.symm]
    · simp [writesTo_cons, convolution, hdf, hsf, hfb.symm]
    · simp [writesTo_cons, convolution, hdb, hsb, hfb]

/-- Rational numbers, with zero for what would leave them. -/
local instance rationals : ExactScalar ℚ :=
  exactScalars (fun _ => 0) (fun _ => 0) (fun _ _ => 0) fun _ _ _ => 0

/-- A map of pairs to single numbers. -/
def pairing : FullyConnected := ⟨0, 1, 2, 3⟩

/-- Two pairs, each in a row of its own, and gradients for what is made of them. -/
def pairsAsRows : Context ℚ :=
  (((((({} : Context ℚ).setWeight 0 ⟨⟨[2, 1]⟩, .float #v[8, 9]⟩).setWeight 1
    ⟨⟨[2, 1, 2]⟩, .float #v[3, 5, 7, 1]⟩).setWeight 2 ⟨⟨[1, 2]⟩, .float #v[2, 4]⟩).setWeight 3
    ⟨⟨[1]⟩, .float #v[12]⟩).setGrad 0 ⟨⟨[2, 1]⟩, .float #v[6, 5]⟩).setGrad 2
    ⟨⟨[1, 2]⟩, .float #v[100, 200]⟩

/-- The same pairs as images of one pixel. -/
def pairsAsImages : Context ℚ :=
  (((((({} : Context ℚ).setWeight 0 ⟨⟨[2, 1, 1, 1]⟩, .float #v[8, 9]⟩).setWeight 1
    ⟨⟨[2, 1, 1, 2]⟩, .float #v[3, 5, 7, 1]⟩).setWeight 2
    ⟨⟨[1, 1, 1, 2]⟩, .float #v[2, 4]⟩).setWeight 3 ⟨⟨[1]⟩, .float #v[12]⟩).setGrad 0
    ⟨⟨[2, 1, 1, 1]⟩, .float #v[6, 5]⟩).setGrad 2 ⟨⟨[1, 1, 1, 2]⟩, .float #v[100, 200]⟩

theorem is_one_pixel_convolution_pairs : ∃ c' e' c'' e'' : Context ℚ,
    pairing.forward pairsAsRows = .ok () c' ∧
      pairing.convolution.forward pairsAsImages = .ok () e' ∧
      OnePixel pairing ⟨2, 2, 1⟩ ⟨[2, 1, 2]⟩ ⟨[2, 1]⟩ c'.weight e'.weight ∧
      pairing.backward pairsAsRows = .ok () c'' ∧
      pairing.convolution.backward .currentBatch pairsAsImages = .ok () e'' ∧
      OnePixel pairing ⟨2, 2, 1⟩ ⟨[2, 1, 2]⟩ ⟨[2, 1]⟩ c''.grad e''.grad := by
  have hweights : OnePixel pairing ⟨2, 2, 1⟩ ⟨[2, 1, 2]⟩ ⟨[2, 1]⟩ pairsAsRows.weight
      pairsAsImages.weight :=
    ⟨⟨⟨⟨[2, 1, 2]⟩, #v[3, 5, 7, 1]⟩, ⟨⟨[2, 1, 1, 2]⟩, #v[3, 5, 7, 1]⟩, rfl, rfl, rfl, rfl, rfl⟩,
      ⟨⟨⟨[2, 1]⟩, #v[8, 9]⟩, ⟨⟨[2, 1, 1, 1]⟩, #v[8, 9]⟩, rfl, rfl, rfl, rfl, rfl⟩,
      ⟨⟨⟨[1, 2]⟩, #v[2, 4]⟩, ⟨⟨[1, 1, 1, 2]⟩, #v[2, 4]⟩, rfl, rfl, rfl, rfl, rfl⟩,
      ⟨⟨⟨[1]⟩, #v[12]⟩, ⟨⟨[1]⟩, #v[12]⟩, rfl, rfl, rfl, rfl, rfl⟩⟩
  have hgrads : OnePixel pairing ⟨2, 2, 1⟩ ⟨[2, 1, 2]⟩ ⟨[2, 1]⟩ pairsAsRows.gradOrZeros
      pairsAsImages.gradOrZeros :=
    ⟨⟨⟨⟨[2, 1, 2]⟩, #v[0, 0, 0, 0]⟩, ⟨⟨[2, 1, 1, 2]⟩, #v[0, 0, 0, 0]⟩, rfl, rfl, rfl, rfl, rfl⟩,
      ⟨⟨⟨[2, 1]⟩, #v[6, 5]⟩, ⟨⟨[2, 1, 1, 1]⟩, #v[6, 5]⟩, rfl, rfl, rfl, rfl, rfl⟩,
      ⟨⟨⟨[1, 2]⟩, #v[100, 200]⟩, ⟨⟨[1, 1, 1, 2]⟩, #v[100, 200]⟩, rfl, rfl, rfl, rfl, rfl⟩,
      ⟨⟨⟨[1]⟩, #v[0]⟩, ⟨⟨[1]⟩, #v[0]⟩, rfl, rfl, rfl, rfl, rfl⟩⟩
  obtain ⟨⟨c', e', hc, he, hforward⟩, hback⟩ :=
    is_one_pixel_convolution mul_comm (by decide) rfl rfl hweights
  obtain ⟨c'', e'', hc'', he'', hbackward⟩ := hback hgrads
  exact ⟨c', e', c'', e'', hc, he, hforward, hc'', he'', hbackward⟩

end FullyConnected

end TensorProgram
