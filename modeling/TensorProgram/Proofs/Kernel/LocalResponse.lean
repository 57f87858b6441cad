/-
TensorProgram/Proofs/Kernel/LocalResponse.lean

What a normalization by neighbouring channels computes.  Both directions visit
every pixel and there every channel, so forward the output and the saved scales
are filled (`LocalResponse.forward_eq`), and backward the input receives one
contribution for every element (`LocalResponse.backward_eq`).
-/
import TensorProgram.Kernel.LocalResponse
import TensorProgram.Proofs.Kernel.Elementwise
import TensorProgram.Proofs.Window

namespace TensorProgram

variable {α : Type} [Scalar α]

open Context (shapeOf_eq floats_of_weights_eq floats_withoutWeight_both gradFloats_eq
  updateWeightPair_of_ok Deposits deposits_updateGrad)
open Run (Performs PerformsBoth performs_scatter_inside liftM_check_ok)
open Shape (flat)

omit [Scalar α] in
@[simp] theorem length_runningSums (next : Nat → α → α) (count c : Nat) (s : α) :
    (runningSums next count c s).length = count := by
  induction count generalizing c s with
  | zero => rfl
  | succ count ih => simp [runningSums, ih]

namespace LocalResponse

/-! ### Pixels -/

theorem mem_pixels {d : NHWC} {pixel : List Nat} :
    pixel ∈ pixels d ↔ ∃ n h w, n < d.n ∧ h < d.h ∧ w < d.w ∧ pixel = [n, h, w] := by
  simp only [pixels, List.mem_flatMap, List.mem_map, List.mem_range]
  constructor
  · rintro ⟨n, hn, h, hh, w, hw, rfl⟩
    exact ⟨n, h, w, hn, hh, hw, rfl⟩
  · rintro ⟨n, h, w, hn, hh, hw, rfl⟩
    exact ⟨n, hn, h, hh, w, hw, rfl⟩

section Rows

variable {d : NHWC} {s : Shape} {pixel : List Nat}

theorem inside_pixel (hp : pixel ∈ pixels d) {c : Nat} (hc : c < d.c) :
    Shape.Inside d.toShape.dims (pixel ++ [c]) := by
  obtain ⟨n, h, w, hn, hh, hw, rfl⟩ := mem_pixels.mp hp
  exact ⟨hn, hh, hw, hc, Shape.inside_nil _⟩

theorem flat_pixel_lt (hp : pixel ∈ pixels d) {c : Nat} (hc : c < d.c) :
    flat d.toShape.dims (pixel ++ [c]) < d.toShape.elemCount := by
  refine Shape.flat_lt (inside_pixel hp hc) ?_
  obtain ⟨n, h, w, -, -, -, rfl⟩ := mem_pixels.mp hp
  rfl

/-- The channels of a pixel. -/
def channels (d : NHWC) (v : View α) (pixel : List Nat) : List α :=
  (List.range d.c).map fun c => v.elem (pixel ++ [c])

@[simp] theorem length_channels (v : View α) : (channels d v pixel).length = d.c := by
  simp [channels]

theorem row_eq {v : View α} (hv : v.shape = d.toShape) (hp : pixel ∈ pixels d) :
    row v d.c pixel = .ok (channels d v pixel) := by
  refine Outcome.mapM_eq_ok fun c hc => v.get_eq ?_ ?_
  · rw [hv]
    exact inside_pixel hp (List.mem_range.mp hc)
  · obtain ⟨n, h, w, -, -, -, rfl⟩ := mem_pixels.mp hp
    rw [hv]
    rfl

/-- A write for every channel of a pixel. -/
def rowWrites (d : NHWC) (pixel : List Nat) (values : List α) : List (Nat × α) :=
  values.zipIdx.map fun p => (flat d.toShape.dims (pixel ++ [p.2]), p.1)

omit [Scalar α] in
theorem performs_writeRow (combine : α → α → α) (hs : s = d.toShape) (hp : pixel ∈ pixels d)
    (values : List α) (hlen : values.length = d.c) :
    Performs combine (writeRow combine s pixel values : Run (Vector α s.elemCount) Unit)
      (rowWrites d pixel values) := by
  have hlt : ∀ p ∈ values.zipIdx, p.2 < d.c := fun p h => hlen ▸ (List.mem_zipIdx' h).1
  refine performs_scatter_inside hs (fun _ _ => rfl) (fun p h => inside_pixel hp (hlt p h))
    fun p _ => ?_
  obtain ⟨n, h, w, -, -, -, rfl⟩ := mem_pixels.mp hp
  rfl

omit [Scalar α] in
/-- Writing a value for every channel of every pixel leaves no position out. -/
theorem mem_fst_rowWrites {values : List Nat → List α}
    (hlen : ∀ pixel ∈ pixels d, (values pixel).length = d.c) (hs : s = d.toShape) {k : Nat}
    (hk : k < s.elemCount) :
    k ∈ ((pixels d).flatMap fun pixel => rowWrites d pixel (values pixel)).map Prod.fst := by
  subst hs
  obtain ⟨coord, hlength, hin, rfl⟩ := Shape.exists_coordinate hk
  obtain ⟨n, h, w, c, rfl⟩ : ∃ n h w c, coord = [n, h, w, c] := by
    match coord, hlength with
    | [n, h, w, c], _ => exact ⟨n, h, w, c, rfl⟩
  obtain ⟨hn, hh, hw, hc, -⟩ := hin
  have hp : [n, h, w] ∈ pixels d := mem_pixels.mpr ⟨n, h, w, hn, hh, hw, rfl⟩
  have hlt : c < (values [n, h, w]).length := by
    rw [hlen _ hp]
    exact hc
  have hmem : ((values [n, h, w])[c], c) ∈ (values [n, h, w]).zipIdx :=
    List.mk_mem_zipIdx_iff_getElem?.mpr (List.getElem?_eq_getElem hlt)
  refine List.mem_map.mpr ⟨_, List.mem_flatMap.mpr ⟨_, hp, List.mem_map_of_mem hmem⟩, rfl⟩

omit [Scalar α] in
/-- So every position has one write. -/
theorem perm_fst_rowWrites {values : List Nat → List α}
    (hlen : ∀ pixel ∈ pixels d, (values pixel).length = d.c) (hs : s = d.toShape) :
    (((pixels d).flatMap fun pixel => rowWrites d pixel (values pixel)).map Prod.fst).Perm
      (List.range s.elemCount) := by
  refine perm_range_of_cover (fun k hk => mem_fst_rowWrites hlen hs hk) ?_
  have hrow : ∀ pixel ∈ pixels d, (rowWrites d pixel (values pixel)).length = d.c := by
    intro pixel hp
    rw [rowWrites, List.length_map, List.length_zipIdx, hlen pixel hp]
  rw [List.length_map, List.length_flatMap, List.map_congr_left hrow, List.map_const',
    List.sum_replicate_nat, hs, NHWC.elemCount_toShape]
  simp only [pixels, List.length_flatMap, List.length_map, List.length_range, List.map_const',
    List.sum_replicate_nat]
  ring

/-- What a buffer holds at a channel of a pixel after every row was written. -/
theorem elem_applyWrites_rowWrites (combine : α → α → α) {values : List Nat → List α}
    (hlen : ∀ pixel ∈ pixels d, (values pixel).length = d.c) (data : Vector α d.toShape.elemCount)
    (hp : pixel ∈ pixels d) {c : Nat} (hc : c < d.c) :
    (View.mk d.toShape (applyWrites combine ((pixels d).flatMap fun pixel =>
        rowWrites d pixel (values pixel)) data)).elem (pixel ++ [c])
      = combine ((View.mk d.toShape data).elem (pixel ++ [c])) ((values pixel).getD c 0) := by
  have hlt := flat_pixel_lt hp hc
  have hrow : c < (values pixel).length := by
    rw [hlen pixel hp]
    exact hc
  have hmem : ((values pixel)[c], c) ∈ (values pixel).zipIdx :=
    List.mk_mem_zipIdx_iff_getElem?.mpr (List.getElem?_eq_getElem hrow)
  have hwrite : (flat d.toShape.dims (pixel ++ [c]), (values pixel)[c])
      ∈ (pixels d).flatMap fun pixel => rowWrites d pixel (values pixel) :=
    List.mem_flatMap.mpr ⟨pixel, hp, List.mem_map_of_mem hmem⟩
  have hnodup := (perm_fst_rowWrites hlen (rfl : d.toShape = d.toShape)).nodup_iff.mpr
    List.nodup_range
  rw [View.elem, View.elem, View.entry, View.entry, dif_pos hlt, dif_pos hlt,
    List.getD_eq_getElem _ _ hrow]
  exact getElem_applyWrites_of_nodup combine hnodup data hwrite hlt

end Rows

variable (i : LocalResponse α) {c : Context α} {src : View α} {d : NHWC}

omit [Scalar α] in
theorem dims_eq {t u v : Tensor α} (hsrc : c.weights[i.src]? = some t)
    (hdest : c.weights[i.dest]? = some u) (hscale : c.weights[i.scale]? = some v)
    (ht : t.shape = d.toShape) (hu : u.shape = d.toShape) (hv : v.shape = d.toShape)
    (hpos : d.c ≠ 0) : i.dims c = .ok d := by
  rw [dims, shapeOf_eq hsrc, shapeOf_eq hdest, shapeOf_eq hscale, ht, hu, hv]
  simp only [Except.ok_bind, NHWC.ofDims_toShape, requireSameShape_self, if_neg hpos]
  rfl

/-! ### Forward -/

theorem length_scales (values : List α) : (i.scales values).length = values.length := by
  simp [scales, squareSums]

theorem length_normalized (values : List α) : (i.normalized values).length = values.length := by
  simp [normalized, length_scales]

/-- The scales that are saved, pixel by pixel. -/
def scaleWrites (d : NHWC) (src : View α) : List (Nat × α) :=
  (pixels d).flatMap fun pixel => rowWrites d pixel (i.scales (channels d src pixel))

/-- The normalized elements that are written, pixel by pixel. -/
def outputWrites (d : NHWC) (src : View α) : List (Nat × α) :=
  (pixels d).flatMap fun pixel => rowWrites d pixel (i.normalized (channels d src pixel))

/-- The output and the saved scales of a normalization. -/
theorem forward_eq {s t : Shape} {old : Vector α s.elemCount} {oldScale : Vector α t.elemCount}
    (hsrc : c.weights[i.src]? = some src.tensor)
    (hdest : c.weights[i.dest]? = some ⟨s, .float old⟩)
    (hscale : c.weights[i.scale]? = some ⟨t, .float oldScale⟩) (hsrcs : src.shape = d.toShape)
    (hs : s = d.toShape) (ht : t = d.toShape) (hpos : d.c ≠ 0) (hds : i.dest ≠ i.src)
    (hdc : i.dest ≠ i.scale) (hcs : i.scale ≠ i.src) :
    i.forward c = .ok () ((c.setWeight i.dest ⟨s, .float (filled _ (i.outputWrites d src))⟩).setWeight
      i.scale ⟨t, .float (filled _ (i.scaleWrites d src))⟩) := by
  rw [forward, Run.get_bind_apply, i.dims_eq hsrc hdest hscale hsrcs hs ht hpos, liftM_check_ok,
    pure_bind]
  apply updateWeightPair_of_ok hdc hdest hscale
  rw [floats_withoutWeight_both hds hcs hsrc, liftM_check_ok, pure_bind]
  apply Tensor.onFloatPair_of_ok
  -- both rows come from the row of the input, and the two buffers are filled in turn
  have hperforms : PerformsBoth ((pixels d).forM fun pixel => do
      let row ← row src d.c pixel
      Run.onSnd (writeRow overwrite t pixel (i.scales row))
      Run.onFst (writeRow overwrite s pixel (i.normalized row)) :
        Run (Vector α s.elemCount × Vector α t.elemCount) Unit)
      (i.outputWrites d src) (i.scaleWrites d src) := by
    refine PerformsBoth.forM fun pixel hp => ?_
    rw [row_eq hsrcs hp, Run.liftM_ok, pure_bind]
    have hscales := performs_writeRow overwrite ht hp (i.scales (channels d src pixel))
      (by simp [length_scales])
    have hnormalized := performs_writeRow overwrite hs hp (i.normalized (channels d src pixel))
      (by simp [length_normalized])
    have hboth := hscales.onSnd.bind hnormalized.onFst
    rwa [List.nil_append, List.append_nil] at hboth
  refine hperforms.fills (fun k hk => ?_) (fun k hk => ?_) _
  · exact mem_fst_rowWrites (fun _ _ => by simp [length_normalized]) hs hk
  · exact mem_fst_rowWrites (fun _ _ => by simp [length_scales]) ht hk

/-! ### Backward -/

theorem length_slopes {src out scale outGrad : List α} {n : Nat} (hsrc : src.length = n)
    (hout : out.length = n) (hscale : scale.length = n) (hgrad : outGrad.length = n) :
    (i.slopes src out scale outGrad).length = n := by
  simp [slopes, termSums, hsrc, hout, hscale, hgrad]

/-- The contributions to the input gradient, pixel by pixel. -/
def inputTerms (d : NHWC) (src dest scale out : View α) : List (Nat × α) :=
  (pixels d).flatMap fun pixel => rowWrites d pixel (i.slopes (channels d src pixel)
    (channels d dest pixel) (channels d scale pixel) (channels d out pixel))

/-- Writing the contributions, pixel by pixel. -/
theorem performs_inputTerms (policy : GradientPolicy) {s : Shape} {dest scale out : View α}
    (hs : s = d.toShape) (hsrcs : src.shape = d.toShape) (hdests : dest.shape = d.toShape)
    (hscales : scale.shape = d.toShape) (houts : out.shape = d.toShape) :
    Performs policy.combine ((pixels d).forM fun pixel => do
        let slopes := i.slopes (← row src d.c pixel) (← row dest d.c pixel)
          (← row scale d.c pixel) (← row out d.c pixel)
        writeRow policy.combine s pixel slopes : Run (Vector α s.elemCount) Unit)
      (i.inputTerms d src dest scale out) := by
  refine Performs.forM fun pixel hp => ?_
  rw [row_eq hsrcs hp, row_eq hdests hp, row_eq hscales hp, row_eq houts hp]
  simp only [Run.liftM_ok, pure_bind]
  exact performs_writeRow _ hs hp _ (i.length_slopes (by simp) (by simp) (by simp) (by simp))

/-- The contributions of a normalization. -/
theorem backward_eq (policy : GradientPolicy) {dest scale out : View α}
    (hsrc : c.weights[i.src]? = some src.tensor) (hdest : c.weights[i.dest]? = some dest.tensor)
    (hscale : c.weights[i.scale]? = some scale.tensor) (hsrcs : src.shape = d.toShape)
    (hdests : dest.shape = d.toShape) (hscales : scale.shape = d.toShape) (hpos : d.c ≠ 0)
    (hne : i.src ≠ i.dest) (hgrad : c.HasGrad i.src src.shape)
    (hout : c.gradOrZeros i.dest = .ok out.tensor) (houts : out.shape = d.toShape) :
    i.backward policy c = .ok () (c.deposits policy.combine
      [(i.dest, []), (i.src, i.inputTerms d src dest scale out)]) := by
  rw [backward, Run.get_bind_apply, i.dims_eq hsrc hdest hscale hsrcs hdests hscales hpos,
    liftM_check_ok, pure_bind]
  apply Deposits.backward hout
  apply deposits_updateGrad hne hgrad
  · intro c' hweights hgrads
    rw [floats_of_weights_eq hweights hsrc, floats_of_weights_eq hweights hdest,
      gradFloats_eq hgrads, floats_of_weights_eq hweights hscale]
    simp only [liftM_check_ok, pure_bind]
    rfl
  · exact i.performs_inputTerms policy hsrcs hsrcs hdests hscales houts

end LocalResponse

end TensorProgram
