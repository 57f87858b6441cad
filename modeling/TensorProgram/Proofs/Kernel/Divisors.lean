/-
TensorProgram/Proofs/Kernel/Divisors.lean

Counts as divisors.  `Scalar.ofNat` alone makes a number of a count, and kernels
divide by such numbers: by the area of a window, by the width `2 W + 1` of a
neighbourhood, by the number of elements of a channel.  `Scalar.recount z` is the
same arithmetic, except that the number of the count zero is `z`.  What comes out
alike for every `z` owes nothing to that number: were the scalars formal
expressions, it would not occur in the result.

Most kernels use no count and are the same in both arithmetics word for word.  An
average pool is if its window has a position, which the static check demands
(`Pool.kernel_pos`); a normalization by neighbours always is.  A normalization by
channels is outside training and on the way back, where only an element of the
input brings up the number of elements.  In training it is if the input has an
element (`Instruction.forward_recount`, `Instruction.backward_recount`).  If it
has none, nothing stops the kernel, and the running statistics of every channel
take a share of zero divided by the number of the count zero
(`BatchNorm.forward_train_unpopulated`).
-/
import TensorProgram.Proofs.Kernel.EmptyWindow
import TensorProgram.Proofs.Kernel.Entry
import TensorProgram.Proofs.Kernel.Footprint
import TensorProgram.Proofs.Tensor.Axes

namespace TensorProgram

variable {α : Type} [Scalar α]

open Context (updateGrad updateGrad_congr)

/-- The same arithmetic, except that the number of the count zero is this one. -/
@[reducible] def Scalar.recount (z : α) : Scalar α where
  ofNat n := if n = 0 then z else Scalar.ofNat n
  sqrt := Scalar.sqrt
  exp := Scalar.exp
  pow := Scalar.pow
  lt := Scalar.lt
  le := Scalar.le
  uniform := Scalar.uniform
  bytes := Scalar.bytes (α := α)

/-- All other counts have the numbers they had. -/
theorem Scalar.ofNat_recount (z : α) {n : Nat} (h : n ≠ 0) :
    (Scalar.recount z).ofNat n = Scalar.ofNat n := if_neg h

variable (z : α)

/-! ### Windows -/

namespace Pool

variable {i : Pool}

omit [Scalar α] in
/-- The window of a pool that passes the static check has a position. -/
theorem kernel_pos {p : Program α} (h : p.verifyPool i = .ok ()) : 0 < i.window.kernel := by
  obtain ⟨_, -, h⟩ := Except.bind_eq_ok.mp h
  obtain ⟨input, -, h⟩ := Except.bind_eq_ok.mp h
  obtain ⟨⟨height, width⟩, hdims, -⟩ := Except.bind_eq_ok.mp h
  obtain ⟨hheight, -⟩ := i.window.outputDims_eq_ok hdims
  exact (i.window.of_outputSize_eq_ok hheight).1

variable (h : 0 < i.window.kernel)

include h

theorem area_recount : @area α (Scalar.recount z) i = i.area :=
  Scalar.ofNat_recount z (Nat.mul_pos h h).ne'

theorem average_recount : @average α (Scalar.recount z) i = i.average := by
  funext src input o
  unfold average
  rw [area_recount z h]
  rfl

theorem forwardAvg_recount : @forwardAvg α (Scalar.recount z) i = i.forwardAvg := by
  unfold forwardAvg
  rw [average_recount z h]

theorem backwardAvg_recount : @backwardAvg α (Scalar.recount z) i = i.backwardAvg := by
  unfold backwardAvg
  rw [area_recount z h]
  rfl

/-- Either pool runs forward alike. -/
theorem forward_recount : @forward α (Scalar.recount z) i = i.forward := by
  unfold forward
  rw [forwardAvg_recount z h]
  rfl

/-- Either pool runs backward alike. -/
theorem backward_recount : @backward α (Scalar.recount z) i = i.backward := by
  unfold backward
  rw [backwardAvg_recount z h]
  rfl

end Pool

/-! ### Neighbourhoods -/

namespace LocalResponse

variable (i : LocalResponse α)

omit [Scalar α] in
/-- The width of a neighbourhood is odd, also as a word. -/
theorem word_width_ne_zero (channels : Nat) : i.word channels (2 * i.halfWindow + 1) ≠ 0 := by
  rw [word]
  split_ifs
  · omega
  · rw [UInt64.toNat_ofNat']
    omega

theorem weight_recount : @weight α (Scalar.recount z) i = i.weight := by
  funext channels
  exact congrArg (i.alpha / ·) (Scalar.ofNat_recount z (i.word_width_ne_zero channels))

theorem scales_recount : @scales α (Scalar.recount z) i = i.scales := by
  funext row
  unfold scales
  rw [weight_recount]
  rfl

theorem normalized_recount : @normalized α (Scalar.recount z) i = i.normalized := by
  funext row
  unfold normalized
  rw [scales_recount]
  rfl

theorem forward_recount : @forward α (Scalar.recount z) i = i.forward := by
  unfold forward
  rw [scales_recount, normalized_recount]

theorem slope_recount : @slope α (Scalar.recount z) i = i.slope := by
  funext channels x scale g s
  unfold slope
  rw [weight_recount, Scalar.ofNat_recount z two_ne_zero]
  rfl

theorem slopes_recount : @slopes α (Scalar.recount z) i = i.slopes := by
  funext src out scale outGrad
  unfold slopes
  rw [slope_recount]
  rfl

theorem backward_recount (policy : GradientPolicy) :
    @backward α (Scalar.recount z) i policy = i.backward policy := by
  unfold backward
  rw [slopes_recount]
  rfl

end LocalResponse

/-! ### Channels -/

namespace BatchNorm

variable (i : BatchNorm α) {ch : Channels} {c : Context α}

omit [Scalar α] in
/-- A channel has an element if the input has one. -/
theorem samples_pos (hch : i.channels c = .ok ch) {s : Shape} (hs : c.shapeOf i.src = .ok s)
    (hsize : s.elemCount ≠ 0) : 0 < ch.samples := by
  obtain ⟨t, count, rfl, hpos, haxis, ht, -⟩ := shapes_of_channels hch
  obtain rfl : s = t := Except.ok.inj (hs.symm.trans ht)
  -- the channels divide the elements among themselves
  have hdvd : count ∣ s.elemCount :=
    (Nat.dvd_mul_right _ _).trans (Shape.mul_volume_drop_dvd haxis)
  exact Nat.div_pos (Nat.le_of_dvd (Nat.pos_of_ne_zero hsize) hdvd) (Nat.pos_of_ne_zero hpos)

section Sampled

variable (h : 0 < ch.samples)

include h

theorem localMean_recount (src : View α) :
    @localMean α (Scalar.recount z) i ch src = i.localMean ch src := by
  unfold localMean
  rw [Scalar.ofNat_recount z h.ne']
  rfl

theorem localVariance_recount (src : View α) (mean : Vector α ch.count) :
    @localVariance α (Scalar.recount z) i ch src mean = i.localVariance ch src mean := by
  unfold localVariance
  rw [Scalar.ofNat_recount z h.ne']
  rfl

theorem updateStatistics_recount :
    @updateStatistics α (Scalar.recount z) i ch = i.updateStatistics ch := by
  unfold updateStatistics
  simp only [i.localMean_recount z h, i.localVariance_recount z h]
  rfl

theorem slope_recount (sums : Sums α ch.count) (src scale mean var outGrad : View α) :
    @slope α (Scalar.recount z) i ch sums src scale mean var outGrad
      = i.slope ch sums src scale mean var outGrad := by
  funext k
  unfold slope
  rw [Scalar.ofNat_recount z h.ne']
  rfl

end Sampled

theorem forward_of_channels (hch : i.channels c = .ok ch) :
    i.forward true c = (i.updateStatistics ch >>= fun _ => i.normalize) c := by
  rw [forward, Run.get_bind_apply, hch]
  rfl

theorem forward_of_error {e : Error} (hch : i.channels c = .error e) (train : Bool) :
    i.forward train c = .error (.error e) c := by
  rw [forward, Run.get_bind_apply, hch]
  rfl

/-- The forward kernel, if a channel has an element or the running statistics
stay. -/
theorem forward_recount (train : Bool)
    (h : train = true → ∀ ch, i.channels c = .ok ch → 0 < ch.samples) :
    @forward α (Scalar.recount z) i train c = i.forward train c := by
  rcases train with - | -
  · rfl
  rcases hch : i.channels c with e | ch
  · exact (@forward_of_error α (Scalar.recount z) i c e hch true).trans
      (i.forward_of_error hch true).symm
  · have hstatistics := i.updateStatistics_recount z (h rfl ch hch)
    calc @forward α (Scalar.recount z) i true c
        = (@updateStatistics α (Scalar.recount z) i ch >>= fun _ => i.normalize) c :=
          @forward_of_channels α (Scalar.recount z) i ch c hch
      _ = (i.updateStatistics ch >>= fun _ => i.normalize) c := by rw [hstatistics]
      _ = i.forward true c := (i.forward_of_channels hch).symm

/-- The way back to the input, with these contributions of its elements. -/
def backwardInputBy (slope : (src scale mean var outGrad : View α) → Nat → Outcome α) :
    Run (Context α) Unit :=
  updateGrad i.src fun ctx => do
    let src ← ctx.floats i.src
    let scale ← ctx.floats i.scale
    let mean ← ctx.floats i.mean
    let var ← ctx.floats i.var
    let outGrad ← ctx.gradFloats i.dest
    Tensor.onFloats fun _ =>
      scatter accumulate (List.range src.size) atPosition (slope src scale mean var outGrad)

theorem backwardInput_eq (sums : Sums α ch.count) :
    i.backwardInput ch sums = i.backwardInputBy (i.slope ch sums) := rfl

/-- Only the elements of the input contribute. -/
theorem backwardInputBy_congr {f g : (src scale mean var outGrad : View α) → Nat → Outcome α}
    (h : ∀ src : View α, c.floats i.src = .ok src → src.size ≠ 0 → f src = g src) :
    i.backwardInputBy f c = i.backwardInputBy g c := by
  apply updateGrad_congr
  have hread : (c.withoutGrad i.src).floats i.src = c.floats i.src := rfl
  rw [hread]
  rcases hsrc : c.floats i.src with e | src
  · rfl
  have hterms (scale mean var outGrad : View α) (s : Shape) :
      (scatter accumulate (List.range src.size) atPosition (f src scale mean var outGrad) :
          Run (Vector α s.elemCount) Unit)
        = scatter accumulate (List.range src.size) atPosition (g src scale mean var outGrad) := by
    by_cases hsize : src.size = 0
    · rw [hsize]
      rfl
    · rw [h src hsrc hsize]
  simp only [Run.liftM_check_ok, pure_bind, hterms]

/-- The backward kernel, whatever the number of elements. -/
theorem backward_recount : @backward α (Scalar.recount z) i c = i.backward c := by
  unfold backward
  rw [Run.get_bind_apply, Run.get_bind_apply]
  refine Run.check_bind_congr fun ch hch => Run.bind_congr_apply rfl fun _ c' hc' => ?_
  rw [Run.get_bind_apply, Run.get_bind_apply]
  refine Run.check_bind_congr fun _ _ => Run.check_bind_congr fun _ _ =>
    Run.check_bind_congr fun _ _ => Run.compute_bind_congr fun sums _ => ?_
  refine Run.bind_congr_apply ?_ fun _ _ _ => rfl
  rw [i.backwardInput_eq sums]
  show i.backwardInputBy (@slope α (Scalar.recount z) i ch sums) c' = _
  apply backwardInputBy_congr
  intro src hsrc hsize
  funext scale mean var outGrad
  -- the input is still the one that the channels were counted in
  have hmove : Context.Evolves [] [i.dest] c c' :=
    Run.after_of_ok hc' ▸ Context.moves_ensureGrad (List.mem_singleton_self i.dest) c
  have hbound : c.weights[i.src]? = some src.tensor :=
    (hmove.weights List.not_mem_nil).symm.trans (Context.weights_of_floats hsrc)
  exact i.slope_recount z (i.samples_pos hch (Context.shapeOf_eq hbound) hsize) sums src scale mean
    var outGrad

/-! ### An input without elements -/

section Unpopulated

variable {count : Nat} {src scale bias mean var : View α} (hsize : src.shape.elemCount = 0)

include hsize

/-- What every channel of an input without elements has for an average. -/
theorem average_unpopulated (count : Nat) (term : Nat → Outcome α) : (do
      let sums ← i.channelSums count src term
      return sums.map (· / Scalar.ofNat (src.shape.elemCount / count)))
    = .ok (Vector.replicate count (0 / Scalar.ofNat 0)) := by
  have hsums : i.channelSums count src term = .ok (Vector.replicate count 0) := by
    unfold channelSums View.size
    rw [hsize]
    rfl
  rw [hsums, hsize, Nat.zero_div, Except.ok_bind, Vector.map_replicate]
  rfl

/-- **Training without elements.**  Nothing stops a normalization of channels that
have no element.  The running mean and variance of every channel take a share of
zero divided by the number of the count zero. -/
theorem forward_train_unpopulated (h : i.Bound c count src scale bias mean var) (hpos : count ≠ 0)
    (hsrc : i.dest ≠ i.src) (hscale : i.dest ≠ i.scale) (hbias : i.dest ≠ i.bias)
    (hmean : i.dest ≠ i.mean) (hvar : i.dest ≠ i.var) (hmv : i.mean ≠ i.var)
    (hms : i.mean ∉ [i.src, i.scale, i.bias]) (hvs : i.var ∉ [i.src, i.scale, i.bias]) :
    let share : Vector α count := Vector.replicate count (0 / Scalar.ofNat 0)
    i.forward true c = .ok () (((c.setWeight i.mean (i.blended share mean).tensor).setWeight i.var
      (i.blended share var).tensor).setWeight i.dest
        (i.normalized src scale bias (i.blended share mean) (i.blended share var)).tensor) :=
  i.forward_train_eq h hpos (i.average_unpopulated hsize count _)
    (i.average_unpopulated hsize count _) hsrc hscale hbias hmean hvar hmv hms hvs

end Unpopulated

end BatchNorm

/-! ### All instructions -/

namespace Instruction

/-- The input of a normalization has an element, or it has no channel. -/
def Populated (Γ : Signature) : Instruction α → Prop
  | batchNorm i => ∀ s, Γ.Floats i.src s → s.elemCount = 0 → s.dims[i.axis]? = some 0
  | _ => True

variable {Γ : Signature} {i : Instruction α} {c : Context α}

omit [Scalar α] in
/-- Where bindings fit, the channels of a populated normalization have an element. -/
theorem Populated.samples_pos {i : BatchNorm α} (h : (batchNorm i).Populated Γ)
    (ht : (batchNorm i).Typed Γ) (hdecl : ∀ id : ValueId, c.declared[id]? = Γ id) (hc : c.Typed)
    {ch : BatchNorm.Channels} (hch : i.channels c = .ok ch) : 0 < ch.samples := by
  obtain ⟨s, count, -, hpos, haxis, hs, -⟩ := BatchNorm.shapes_of_channels hch
  refine i.samples_pos hch hs fun hsize => hpos ?_
  cases ht with
  | @batchNorm _ s' count' dest src =>
      -- the input has the shape that it declares
      obtain ⟨t, ht, hshape⟩ := Context.exists_weight_of_shapeOf hs
      have hfits : t.declaration = ⟨.float, s'⟩ := hc.weight ((hdecl i.src).trans src) ht
      obtain rfl : s = s' := hshape.symm.trans (Declaration.mk.inj hfits).2
      exact Option.some.inj (haxis.symm.trans (h s src hsize))

/-- An instruction runs forward alike, in training if it is populated. -/
theorem forward_recount (ht : i.Typed Γ) (hpool : ∀ q, i = pool q → 0 < q.window.kernel)
    (hdecl : ∀ id : ValueId, c.declared[id]? = Γ id) (hc : c.Typed) {train : Bool}
    (hpop : train = true → i.Populated Γ) :
    @forward α (Scalar.recount z) train i c = i.forward train c := by
  cases i with
  | pool q => exact congrFun (q.forward_recount z (hpool q rfl)) c
  | localResponse i => exact congrFun (i.forward_recount z) c
  | batchNorm i =>
      exact i.forward_recount z train fun htrain _ hch => (hpop htrain).samples_pos ht hdecl hc hch
  | _ => rfl

/-- An instruction runs backward alike. -/
theorem backward_recount (hpool : ∀ q, i = pool q → 0 < q.window.kernel) (config : Config α) :
    @backward α (Scalar.recount z) config i c = i.backward config c := by
  cases i with
  | pool q => exact congrFun (q.backward_recount z (hpool q rfl)) c
  | localResponse i => exact congrFun (i.backward_recount z config.gradientPolicy) c
  | batchNorm i => exact i.backward_recount z
  | _ => rfl

end Instruction

end TensorProgram
