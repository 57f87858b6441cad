/-
TensorProgram/Proofs/Kernel/Atomicity.lean

Running forward changes everything or nothing.  The output of a kernel is out of
the context while it looks up its inputs, so an operand that is missing, of the
wrong kind or the output itself is noticed before the first element is written;
and the entry check leaves nothing that could fail later.  So a kernel that
fails has left the context as it was (`Instruction.forward_restores`).

Three kernels are not atomic: a max pool meets an empty window half-way, a
concatenation looks its operands up one after the other, and in training a
normalization updates the running statistics before it writes its output.
-/
import TensorProgram.Kernel.Dispatch
import TensorProgram.Proofs.Context.Atomic
import TensorProgram.Proofs.Kernel.Entry
import TensorProgram.Scalar.Binary32

namespace TensorProgram

variable {α : Type} [Scalar α] {c : Context α}

open Context (shape_eq weights_of_floats_without weights_of_floats_without_both
  reports_updateWeight_or reports_updateWeightPair_or)
open Run (atomic_get atomic_check atomic_after reports_get_or reports_check_or reports_after_or)
open Tensor (reports_onFloats_or reports_onFloatPair_or reports_onFloatsAndIndices_or)

/-! ### Elementwise instructions -/

namespace Unary

variable (i : Unary)

omit [Scalar α] in
/-- A buffer moves to an output of as many elements, or nothing happens. -/
theorem atomic_move {s t : Shape} (hsrc : c.shapeOf i.src = .ok s)
    (hdest : c.shapeOf i.dest = .ok t) (hsize : t.elemCount = s.elemCount) :
    (i.move : Run (Context α) Unit).Atomic c := by
  refine reports_updateWeight_or fun u hu => reports_check_or fun v hv =>
    reports_onFloats_or fun r old hold => .inr ?_
  -- the input was found while the output was out, so they are two values
  obtain ⟨hne, hv⟩ := weights_of_floats_without hv
  subst hold
  obtain rfl : v.shape = s := shape_eq hsrc hv
  obtain rfl : r = t := shape_eq hdest hu
  exact ⟨_, _, i.move_eq hv hu hne hsize.symm⟩

omit [Scalar α] in
theorem atomic_forwardCopy : (i.forwardCopy : Run (Context α) Unit).Atomic c := by
  rcases i.requireAlike_cases (c := c) "copy" with h | ⟨hok, s, hsrc, hdest⟩
  · exact .inl h.bind
  · exact atomic_after hok (i.atomic_move hsrc hdest rfl)

omit [Scalar α] in
theorem atomic_forwardReshape : (i.forwardReshape : Run (Context α) Unit).Atomic c := by
  rcases i.requireEquinumerous_cases (c := c) with h | ⟨hok, s, t, hsrc, hdest, hsize⟩
  · exact .inl h.bind
  · exact atomic_after hok (i.atomic_move hsrc hdest hsize)

end Unary

theorem Activation.atomic_forward (f : Activation) (i : Unary) :
    (f.forward i : Run (Context α) Unit).Atomic c := by
  rcases i.requireAlike_cases (c := c) "activation" with h | ⟨hok, s, hsrc, hdest⟩
  · exact .inl h.bind
  refine reports_after_or hok (reports_updateWeight_or fun u hu => reports_check_or fun v hv =>
    reports_onFloats_or fun r old hold => .inr ?_)
  obtain ⟨hne, hv⟩ := weights_of_floats_without hv
  subst hold
  obtain rfl : v.shape = s := shape_eq hsrc hv
  obtain rfl : r = v.shape := shape_eq hdest hu
  exact ⟨_, _, f.forward_eq i hv hu hne rfl⟩

theorem Arithmetic.atomic_forward (i : Arithmetic) :
    (i.forward : Run (Context α) Unit).Atomic c := by
  rcases i.requireAlike_cases (c := c) with h | ⟨hok, s, hdest, hlhs, hrhs⟩
  · exact .inl h.bind
  refine reports_after_or hok (reports_updateWeight_or fun u hu => reports_check_or fun x hx =>
    reports_check_or fun y hy => reports_onFloats_or fun r old hold => .inr ?_)
  obtain ⟨hl, hx⟩ := weights_of_floats_without hx
  obtain ⟨hr, hy⟩ := weights_of_floats_without hy
  subst hold
  obtain rfl : r = s := shape_eq hdest hu
  exact ⟨_, _, i.forward_eq hx hy hu hl hr (shape_eq hlhs hx) (shape_eq hrhs hy)⟩

/-! ### Images and rows -/

omit [Scalar α] in
/-- A kernel that looks up three operands while its output is out reports, or all
four are bound and the output is none of the other three. -/
theorem reports_lookups_or {P : Prop} {dest src filter bias : ValueId}
    {f : (src filter bias : View α) → (s : Shape) → Run (Vector α s.elemCount) Unit}
    (h : ∀ x y z old : View α, c.weights[src]? = some x.tensor →
      c.weights[filter]? = some y.tensor → c.weights[bias]? = some z.tensor →
      c.weights[dest]? = some old.tensor → dest ≠ src → dest ≠ filter → dest ≠ bias → P) :
    (Context.updateWeight dest fun ctx => do
      let x ← ctx.floats src
      let y ← ctx.floats filter
      let z ← ctx.floats bias
      Tensor.onFloats (f x y z)).Reports c ∨ P := by
  refine reports_updateWeight_or fun out hout => reports_check_or fun x hx =>
    reports_check_or fun y hy => reports_check_or fun z hz =>
      reports_onFloats_or fun r old hold => .inr ?_
  obtain ⟨hnex, hx⟩ := weights_of_floats_without hx
  obtain ⟨hney, hy⟩ := weights_of_floats_without hy
  obtain ⟨hnez, hz⟩ := weights_of_floats_without hz
  subst hold
  exact h x y z ⟨r, old⟩ hx hy hz hout hnex hney hnez

/-- A convolution reports, or its operands are four scalar values whose shapes fit
the window. -/
theorem Convolution.forward_cases (i : Convolution) :
    (i.forward : Run (Context α) Unit).Reports c ∨
      ∃ (d : ImageDims) (src filter bias old : View α), i.dims c = .ok d ∧
        c.weights[i.src]? = some src.tensor ∧ c.weights[i.filter]? = some filter.tensor ∧
        c.weights[i.bias]? = some bias.tensor ∧ c.weights[i.dest]? = some old.tensor ∧
        i.dest ≠ i.src ∧ i.dest ≠ i.filter ∧ i.dest ≠ i.bias ∧
        Fits i.window d src.shape old.shape filter.shape bias.shape := by
  refine reports_get_or (reports_check_or fun d hd => ?_)
  obtain ⟨s, t, u, v, hs, ht, hu, hv, hfits⟩ := fits_of_dims hd
  refine reports_lookups_or fun src filter bias old hsrc hfilter hbias hout hne hnef hneb => ?_
  obtain rfl : src.shape = s := shape_eq hs hsrc
  obtain rfl : old.shape = t := shape_eq ht hout
  obtain rfl : filter.shape = u := shape_eq hu hfilter
  obtain rfl : bias.shape = v := shape_eq hv hbias
  exact ⟨d, src, filter, bias, old, hd, hsrc, hfilter, hbias, hout, hne, hnef, hneb, hfits⟩

theorem Convolution.atomic_forward (i : Convolution) :
    (i.forward : Run (Context α) Unit).Atomic c := by
  rcases i.forward_cases (c := c) with hreports |
    ⟨d, src, filter, bias, old, -, hsrc, hfilter, hbias, hdest, hs, hf, hb, hfits⟩
  · exact .inl hreports
  · exact .inr ⟨_, _, i.forward_eq hsrc hfilter hbias hdest hs hf hb hfits⟩

theorem Pool.atomic_forwardAvg (i : Pool) : (i.forwardAvg : Run (Context α) Unit).Atomic c := by
  refine reports_get_or (reports_check_or fun d hd => ?_)
  obtain ⟨s, t, hs, ht, hfits⟩ := fits_of_dims hd
  refine reports_updateWeight_or fun out hout => reports_check_or fun src hsrc =>
    reports_onFloats_or fun r old hold => .inr ?_
  obtain ⟨hne, hsrc⟩ := weights_of_floats_without hsrc
  subst hold
  obtain rfl : src.shape = s := shape_eq hs hsrc
  obtain rfl : r = t := shape_eq ht hout
  exact ⟨_, _, i.forwardAvg_eq hsrc hout hne hfits⟩

/-- A max pool reports, or its operands fit; then it fills its output and the
saved coordinates, or it stops at the first window that holds no element. -/
theorem Pool.forwardMax_cases (i : Pool) : (i.forwardMax : Run (Context α) Unit).Reports c ∨
    ∃ (d : ImageDims) (coords : ValueId) (src : View α), i.coords = some coords ∧
      c.weights[i.src]? = some src.tensor ∧ Fits d src.shape d.output.toShape ∧
      i.dest ≠ i.src ∧ i.dest ≠ coords ∧ coords ≠ i.src ∧
      (((i.window.sites d.output).find? (i.isEmptyWindow d) = none ∧ i.forwardMax c = .ok ()
        ((c.setWeight i.dest ⟨d.output.toShape, .float (filled _ (i.maxima d src))⟩).setWeight
          coords ⟨pairs d.output, .index (filled _ (i.coordinates d src))⟩)) ∨
      ∃ o c', i.forwardMax c = .error (.error (emptyWindowError o)) c') := by
  refine reports_get_or (reports_check_or fun d hd =>
    reports_get_or (reports_check_or fun coords hcoords => ?_))
  obtain ⟨s, t, hs, ht, hfits⟩ := fits_of_dims hd
  obtain ⟨hnamed, hpairs⟩ := shapeOf_of_savedIn hcoords
  refine reports_updateWeightPair_or fun out saved hdc hout hsaved =>
    reports_check_or fun src hsrc =>
      reports_onFloatsAndIndices_or fun r old r' old' hold hold' => ?_
  obtain ⟨hne, hne', hsrc⟩ := weights_of_floats_without_both hsrc
  subst hold hold'
  obtain rfl : src.shape = s := shape_eq hs hsrc
  obtain rfl : r = t := shape_eq ht hout
  obtain rfl : r' = pairs d.output := shape_eq hpairs hsaved
  obtain rfl : r = d.output.toShape := hfits.dest
  refine ⟨d, coords, src, hnamed, hsrc, hfits, hne, hdc, hne', ?_⟩
  -- the first window that lies outside the input, if any, ends the kernel half-way
  rcases hfirst : (i.window.sites d.output).find? (i.isEmptyWindow d) with - | o
  · exact .inl ⟨rfl, i.forwardMax_eq hsrc hout hnamed hsaved rfl hfits hne hdc hne' hfirst⟩
  · obtain ⟨c', hstop⟩ := i.forwardMax_stops hsrc hout hnamed hsaved rfl hfits hne hdc hne' hfirst
    exact .inr ⟨o, c', hstop⟩

theorem FullyConnected.atomic_forward (i : FullyConnected) :
    (i.forward : Run (Context α) Unit).Atomic c := by
  refine reports_get_or (reports_check_or fun d hd => ?_)
  obtain ⟨s, t, u, v, hs, ht, hu, hv, hfits⟩ := fits_of_dims hd
  refine reports_lookups_or fun src filter bias old hsrc hfilter hbias hout hne hnef hneb => ?_
  obtain rfl : src.shape = s := shape_eq hs hsrc
  obtain rfl : old.shape = t := shape_eq ht hout
  obtain rfl : filter.shape = u := shape_eq hu hfilter
  obtain rfl : bias.shape = v := shape_eq hv hbias
  exact ⟨_, _, i.forward_eq hsrc hfilter hbias hout hne hnef hneb hfits⟩

/-! ### Losses -/

/-- A softmax reports, or its operands fit; then it fills its output and its
saved probabilities. -/
theorem Softmax.forward_cases (i : Softmax) : (i.forward : Run (Context α) Unit).Reports c ∨
    ∃ (rows columns : Nat) (src : View α) (s t : Shape), columns ≠ 0 ∧
      i.Bound c src rows columns ∧ s = ⟨[rows, columns]⟩ ∧ t = ⟨[rows, columns]⟩ ∧
      i.dest ≠ i.saved ∧ i.forward c = .ok () ((c.setWeight i.dest
        ⟨s, .float (filled _ (writes rows columns src))⟩).setWeight i.saved
        ⟨t, .float (filled _ (writes rows columns src))⟩) := by
  refine reports_get_or (reports_check_or fun ⟨rows, columns⟩ hd => ?_)
  obtain ⟨hpos, hs, ht, hu⟩ := shapes_of_dims hd
  refine reports_updateWeightPair_or fun out saved hds hout hsaved =>
    reports_check_or fun src hsrc => reports_onFloatPair_or fun r old r' old' hold hold' => ?_
  obtain ⟨hne, hne', hsrc⟩ := weights_of_floats_without_both hsrc
  subst hold hold'
  have hr : r = ⟨[rows, columns]⟩ := shape_eq ht hout
  have hr' : r' = ⟨[rows, columns]⟩ := shape_eq hu hsaved
  have hbound : i.Bound c src rows columns :=
    ⟨hsrc, shape_eq hs hsrc, ⟨_, hout, hr⟩, ⟨_, hsaved, hr'⟩⟩
  exact ⟨rows, columns, src, r, r', hpos, hbound, hr, hr', hds,
    forward_eq hbound hpos hout hsaved hr hr' hne hds hne'⟩

theorem Softmax.atomic_forward (i : Softmax) : (i.forward : Run (Context α) Unit).Atomic c := by
  rcases i.forward_cases (c := c) with hreports | ⟨_, _, _, _, _, -, -, -, -, -, hok⟩
  · exact .inl hreports
  · exact .inr ⟨_, _, hok⟩

omit [Scalar α] in
theorem Regression.atomic_forward (i : Regression) :
    (i.forward : Run (Context α) Unit).Atomic c := by
  refine atomic_get (atomic_check fun s hs => atomic_check fun t ht => atomic_check fun _ hst => ?_)
  apply Unary.atomic_move ⟨i.dest, i.src⟩ hs ht
  rw [eq_of_requireSameShape hst]

/-! ### Rearrangements -/

omit [Scalar α] in
/-- A transposition reports, or its operands are two scalar values whose shapes
fit the shuffle. -/
theorem Transpose.forward_cases (i : Transpose) :
    (i.forward : Run (Context α) Unit).Reports c ∨
      ∃ src old : View α, c.weights[i.src]? = some src.tensor ∧
        c.weights[i.dest]? = some old.tensor ∧ i.dest ≠ i.src ∧
        IsPermutation i.shuffle src.shape.rank ∧
        old.shape.dims = permuted i.shuffle src.shape.dims := by
  refine reports_updateWeight_or fun out hout => reports_check_or fun src hsrc =>
    reports_onFloats_or fun r old hold => ?_
  obtain ⟨hne, hsrc⟩ := weights_of_floats_without hsrc
  subst hold
  -- the shuffle is checked while the output is out, but before it is written
  rcases src.transposeInto_cases i.shuffle r with ⟨e, he⟩ | ⟨hσ, hr⟩
  · exact .inl (Run.reports_of_eq he old)
  · exact .inr ⟨src, ⟨r, old⟩, hsrc, hout, hne, hσ, hr⟩

theorem Transpose.atomic_forward (i : Transpose) :
    (i.forward : Run (Context α) Unit).Atomic c := by
  rcases i.forward_cases (c := c) with hreports | ⟨src, old, hsrc, hdest, hne, hσ, hs⟩
  · exact .inl hreports
  · exact .inr ⟨_, _, i.forward_eq hsrc hdest hne hσ hs⟩

/-! ### Normalizations -/

namespace BatchNorm

variable (i : BatchNorm α)

/-- If the shapes fit, normalizing reports, or its operands are scalar values with
this many channels. -/
theorem normalize_cases {ch : Channels} (hch : i.channels c = .ok ch) : i.normalize.Reports c ∨
    ∃ src scale bias mean var : View α, i.Bound c ch.count src scale bias mean var ∧
      i.dest ≠ i.src ∧ i.dest ≠ i.scale ∧ i.dest ≠ i.bias ∧ i.dest ≠ i.mean ∧
      i.dest ≠ i.var := by
  obtain ⟨s, count, rfl, -, haxis, hs, ht, hf, hb, hm, hv⟩ := shapes_of_channels hch
  refine reports_updateWeight_or fun out hout => reports_check_or fun src hsrc =>
    reports_check_or fun scale hscale => reports_check_or fun bias hbias =>
      reports_check_or fun mean hmean => reports_check_or fun var hvar =>
        reports_onFloats_or fun r old hold => .inr ?_
  obtain ⟨hnes, hsrc⟩ := weights_of_floats_without hsrc
  obtain ⟨hnef, hscale⟩ := weights_of_floats_without hscale
  obtain ⟨hneb, hbias⟩ := weights_of_floats_without hbias
  obtain ⟨hnem, hmean⟩ := weights_of_floats_without hmean
  obtain ⟨hnev, hvar⟩ := weights_of_floats_without hvar
  subst hold
  obtain rfl : r = s := shape_eq ht hout
  obtain rfl : src.shape = r := shape_eq hs hsrc
  have hbound : i.Bound c count src scale bias mean var :=
    ⟨hsrc, haxis, ⟨old, hout⟩, ⟨hscale, shape_eq hf hscale⟩, ⟨hbias, shape_eq hb hbias⟩,
      ⟨hmean, shape_eq hm hmean⟩, ⟨hvar, shape_eq hv hvar⟩⟩
  exact ⟨src, scale, bias, mean, var, hbound, hnes, hnef, hneb, hnem, hnev⟩

/-- If the shapes fit, normalizing by the running statistics is atomic. -/
theorem atomic_normalize {ch : Channels} (hch : i.channels c = .ok ch) : i.normalize.Atomic c := by
  rcases i.normalize_cases hch with hreports |
    ⟨_, _, _, _, _, hbound, hnes, hnef, hneb, hnem, hnev⟩
  · exact .inl hreports
  · exact .inr ⟨_, _, i.normalize_eq hbound hnes hnef hneb hnem hnev⟩

/-- Outside training a normalization is atomic. -/
theorem atomic_forward : (i.forward false).Atomic c := by
  exact atomic_get (atomic_check fun ch hch => i.atomic_normalize hch)

end BatchNorm

/-- A normalization by neighbours reports, or its operands fit and it fills its
output and the scales. -/
theorem LocalResponse.forward_cases (i : LocalResponse α) : i.forward.Reports c ∨
    ∃ (d : NHWC) (src : View α), d.c ≠ 0 ∧ c.weights[i.src]? = some src.tensor ∧
      src.shape = d.toShape ∧ i.dest ≠ i.src ∧ i.dest ≠ i.scale ∧
      i.forward c = .ok ()
        ((c.setWeight i.dest ⟨d.toShape, .float (filled _ (i.outputWrites d src))⟩).setWeight
          i.scale ⟨d.toShape, .float (filled _ (i.scaleWrites d src))⟩) := by
  refine reports_get_or (reports_check_or fun d hd => ?_)
  obtain ⟨hpos, hs, ht, hu⟩ := shapes_of_dims hd
  refine reports_updateWeightPair_or fun out scale hds hout hscale =>
    reports_check_or fun src hsrc => reports_onFloatPair_or fun r old r' old' hold hold' => ?_
  obtain ⟨hne, hne', hsrc⟩ := weights_of_floats_without_both hsrc
  subst hold hold'
  obtain rfl : r = d.toShape := shape_eq ht hout
  obtain rfl : r' = d.toShape := shape_eq hu hscale
  have hsrcs : src.shape = d.toShape := shape_eq hs hsrc
  exact ⟨d, src, hpos, hsrc, hsrcs, hne, hds,
    i.forward_eq hsrc hout hscale hsrcs rfl rfl hpos hne hds hne'⟩

theorem LocalResponse.atomic_forward (i : LocalResponse α) : i.forward.Atomic c :=
  i.forward_cases.imp_right fun ⟨_, _, _, _, _, _, _, hrun⟩ => ⟨_, _, hrun⟩

/-! ### Coming to life -/

namespace Context

variable {id : ValueId} {t : Tensor α}

/-- The steps by which an activation comes to life: its weight is allocated, its
gradient is bound and then zeroed. -/
def enlivenSteps (id : ValueId) : Run (Context α) Unit := do
  change (·.allocate id)
  change (·.ensureGrad id)
  change fun ctx => do return ctx.setGrad id (← ctx.grad id).zero

/-- A value that was not declared is reported by the first step. -/
theorem enlivenSteps_of_error {e : Error} (ht : c.allocated id = .error e) :
    enlivenSteps id c = .error (.error e) c := by
  have hallocate : c.allocate id = .error e := by
    rw [allocate, ht]
    rfl
  exact Run.bind_of_error (by rw [change, hallocate])

/-- After the first step the weight is bound, and neither of the others fails. -/
theorem enlivenSteps_of_ok (ht : c.allocated id = .ok t) :
    ∃ g, (c.setWeight id t).gradOrZeros id = .ok g ∧
      enlivenSteps id c = .ok () ((c.setWeight id t).setGrad id g.zero) := by
  have hallocate : c.allocate id = .ok (c.setWeight id t) := by
    rw [allocate, ht]
    rfl
  obtain ⟨g, hg⟩ : ∃ g, (c.setWeight id t).gradOrZeros id = .ok g :=
    exists_gradOrZeros weights_setWeight_self
  have hensure : (c.setWeight id t).ensureGrad id = .ok ((c.setWeight id t).setGrad id g) := by
    rw [ensureGrad, hg]
    rfl
  have hgrad : ((c.setWeight id t).setGrad id g).grad id = .ok g := grad_eq grads_setGrad_self
  refine ⟨g, hg, ?_⟩
  rw [enlivenSteps, Run.bind_of_ok (change_of_ok hallocate), Run.bind_of_ok (change_of_ok hensure)]
  apply change_of_ok
  rw [hgrad, Except.ok_bind, setGrad_setGrad]
  rfl

/-- Coming to life in one change is coming to life in steps. -/
theorem enlivened_eq_steps (id : ValueId) :
    change (·.enlivened id) = (enlivenSteps id : Run (Context α) Unit) := by
  funext c
  rcases ht : c.allocated id with e | t
  · rw [enlivenSteps_of_error ht, change, enlivened, allocate, ht]
    rfl
  · obtain ⟨g, hg, hsteps⟩ := enlivenSteps_of_ok ht
    rw [hsteps]
    apply change_of_ok
    rw [enlivened, allocate, ht, Except.ok_bind, pure_bind, hg]
    rfl

/-- Nothing fails once the allocation took effect. -/
theorem atomic_enlivened : (change (·.enlivened id) : Run (Context α) Unit).Atomic c := by
  rw [enlivened_eq_steps]
  rcases ht : c.allocated id with e | t
  · exact .inl ⟨e, enlivenSteps_of_error ht⟩
  · obtain ⟨g, -, hsteps⟩ := enlivenSteps_of_ok ht
    exact .inr ⟨(), _, hsteps⟩

/-- What is declared with a shape that can be allocated comes to life as a whole. -/
theorem atomic_enliven (hfits : ∀ d, c.declared[id]? = some d → d.Allocatable α) :
    (enliven id : Run (Context α) Unit).Atomic c := by
  rcases hd : c.declared[id]? with - | d
  · exact .inl ⟨_, enliven_of_undeclared hd⟩
  · rw [Run.Atomic, Run.Reports, enliven_of_allocatable hd (hfits d hd)]
    exact atomic_enlivened

end Context

/-! ### Every instruction -/

namespace Instruction

/-- The kernels that may stop after they have written something: a max pool, a
concatenation and, in training, a normalization by running statistics. -/
def mayStopHalfway (train : Bool) : Instruction α → Bool
  | pool i => i.kind = .max
  | concat _ => true
  | batchNorm _ => train
  | _ => false

variable (i : Instruction α) (train : Bool)

/-- Running forward is atomic, three kernels apart. -/
theorem atomic_forward (h : i.mayStopHalfway train = false) {c : Context α} (hfits : i.Affords c) :
    (i.forward train).Atomic c := by
  cases i with
  | copy i => exact i.atomic_forwardCopy
  | reshape i => exact i.atomic_forwardReshape
  | activation f i => exact f.atomic_forward i
  | convolution i => exact i.atomic_forward
  | pool i =>
      rcases hkind : i.kind with - | -
      · simp [mayStopHalfway, hkind] at h
      · simp only [forward, Pool.forward, hkind]
        exact i.atomic_forwardAvg
  | fullyConnected i => exact i.atomic_forward
  | softmax i => exact i.atomic_forward
  | regression i => exact i.atomic_forward
  | transpose i => exact i.atomic_forward
  | concat i => cases h
  | batchNorm i =>
      obtain rfl : train = false := h
      exact i.atomic_forward
  | localResponse i => exact i.atomic_forward
  | arithmetic i => exact i.atomic_forward
  | alloc dest => exact Context.atomic_enliven fun d => hfits dest d rfl
  | dealloc src => exact .inr ⟨(), c, rfl⟩

/-- **A kernel that fails restores the context**, three kernels apart. -/
theorem forward_restores (h : i.mayStopHalfway train = false) {c c' : Context α} {e : Failure}
    (hfail : i.forward train c = .error e c') : c' = c := by
  by_cases hfits : i.Affords c
  · exact (i.atomic_forward train h hfits).eq_of_error hfail
  · -- what cannot be allocated changes nothing either
    rw [i.forward_of_not_affords train hfits] at hfail
    exact (EStateM.Result.error.inj hfail).2.symm

/-- A vector copied onto itself. -/
def selfCopy : Instruction Float32 := .copy ⟨0, 0⟩

/-- A vector of ones and a gradient of ones. -/
def pairedVector : Context Float32 :=
  (({} : Context Float32).setWeight 0 (.full 1 ⟨[2]⟩)).setGrad 0 (.full 1 ⟨[2]⟩)

/-- While the vector is written it cannot be read. -/
theorem forward_restores_selfCopy : ∃ e c', selfCopy.forward true pairedVector = .error e c' ∧
    c' = pairedVector := by
  obtain ⟨e, c', hfail⟩ : ∃ e c', selfCopy.forward true pairedVector = .error e c' :=
    ⟨_, _, rfl⟩
  exact ⟨e, c', hfail, forward_restores selfCopy true rfl hfail⟩

end Instruction

end TensorProgram
