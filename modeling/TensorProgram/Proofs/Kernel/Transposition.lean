/-
TensorProgram/Proofs/Kernel/Transposition.lean

Transposition moves every element and loses none.  Coordinate by coordinate, a
transposed tensor has the element at the permuted-back coordinate
(`View.transposeInto_ok`), and a shuffle or an output that does not fit is
reported before anything is written.  Two transpositions in a row permute back
twice, which is permuting back by the shuffle of shuffles
(`IsPermutation.permuted_inverse_comp`), so they are one; followed by the
transposition by the inverse shuffle, a transposition is undone.

The way back of the kernel is that second transposition.  Where the gradient of
the output is the output itself, it finds the input again.
-/
import TensorProgram.Proofs.Context.Mirror
import TensorProgram.Proofs.Kernel.Atomicity

namespace TensorProgram

open Shape (coordinatesIn)

/-! ### One transposition and two -/

namespace View

variable {ε : Type} [Zero ε] (src : View ε) {p q : List Nat} {s t : Shape}

/-- A transposition that fits, coordinate by coordinate. -/
theorem transposeInto_ok (hp : IsPermutation p src.shape.rank)
    (hs : s.dims = permuted p src.shape.dims) (old : Vector ε s.elemCount) :
    ∃ new, src.transposeInto p s old = .ok () new ∧ ∀ c ∈ s.coordinates,
      (View.mk s new).elem c = src.elem (permuted (inverseShuffle p) c) :=
  ⟨_, (performs_transposeInto hp hs).fills_coordinatewise old, fun _ hc => elem_filled s _ hc⟩

omit [Zero ε] in
/-- A shuffle or an output that does not fit is reported, and nothing is written. -/
theorem transposeInto_error (h : ¬ (IsPermutation p src.shape.rank ∧
    s.dims = permuted p src.shape.dims)) (old : Vector ε s.elemCount) :
    (src.transposeInto p s).Reports old := by
  rcases src.transposeInto_cases p s with ⟨e, he⟩ | hfits
  · exact Run.reports_of_eq he old
  · exact absurd hfits h

/-- A transposition after another is the one by the shuffle of shuffles. -/
theorem transposeInto_transposeInto (hp : IsPermutation p src.shape.rank)
    (hq : IsPermutation q src.shape.rank) (hs : s.dims = permuted p src.shape.dims)
    (ht : t.dims = permuted q s.dims) (old : Vector ε s.elemCount)
    (old' : Vector ε t.elemCount) :
    ∃ mid new, src.transposeInto p s old = .ok () mid ∧
      (View.mk s mid).transposeInto q t old' = .ok () new ∧
      src.transposeInto (permuted q p) t old' = .ok () new := by
  have hrank : s.rank = src.shape.rank := by rw [Shape.rank, hs, length_permuted, hp.1]
  have hq' : IsPermutation q s.rank := by rwa [hrank]
  have ht' : t.dims = permuted (permuted q p) src.shape.dims := by
    rw [ht, hs, hp.permuted_permuted hq]
  obtain ⟨mid, hrunmid, hmid⟩ := transposeInto_ok src hp hs old
  obtain ⟨new, hrunnew, hnew⟩ := transposeInto_ok ⟨s, mid⟩ hq' ht old'
  obtain ⟨once, hrunonce, honce⟩ := transposeInto_ok src (hp.comp hq) ht' old'
  have hsame : once = new := by
    refine ext_elem fun c hc => ?_
    obtain ⟨hlen, hback⟩ := Shape.permuted_back_mem hq' ht hc
    rw [honce c hc, hnew c hc, hmid _ hback, hp.permuted_inverse_comp hq (hlen.trans hrank)]
  exact ⟨mid, new, hrunmid, hrunnew, hsame ▸ hrunonce⟩

/-- The transposition by the inverse shuffle undoes a transposition. -/
theorem transposeInto_inverse (hp : IsPermutation p src.shape.rank)
    (hs : s.dims = permuted p src.shape.dims) {mid : Vector ε s.elemCount}
    (hmid : ∀ c ∈ s.coordinates, (View.mk s mid).elem c = src.elem (permuted (inverseShuffle p) c))
    (old : Vector ε src.shape.elemCount) :
    (View.mk s mid).transposeInto (inverseShuffle p) src.shape old = .ok () src.data := by
  have hrank : s.rank = src.shape.rank := by rw [Shape.rank, hs, length_permuted, hp.1]
  have hinverse : IsPermutation (inverseShuffle p) s.rank := hrank ▸ hp.inverse
  have hback : src.shape.dims = permuted (inverseShuffle p) s.dims := by
    rw [hs, hp.permuted_inverse rfl]
  obtain ⟨new, hrun, hnew⟩ := transposeInto_ok ⟨s, mid⟩ hinverse hback old
  rw [hrun]
  congr 1
  refine ext_elem fun c hc => ?_
  obtain ⟨hlen, hforth⟩ := Shape.permuted_back_mem hinverse hback hc
  rw [hnew c hc, hmid _ hforth, hp.inverse_inverse,
    hp.permuted_inverse ((Shape.mem_coordinatesIn.mp hc).1)]

end View

/-! ### There and back through the kernel -/

namespace Transpose

open Context (gradOrZeros_congr gradOrZeros_deposit_of_ne grads_setGrad_of_ne grads_setGrad_self
  grads_deposit_self weights_setWeight_of_ne weights_setWeight_self)

/-- Where the gradient of the output is the output, the way back replaces the
gradient of the input by the input. -/
theorem backward_of_forward {α : Type} [Scalar α] (i : Transpose) {c c' : Context α}
    (hrun : i.forward c = .ok () c') (hc : c.Mirrored) :
    ∃ (src dest : View α) (b : Context α), c.weights[i.src]? = some src.tensor ∧
      c'.weights[i.dest]? = some dest.tensor ∧
      i.backward .replace (c'.setGrad i.dest dest.tensor) = .ok () b ∧
      b.grads[i.src]? = some src.tensor := by
  obtain ⟨src, old, hsrc, hdest, hne, hσ, hs⟩ := Run.of_reports_or i.forward_cases hrun
  rw [i.forward_eq hsrc hdest hne hσ hs] at hrun
  obtain ⟨-, rfl⟩ := EStateM.Result.ok.inj hrun
  let dest : View α := ⟨old.shape, filled _ (coordinatewise old.shape.dims
    fun c => src.elem (permuted (inverseShuffle i.shuffle) c))⟩
  -- the gradient of the input is that of the context before the run
  obtain ⟨g, hg⟩ := Context.exists_gradOrZeros hsrc
  obtain ⟨data, rfl⟩ := Tensor.eq_float (s := src.shape) (hc.gradOrZeros hg hsrc)
  have hgrad : ((c.setWeight i.dest dest.tensor).setGrad i.dest dest.tensor).gradOrZeros i.src
      = .ok ⟨src.shape, .float data⟩ := by
    rw [← hg]
    exact gradOrZeros_congr rfl (weights_setWeight_of_ne hne) (grads_setGrad_of_ne hne)
  have hout : ((c.setWeight i.dest dest.tensor).setGrad i.dest dest.tensor).gradOrZeros i.dest
      = .ok dest.tensor := Context.gradOrZeros_of_grad grads_setGrad_self
  have hback := i.backward_eq .replace hne.symm ⟨data, hgrad⟩ hout hσ hs
  refine ⟨src, dest, _, hsrc, weights_setWeight_self, hback, ?_⟩
  rw [Context.deposits_cons, Context.deposits_cons, Context.deposits_nil,
    grads_deposit_self _ ((gradOrZeros_deposit_of_ne hne).trans hgrad)]
  show some (Tensor.mk src.shape (.float (applyWrites overwrite _ data))) = _
  have helem : ∀ c ∈ coordinatesIn src.shape.dims,
      dest.elem (permuted i.shuffle c) = src.elem c := by
    intro c hc
    rw [View.elem_filled old.shape _ (Shape.permuted_mem hσ hs hc),
      hσ.permuted_inverse (Shape.mem_coordinatesIn.mp hc).1]
  rw [applyWrites_coordinatewise, coordinatewise_congr helem, View.filled_elem]
  rfl

/-- **A transposition rearranges by its shuffle.**  It succeeds exactly if the
shuffle is a permutation of the axes and the output has the permuted extents, and
then every coordinate of the output has the element whose coordinate is permuted
back; otherwise it reports and writes nothing.  Two in a row are one, by the
shuffle of shuffles, and the inverse shuffle leads back to the source.  So does the
way back of the kernel from an output that is its own gradient. -/
theorem rearranges {ε : Type} [Zero ε] {α : Type} [Scalar α] :
    (∀ (src : View ε) (p : List Nat) (s : Shape) (old : Vector ε s.elemCount),
      (IsPermutation p src.shape.rank ∧ s.dims = permuted p src.shape.dims →
        ∃ new, src.transposeInto p s old = .ok () new ∧
          ∀ coord ∈ s.coordinates, ∃ back ∈ src.shape.coordinates,
            (∀ i a : Nat, p[i]? = some a → back[a]? = coord[i]?) ∧
            ∃ x, (View.mk s new).get coord = .ok x ∧ src.get back = .ok x) ∧
      (¬ (IsPermutation p src.shape.rank ∧ s.dims = permuted p src.shape.dims) →
        ∃ e, src.transposeInto p s old = .error (.error e) old)) ∧
    (∀ (src : View ε) (p q : List Nat) (s t : Shape) (old : Vector ε s.elemCount)
      (old' : Vector ε t.elemCount), IsPermutation p src.shape.rank →
      IsPermutation q src.shape.rank → s.dims = permuted p src.shape.dims →
      t.dims = permuted q s.dims →
      ∃ mid new, src.transposeInto p s old = .ok () mid ∧
        (View.mk s mid).transposeInto q t old' = .ok () new ∧
        src.transposeInto (permuted q p) t old' = .ok () new) ∧
    (∀ (src : View ε) (p : List Nat) (s : Shape) (old : Vector ε s.elemCount)
      (old' : Vector ε src.shape.elemCount), IsPermutation p src.shape.rank →
      s.dims = permuted p src.shape.dims →
      ∃ inverse mid, inversePermutation p = .ok inverse ∧
        src.transposeInto p s old = .ok () mid ∧
        (View.mk s mid).transposeInto inverse src.shape old' = .ok () src.data) ∧
    ∀ (i : Transpose) (c c' : Context α), i.forward c = .ok () c' → c.Mirrored →
      ∃ (src dest : View α) (b : Context α), c.weights[i.src]? = some src.tensor ∧
        c'.weights[i.dest]? = some dest.tensor ∧
        i.backward .replace (c'.setGrad i.dest dest.tensor) = .ok () b ∧
        b.grads[i.src]? = some src.tensor := by
  refine ⟨fun src p s old => ⟨fun ⟨hp, hs⟩ => ?_, fun h => src.transposeInto_error h old⟩,
    fun src p q s t old old' hp hq hs ht => src.transposeInto_transposeInto hp hq hs ht old old',
    fun src p s old old' hp hs => ?_, fun i c c' hrun hc => i.backward_of_forward hrun hc⟩
  · obtain ⟨new, hrun, hnew⟩ := src.transposeInto_ok hp hs old
    refine ⟨new, hrun, fun c hc => ?_⟩
    obtain ⟨hlen, hback⟩ := Shape.permuted_back_mem hp hs hc
    refine ⟨_, hback, fun i a ha => Layout.getElem?_permuted_inverse hp hlen ha, _,
      View.get_of_mem ⟨s, new⟩ hc, ?_⟩
    rw [hnew c hc, src.get_of_mem hback]
  · obtain ⟨mid, hrun, hmid⟩ := src.transposeInto_ok hp hs old
    exact ⟨_, mid, hp.inversePermutation_eq, hrun, src.transposeInto_inverse hp hs hmid old'⟩

/-- A turn of three axes, which is not its own inverse. -/
def turn : Transpose := ⟨1, 0, [2, 0, 1]⟩

/-- Two rows, a gradient for them, and room for the rows turned. -/
def twoRows : Context Float32 :=
  ((({} : Context Float32).setWeight 0 ⟨⟨[2, 1, 3]⟩, .float #v[1, 2, 3, 4, 5, 6]⟩).setWeight 1
    ⟨⟨[3, 2, 1]⟩, .float #v[0, 0, 0, 0, 0, 0]⟩).setGrad 0 ⟨⟨[2, 1, 3]⟩, .float #v[7, 7, 7, 7, 7, 7]⟩

theorem mirrored_twoRows : twoRows.Mirrored := by
  intro id t g ht hg
  rw [twoRows, Context.grads_setGrad] at hg
  split at hg
  · rename_i hid
    subst hid
    obtain rfl := Option.some.inj hg
    have hweight : twoRows.weights[(0 : ValueId)]?
        = some ⟨⟨[2, 1, 3]⟩, .float #v[1, 2, 3, 4, 5, 6]⟩ := rfl
    obtain rfl := Option.some.inj (ht.symm.trans hweight)
    show (⟨.float, ⟨[2, 1, 3]⟩⟩ : Declaration) = ⟨.float, ⟨[2, 1, 3]⟩⟩
    rfl
  · cases hg

theorem rearranges_twoRows :
    (let src : View Nat := ⟨⟨[2, 1, 3]⟩, #v[1, 2, 3, 4, 5, 6]⟩
    let mid : View Nat := ⟨⟨[3, 2, 1]⟩, #v[1, 4, 2, 5, 3, 6]⟩
    src.transposeInto [2, 0, 1] ⟨[3, 2, 1]⟩ (Vector.replicate 6 0) = .ok () mid.data ∧
      (∃ new, mid.transposeInto [2, 0, 1] ⟨[1, 3, 2]⟩ (Vector.replicate 6 0) = .ok () new ∧
        src.transposeInto [1, 2, 0] ⟨[1, 3, 2]⟩ (Vector.replicate 6 0) = .ok () new) ∧
      mid.transposeInto [1, 2, 0] ⟨[2, 1, 3]⟩ (Vector.replicate 6 0) = .ok () src.data ∧
      ∃ e, src.transposeInto [2, 0, 1] ⟨[2, 3, 1]⟩ (Vector.replicate 6 0)
        = .error (.error e) (Vector.replicate 6 0)) ∧
    ∃ (dest : View Float32) (c' b : Context Float32), turn.forward twoRows = .ok () c' ∧
      c'.weights[(1 : ValueId)]? = some dest.tensor ∧
      turn.backward .replace (c'.setGrad 1 dest.tensor) = .ok () b ∧
      b.grads[(0 : ValueId)]? = twoRows.weights[(0 : ValueId)]? := by
  obtain ⟨hmoves, hcomp, hinverse, hkernel⟩ := @rearranges Nat _ Float32 _
  constructor
  · intro src mid
    have hp : IsPermutation [2, 0, 1] 3 := by decide
    have hrun : src.transposeInto [2, 0, 1] ⟨[3, 2, 1]⟩ (Vector.replicate 6 0)
        = .ok () mid.data := rfl
    refine ⟨hrun, ?_, ?_, (hmoves src [2, 0, 1] ⟨[2, 3, 1]⟩ _).2 (by decide)⟩
    · obtain ⟨x, new, hx, hnew, honce⟩ := hcomp src [2, 0, 1] [2, 0, 1] ⟨[3, 2, 1]⟩ ⟨[1, 3, 2]⟩
        (Vector.replicate 6 0) (Vector.replicate 6 0) hp hp rfl rfl
      obtain rfl : mid.data = x := by
        rw [hrun] at hx
        injection hx
      exact ⟨new, hnew, honce⟩
    · obtain ⟨inverse, x, hinv, hx, hback⟩ := hinverse src [2, 0, 1] ⟨[3, 2, 1]⟩
        (Vector.replicate 6 0) (Vector.replicate 6 0) hp rfl
      obtain rfl : mid.data = x := by
        rw [hrun] at hx
        injection hx
      obtain rfl : [1, 2, 0] = inverse := Except.ok.inj hinv
      exact hback
  · obtain ⟨c', hrun⟩ : ∃ c', turn.forward twoRows = .ok () c' := ⟨_, rfl⟩
    obtain ⟨src, dest, b, hsrc, hdest, hback, hgrad⟩ :=
      hkernel turn twoRows c' hrun mirrored_twoRows
    exact ⟨dest, c', b, hrun, hdest, hback, hgrad.trans hsrc.symm⟩

end Transpose

end TensorProgram
