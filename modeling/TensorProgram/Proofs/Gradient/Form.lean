/-
TensorProgram/Proofs/Gradient/Form.lean

Instructions that add and multiply.  Such an instruction has a form: cells that
fill its one output, such that running forward writes their values and running
backward deposits their adjoint (`Instruction.Form`).  The form depends on the
declarations alone, so one form serves every run.

Main statement: a well typed copy, change of shape, transposition, concatenation,
sum, product, average pool, affine map or convolution has a form
(`Instruction.Typed.exists_form`).
-/
import TensorProgram.Proofs.Gradient.Kernel
import TensorProgram.Proofs.Program.Backward

namespace TensorProgram

namespace Instruction

/-- The instruction adds and multiplies. -/
def isPolynomial {α : Type} : Instruction α → Bool
  | copy _ | reshape _ | transpose _ | concat _ | arithmetic _ | fullyConnected _
  | convolution _ => true
  | pool i => i.kind = .avg
  | _ => false

variable {K : Type} [ExactScalar K]

/-- Running forward writes the values of these cells to `dest`, and running
backward deposits the adjoint, if gradients accumulate and filter gradients read
the image that is being propagated. -/
structure Form (Γ : Signature) (i : Instruction K) (dest : ValueId) (s : Shape)
    (cells : List (Cell K)) : Prop where
  /-- The one output. -/
  outputs : i.outputs = [dest]
  /-- It is declared with scalars. -/
  declared : Γ.Floats dest s
  /-- The cells are its elements. -/
  fill : Fill cells s.elemCount
  /-- Their summands are elements of values that are read. -/
  places : ∀ cell ∈ cells, ∀ u ∈ cell.summands, ∀ p ∈ u.places, p.1 ∈ i.consulted
  /-- Running forward writes their values. -/
  forward : ∀ (train : Bool) (c : Context K), i.Ready Γ c → i.forward train c = .ok ()
    (c.setWeight dest ⟨s, .float (filled _ (cellWrites cells c.entry))⟩)
  /-- Running backward deposits the adjoint. -/
  backward : ∀ config : Config K, config.gradientPolicy = .accumulate →
    config.filterGradSource = .currentBatch → ∀ c : Context K, i.Revisits Γ c →
    ∃ ds, i.backward config c = .ok () (c.deposits accumulate ds) ∧
      (∀ e ∈ ds, e = (dest, []) ∨ (e.1 ∈ i.consulted ∧ ∃ t, Γ.Floats e.1 t)) ∧
      ∀ d, (ds.map (pairedDeposit d)).sum
        = pairedCells cells (fun k => c.gradEntry (dest, k)) c.entry d

section Rules

variable {Γ : Signature}

/-- The elements of an operand that is bound to a view. -/
theorem entry_view {c : Context K} {id : ValueId} {v : View K}
    (hv : c.weights[id]? = some v.tensor) (k : Nat) : c.entry (id, k) = v.entry k :=
  Context.entry_of_weight hv k

/-- The gradient of an output, as an instruction reads it. -/
theorem gradEntry_view {c : Context K} {id : ValueId} {out : View K}
    (hout : c.gradOrZeros id = .ok out.tensor) :
    (fun k => c.gradEntry (id, k)) = out.entry := by
  funext k
  exact Context.gradEntry_of_gradOrZeros hout k

omit [ExactScalar K] in
/-- Deposits to an output, which adds nothing, and to values that are read. -/
theorem deposits_to {i : Instruction K} {dest : ValueId} {ds : List (Deposit K)}
    (h : ∀ e ∈ ds, e.1 ∈ i.consulted ∧ ∃ t, Γ.Floats e.1 t) :
    ∀ e ∈ (dest, []) :: ds, e = (dest, []) ∨ (e.1 ∈ i.consulted ∧ ∃ t, Γ.Floats e.1 t) :=
  List.forall_mem_cons.mpr ⟨.inl rfl, fun e he => .inr (h e he)⟩

/-- The form of a moved buffer, after a check that succeeds. -/
theorem form_move {i : Instruction K} {u : Unary} {s t : Shape}
    (hops : i.operands = [(u.dest, .write), (u.src, .read)]) (hout : i.outputs = [u.dest])
    (hrev : i.revisited = [u.dest, u.src]) (hsep : i.Separate) (hdest : Γ.Floats u.dest t)
    (hsrc : Γ.Floats u.src s) (hsize : s.elemCount = t.elemCount)
    (hforward : ∀ (train : Bool) (c : Context K) (x y : Tensor K), c.weights[u.src]? = some x →
      c.weights[u.dest]? = some y → x.shape = s → y.shape = t → i.forward train c = u.move c)
    (hbackward : ∀ (config : Config K) (c : Context K) (x y : Tensor K),
      c.weights[u.src]? = some x → c.weights[u.dest]? = some y → x.shape = s → y.shape = t →
      i.backward config c = u.moveBack c) :
    i.Form Γ u.dest t (u.cells t.elemCount) := by
  have hne : u.dest ≠ u.src := hsep.ne (l := []) hops (by decide) (by simp)
  have hread : i.consulted = [u.src] := by simp [consulted, hops]
  refine ⟨hout, hdest, u.fill_cells _, ?_, fun train c hc => ?_, fun config _ _ c hc => ?_⟩
  · -- every place that a cell reads is one of the input
    intro cell hcell
    obtain ⟨k, -, rfl⟩ := List.mem_map.mp hcell
    simp [Summand.places, hread]
  · -- forward the output is filled with the values of the cells
    obtain ⟨v, hv, hvs⟩ := hc.view (by simp [hops]) hsrc
    obtain ⟨old, hold⟩ := hc.buffer (by simp [hops]) hdest
    have hn : v.shape.elemCount = t.elemCount := by rw [hvs, hsize]
    rw [hforward train c _ _ hv hold hvs rfl, u.move_eq hv hold hne hn,
      u.filled_cells (entry_view hv) hn]
  · -- backward the input receives what pairs with a direction as the slopes do
    obtain ⟨x, hx⟩ := hc.buffer (by simp [hrev]) hsrc
    obtain ⟨y, hy⟩ := hc.buffer (by simp [hrev]) hdest
    obtain ⟨out, hout, houts⟩ := hc.grad hdest
    refine ⟨[(u.dest, []), (u.src, pointwise s.elemCount out.entry)], ?_, deposits_to ?_,
      fun d => ?_⟩
    · rw [hbackward config c _ _ hx hy rfl rfl]
      exact u.deposits_moveBack hne.symm (hc.hasGrad hsrc) (by rw [houts, hsize]) hout
    · intro e he
      obtain rfl := List.mem_singleton.mp he
      exact ⟨by simp [hread], s, hsrc⟩
    · rw [gradEntry_view hout, hsize, ← u.paired_cells]
      simp

theorem form_copy {i : Unary} {s : Shape} (hsep : (copy i : Instruction K).Separate)
    (hdest : Γ.Floats i.dest s) (hsrc : Γ.Floats i.src s) :
    (copy i : Instruction K).Form Γ i.dest s (i.cells s.elemCount) := by
  refine form_move rfl rfl rfl hsep hdest hsrc rfl ?_ ?_
  · intro train c x y hx hy hxs hys
    exact Run.bind_of_ok (i.requireAlike_ok _ hx hy (hxs.trans hys.symm))
  · intro config c x y hx hy hxs hys
    exact Run.bind_of_ok (i.requireAlike_ok _ hx hy (hxs.trans hys.symm))

theorem form_reshape {i : Unary} {s t : Shape} (hsep : (reshape i : Instruction K).Separate)
    (hdest : Γ.Floats i.dest t) (hsrc : Γ.Floats i.src s) (hsize : s.elemCount = t.elemCount) :
    (reshape i : Instruction K).Form Γ i.dest t (i.cells t.elemCount) := by
  refine form_move rfl rfl rfl hsep hdest hsrc hsize ?_ ?_
  · intro train c x y hx hy hxs hys
    exact Run.bind_of_ok (i.requireEquinumerous_ok hx hy (by rw [hxs, hys, hsize]))
  · intro config c x y hx hy hxs hys
    exact Run.bind_of_ok (i.requireEquinumerous_ok hx hy (by rw [hxs, hys, hsize]))

theorem form_transpose {i : Transpose} {s t : Shape} (hsep : (transpose i : Instruction K).Separate)
    (hdest : Γ.Floats i.dest t) (hsrc : Γ.Floats i.src s) (hshuffle : IsPermutation i.shuffle s.rank)
    (hdims : t.dims = permuted i.shuffle s.dims) :
    (transpose i : Instruction K).Form Γ i.dest t (i.cells s t) := by
  have hne : i.dest ≠ i.src := hsep.ne (l := []) rfl (by decide) (by simp)
  refine ⟨rfl, hdest, i.fill_cells s t, ?_, fun train c hc => ?_, fun config hpolicy _ c hc => ?_⟩
  · intro cell hcell
    obtain ⟨k, -, rfl⟩ := List.mem_map.mp hcell
    simp [Summand.places, consulted, operands]
  · obtain ⟨v, hv, rfl⟩ := hc.view (by simp [operands]) hsrc
    obtain ⟨old, hold⟩ := hc.buffer (by simp [operands]) hdest
    rw [← i.writes_eq (entry_view hv)]
    exact i.forward_eq hv hold hne hshuffle hdims
  · obtain ⟨out, hout, rfl⟩ := hc.grad hdest
    refine ⟨[(i.dest, []), (i.src, coordinatewise s.dims fun c => out.elem (permuted i.shuffle c))],
      ?_, deposits_to ?_, fun d => ?_⟩
    · have hrun := i.backward_eq config.gradientPolicy hne.symm (hc.hasGrad hsrc) hout hshuffle hdims
      rw [hpolicy] at hrun
      rw [backward, hpolicy]
      exact hrun
    · simp only [List.mem_singleton, forall_eq]
      exact ⟨by simp [consulted, operands], s, hsrc⟩
    · rw [gradEntry_view hout, ← i.paired_cells hshuffle hdims]
      simp

theorem form_concat {i : Concat} {t : Shape} {shape : ValueId → Shape}
    (hsep : (concat i : Instruction K).Separate) (hdest : Γ.Floats i.dest t)
    (hsrcs : ∀ id ∈ i.srcs, Γ.Floats id (shape id))
    (hagrees : ∀ id ∈ i.srcs, (shape id).agreesExcept t i.dim = true)
    (hextent : t.dims[i.dim]? = some ((i.srcs.map fun id => (shape id).dims.getD i.dim 0)).sum) :
    (concat i : Instruction K).Form Γ i.dest t (i.cells t shape) := by
  have hne : ∀ id ∈ i.srcs, i.dest ≠ id := fun id hid =>
    hsep.ne (l := []) rfl (by decide) (by simpa using hid)
  have hread {id : ValueId} (hid : id ∈ i.srcs) : id ∈ (concat i : Instruction K).consulted := by
    simpa [consulted, operands] using hid
  refine ⟨rfl, hdest, i.fill_cells hagrees hextent, ?_, fun train c hc => ?_,
    fun config hpolicy _ c hc => ?_⟩
  · intro cell hcell
    obtain ⟨p, hp, hcell⟩ := List.mem_flatMap.mp hcell
    obtain ⟨k, -, rfl⟩ := List.mem_map.mp hcell
    simpa [Summand.places] using hread (i.mem_srcs_of_mem_places hp)
  · obtain ⟨V, hV⟩ := Context.exists_views fun id hid => hc.view (by simp [operands, hid]) (hsrcs id hid)
    obtain ⟨old, hold⟩ := hc.buffer (by simp [operands]) hdest
    rw [← i.writes_eq (fun id hid => (hV id hid).2) fun id hid => entry_view (hV id hid).1]
    exact i.forward_eq (fun id hid => (hV id hid).1) hold hne
      (Concat.covers_of_views (fun id hid => (hV id hid).2) hagrees hextent)
  · obtain ⟨V, hV⟩ := Context.exists_views fun id hid => hc.view (by simp [revisited, hid]) (hsrcs id hid)
    obtain ⟨y, hy⟩ := hc.buffer (by simp [revisited]) hdest
    obtain ⟨out, hout, rfl⟩ := hc.grad hdest
    refine ⟨(i.dest, []) :: (i.lay V).map (fun p => (p.1, coordinatewise (V p.1).shape.dims
      fun c => out.elem (shift i.dim p.2 c))), ?_, deposits_to ?_, fun d => ?_⟩
    · have hrun := i.backward_eq config.gradientPolicy (fun id hid => (hV id hid).1) hy rfl
        (fun id hid => (hne id hid).symm)
        (fun id hid => (hV id hid).2 ▸ hc.hasGrad (hsrcs id hid))
        (Concat.covers_of_views (fun id hid => (hV id hid).2) hagrees hextent) hout rfl
      rw [hpolicy] at hrun
      rw [backward, hpolicy]
      exact hrun
    · intro e he
      obtain ⟨p, hp, rfl⟩ := List.mem_map.mp he
      have hmem := (Concat.le_of_mem_layFrom hp).1
      exact ⟨hread hmem, _, hsrcs p.1 hmem⟩
    · rw [gradEntry_view hout, List.map_cons, List.sum_cons, pairedDeposit_nil, zero_add]
      exact i.paired_cells fun id hid => (hV id hid).2

theorem form_arithmetic {i : Arithmetic} {s : Shape} (hsep : (arithmetic i : Instruction K).Separate)
    (hdest : Γ.Floats i.dest s) (hlhs : Γ.Floats i.lhs s) (hrhs : Γ.Floats i.rhs s) :
    (arithmetic i : Instruction K).Form Γ i.dest s (i.cells s.elemCount) := by
  have hne : ∀ id ∈ [i.lhs, i.rhs], i.dest ≠ id :=
    fun id hid => hsep.ne (l := []) rfl (by decide) (by simpa using hid)
  have hread : (arithmetic i : Instruction K).consulted = [i.lhs, i.rhs] := by
    simp [consulted, operands]
  refine ⟨rfl, hdest, i.fill_cells _, ?_, fun train c hc => ?_, fun config hpolicy _ c hc => ?_⟩
  · intro cell hcell
    obtain ⟨k, -, rfl⟩ := List.mem_map.mp hcell
    rcases i.kind with - | -
    · simp [Summand.places, hread]
    · simp only [List.mem_singleton, forall_eq, Summand.places, hread]
      rintro p hp
      simp only [List.mem_cons, List.not_mem_nil, or_false] at hp ⊢
      rcases hp with rfl | rfl
      · exact .inl rfl
      · exact .inr rfl
  · obtain ⟨x, hx, hxs⟩ := hc.view (by simp [operands]) hlhs
    obtain ⟨y, hy, hys⟩ := hc.view (by simp [operands]) hrhs
    obtain ⟨old, hold⟩ := hc.buffer (by simp [operands]) hdest
    rw [← i.writes_eq (entry_view hx) (entry_view hy)]
    exact i.forward_eq hx hy hold (hne _ (by simp)) (hne _ (by simp)) hxs hys
  · obtain ⟨x, hx, hxs⟩ := hc.view (by simp [revisited]) hlhs
    obtain ⟨y, hy, hys⟩ := hc.view (by simp [revisited]) hrhs
    obtain ⟨z, hz, hzs⟩ := hc.view (by simp [revisited]) hdest
    obtain ⟨out, hout, houts⟩ := hc.grad hdest
    refine ⟨[(i.dest, []), (i.lhs, i.contribution y out s.elemCount),
      (i.rhs, i.contribution x out s.elemCount)], ?_, deposits_to ?_, fun d => ?_⟩
    · have hrun := i.backward_eq config.gradientPolicy hx hy hz (hne _ (by simp)).symm
        (hne _ (by simp)).symm (hc.hasGrad hlhs) (hc.hasGrad hrhs) hxs hys hzs hout houts
      rw [hpolicy] at hrun
      rw [backward, hpolicy]
      exact hrun
    · simp only [List.forall_mem_cons, hread]
      exact ⟨⟨by simp, s, hlhs⟩, ⟨by simp, s, hrhs⟩, by simp⟩
    · rw [gradEntry_view hout, ← i.paired_cells (entry_view hx) (entry_view hy)]
      simp

theorem form_avgPool {i : Pool} {e : ImageDims} {s t : Shape} (hkind : i.kind = .avg)
    (hsep : (pool i : Instruction K).Separate) (hdest : Γ.Floats i.dest t)
    (hsrc : Γ.Floats i.src s) (hfits : Pool.Fits e s t) :
    (pool i : Instruction K).Form Γ i.dest t (i.cells e) := by
  have hne : i.dest ≠ i.src := hsep.ne (l := []) rfl (by decide) (by simp)
  have hrevisited : (pool i : Instruction K).revisited = [i.dest, i.src] := by
    simp only [revisited, hkind]
  have hread : i.src ∈ (pool i : Instruction K).consulted := by simp [consulted, operands]
  refine ⟨by simp only [outputs, hkind], hdest, ?_, ?_, fun train c hc => ?_,
    fun config _ _ c hc => ?_⟩
  · rw [hfits.dest]
    exact i.fill_cells e
  · intro cell hcell u hu p hp
    obtain ⟨o, -, rfl⟩ := List.mem_map.mp hcell
    obtain ⟨tap, -, rfl⟩ := List.mem_map.mp hu
    obtain rfl := List.mem_singleton.mp hp
    exact hread
  · obtain ⟨v, hv, rfl⟩ := hc.view (by simp [operands]) hsrc
    obtain ⟨old, hold⟩ := hc.buffer (by simp [operands]) hdest
    rw [← i.writes_eq (entry_view hv) hfits, forward, Pool.forward, hkind]
    exact i.forwardAvg_eq hv hold hne hfits
  · obtain ⟨x, hx, rfl⟩ := hc.view (by simp [hrevisited]) hsrc
    obtain ⟨y, hy⟩ := hc.buffer (by simp [hrevisited]) hdest
    obtain ⟨out, hout, rfl⟩ := hc.grad hdest
    refine ⟨[(i.dest, []), (i.src, i.shares e out)], ?_, deposits_to ?_, fun d => ?_⟩
    · rw [backward, Pool.backward, hkind]
      exact i.backwardAvg_eq hx hy hne.symm (hc.hasGrad hsrc) hfits hout rfl
    · simp only [List.mem_singleton, forall_eq]
      exact ⟨hread, _, hsrc⟩
    · rw [gradEntry_view hout, ← i.paired_cells hfits.dest]
      simp

/-- The places of an affine sum. -/
theorem places_affine {i : Instruction K} {ι : Type} {ts : List ι} {p q : ι → Place} {b : Place}
    (hp : ∀ t ∈ ts, (p t).1 ∈ i.consulted) (hq : ∀ t ∈ ts, (q t).1 ∈ i.consulted)
    (hb : b.1 ∈ i.consulted) :
    ∀ u ∈ ts.map (fun t => (.product (p t) (q t) : Summand K)) ++ [.scaled 1 b], ∀ r ∈ u.places,
      r.1 ∈ i.consulted := by
  intro u hu r hr
  rcases List.mem_append.mp hu with hu | hu
  · obtain ⟨t, ht, rfl⟩ := List.mem_map.mp hu
    simp only [Summand.places, List.mem_cons, List.not_mem_nil, or_false] at hr
    rcases hr with rfl | rfl
    · exact hp t ht
    · exact hq t ht
  · obtain rfl := List.mem_singleton.mp hu
    obtain rfl := List.mem_singleton.mp hr
    exact hb

theorem form_fullyConnected {i : FullyConnected} {e : FullyConnected.Dims} {s t u v : Shape}
    (hsep : (fullyConnected i : Instruction K).Separate) (hdest : Γ.Floats i.dest t)
    (hsrc : Γ.Floats i.src s) (hfilter : Γ.Floats i.filter u) (hbias : Γ.Floats i.bias v)
    (hfits : FullyConnected.Fits e s t u v) :
    (fullyConnected i : Instruction K).Form Γ i.dest t (i.cells e) := by
  have hne : ∀ id ∈ [i.src, i.filter, i.bias], i.dest ≠ id :=
    fun id hid => hsep.ne (l := []) rfl (by decide) (by simpa using hid)
  have hread : (fullyConnected i : Instruction K).consulted = [i.src, i.filter, i.bias] := by
    simp [consulted, operands]
  refine ⟨rfl, hdest, ?_, ?_, fun train c hc => ?_, fun config _ _ c hc => ?_⟩
  · rw [hfits.dest.elemCount]
    exact i.fill_cells e
  · intro cell hcell
    obtain ⟨n, -, hcell⟩ := List.mem_flatMap.mp hcell
    obtain ⟨j, -, rfl⟩ := List.mem_map.mp hcell
    exact places_affine (by simp [hread]) (by simp [hread]) (by simp [hread])
  · obtain ⟨x, hx, rfl⟩ := hc.view (by simp [operands]) hsrc
    obtain ⟨f, hf, rfl⟩ := hc.view (by simp [operands]) hfilter
    obtain ⟨b, hb, rfl⟩ := hc.view (by simp [operands]) hbias
    obtain ⟨old, hold⟩ := hc.buffer (by simp [operands]) hdest
    rw [← i.writes_eq (entry_view hx) (entry_view hf) (entry_view hb) hfits]
    exact i.forward_eq hx hf hb hold (hne _ (by simp)) (hne _ (by simp)) (hne _ (by simp)) hfits
  · obtain ⟨x, hx, rfl⟩ := hc.view (by simp [revisited]) hsrc
    obtain ⟨f, hf, rfl⟩ := hc.view (by simp [revisited]) hfilter
    obtain ⟨b, hb, rfl⟩ := hc.view (by simp [revisited]) hbias
    obtain ⟨y, hy⟩ := hc.buffer (by simp [revisited]) hdest
    obtain ⟨out, hout, rfl⟩ := hc.grad hdest
    refine ⟨[(i.dest, []), (i.src, FullyConnected.inputTerms e f out),
      (i.filter, FullyConnected.filterTerms e x out), (i.bias, FullyConnected.biasTerms e out)],
      ?_, deposits_to ?_, fun d => ?_⟩
    · exact i.backward_eq hx hf hb hy hfits (hne _ (by simp)).symm (hne _ (by simp)).symm
        (hne _ (by simp)).symm (hc.hasGrad hsrc) (hc.hasGrad hfilter) (hc.hasGrad hbias) hout rfl
    · simp only [List.forall_mem_cons, hread]
      exact ⟨⟨by simp, _, hsrc⟩, ⟨by simp, _, hfilter⟩, ⟨by simp, _, hbias⟩, by simp⟩
    · rw [gradEntry_view hout, ← i.paired_cells (entry_view hx) (entry_view hf) hfits]
      simp [add_assoc]

theorem form_convolution {i : Convolution} {e : ImageDims} {s t u v : Shape}
    (hsep : (convolution i : Instruction K).Separate) (hdest : Γ.Floats i.dest t)
    (hsrc : Γ.Floats i.src s) (hfilter : Γ.Floats i.filter u) (hbias : Γ.Floats i.bias v)
    (hfits : Convolution.Fits i.window e s t u v) :
    (convolution i : Instruction K).Form Γ i.dest t (i.cells e) := by
  have hne : ∀ id ∈ [i.src, i.filter, i.bias], i.dest ≠ id :=
    fun id hid => hsep.ne (l := []) rfl (by decide) (by simpa using hid)
  have hread : (convolution i : Instruction K).consulted = [i.src, i.filter, i.bias] := by
    simp [consulted, operands]
  refine ⟨rfl, hdest, ?_, ?_, fun train c hc => ?_, fun config _ hsource c hc => ?_⟩
  · rw [hfits.dest]
    exact i.fill_cells e
  · intro cell hcell
    obtain ⟨o, -, rfl⟩ := List.mem_map.mp hcell
    exact places_affine (by simp [hread]) (by simp [hread]) (by simp [hread])
  · obtain ⟨x, hx, rfl⟩ := hc.view (by simp [operands]) hsrc
    obtain ⟨f, hf, rfl⟩ := hc.view (by simp [operands]) hfilter
    obtain ⟨b, hb, rfl⟩ := hc.view (by simp [operands]) hbias
    obtain ⟨old, hold⟩ := hc.buffer (by simp [operands]) hdest
    rw [← i.writes_eq (entry_view hx) (entry_view hf) (entry_view hb) hfits]
    exact i.forward_eq hx hf hb hold (hne _ (by simp)) (hne _ (by simp)) (hne _ (by simp)) hfits
  · obtain ⟨x, hx, rfl⟩ := hc.view (by simp [revisited]) hsrc
    obtain ⟨f, hf, rfl⟩ := hc.view (by simp [revisited]) hfilter
    obtain ⟨b, hb, rfl⟩ := hc.view (by simp [revisited]) hbias
    obtain ⟨y, hy⟩ := hc.buffer (by simp [revisited]) hdest
    obtain ⟨out, hout, rfl⟩ := hc.grad hdest
    refine ⟨[(i.dest, []), (i.filter, i.filterTerms .currentBatch e x out),
      (i.src, i.inputTerms e f out), (i.bias, i.biasTerms e out)], ?_, deposits_to ?_,
      fun d => ?_⟩
    · -- the filter gradient reads the image that is propagated, as the cells do
      rw [backward, hsource]
      exact i.backward_eq hx hf hb hy hfits .currentBatch (hne _ (by simp)).symm
        (hne _ (by simp)).symm (hne _ (by simp)).symm (hc.hasGrad hsrc) (hc.hasGrad hfilter)
        (hc.hasGrad hbias) hout rfl
    · simp only [List.forall_mem_cons, hread]
      exact ⟨⟨by simp, _, hfilter⟩, ⟨by simp, _, hsrc⟩, ⟨by simp, _, hbias⟩, by simp⟩
    · rw [gradEntry_view hout, ← i.paired_cells (entry_view hx) (entry_view hf) hfits rfl]
      simp [add_assoc]

/-- **Instructions that add and multiply have a form.** -/
theorem Typed.exists_form {i : Instruction K} (ht : i.Typed Γ) (hsep : i.Separate)
    (hpoly : i.isPolynomial = true) : ∃ dest s cells, i.Form Γ dest s cells := by
  cases ht with
  | copy dest src => exact ⟨_, _, _, form_copy hsep dest src⟩
  | reshape dest src size => exact ⟨_, _, _, form_reshape hsep dest src size⟩
  | convolution dest src filter bias fits =>
      exact ⟨_, _, _, form_convolution hsep dest src filter bias fits⟩
  | avgPool kind dest src fits => exact ⟨_, _, _, form_avgPool kind hsep dest src fits⟩
  | fullyConnected dest src filter bias fits =>
      exact ⟨_, _, _, form_fullyConnected hsep dest src filter bias fits⟩
  | transpose dest src shuffle dims => exact ⟨_, _, _, form_transpose hsep dest src shuffle dims⟩
  | concat dest srcs agrees extent => exact ⟨_, _, _, form_concat hsep dest srcs agrees extent⟩
  | arithmetic dest lhs rhs => exact ⟨_, _, _, form_arithmetic hsep dest lhs rhs⟩
  | maxPool kind => simp [isPolynomial, kind] at hpoly
  | _ => cases hpoly

end Rules

end Instruction

end TensorProgram
