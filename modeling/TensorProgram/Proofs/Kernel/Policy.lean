/-
TensorProgram/Proofs/Kernel/Policy.lean

What the gradient policy changes.  A kernel that heeds the policy runs other code
under either value: a transposition or a concatenation writes straight into the
gradient to replace it, and to accumulate into a buffer of zeros that is added
afterwards.  Still both refuse in the same cases, and where they go on they
make the same writes, one at every position (`GradientPolicy.Site`).

So two runs, by any two policies from contexts that agree on what the kernel
reads, are followed step by step (`Context.Stored`).  One visit of a position is
one addition, or one element that replaces another:

    new under accumulation = old + new under replacement.

Main statement: `Instruction.policies_differ_by_addition`.
-/
import TensorProgram.Scalar.Binary32
import TensorProgram.Proofs.Kernel.Parallel
import TensorProgram.Proofs.Kernel.Safety
import TensorProgram.Proofs.Program.Forward

namespace TensorProgram

variable {α : Type} [Scalar α] {n : Nat}

/-! ### Writes that visit every position once -/

/-- The writes visit every position of a buffer of this length once. -/
def VisitsAll {ε : Type} (n : Nat) (ws : List (Nat × ε)) : Prop :=
  (ws.map Prod.fst).Perm (List.range n)

/-- A position has one write, whatever the buffer held and however it combines. -/
theorem VisitsAll.exists_value {ε : Type} {ws : List (Nat × ε)} (h : VisitsAll n ws) {k : Nat}
    (hk : k < n) : ∃ v, ∀ (combine : ε → ε → ε) (data : Vector ε n),
      (applyWrites combine ws data)[k] = combine data[k] v := by
  have hmem : k ∈ ws.map Prod.fst := h.mem_iff.mpr (List.mem_range.mpr hk)
  obtain ⟨⟨_, v⟩, hw, rfl⟩ := List.mem_map.mp hmem
  have hnodup : (ws.map Prod.fst).Nodup := h.nodup_iff.mpr List.nodup_range
  exact ⟨v, fun combine data => getElem_applyWrites_of_nodup combine hnodup data hw hk⟩

theorem visitsAll_pointwise {ε : Type} (f : Nat → ε) : VisitsAll n (pointwise n f) := by
  rw [VisitsAll, map_fst_pointwise]

omit [Scalar α] in
theorem visitsAll_coordinatewise (s : Shape) (f : List Nat → α) :
    VisitsAll s.elemCount (coordinatewise s.dims f) := by
  rw [VisitsAll, map_fst_coordinatewise]
  exact List.Perm.refl _

/-- The channels of the pixels are the elements, each once. -/
theorem LocalResponse.visitsAll_inputTerms (i : LocalResponse α) {d : NHWC} {s : Shape}
    (hs : s = d.toShape) (src dest scale out : View α) :
    VisitsAll s.elemCount (i.inputTerms d src dest scale out) :=
  perm_fst_rowWrites (fun _ _ => i.length_slopes (by simp) (by simp) (by simp) (by simp)) hs

/-! ### Sites that heed the policy -/

/-- What a call by policy does that writes into a gradient of shape `s` of the value
`id`, while that gradient is out of the context. -/
inductive GradientPolicy.Site (dest id : ValueId) (s : Shape)
    (f : GradientPolicy → Run (Tensor α) Unit) : Prop
  /-- Something it reads is not there. -/
  | reports (e : Error) (h : ∀ p, f p = Run.report e)
  /-- The gradient of the output does not fit. -/
  | refuses (g : GradientPolicy → (s : Shape) → Run (Vector α s.elemCount) Unit)
      (hf : ∀ p, f p = Tensor.onFloats (g p)) (e : Error) (h : ∀ p, g p s = Run.report e)
  /-- It writes every element once; then the value is not the output. -/
  | writes (hne : id ≠ dest) (g : GradientPolicy → (s : Shape) → Run (Vector α s.elemCount) Unit)
      (hf : ∀ p, f p = Tensor.onFloats (g p)) (ws : List (Nat × α)) (hall : VisitsAll s.elemCount ws)
      (h : ∀ p, Run.Performs p.combine (g p s) ws)

namespace GradientPolicy.Site

variable {dest id : ValueId} {s : Shape}

/-- A check is made under any policy. -/
theorem check {β : Type} {x : Except Error β} {f : β → GradientPolicy → Run (Tensor α) Unit}
    (h : ∀ b, x = .ok b → Site dest id s (f b)) :
    Site dest id s fun p => (liftM x : Run (Tensor α) β) >>= fun b => f b p := by
  rcases x with e | b
  · exact .reports e fun _ => rfl
  · exact h b rfl

end GradientPolicy.Site

namespace Context

open GradientPolicy (Site)
open Run (Alike)

variable {p q : GradientPolicy} {S done done' : List ValueId} {dest id : ValueId}
  {c₀ d₀ c d : Context α}

/-! ### Two runs by two policies -/

/-- The gradient of a value has received the same writes, one at every position, by
the policy `p` since `c₀` and by `q` since `d₀`. -/
def ReceivedAll (p q : GradientPolicy) (c₀ d₀ c d : Context α) (id : ValueId) : Prop :=
  ∃ (s : Shape) (x y : Vector α s.elemCount) (ws : List (Nat × α)), VisitsAll s.elemCount ws ∧
    c₀.gradOrZeros id = .ok ⟨s, .float x⟩ ∧ d₀.gradOrZeros id = .ok ⟨s, .float y⟩ ∧
    c.grads[id]? = some ⟨s, .float (applyWrites p.combine ws x)⟩ ∧
    d.grads[id]? = some ⟨s, .float (applyWrites q.combine ws y)⟩

/-- The gradients of the values in `done` have received all their writes, the output
has a gradient, and nothing else has changed. -/
structure Stored (p q : GradientPolicy) (dest : ValueId) (done : List ValueId)
    (c₀ d₀ c d : Context α) : Prop where
  /-- The first context differs from its beginning in gradients only. -/
  left : SameValues c₀ c
  /-- So does the second. -/
  right : SameValues d₀ d
  /-- The gradient of the output is the same in both. -/
  out : ∃ g, c₀.gradOrZeros dest = .ok g ∧ c.grads[dest]? = some g ∧ d.grads[dest]? = some g
  /-- What was written. -/
  received : ∀ id ∈ done, ReceivedAll p q c₀ d₀ c d id
  /-- What was not. -/
  kept : ∀ id ∉ done, id ≠ dest → c.grads[id]? = c₀.grads[id]? ∧ d.grads[id]? = d₀.grads[id]?

/-- Only which values are done matters, not their order. -/
theorem Stored.congr (h : Stored p q dest done c₀ d₀ c d) (hdone : ∀ id, id ∈ done ↔ id ∈ done') :
    Stored p q dest done' c₀ d₀ c d where
  left := h.left
  right := h.right
  out := h.out
  received id hid := h.received id ((hdone id).mpr hid)
  kept id hid := h.kept id fun hmem => hid ((hdone id).mp hmem)

/-- The gradients of the first context mirror its weights still. -/
theorem Stored.mirrors (h : Stored p q dest done c₀ d₀ c d) (hc : c₀.Mirrored) :
    Mirrors c₀ c := by
  refine ⟨h.left.weights, fun id t g ht hg => ?_⟩
  rw [h.left.weights] at ht
  by_cases hid : id ∈ done
  · obtain ⟨s, x, y, ws, -, hx, -, hgrad, -⟩ := h.received id hid
    obtain rfl := Option.some.inj (hg.symm.trans hgrad)
    have hdecl : Tensor.declaration ⟨s, .float x⟩ = t.declaration := hc.gradOrZeros hx ht
    exact hdecl
  by_cases hdest : id = dest
  · obtain ⟨g', hout, hgrad, -⟩ := h.out
    rw [hdest] at hg ht
    obtain rfl := Option.some.inj (hg.symm.trans hgrad)
    exact hc.gradOrZeros hout ht
  · exact hc ht ((h.kept id hid hdest).1 ▸ hg)

/-- One more gradient is done. -/
theorem Stored.setGrad (h : Stored p q dest done c₀ d₀ c d) (hid : id ∉ done) (hne : id ≠ dest)
    {s : Shape} {x y : Vector α s.elemCount} {ws : List (Nat × α)} (hall : VisitsAll s.elemCount ws)
    (hx : c₀.gradOrZeros id = .ok ⟨s, .float x⟩) (hy : d₀.gradOrZeros id = .ok ⟨s, .float y⟩) :
    Stored p q dest (id :: done) c₀ d₀
      (c.setGrad id ⟨s, .float (applyWrites p.combine ws x)⟩)
      (d.setGrad id ⟨s, .float (applyWrites q.combine ws y)⟩) where
  left := ⟨h.left.declared, h.left.weights⟩
  right := ⟨h.right.declared, h.right.weights⟩
  out := by
    obtain ⟨g, hout, hc, hd⟩ := h.out
    exact ⟨g, hout, (grads_setGrad_of_ne hne).trans hc, (grads_setGrad_of_ne hne).trans hd⟩
  received j hj := by
    rcases List.mem_cons.mp hj with rfl | hj
    · exact ⟨s, x, y, ws, hall, hx, hy, grads_setGrad_self, grads_setGrad_self⟩
    · have hne' : id ≠ j := fun heq => hid (heq ▸ hj)
      obtain ⟨s', x', y', ws', hall', hx', hy', hc, hd⟩ := h.received j hj
      exact ⟨s', x', y', ws', hall', hx', hy', (grads_setGrad_of_ne hne').trans hc,
        (grads_setGrad_of_ne hne').trans hd⟩
  kept j hj hjd := by
    rw [List.mem_cons, not_or] at hj
    obtain ⟨hc, hd⟩ := h.kept j hj.2 hjd
    exact ⟨(grads_setGrad_of_ne (Ne.symm hj.1)).trans hc,
      (grads_setGrad_of_ne (Ne.symm hj.1)).trans hd⟩

section Comparable

variable (h₀ : Comparable S dest c₀ d₀)

include h₀

theorem Stored.agree (h : Stored p q dest done c₀ d₀ c d) : Agree (· ∈ S) (· = dest) c d where
  weights id hid := by rw [h.left.weights, h.right.weights, h₀.weights id hid]
  grads id hid := by
    obtain ⟨g, -, hc, hd⟩ := h.out
    rw [hid, hc, hd]

/-- A gradient that is not done is the one that was there at the beginning. -/
theorem Stored.gradOrZeros (h : Stored p q dest done c₀ d₀ c d) (hid : id ∉ done) :
    c.gradOrZeros id = c₀.gradOrZeros id ∧ d.gradOrZeros id = d₀.gradOrZeros id := by
  by_cases hdest : id = dest
  · obtain ⟨g, hout, hc, hd⟩ := h.out
    rw [hdest, gradOrZeros_of_grad hc, gradOrZeros_of_grad hd, h₀.out, hout]
    exact ⟨rfl, rfl⟩
  · obtain ⟨hc, hd⟩ := h.kept id hid hdest
    exact ⟨h.left.gradOrZeros hc, h.right.gradOrZeros hd⟩

/-- Once the output has a gradient, nothing is done yet. -/
theorem alike_ensureGrad_stored :
    Alike (Stored p q dest [] c₀ d₀) (fun _ _ => True)
      (change (fun c => c.ensureGrad dest) c₀) (change (fun c => c.ensureGrad dest) d₀) := by
  rw [change, change, ensureGrad, ensureGrad, h₀.out]
  rcases hg : c₀.gradOrZeros dest with e | g
  · exact .error trivial
  · refine .ok ⟨⟨rfl, rfl⟩, ⟨rfl, rfl⟩, ?_, ?_, ?_⟩
    · exact ⟨g, hg, grads_setGrad_self, grads_setGrad_self⟩
    · intro id hid
      cases hid
    · intro id _ hne
      exact ⟨grads_setGrad_of_ne (Ne.symm hne), grads_setGrad_of_ne (Ne.symm hne)⟩

/-- **One site, by two policies**: both runs stop there with one error, or both go
on with one more gradient done. -/
theorem alike_updateGrad_stored (hmir : c₀.Mirrored) (h : Stored p q dest done c₀ d₀ c d)
    (hS : id ∈ S) (hid : id ∉ done) {f : GradientPolicy → Context α → Run (Tensor α) Unit}
    (hreads : ∀ r c d, Agree (· ∈ S) (· = dest) c d → f r d = f r c)
    (hsite : ∀ c' : Context α, Mirrors c₀ c' → ∀ s, (∀ s', c₀.shapeOf id = .ok s' → s = s') →
      Site dest id s fun r => f r (c'.withoutGrad id)) :
    Alike (Stored p q dest (id :: done) c₀ d₀) (fun _ _ => True)
      (updateGrad id (f p) c) (updateGrad id (f q) d) := by
  have hf : f q (d.withoutGrad id) = f q (c.withoutGrad id) :=
    hreads q _ _ ((h.agree h₀).withoutGrad id)
  obtain ⟨hcgrad, hdgrad⟩ := h.gradOrZeros h₀ hid
  have hkinds := h₀.grads id hS
  rw [updateGrad, updateGrad, hcgrad, hdgrad, hf]
  rcases hc : c₀.gradOrZeros id with e | t
  · -- there is no gradient to write to, in either
    rcases hd : d₀.gradOrZeros id with e' | u
    · rw [hc, hd] at hkinds
      obtain rfl := Except.error.inj hkinds
      exact .error trivial
    · rw [hc, hd] at hkinds
      cases hkinds
  rcases hd : d₀.gradOrZeros id with e' | u
  · rw [hc, hd] at hkinds
    cases hkinds
  rw [hc, hd] at hkinds
  have hdecl : u.declaration = t.declaration := Except.ok.inj hkinds
  have hshape : ∀ s', c₀.shapeOf id = .ok s' → t.shape = s' := by
    intro s' hs'
    obtain ⟨w, hw, rfl⟩ := exists_weight_of_shapeOf hs'
    exact (Declaration.mk.inj (hmir.gradOrZeros hc hw)).2
  have hat := hsite c (h.mirrors hmir) t.shape hshape
  -- indices are never written: where a site gets that far, it reports their kind
  cases hat with
  | reports e he =>
      rw [he p, he q]
      exact .error trivial
  | refuses g hg e he =>
      rw [hg p, hg q]
      obtain ⟨s, x | x⟩ := t
      · obtain ⟨y, rfl⟩ := Tensor.eq_float hdecl
        simp only [Tensor.onFloats, he]
        exact .error trivial
      · obtain ⟨y, rfl⟩ := Tensor.eq_index hdecl
        exact .error trivial
  | writes hne g hg ws hall hws =>
      rw [hg p, hg q]
      obtain ⟨s, x | x⟩ := t
      · obtain ⟨y, rfl⟩ := Tensor.eq_float hdecl
        simp only [Tensor.onFloats, (hws p).run, (hws q).run]
        exact .ok (h.setGrad hid hne hall hc hd)
      · obtain ⟨y, rfl⟩ := Tensor.eq_index hdecl
        exact .error trivial

/-- The way back, after its checks. -/
theorem alike_backward_stored {f f' : Run (Context α) Unit}
    (h : ∀ c d, Stored p q dest [] c₀ d₀ c d →
      Alike (Stored p q dest done c₀ d₀) (fun _ _ => True) (f c) (f' d)) :
    Alike (Stored p q dest done c₀ d₀) (fun _ _ => True)
      (((change fun c => c.ensureGrad dest) >>= fun _ => f) c₀)
      (((change fun c => c.ensureGrad dest) >>= fun _ => f') d₀) :=
  (alike_ensureGrad_stored (p := p) (q := q) h₀).bind fun _ c d => h c d

end Comparable

/-- A loop over sites of different values gets them all done. -/
theorem alike_forM_stored {ι : Type} {target : ι → ValueId} {xs : List ι}
    {visit visit' : ι → Run (Context α) Unit}
    (h : ∀ x ∈ xs, ∀ done c d, target x ∉ done → Stored p q dest done c₀ d₀ c d →
      Alike (Stored p q dest (target x :: done) c₀ d₀) (fun _ _ => True) (visit x c) (visit' x d))
    (hnodup : (xs.map target).Nodup) (hdone : ∀ x ∈ xs, target x ∉ done)
    (hcd : Stored p q dest done c₀ d₀ c d) :
    Alike (Stored p q dest (xs.map target ++ done) c₀ d₀) (fun _ _ => True)
      ((xs.forM visit : Run (Context α) Unit) c) ((xs.forM visit' : Run (Context α) Unit) d) := by
  -- along the list; the values of its rest are none of those that are done
  induction xs generalizing done c d with
  | nil => exact .ok hcd
  | cons x xs ih =>
      rw [List.map_cons, List.nodup_cons] at hnodup
      rw [Run.forM_cons, Run.forM_cons]
      refine (h x (by simp) done c d (hdone x (by simp)) hcd).bind fun _ c' d' hcd' => ?_
      have hrest : ∀ y ∈ xs, target y ∉ target x :: done := by
        intro y hy hmem
        rcases List.mem_cons.mp hmem with heq | hmem
        · exact hnodup.1 (heq ▸ List.mem_map_of_mem hy)
        · exact hdone y (by simp [hy]) hmem
      refine (ih (fun y hy => h y (by simp [hy])) hnodup.2 hrest hcd').mono (fun c d hstored => ?_)
        fun _ _ _ => trivial
      refine hstored.congr fun id => ?_
      simp only [List.map_cons, List.cons_append, List.mem_cons, List.mem_append]
      tauto

omit [Scalar α] in
/-- A gradient that is read belongs to another value than the one that is out. -/
theorem ne_of_gradFloats_without {v : View α} (h : (c.withoutGrad id).gradFloats dest = .ok v) :
    id ≠ dest := by
  rintro rfl
  obtain ⟨g, hg, -⟩ := Except.bind_eq_ok.mp h
  have hgrad := grads_of_grad hg
  rw [grads_withoutGrad, if_pos rfl] at hgrad
  cases hgrad

end Context

open Context (Agree Comparable Mirrors Stored alike_backward_stored alike_forM_stored
  alike_updateGrad_stored ne_of_gradFloats_without)
open GradientPolicy (Site)
open Run (Alike alike_check)

variable {p q : GradientPolicy} {S : List ValueId} {c c₀ d₀ : Context α} {s : Shape}

/-! ### Transposition -/

namespace Transpose

variable (i : Transpose)

theorem site (inverse : List Nat) :
    Site i.dest i.src s (fun p => do
      let outGrad ← (c.withoutGrad i.src).gradFloats i.dest
      Tensor.onFloats (p.store (outGrad.transposeInto inverse))) := by
  refine .check fun out hout => ?_
  have hne : i.src ≠ i.dest := ne_of_gradFloats_without hout
  rcases out.transposeInto_cases inverse s with ⟨e, he⟩ | ⟨hσ, hs⟩
  · exact .refuses _ (fun _ => rfl) e fun p => p.store_report he
  · exact .writes hne _ (fun _ => rfl) _ (visitsAll_coordinatewise s _) fun p =>
      p.performs_store (View.performs_transposeInto hσ hs)

theorem alike_backward (h₀ : Comparable S i.dest c₀ d₀) (hc : c₀.Mirrored) (hsrc : i.src ∈ S) :
    Alike (Stored p q i.dest [i.src] c₀ d₀) (fun _ _ => True)
      (i.backward p c₀) (i.backward q d₀) := by
  refine alike_check fun inverse _ => alike_backward_stored h₀ fun c d h => ?_
  apply alike_updateGrad_stored h₀ hc h hsrc List.not_mem_nil
  · intro r c d hagree
    rw [hagree.gradFloats rfl]
  · intro c' _ s _
    exact i.site inverse

end Transpose

/-! ### Concatenation -/

namespace Concat

variable (i : Concat)

theorem site {dest : Shape} {V : ValueId → View α} {b : ValueId × Nat}
    (hdest : c₀.shapeOf i.dest = .ok dest) (hsrcs : ∀ id ∈ i.srcs, c₀.shapeOf id = .ok (V id).shape)
    (hcover : i.Covers dest V) (hb : b ∈ i.lay V) (h : Mirrors c₀ c)
    (hs : ∀ s', c₀.shapeOf b.1 = .ok s' → s = s') :
    Site i.dest b.1 s (fun p => do
      let outGrad ← (c.withoutGrad b.1).gradFloats i.dest
      Tensor.onFloats (p.store (outGrad.extractInto (i.origin dest.rank b.2)))) := by
  refine .check fun out hout => ?_
  have hne : b.1 ≠ i.dest := ne_of_gradFloats_without hout
  obtain ⟨hmem, hle⟩ := le_of_mem_layFrom hb
  have h : Mirrors c₀ (c.withoutGrad b.1) := ⟨h.weights, h.mirrored.withoutGrad⟩
  have hout : out.shape = dest := h.shape_gradFloats hdest hout
  obtain rfl : s = (V b.1).shape := hs _ (hsrcs _ hmem)
  subst hout
  rw [Nat.zero_add] at hle
  have hextract := View.performs_extractInto (Shape.dims_of_agreesExcept (hcover.agrees _ hmem))
    hcover.extent hle
  exact .writes hne _ (fun _ => rfl) _ (visitsAll_coordinatewise _ _) fun p =>
    p.performs_store hextract

theorem alike_backward (h₀ : Comparable S i.dest c₀ d₀) (hc : c₀.Mirrored) (hdest : i.dest ∈ S)
    (hsrcs : ∀ id ∈ i.srcs, id ∈ S) (hnodup : i.srcs.Nodup) :
    Alike (Stored p q i.dest i.srcs c₀ d₀) (fun _ _ => True)
      (i.backward p c₀) (i.backward q d₀) := by
  have hagree : Agree (· ∈ S) (fun _ => False) c₀ d₀ := ⟨h₀.weights, fun _ h => h.elim⟩
  rw [backward, backward, Run.get_bind_apply, Run.get_bind_apply, i.blocks_congr hagree hdest hsrcs]
  refine alike_check fun blocks hblocks => ?_
  obtain ⟨dest, V, hdests, hshapes, hcover, rfl⟩ := covers_of_blocks hblocks
  refine alike_backward_stored h₀ fun c d h => ?_
  have hsrcs_lay : (i.lay V).map Prod.fst = i.srcs := map_fst_layFrom _ _ _
  rw [Run.forM_map, Run.forM_map, ← hsrcs_lay, ← List.append_nil ((i.lay V).map Prod.fst)]
  refine alike_forM_stored (fun b hb done c d hdone h => ?_) (by rwa [hsrcs_lay]) (by simp) h
  apply alike_updateGrad_stored h₀ hc h (hsrcs _ (le_of_mem_layFrom hb).1) hdone
  · intro r c d hagree
    rw [hagree.gradFloats rfl]
  · intro c' hmirrors s hs
    exact i.site hdests hshapes hcover hb hmirrors hs

end Concat

/-! ### Arithmetic -/

namespace Arithmetic

variable (i : Arithmetic) {target other : ValueId}

theorem site (hdest : c₀.shapeOf i.dest = .ok s) (hother : c₀.shapeOf other = .ok s)
    (h : Mirrors c₀ c) :
    Site i.dest target s (fun p => do
      let outGrad ← (c.withoutGrad target).gradFloats i.dest
      let other ← (c.withoutGrad target).floats other
      Tensor.onFloats fun _ =>
        scatter p.combine (List.range outGrad.size) atPosition fun k => do
          i.kind.slope (other.raw k) (← outGrad.raw k)) := by
  have h : Mirrors c₀ (c.withoutGrad target) := ⟨h.weights, h.mirrored.withoutGrad⟩
  refine .check fun out hout => .check fun o ho => ?_
  have hne : target ≠ i.dest := ne_of_gradFloats_without hout
  exact .writes hne _ (fun _ => rfl) _ (visitsAll_pointwise _) fun p =>
    i.performs_contribution p (h.shape_floats hother ho) (h.shape_gradFloats hdest hout)

theorem alike_backwardInto {done : List ValueId} {c d : Context α} {t : Shape}
    (h₀ : Comparable S i.dest c₀ d₀) (hc : c₀.Mirrored) (htarget : target ∈ S) (hother : other ∈ S)
    (hdests : c₀.shapeOf i.dest = .ok t) (htargets : c₀.shapeOf target = .ok t)
    (hothers : c₀.shapeOf other = .ok t) (hdone : target ∉ done)
    (h : Stored p q i.dest done c₀ d₀ c d) :
    Alike (Stored p q i.dest (target :: done) c₀ d₀) (fun _ _ => True)
      (i.backwardInto p target other c) (i.backwardInto q target other d) := by
  apply alike_updateGrad_stored h₀ hc h htarget hdone
  · intro r c d hagree
    rw [hagree.gradFloats rfl, hagree.floats hother]
  · intro c' hmirrors s hs
    obtain rfl : s = t := hs t htargets
    exact i.site hdests hothers hmirrors

theorem alike_backward (h₀ : Comparable S i.dest c₀ d₀) (hc : c₀.Mirrored) (hdest : i.dest ∈ S)
    (hlhs : i.lhs ∈ S) (hrhs : i.rhs ∈ S) (hne : i.lhs ≠ i.rhs) :
    Alike (Stored p q i.dest [i.rhs, i.lhs] c₀ d₀) (fun _ _ => True)
      (i.backward p c₀) (i.backward q d₀) := by
  -- the checks read weights only, so both runs pass them or neither does
  have hchecks : Alike (fun c d => c = c₀ ∧ d = d₀) (fun _ _ => True)
      (i.requireAlike c₀) (i.requireAlike d₀) := by
    refine i.carries_requireAlike (W := (· ∈ S)) (G := fun _ => False) (fun c d h => ?_)
      hdest hlhs hrhs c₀ d₀ ⟨rfl, rfl⟩
    rw [h.1, h.2]
    exact ⟨h₀.weights, fun _ h => h.elim⟩
  refine hchecks.bind_of_ok fun _ c d hok hcd => ?_
  obtain ⟨rfl, rfl⟩ := hcd
  obtain ⟨-, t, hdests, hlefts, hrights⟩ := Run.of_reports_or i.requireAlike_cases hok
  refine alike_backward_stored h₀ fun c' d' h => ?_
  refine (i.alike_backwardInto h₀ hc hlhs hrhs hdests hlefts hrights List.not_mem_nil h).bind
    fun _ c'' d'' h' => ?_
  -- the second operand is another value, so its gradient is not done yet
  have hnot : i.rhs ∉ [i.lhs] := by
    rw [List.mem_singleton]
    exact Ne.symm hne
  exact i.alike_backwardInto h₀ hc hrhs hlhs hdests hrights hlefts hnot h'

end Arithmetic

/-! ### Local response normalization -/

namespace LocalResponse

variable (i : LocalResponse α)

theorem site {d : NHWC} (hdims : i.dims c₀ = .ok d) (h : Mirrors c₀ c)
    (hs : ∀ s', c₀.shapeOf i.src = .ok s' → s = s') :
    Site i.dest i.src s (fun p => do
      let src ← (c.withoutGrad i.src).floats i.src
      let out ← (c.withoutGrad i.src).floats i.dest
      let outGrad ← (c.withoutGrad i.src).gradFloats i.dest
      let scale ← (c.withoutGrad i.src).floats i.scale
      Tensor.onFloats fun s =>
        (pixels d).forM fun pixel => do
          let slopes := i.slopes (← row src d.c pixel) (← row out d.c pixel)
            (← row scale d.c pixel) (← row outGrad d.c pixel)
          writeRow p.combine s pixel slopes) := by
  have h : Mirrors c₀ (c.withoutGrad i.src) := ⟨h.weights, h.mirrored.withoutGrad⟩
  obtain ⟨-, hsrcs, hdests, hscales⟩ := shapes_of_dims hdims
  obtain rfl : s = d.toShape := hs _ hsrcs
  refine .check fun src hsrc => .check fun dest hdest => .check fun out hout =>
    .check fun scale hscale => ?_
  have hne : i.src ≠ i.dest := ne_of_gradFloats_without hout
  exact .writes hne _ (fun _ => rfl) _ (i.visitsAll_inputTerms rfl src dest scale out) fun p =>
    i.performs_inputTerms p rfl (h.shape_floats hsrcs hsrc) (h.shape_floats hdests hdest)
      (h.shape_floats hscales hscale) (h.shape_gradFloats hdests hout)

theorem alike_backward (h₀ : Comparable S i.dest c₀ d₀) (hc : c₀.Mirrored) (hdest : i.dest ∈ S)
    (hsrc : i.src ∈ S) (hscale : i.scale ∈ S) :
    Alike (Stored p q i.dest [i.src] c₀ d₀) (fun _ _ => True)
      (i.backward p c₀) (i.backward q d₀) := by
  have hagree : Agree (· ∈ S) (fun _ => False) c₀ d₀ := ⟨h₀.weights, fun _ h => h.elim⟩
  rw [backward, backward, Run.get_bind_apply, Run.get_bind_apply,
    i.dims_congr hagree hdest hsrc hscale]
  refine alike_check fun d hdims => alike_backward_stored h₀ fun c d' h => ?_
  apply alike_updateGrad_stored h₀ hc h hsrc List.not_mem_nil
  · intro r c d hagree
    rw [hagree.floats hsrc, hagree.floats hdest, hagree.gradFloats rfl, hagree.floats hscale]
  · intro c' hmirrors s hs
    exact i.site hdims hmirrors hs

end LocalResponse

/-! ### Every instruction -/

/-- The configuration under another gradient policy. -/
def Config.under (config : Config α) (p : GradientPolicy) : Config α :=
  { config with gradientPolicy := p }

/-- The gradient of a value in `new` is, element by element, the one in `old`, zero
if it was missing there, plus the one in `given`. -/
def Context.Raised (old given new : Context α) (id : ValueId) : Prop :=
  ∃ (s : Shape) (x r y : Vector α s.elemCount), old.gradOrZeros id = .ok ⟨s, .float x⟩ ∧
    given.grads[id]? = some ⟨s, .float r⟩ ∧ new.grads[id]? = some ⟨s, .float y⟩ ∧
    ∀ (k : Nat) (hk : k < s.elemCount), y[k] = x[k] + r[k]

/-- What accumulating adds is what replacing leaves. -/
theorem Context.ReceivedAll.raised {c new given : Context α} {id : ValueId}
    (h : c.ReceivedAll .accumulate .replace c new given id) : c.Raised given new id := by
  obtain ⟨s, x, y, ws, hall, hx, hy, hnew, hgiven⟩ := h
  obtain rfl : y = x := by
    rw [hx] at hy
    cases hy
    rfl
  refine ⟨s, y, _, _, hx, hgiven, hnew, fun k hk => ?_⟩
  obtain ⟨v, hv⟩ := hall.exists_value hk
  rw [hv, hv]
  rfl

/-- What replacing leaves does not depend on what was there. -/
theorem Context.ReceivedAll.replaced {c d c' d' : Context α} {id : ValueId}
    (h : c.ReceivedAll .replace .replace d c' d' id) : d'.grads[id]? = c'.grads[id]? := by
  obtain ⟨s, x, y, ws, hall, -, -, hc, hd⟩ := h
  have hsame : applyWrites overwrite ws y = applyWrites overwrite ws x := by
    ext k hk
    obtain ⟨v, hv⟩ := hall.exists_value hk
    rw [hv, hv]
    rfl
  rw [hc, hd]
  exact congrArg (fun data => some (Tensor.mk s (.float data))) hsame

namespace Instruction

open Context (SameValues)

variable (i : Instruction α) (config : Config α)

/-- Running back by two policies, from contexts that agree on what is read. -/
theorem alike_backward_policies (p q : GradientPolicy) (hheeds : i.heedsPolicy = true)
    (hnodup : i.consulted.Nodup) (h₀ : Comparable (i.operands.map Prod.fst) i.dest c₀ d₀)
    (hc : c₀.Mirrored) :
    Alike (Stored p q i.dest i.consulted c₀ d₀) (fun _ _ => True)
      (i.backward (config.under p) c₀) (i.backward (config.under q) d₀) := by
  have hdest := i.dest_mem
  cases i with
  | transpose i => exact i.alike_backward h₀ hc (by simp [operands])
  | concat i =>
      have hconsulted : (concat i : Instruction α).consulted = i.srcs := by
        simp [consulted, operands, List.filter_map, Function.comp_def]
      rw [hconsulted] at hnodup ⊢
      exact i.alike_backward h₀ hc hdest (fun id hid => by simp [operands, hid]) hnodup
  | localResponse i =>
      exact i.alike_backward h₀ hc hdest (by simp [operands]) (by simp [operands])
  | arithmetic i =>
      have hconsulted : (arithmetic i : Instruction α).consulted = [i.lhs, i.rhs] := by
        simp [consulted, operands]
      rw [hconsulted] at hnodup ⊢
      have hne : i.lhs ≠ i.rhs := by simpa using hnodup
      have halike := i.alike_backward (p := p) (q := q) h₀ hc hdest (by simp [operands])
        (by simp [operands]) hne
      -- the kernel is done with the operands in the opposite order
      refine halike.mono (fun c d h => h.congr fun id => ?_) fun _ _ _ => trivial
      simp only [List.mem_cons, List.not_mem_nil, or_false]
      exact or_comm
  | _ => cases hheeds

/-- **The gradient policies differ by one addition.**  Where the gradients of
different inputs are written by policy, accumulating ends as replacing does, and
leaves at every index the old element, zero if there was none, plus the element
that replacing leaves.  What replacing leaves is the same whatever gradients the
inputs had.  All other instructions take no notice of the policy. -/
theorem policies_differ_by_addition :
    (i.heedsPolicy = true → i.consulted.Nodup → ∀ c : Context α, c.Mirrored →
      Alike (fun accumulated replaced => SameValues replaced accumulated ∧
          (∀ id ∈ i.consulted, c.Raised replaced accumulated id) ∧
          ∀ id ∉ i.consulted, accumulated.grads[id]? = replaced.grads[id]?) (fun _ _ => True)
        (i.backward (config.under .accumulate) c) (i.backward (config.under .replace) c) ∧
      ∀ d : Context α, Comparable (i.operands.map Prod.fst) i.dest c d →
        Alike (fun replaced replaced' => ∀ id ∈ i.consulted,
            replaced'.grads[id]? = replaced.grads[id]?) (fun _ _ => True)
          (i.backward (config.under .replace) c) (i.backward (config.under .replace) d)) ∧
    (i.heedsPolicy = false →
      (i.backward (config.under .accumulate) : Run (Context α) Unit)
        = i.backward (config.under .replace)) := by
  refine ⟨fun hheeds hnodup c hc => ⟨?_, fun d hd => ?_⟩, fun hheeds => ?_⟩
  · -- one context, two policies
    have hself : Comparable (i.operands.map Prod.fst) i.dest c c :=
      ⟨fun _ _ => rfl, rfl, fun _ _ => rfl⟩
    refine (i.alike_backward_policies config .accumulate .replace hheeds hnodup hself hc).mono
      (fun accumulated replaced h => ⟨?_, ?_, ?_⟩) fun _ _ _ => trivial
    · exact ⟨h.left.declared.trans h.right.declared.symm,
        h.left.weights.trans h.right.weights.symm⟩
    · exact fun id hid => (h.received id hid).raised
    · intro id hid
      by_cases hdest : id = i.dest
      · obtain ⟨g, -, hleft, hright⟩ := h.out
        rw [hdest, hleft, hright]
      · obtain ⟨hleft, hright⟩ := h.kept id hid hdest
        rw [hleft, hright]
  · -- two contexts, one policy
    refine (i.alike_backward_policies config .replace .replace hheeds hnodup hd hc).mono
      (fun replaced replaced' h id hid => ?_) fun _ _ _ => trivial
    exact (h.received id hid).replaced
  · cases i with
    | transpose i => cases hheeds
    | concat i => cases hheeds
    | localResponse i => cases hheeds
    | arithmetic i => cases hheeds
    | _ => rfl

/-- The product of two vectors. -/
def product : Instruction Float32 := .arithmetic ⟨.mul, 2, 0, 1⟩

/-- Two vectors, their product and its gradient; one of the factors has a gradient
already. -/
def twoFactors : Context Float32 :=
  (((({} : Context Float32).setWeight 0 ⟨⟨[2]⟩, .float #v[2, 5]⟩).setWeight 1
    ⟨⟨[2]⟩, .float #v[3, 7]⟩).setWeight 2 ⟨⟨[2]⟩, .float #v[6, 35]⟩).setGrad 0
    ⟨⟨[2]⟩, .float #v[10, 20]⟩

theorem mirrored_twoFactors : twoFactors.Mirrored := by
  intro id t g ht hg
  rw [twoFactors, Context.grads_setGrad] at hg
  split at hg
  · rename_i hid
    subst hid
    obtain rfl := Option.some.inj hg
    have hweight : twoFactors.weights[(0 : ValueId)]? = some ⟨⟨[2]⟩, .float #v[2, 5]⟩ := rfl
    obtain rfl := Option.some.inj (ht.symm.trans hweight)
    show (⟨.float, ⟨[2]⟩⟩ : Declaration) = ⟨.float, ⟨[2]⟩⟩
    rfl
  · cases hg

theorem policies_differ_by_addition_product : ∃ accumulated replaced,
    product.backward (Config.default.under .accumulate) twoFactors = .ok () accumulated ∧
    product.backward (Config.default.under .replace) twoFactors = .ok () replaced ∧
    twoFactors.Raised replaced accumulated 0 := by
  obtain ⟨accumulated, haccumulated⟩ : ∃ c',
      product.backward (Config.default.under .accumulate) twoFactors = .ok () c' := ⟨_, rfl⟩
  obtain ⟨replaced, hreplaced⟩ : ∃ c',
      product.backward (Config.default.under .replace) twoFactors = .ok () c' := ⟨_, rfl⟩
  obtain ⟨hdiffer, -⟩ := policies_differ_by_addition product Config.default
  obtain ⟨halike, -⟩ := hdiffer rfl (by decide) twoFactors mirrored_twoFactors
  rw [haccumulated, hreplaced] at halike
  cases halike with
  | ok related =>
      exact ⟨accumulated, replaced, haccumulated, hreplaced, related.2.1 0 (by decide)⟩

end Instruction

end TensorProgram
