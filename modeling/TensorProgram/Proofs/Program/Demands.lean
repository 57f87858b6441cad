/-
TensorProgram/Proofs/Program/Demands.lean

When the static check accepts.  Where operands declare the kinds and shapes that
an instruction relates to one another, its demands are met: one equation for
every single demand, and from them one for every instruction.  A grown program
declares and allocates what its instructions use, so it is accepted as soon as
every instruction has its demands met (`Program.Grown.verify_eq_ok`).
-/
import TensorProgram.Proofs.Program.Construction
import TensorProgram.Proofs.Program.Weakening

namespace TensorProgram

variable {α : Type}

/-- Operands that agree on all axes but one agree but for that axis with what
they are laid into, whatever its extent. -/
theorem Shape.agreesExcept_set {s t : Shape} {axis d : Nat} (hrank : s.dims.length = t.dims.length)
    (hagree : ∀ k, k ≠ axis → s.dims[k]? = t.dims[k]?) :
    s.agreesExcept ⟨t.dims.set axis d⟩ axis = true := by
  simp only [agreesExcept, rank, Bool.and_eq_true, beq_iff_eq, List.all_eq_true, Bool.or_eq_true,
    List.length_set]
  refine ⟨hrank, ?_⟩
  rintro ⟨⟨a, b⟩, k⟩ hmem
  by_cases hk : k = axis
  · exact .inl hk
  · obtain ⟨ha, hb⟩ := List.getElem?_zip_eq_some.mp (List.mk_mem_zipIdx_iff_getElem?.mp hmem)
    rw [List.getElem?_set_ne (Ne.symm hk), ← hagree k hk, ha] at hb
    exact .inr (Option.some.inj hb)

namespace Program

variable {p : Program α} {id : ValueId} {s t : Shape} {k : ElemKind}

/-! ### Single demands -/

theorem exists_value_of_signature {d : Declaration} (h : p.signature id = some d) :
    ∃ v, p.value id = .ok v ∧ v.declaration = d := by
  obtain ⟨v, hv, hd⟩ := Option.map_eq_some_iff.mp h
  exact ⟨v, by rw [value, hv], hd⟩

theorem shapeOf_eq_ok (h : p.signature id = some ⟨k, s⟩) : p.shapeOf id = .ok s := by
  obtain ⟨v, hv, hd⟩ := exists_value_of_signature h
  rw [shapeOf, hv, ← (Declaration.mk.inj hd).2]
  rfl

theorem requireKind_eq_ok (h : p.signature id = some ⟨k, s⟩) : p.requireKind k id = .ok () := by
  obtain ⟨v, hv, hd⟩ := exists_value_of_signature h
  rw [requireKind, hv, Except.ok_bind]
  exact if_pos (Declaration.mk.inj hd).1

theorem requireShape_eq_ok (h : p.signature id = some ⟨k, s⟩) (subject : String) :
    p.requireShape id subject s = .ok () := by
  rw [requireShape, shapeOf_eq_ok h, Except.ok_bind, requireSameShape, if_pos rfl]

theorem images_eq_ok {d : NHWC} (h : p.signature id = some ⟨k, d.toShape⟩) :
    p.images id = .ok d := by
  rw [images, shapeOf_eq_ok h]
  rfl

theorem requireFloats_nil : p.requireFloats [] = .ok () := rfl

theorem requireFloats_cons {ids : List ValueId} (h : Signature.Floats p.signature id s)
    (hs : p.requireFloats ids = .ok ()) : p.requireFloats (id :: ids) = .ok () :=
  Except.bind_eq_ok.mpr ⟨(), requireKind_eq_ok h, hs⟩

/-! ### Demands of instructions -/

section Instructions

open Signature (Floats Indices)

theorem requireSameFloats_eq_ok {dest src : ValueId} (hdest : Floats p.signature dest s)
    (hsrc : Floats p.signature src s) (subject : String) :
    p.requireSameFloats dest src subject = .ok () := by
  have hfloats := requireFloats_cons hdest (requireFloats_cons hsrc requireFloats_nil)
  rw [requireSameFloats, hfloats, Except.ok_bind, shapeOf_eq_ok hsrc, Except.ok_bind,
    requireShape_eq_ok hdest]

theorem verifyReshape_eq_ok {i : Unary} (hdest : Floats p.signature i.dest t)
    (hsrc : Floats p.signature i.src s)
    (hsize : requireSameSize "reshape element count" s t = .ok ()) :
    p.verifyReshape i = .ok () := by
  have hfloats := requireFloats_cons hdest (requireFloats_cons hsrc requireFloats_nil)
  rw [verifyReshape, hfloats, Except.ok_bind, shapeOf_eq_ok hsrc, Except.ok_bind,
    shapeOf_eq_ok hdest, Except.ok_bind, hsize]

theorem verifyConvolution_eq_ok {i : Convolution} {input : NHWC} {height width depth : Nat}
    (hdest : Floats p.signature i.dest ⟨[input.n, height, width, depth]⟩)
    (hsrc : Floats p.signature i.src input.toShape)
    (hfilter : Floats p.signature i.filter ⟨[depth, i.window.kernel, i.window.kernel, input.c]⟩)
    (hbias : Floats p.signature i.bias ⟨[depth]⟩)
    (hdims : i.window.outputDims input = .ok (height, width)) : p.verifyConvolution i = .ok () := by
  have hfloats := requireFloats_cons hdest (requireFloats_cons hsrc (requireFloats_cons hfilter
    (requireFloats_cons hbias requireFloats_nil)))
  have houtput : p.images i.dest = .ok ⟨input.n, height, width, depth⟩ := images_eq_ok hdest
  simp only [verifyConvolution, hfloats, images_eq_ok hsrc, houtput, hdims,
    requireShape_eq_ok hdest, requireShape_eq_ok hfilter, requireShape_eq_ok hbias, Except.ok_bind]

/-- Averages, and maxima that save their coordinates. -/
theorem verifyPool_eq_ok {i : Pool} {input : NHWC} {height width : Nat}
    (hdest : Floats p.signature i.dest ⟨[input.n, height, width, input.c]⟩)
    (hsrc : Floats p.signature i.src input.toShape)
    (hsaved : i.kind = .max → ∃ coords, i.coords = some coords ∧
      Indices p.signature coords ⟨[input.n, height, width, input.c, 2]⟩)
    (hdims : i.window.outputDims input = .ok (height, width)) : p.verifyPool i = .ok () := by
  have hfloats := requireFloats_cons hdest (requireFloats_cons hsrc requireFloats_nil)
  simp only [verifyPool, hfloats, images_eq_ok hsrc, hdims, requireShape_eq_ok hdest,
    Except.ok_bind]
  rcases hkind : i.kind with - | -
  · obtain ⟨coords, hcoords, hindices⟩ := hsaved hkind
    simp only [hcoords, requireKind_eq_ok hindices, requireShape_eq_ok hindices, Except.ok_bind]
  · rfl

theorem verifyFullyConnected_eq_ok {i : FullyConnected} {batch inputs depth : Nat}
    (hdest : Floats p.signature i.dest ⟨[batch, depth]⟩) (hsrc : Floats p.signature i.src s)
    (hfilter : Floats p.signature i.filter ⟨[depth, inputs]⟩)
    (hbias : Floats p.signature i.bias ⟨[depth]⟩)
    (hrows : flattenRows s.dims = .ok (batch, inputs)) :
    p.verifyFullyConnected i = .ok () := by
  have hfloats := requireFloats_cons hdest (requireFloats_cons hsrc (requireFloats_cons hfilter
    (requireFloats_cons hbias requireFloats_nil)))
  -- the check flattens the output as well, and finds the extents it was given
  have hout : flattenRows [batch, depth] = .ok (batch, depth) := by
    rw [flattenRows, Shape.volume_cons, Shape.volume_nil, Nat.mul_one]
  simp only [verifyFullyConnected, hfloats, shapeOf_eq_ok hsrc, hrows, shapeOf_eq_ok hdest, hout,
    requireShape_eq_ok hfilter, requireShape_eq_ok hbias, Except.ok_bind, ne_eq, not_true_eq_false,
    if_false]

theorem verifySoftmax_eq_ok {i : Softmax} {rows columns : Nat}
    (hdest : Floats p.signature i.dest ⟨[rows, columns]⟩)
    (hsrc : Floats p.signature i.src ⟨[rows, columns]⟩)
    (hsaved : Floats p.signature i.saved ⟨[rows, columns]⟩)
    (hselected : Indices p.signature i.selected ⟨[rows, 1]⟩) : p.verifySoftmax i = .ok () := by
  have hfloats := requireFloats_cons hdest (requireFloats_cons hsrc (requireFloats_cons hsaved
    requireFloats_nil))
  have hrank : requireRank "softmax" ⟨[rows, columns]⟩ 2 = .ok () := if_pos rfl
  simp only [verifySoftmax, hfloats, requireKind_eq_ok hselected, shapeOf_eq_ok hsrc, hrank,
    requireShape_eq_ok hdest, requireShape_eq_ok hsaved, Except.ok_bind]
  exact requireShape_eq_ok hselected _

theorem verifyRegression_eq_ok {i : Regression} {rows columns : Nat}
    (hdest : Floats p.signature i.dest ⟨[rows, columns]⟩)
    (hsrc : Floats p.signature i.src ⟨[rows, columns]⟩)
    (hexpected : Floats p.signature i.expected ⟨[rows, columns]⟩) :
    p.verifyRegression i = .ok () := by
  have hfloats := requireFloats_cons hdest (requireFloats_cons hsrc (requireFloats_cons hexpected
    requireFloats_nil))
  have hrank : requireRank "regression" ⟨[rows, columns]⟩ 2 = .ok () := if_pos rfl
  simp only [verifyRegression, hfloats, shapeOf_eq_ok hsrc, hrank, requireShape_eq_ok hdest,
    requireShape_eq_ok hexpected, Except.ok_bind]

theorem verifyTranspose_eq_ok {i : Transpose} (hdest : Floats p.signature i.dest t)
    (hsrc : Floats p.signature i.src s) (hpermute : s.permute i.shuffle = .ok t) :
    p.verifyTranspose i = .ok () := by
  have hfloats := requireFloats_cons hdest (requireFloats_cons hsrc requireFloats_nil)
  rw [verifyTranspose, hfloats, Except.ok_bind, shapeOf_eq_ok hsrc, Except.ok_bind, hpermute,
    Except.ok_bind, requireShape_eq_ok hdest]

/-- Adding up extents along an axis is covering that axis, if the blocks agree on
the others. -/
theorem covering_eq_ok {q : Program α} {dim : Nat} {dest : Shape} {ids : List ValueId}
    (hagree : ∀ id ∈ ids, ∃ s, p.shapeOf id = .ok s ∧ q.shapeOf id = .ok s ∧
      s.agreesExcept dest dim = true) {start extent : Nat}
    (h : ids.foldlM (fun extent id => do return extent + (← (← p.shapeOf id).dim dim)) start
      = .ok extent) : ids.foldlM (q.covering dest dim) start = .ok extent := by
  -- both walks have come to the same extent before every operand
  induction ids generalizing start with
  | nil => exact h
  | cons id ids ih =>
      obtain ⟨s, hp, hq, hs⟩ := hagree id (by simp)
      rw [List.foldlM_cons] at h ⊢
      obtain ⟨next, hnext, h⟩ := Except.bind_eq_ok.mp h
      rw [hp, Except.ok_bind] at hnext
      obtain ⟨d, hd, hnext⟩ := Except.bind_eq_ok.mp hnext
      obtain rfl := Except.ok.inj hnext
      have hextent : s.dims.getD dim 0 = d := by
        rw [List.getD_eq_getElem?_getD, getElem?_of_dim hd, Option.getD_some]
      rw [covering, hq, Except.ok_bind, if_pos hs, hextent]
      exact ih (fun j hj => hagree j (by simp [hj])) h

theorem verifyConcat_eq_ok {i : Concat} {extent : Nat} (hdest : Floats p.signature i.dest t)
    (hfloats : p.requireFloats i.srcs = .ok ()) (hextent : t.dim i.dim = .ok extent)
    (hne : i.srcs.isEmpty = false)
    (hcover : i.srcs.foldlM (p.covering t i.dim) 0 = .ok extent) : p.verifyConcat i = .ok () := by
  have hfloat := requireFloats_cons hdest requireFloats_nil
  have hwalk : p.verifyConcat i = (do
      let covered ← i.srcs.foldlM (p.covering t i.dim) 0
      if covered ≠ extent then throw (.concatCover covered extent i.dim)) := by
    rw [verifyConcat, hfloat, Except.ok_bind, hfloats, Except.ok_bind, shapeOf_eq_ok hdest,
      Except.ok_bind, hextent, Except.ok_bind, hne]
    rfl
  rw [hwalk, hcover, Except.ok_bind, if_neg (not_not.mpr rfl)]
  rfl

theorem verifyBatchNorm_eq_ok {i : BatchNorm α} {count : Nat}
    (hdest : Floats p.signature i.dest s) (hsrc : Floats p.signature i.src s)
    (hscale : Floats p.signature i.scale ⟨[count]⟩) (hbias : Floats p.signature i.bias ⟨[count]⟩)
    (hmean : Floats p.signature i.mean ⟨[count]⟩) (hvar : Floats p.signature i.var ⟨[count]⟩)
    (haxis : s.dim i.axis = .ok count) : p.verifyBatchNorm i = .ok () := by
  have hfloats := requireFloats_cons hdest (requireFloats_cons hsrc (requireFloats_cons hscale
    (requireFloats_cons hbias (requireFloats_cons hmean (requireFloats_cons hvar
      requireFloats_nil)))))
  simp only [verifyBatchNorm, hfloats, shapeOf_eq_ok hsrc, haxis, requireShape_eq_ok hdest,
    requireShape_eq_ok hscale, requireShape_eq_ok hbias, requireShape_eq_ok hmean,
    requireShape_eq_ok hvar, Except.ok_bind]

theorem verifyLocalResponse_eq_ok {i : LocalResponse α} {d : NHWC}
    (hdest : Floats p.signature i.dest d.toShape) (hsrc : Floats p.signature i.src d.toShape)
    (hscale : Floats p.signature i.scale d.toShape) (hpos : d.c ≠ 0) :
    p.verifyLocalResponse i = .ok () := by
  have hfloats := requireFloats_cons hdest (requireFloats_cons hsrc (requireFloats_cons hscale
    requireFloats_nil))
  simp only [verifyLocalResponse, hfloats, images_eq_ok hsrc, if_neg hpos,
    requireShape_eq_ok hdest, requireShape_eq_ok hscale, Except.ok_bind]

theorem verifyArithmetic_eq_ok {i : Arithmetic} (hdest : Floats p.signature i.dest s)
    (hlhs : Floats p.signature i.lhs s) (hrhs : Floats p.signature i.rhs s) :
    p.verifyArithmetic i = .ok () := by
  have hfloats := requireFloats_cons hdest (requireFloats_cons hlhs (requireFloats_cons hrhs
    requireFloats_nil))
  simp only [verifyArithmetic, hfloats, shapeOf_eq_ok hlhs, requireShape_eq_ok hrhs,
    requireShape_eq_ok hdest, Except.ok_bind]

end Instructions

/-! ### The walk -/

variable {allocated : List ValueId} {i : Instruction α} {is js : List (Instruction α)} {n : Nat}

theorem verifyOperands_eq_ok (h : ∀ id ∈ i.operands.map Prod.fst, ∃ v, p.value id = .ok v ∧
    (v.role = .activation → i.isLifecycle = false → id ∈ allocated)) :
    p.verifyOperands allocated n i = .ok () := by
  refine Except.forM_of_eq_ok fun ⟨id, access⟩ hmem => ?_
  obtain ⟨v, hv, hrole⟩ := h id (List.mem_map_of_mem hmem)
  have hallowed : ¬ (v.role = .activation ∧ i.isLifecycle = false ∧ id ∉ allocated) :=
    fun ⟨hact, hlife, hfree⟩ => hfree (hrole hact hlife)
  dsimp only
  rw [hv, Except.ok_bind, if_neg hallowed]
  rfl

/-- The activations alive after a list of instructions. -/
def allocatedAll (allocated : List ValueId) (is : List (Instruction α)) : List ValueId :=
  is.foldl allocatedAfter allocated

theorem mem_allocatedAll {id : ValueId} :
    id ∈ allocatedAll allocated is ↔ id ∈ allocated ∨ id ∈ is.flatMap (·.enlivened) := by
  induction is generalizing allocated with
  | nil => simp [allocatedAll]
  | cons i is ih =>
      have hstep : id ∈ allocatedAfter allocated i ↔ id ∈ i.enlivened ∨ id ∈ allocated := by
        cases i <;> simp [allocatedAfter, Instruction.enlivened]
      have hnext : allocatedAll allocated (i :: is) = allocatedAll (allocatedAfter allocated i) is :=
        rfl
      rw [hnext, ih, hstep, List.flatMap_cons, List.mem_append]
      tauto

theorem verifyFrom_cons_eq_ok (hoperands : p.verifyOperands allocated n i = .ok ())
    (hdemands : p.verifyInstruction i = .ok ())
    (hrest : p.verifyFrom (allocatedAfter allocated i) (n + 1) is = .ok ()) :
    p.verifyFrom allocated n (i :: is) = .ok () := by
  rw [verifyFrom, hoperands, Except.ok_bind, hdemands]
  exact hrest

/-- A walk through two lists goes on where it left the first. -/
theorem verifyFrom_append_eq_ok (h : p.verifyFrom allocated n is = .ok ())
    (hjs : p.verifyFrom (allocatedAll allocated is) (n + is.length) js = .ok ()) :
    p.verifyFrom allocated n (is ++ js) = .ok () := by
  induction is generalizing allocated n with
  | nil => exact hjs
  | cons i is ih =>
      rw [verifyFrom] at h
      obtain ⟨_, hoperands, h⟩ := Except.bind_eq_ok.mp h
      obtain ⟨_, hdemands, h⟩ := Except.bind_eq_ok.mp h
      refine verifyFrom_cons_eq_ok hoperands (eq_ok_of_mapError hdemands) (ih h ?_)
      rw [List.length_cons, Nat.add_comm is.length, ← Nat.add_assoc] at hjs
      exact hjs

/-- Beginnings and ends of lives are accepted wherever they stand. -/
theorem verifyFrom_lifecycle_eq_ok (hlife : ∀ i ∈ is, i.isLifecycle = true)
    (hdemands : ∀ i ∈ is, p.verifyInstruction i = .ok ()) :
    p.verifyFrom allocated n is = .ok () := by
  induction is generalizing allocated n with
  | nil => rfl
  | cons i is ih =>
      have hi := hlife i (by simp)
      have hdemand := hdemands i (by simp)
      refine verifyFrom_cons_eq_ok (verifyOperands_eq_ok fun id hid => ?_) hdemand
        (ih (fun j hj => hlife j (by simp [hj])) fun j hj => hdemands j (by simp [hj]))
      -- the operand is declared, and an instruction that computes nothing asks no more
      have hvalue : ∃ v, p.value id = .ok v := by
        cases i with
        | alloc dest =>
            obtain rfl : id = dest := by simpa [Instruction.operands] using hid
            obtain ⟨v, hv, -⟩ := Except.bind_eq_ok.mp hdemand
            exact ⟨v, hv⟩
        | dealloc src =>
            obtain rfl : id = src := by simpa [Instruction.operands] using hid
            obtain ⟨v, hv, -⟩ := Except.bind_eq_ok.mp hdemand
            exact ⟨v, hv⟩
        | _ => cases hi
      obtain ⟨v, hv⟩ := hvalue
      exact ⟨v, hv, fun _ hworks => absurd (hi.symm.trans hworks) (by simp)⟩

/-- **Grown programs use what they declare and allocate**: the walk through one
that grew to declarations of `p` succeeds if every instruction has its demands
met there. -/
theorem Grown.verifyFrom_eq_ok {vs : List (Value α)} (h : Grown vs is) (hvs : vs <+: p.values)
    (hdemands : ∀ i ∈ is, p.verifyInstruction i = .ok ()) : p.verifyFrom [] 0 is = .ok () := by
  induction h with
  | empty => rfl
  | weight _ _ _ ih => exact ih ((List.prefix_append _ _).trans hvs) hdemands
  | dealloc _ ih =>
      simp only [List.forall_mem_append] at hdemands
      exact verifyFrom_append_eq_ok (ih hvs hdemands.1)
        (verifyFrom_lifecycle_eq_ok (by simp [Instruction.isLifecycle]) hdemands.2)
  | @block vs us is i before named roles writer ih =>
      simp only [List.forall_mem_append] at hdemands
      obtain ⟨⟨hbefore, hallocs⟩, hwriter⟩ := hdemands
      have hgrown := Program.Grown.block before named roles writer
      have hvalue {v : Value α} (hv : v ∈ vs ++ us) : p.value v.id = .ok v := by
        obtain ⟨k, hk⟩ := List.mem_iff_getElem?.mp hv
        obtain ⟨rest, hrest⟩ := hvs
        rw [value, hgrown.getElem?_id hk, ← hrest,
          List.getElem?_append_left (List.getElem?_eq_some_iff.mp hk).1, hk]
      refine verifyFrom_append_eq_ok (verifyFrom_append_eq_ok
        (ih ((List.prefix_append _ _).trans hvs) hbefore)
        (verifyFrom_lifecycle_eq_ok (by simp [Instruction.isLifecycle]) hallocs))
        (verifyFrom_cons_eq_ok (verifyOperands_eq_ok fun id hid => ?_) (hwriter i (by simp)) rfl)
      -- an operand is a new activation, or a value from before the block
      obtain ⟨⟨id, access⟩, hmem, rfl⟩ := List.mem_map.mp hid
      by_cases hwrite : access = .write
      · subst hwrite
        obtain ⟨u, hu, hid⟩ := List.mem_map.mp (writer.writes id hmem)
        subst hid
        refine ⟨u, hvalue (List.mem_append_right vs hu), fun _ _ => mem_allocatedAll.mpr (.inr ?_)⟩
        rw [List.flatMap_append]
        exact List.mem_append_right _ (List.mem_flatMap.mpr
          ⟨.alloc u.id, List.mem_map.mpr ⟨u, hu, rfl⟩, by simp [Instruction.enlivened]⟩)
      · have hconsulted : id ∈ i.consulted := by
          rw [Instruction.consulted]
          refine List.mem_map.mpr ⟨(id, access), List.mem_filter.mpr ⟨hmem, ?_⟩, rfl⟩
          simpa using hwrite
        obtain ⟨v, hv, rfl⟩ := before.exists_value (writer.consulted id hconsulted)
        refine ⟨v, hvalue (List.mem_append_left us hv), fun hrole _ =>
          mem_allocatedAll.mpr (.inr ?_)⟩
        rw [List.flatMap_append]
        exact List.mem_append_left _ (before.covers v hv hrole).1

theorem Grown.verify_eq_ok (h : Grown p.values p.instructions)
    (hdemands : ∀ i ∈ p.instructions, p.verifyInstruction i = .ok ()) : p.verify = .ok () :=
  h.verifyFrom_eq_ok List.prefix_rfl hdemands

end Program

end TensorProgram
