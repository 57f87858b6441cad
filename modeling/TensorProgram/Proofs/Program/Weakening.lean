/-
TensorProgram/Proofs/Program/Weakening.lean

Declaring more values does no harm to what has been checked.  `Persists x y`
says that what `x` answers, `y` answers as well.  A look-up persists when values
are appended to the table (`Program.persists_value`), and the demands of an
instruction are sequences of look-ups, so they persist too
(`Program.persists_verifyInstruction`).
-/
import TensorProgram.Program.Verify
import TensorProgram.Proofs.Run

namespace TensorProgram

variable {α β γ ε ι : Type}

/-! ### Answers that persist -/

/-- What `x` answers, `y` answers as well. -/
def Persists (x y : Except ε β) : Prop := ∀ b, x = .ok b → y = .ok b

namespace Persists

theorem refl (x : Except ε β) : Persists x x := fun _ h => h

theorem bind {x y : Except ε β} {f g : β → Except ε γ} (h : Persists x y)
    (hf : ∀ b, Persists (f b) (g b)) : Persists (x >>= f) (y >>= g) := by
  intro c hc
  obtain ⟨b, hb, hc⟩ := Except.bind_eq_ok.mp hc
  rw [h b hb]
  exact hf b c hc

theorem map {x y : Except ε β} (h : Persists x y) (f : β → γ) : Persists (x.map f) (y.map f) := by
  intro c hc
  rcases x with e | b
  · cases hc
  · rw [h b rfl]
    exact hc

theorem forM {f g : ι → Except ε Unit} {xs : List ι} (h : ∀ x, Persists (f x) (g x)) :
    Persists (xs.forM f) (xs.forM g) :=
  fun _ hall => Except.forM_of_eq_ok fun x hx => h x () (Except.forM_eq_ok hall x hx)

theorem foldlM {f g : β → ι → Except ε β} {xs : List ι} (h : ∀ b x, Persists (f b x) (g b x))
    (b : β) : Persists (xs.foldlM f b) (xs.foldlM g b) := by
  induction xs generalizing b with
  | nil => exact refl _
  | cons x xs ih =>
      rw [List.foldlM_cons, List.foldlM_cons]
      exact (h b x).bind ih

end Persists

namespace Program

variable {p q : Program α} (h : p.values <+: q.values)

include h

/-! ### Look-ups -/

theorem persists_value (id : ValueId) : Persists (p.value id) (q.value id) := by
  intro v hv
  rw [value] at hv ⊢
  split at hv
  · rename_i u hu
    obtain rfl := Except.ok.inj hv
    obtain ⟨vs, hvs⟩ := h
    rw [← hvs, List.getElem?_append_left (List.getElem?_eq_some_iff.mp hu).1, hu]
  · cases hv

theorem persists_shapeOf (id : ValueId) : Persists (p.shapeOf id) (q.shapeOf id) :=
  (persists_value h id).map _

theorem persists_requireKind (k : ElemKind) (id : ValueId) :
    Persists (p.requireKind k id) (q.requireKind k id) :=
  (persists_value h id).bind fun _ => .refl _

theorem persists_requireFloats (ids : List ValueId) :
    Persists (p.requireFloats ids) (q.requireFloats ids) :=
  .forM fun id => persists_requireKind h .float id

theorem persists_requireShape (id : ValueId) (subject : String) (s : Shape) :
    Persists (p.requireShape id subject s) (q.requireShape id subject s) :=
  (persists_shapeOf h id).bind fun _ => .refl _

theorem persists_images (id : ValueId) : Persists (p.images id) (q.images id) :=
  (persists_shapeOf h id).bind fun _ => .refl _

theorem persists_requireActivation (id : ValueId) :
    Persists (p.requireActivation id) (q.requireActivation id) :=
  (persists_value h id).bind fun _ => .refl _

/-! ### Demands of instructions -/

theorem persists_requireSameFloats (dest src : ValueId) (subject : String) :
    Persists (p.requireSameFloats dest src subject) (q.requireSameFloats dest src subject) :=
  (persists_requireFloats h _).bind fun _ => (persists_shapeOf h src).bind fun _ =>
    persists_requireShape h dest subject _

theorem persists_verifyConvolution (i : Convolution) :
    Persists (p.verifyConvolution i) (q.verifyConvolution i) :=
  (persists_requireFloats h _).bind fun _ => (persists_images h i.src).bind fun _ =>
    (persists_images h i.dest).bind fun _ => (Persists.refl _).bind fun _ =>
      (persists_requireShape h i.dest _ _).bind fun _ =>
        (persists_requireShape h i.filter _ _).bind fun _ => persists_requireShape h i.bias _ _

theorem persists_verifyPool (i : Pool) : Persists (p.verifyPool i) (q.verifyPool i) := by
  refine (persists_requireFloats h _).bind fun _ => (persists_images h i.src).bind fun _ =>
    (Persists.refl _).bind fun _ => (persists_requireShape h i.dest _ _).bind fun _ => ?_
  split
  · exact (persists_requireKind h .index _).bind fun _ => persists_requireShape h _ _ _
  · exact .refl _
  · exact .refl _

theorem persists_verifyFullyConnected (i : FullyConnected) :
    Persists (p.verifyFullyConnected i) (q.verifyFullyConnected i) := by
  refine (persists_requireFloats h _).bind fun _ => (persists_shapeOf h i.src).bind fun _ =>
    (Persists.refl _).bind fun _ => (persists_shapeOf h i.dest).bind fun _ =>
      (Persists.refl _).bind fun _ => ?_
  dsimp only
  split
  · exact .refl _
  · exact (persists_requireShape h i.filter _ _).bind fun _ => persists_requireShape h i.bias _ _

theorem persists_verifySoftmax (i : Softmax) :
    Persists (p.verifySoftmax i) (q.verifySoftmax i) :=
  (persists_requireFloats h _).bind fun _ => (persists_requireKind h .index _).bind fun _ =>
    (persists_shapeOf h i.src).bind fun _ => (Persists.refl _).bind fun _ =>
      (persists_requireShape h i.dest _ _).bind fun _ =>
        (persists_requireShape h i.saved _ _).bind fun _ => persists_requireShape h i.selected _ _

theorem persists_verifyRegression (i : Regression) :
    Persists (p.verifyRegression i) (q.verifyRegression i) :=
  (persists_requireFloats h _).bind fun _ => (persists_shapeOf h i.src).bind fun _ =>
    (Persists.refl _).bind fun _ => (persists_requireShape h i.dest _ _).bind fun _ =>
      persists_requireShape h i.expected _ _

theorem persists_verifyTranspose (i : Transpose) :
    Persists (p.verifyTranspose i) (q.verifyTranspose i) :=
  (persists_requireFloats h _).bind fun _ => (persists_shapeOf h i.src).bind fun _ =>
    (Persists.refl _).bind fun _ => persists_requireShape h i.dest _ _

theorem persists_verifyReshape (i : Unary) :
    Persists (p.verifyReshape i) (q.verifyReshape i) :=
  (persists_requireFloats h _).bind fun _ => (persists_shapeOf h i.src).bind fun _ =>
    (persists_shapeOf h i.dest).bind fun _ => .refl _

theorem persists_verifyConcat (i : Concat) : Persists (p.verifyConcat i) (q.verifyConcat i) := by
  refine (persists_requireFloats h _).bind fun _ => (persists_requireFloats h _).bind fun _ =>
    (persists_shapeOf h i.dest).bind fun _ => (Persists.refl _).bind fun _ => ?_
  split
  · exact .refl _
  · refine (Persists.foldlM (fun _ id => ?_) 0).bind fun _ => .refl _
    exact (persists_shapeOf h id).bind fun _ => .refl _

theorem persists_verifyBatchNorm (i : BatchNorm α) :
    Persists (p.verifyBatchNorm i) (q.verifyBatchNorm i) :=
  (persists_requireFloats h _).bind fun _ => (persists_shapeOf h i.src).bind fun _ =>
    (persists_requireShape h i.dest _ _).bind fun _ => (Persists.refl _).bind fun _ =>
      (persists_requireShape h i.scale _ _).bind fun _ =>
        (persists_requireShape h i.bias _ _).bind fun _ =>
          (persists_requireShape h i.mean _ _).bind fun _ => persists_requireShape h i.var _ _

theorem persists_verifyLocalResponse (i : LocalResponse α) :
    Persists (p.verifyLocalResponse i) (q.verifyLocalResponse i) := by
  refine (persists_requireFloats h _).bind fun _ => (persists_images h i.src).bind fun _ => ?_
  split
  · exact .refl _
  · exact (persists_requireShape h i.dest _ _).bind fun _ => persists_requireShape h i.scale _ _

theorem persists_verifyArithmetic (i : Arithmetic) :
    Persists (p.verifyArithmetic i) (q.verifyArithmetic i) :=
  (persists_requireFloats h _).bind fun _ => (persists_shapeOf h i.lhs).bind fun _ =>
    (persists_requireShape h i.rhs _ _).bind fun _ => persists_requireShape h i.dest _ _

/-- **Weakening.**  An instruction whose demands are met still has them met when
more values are declared. -/
theorem persists_verifyInstruction (i : Instruction α) :
    Persists (p.verifyInstruction i) (q.verifyInstruction i) := by
  cases i with
  | copy i => exact persists_requireSameFloats h i.dest i.src _
  | reshape i => exact persists_verifyReshape h i
  | activation f i => exact persists_requireSameFloats h i.dest i.src _
  | convolution i => exact persists_verifyConvolution h i
  | pool i => exact persists_verifyPool h i
  | fullyConnected i => exact persists_verifyFullyConnected h i
  | softmax i => exact persists_verifySoftmax h i
  | regression i => exact persists_verifyRegression h i
  | transpose i => exact persists_verifyTranspose h i
  | concat i => exact persists_verifyConcat h i
  | batchNorm i => exact persists_verifyBatchNorm h i
  | localResponse i => exact persists_verifyLocalResponse h i
  | arithmetic i => exact persists_verifyArithmetic h i
  | alloc id => exact persists_requireActivation h id
  | dealloc id => exact persists_requireActivation h id

end Program

end TensorProgram
