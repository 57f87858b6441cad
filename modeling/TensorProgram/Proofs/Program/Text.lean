/-
TensorProgram/Proofs/Program/Text.lean

The written form of a program determines the program.  A text is cut into parts at
separators that do not occur in the parts: lines at line breaks, the words of a line at
blanks, lists at commas.  Names are free, so the line of a declaration is cut at its
first blank and at its last colon; only a line break in a name could hide its end.  A
line that starts with a digit is that of an instruction.

Of an instruction mnemonic, operands and attributes are found, and these three determine
it (`Instruction.map_eq_of_parts`): the kind by the mnemonic, whether a pooling saves
coordinates and how many blocks a concatenation has by the number of operands.

What is not printed is how a value is filled, and whether the training step would change
an activation (`Value.Alike`).  Of a scalar the text is all that is printed, so programs
are determined up to what that says of it.

Main statements: `Program.text_eq_iff` for any way to write scalars without separators,
and `Program.printed_alike_iff` for single-precision numbers, whose text determines the
bit pattern.
-/
import TensorProgram.Program.Basic
import TensorProgram.Proofs.Scalar.Decimal

namespace TensorProgram

open Decimal (isDigit_of_mem_nat notMem_nat nat_ne_nil nat_inj)

namespace Text

/-! ### Separators -/

section Separators

variable {γ : Type} {a b : γ}

/-- What stands before the first separator is determined, and what stands after it. -/
theorem split_first {xs ys xs' ys' : List γ} (hxs : a ∉ xs) (hxs' : a ∉ xs')
    (h : xs ++ a :: ys = xs' ++ a :: ys') : xs = xs' ∧ ys = ys' := by
  induction xs generalizing xs' with
  | nil =>
      cases xs' with
      | nil => exact ⟨rfl, (List.cons.inj h).2⟩
      | cons x' xs' =>
          obtain ⟨rfl, -⟩ := List.cons.inj h
          exact absurd List.mem_cons_self hxs'
  | cons x xs ih =>
      cases xs' with
      | nil =>
          obtain ⟨rfl, -⟩ := List.cons.inj h
          exact absurd List.mem_cons_self hxs
      | cons x' xs' =>
          obtain ⟨rfl, htail⟩ := List.cons.inj h
          obtain ⟨rfl, rfl⟩ := ih (fun hx => hxs (List.mem_cons_of_mem _ hx))
            (fun hx => hxs' (List.mem_cons_of_mem _ hx)) htail
          exact ⟨rfl, rfl⟩

/-- What stands before the last separator is determined, and what stands after it. -/
theorem split_last {xs ys xs' ys' : List γ} (hys : a ∉ ys) (hys' : a ∉ ys')
    (h : xs ++ a :: ys = xs' ++ a :: ys') : xs = xs' ∧ ys = ys' := by
  have hreverse := congrArg List.reverse h
  simp only [List.reverse_append, List.reverse_cons, List.append_assoc, List.singleton_append]
    at hreverse
  obtain ⟨hys, hxs⟩ := split_first (by rwa [List.mem_reverse]) (by rwa [List.mem_reverse]) hreverse
  exact ⟨List.reverse_inj.mp hxs, List.reverse_inj.mp hys⟩

/-- A text that ends every line determines its lines. -/
theorem lines_inj {ls ls' : List (List γ)} (hls : ∀ l ∈ ls, a ∉ l) (hls' : ∀ l ∈ ls', a ∉ l)
    (h : ls.flatMap (· ++ [a]) = ls'.flatMap (· ++ [a])) : ls = ls' := by
  induction ls generalizing ls' with
  | nil =>
      cases ls' with
      | nil => rfl
      | cons l' ls' => simp at h
  | cons l ls ih =>
      cases ls' with
      | nil => simp at h
      | cons l' ls' =>
          simp only [List.flatMap_cons, List.append_assoc, List.singleton_append] at h
          obtain ⟨rfl, hrest⟩ := split_first (hls l (by simp)) (hls' l' (by simp)) h
          rw [ih (fun m hm => hls m (by simp [hm])) (fun m hm => hls' m (by simp [hm])) hrest]

/-- A text that separates its parts determines them, if none is empty. -/
theorem intercalate_inj {ls ls' : List (List γ)} (hls : ∀ l ∈ ls, a ∉ l ∧ l ≠ [])
    (hls' : ∀ l ∈ ls', a ∉ l ∧ l ≠ []) (h : [a, b].intercalate ls = [a, b].intercalate ls') :
    ls = ls' := by
  induction ls generalizing ls' with
  | nil =>
      rcases ls' with - | ⟨l', - | ⟨m', ls'⟩⟩
      · rfl
      · simp [(hls' l' (by simp)).2] at h
      · simp [List.intercalate_cons_cons] at h
  | cons l ls ih =>
      -- a part without the separator ends where the first separator stands
      have hl := hls l (by simp)
      rcases ls' with - | ⟨l', ls'⟩
      · rcases ls with - | ⟨m, ls⟩
        · simp [hl.2] at h
        · simp [List.intercalate_cons_cons] at h
      have hl' := hls' l' (by simp)
      have hrest {p : List γ → Prop} {k : List γ} {ks : List (List γ)}
          (hall : ∀ l ∈ k :: ks, p l) : ∀ l ∈ ks, p l := fun l hl => hall l (by simp [hl])
      rcases ls with - | ⟨m, ls⟩ <;> rcases ls' with - | ⟨m', ls'⟩
      · simpa using h
      · -- the separator is in the longer text only
        rw [List.intercalate_cons_cons] at h
        exact absurd (by simp [show l = _ from by simpa using h]) hl.1
      · rw [List.intercalate_cons_cons] at h
        exact absurd (by simp [show l' = _ from by simpa using h.symm]) hl'.1
      · simp only [List.intercalate_cons_cons, List.append_assoc, List.cons_append,
          List.nil_append] at h
        obtain ⟨rfl, htail⟩ := split_first hl.1 hl'.1 h
        rw [ih (hrest hls) (hrest hls') (List.cons.inj htail).2]

/-- What is in no part and not in the separator is nowhere. -/
theorem notMem_intercalate {sep : List γ} {ls : List (List γ)} (hsep : a ∉ sep)
    (hls : ∀ l ∈ ls, a ∉ l) : a ∉ sep.intercalate ls := by
  induction ls with
  | nil => simp
  | cons l ls ih =>
      have hl := hls l (by simp)
      cases ls with
      | nil => simpa using hl
      | cons m ls =>
          rw [List.intercalate_cons_cons]
          simp only [List.mem_append, hl, hsep, or_self, false_or]
          exact ih fun k hk => hls k (List.mem_cons_of_mem _ hk)

/-- Lists with the same images are the same, if the images of members tell them apart. -/
theorem map_inj_on {δ : Type} {f : δ → γ} {xs ys : List δ}
    (hf : ∀ x ∈ xs, ∀ y ∈ ys, f x = f y → x = y) (h : xs.map f = ys.map f) : xs = ys := by
  induction xs generalizing ys with
  | nil => exact (List.map_eq_nil_iff.mp h.symm).symm
  | cons x xs ih =>
      cases ys with
      | nil => cases h
      | cons y ys =>
          obtain ⟨hhead, htail⟩ := List.cons.inj h
          rw [hf x (by simp) y (by simp) hhead,
            ih (fun a ha b hb => hf a (by simp [ha]) b (by simp [hb])) htail]

end Separators

/-! ### Lists of numbers -/

/-- Numbers in brackets are determined. -/
theorem bracketed_inj {ms ns : List Nat} (h : (bracketed ms).toList = (bracketed ns).toList) :
    ms = ns := by
  have hnumber (ks : List Nat) : ∀ l ∈ (ks.map toString).map String.toList, ',' ∉ l ∧ l ≠ [] := by
    simp only [List.map_map, List.forall_mem_map]
    exact fun k _ => ⟨notMem_nat (by decide) k, nat_ne_nil k⟩
  simp only [bracketed, String.toList_append, String.toList_intercalate, List.append_assoc,
    List.append_cancel_left_eq, List.append_cancel_right_eq] at h
  have hparts := intercalate_inj (hnumber ms) (hnumber ns) h
  rw [List.map_map, List.map_map] at hparts
  exact List.map_injective_iff.mpr (fun _ _ => nat_inj) hparts

/-- Brackets hold digits and separators only. -/
theorem notMem_bracketed {c : Char} (hdigit : c.isDigit = false) (hother : c ∉ ['[', ',', ' ', ']'])
    (ns : List Nat) : c ∉ (bracketed ns).toList := by
  simp only [List.mem_cons, List.not_mem_nil, or_false, not_or] at hother
  have hnumber : ∀ l ∈ (ns.map toString).map String.toList, c ∉ l := by
    simp only [List.map_map, List.forall_mem_map]
    exact fun n _ => notMem_nat hdigit n
  have hseparator : c ∉ [',', ' '] := by simp [hother]
  have hparts := notMem_intercalate hseparator hnumber
  simpa [bracketed, hother] using hparts

end Text

/-! ### Values -/

namespace Value

variable {α : Type} {v w : Value α}

/-- Two declarations that are printed alike: all that they say is the same, but for how
a value is filled, and which activations the training step would change. -/
structure Alike (v w : Value α) : Prop where
  /-- The number of the value. -/
  id : v.id = w.id
  /-- Its name. -/
  name : v.name = w.name
  /-- The kind of its elements. -/
  kind : v.kind = w.kind
  /-- Its extents. -/
  shape : v.shape = w.shape
  /-- How long it lives. -/
  role : v.role = w.role
  /-- Whether the training step changes it, if it lives for the whole session. -/
  trainable : v.role = .weight → v.trainable = w.trainable

/-- The first word of a line tells role and trainability. -/
theorem of_roleText_eq (h : v.roleText = w.roleText) :
    v.role = w.role ∧ (v.role = .weight → v.trainable = w.trainable) := by
  unfold roleText at h
  rcases hv : v.role <;> rcases hw : w.role <;> rcases htv : v.trainable <;>
    rcases htw : w.trainable <;> simp_all

/-- Kind and extents of a declaration are determined by how they are printed. -/
theorem of_declaration_eq
    (h : v.kind.text.toList ++ (bracketed v.shape.dims).toList
      = w.kind.text.toList ++ (bracketed w.shape.dims).toList) :
    v.kind = w.kind ∧ v.shape = w.shape := by
  have hkind : v.kind = w.kind := by
    rcases hv : v.kind <;> rcases hw : w.kind <;> simp [hv, hw, ElemKind.text] at h ⊢
  rw [hkind, List.append_cancel_left_eq] at h
  exact ⟨hkind, congrArg Shape.mk (Text.bracketed_inj h)⟩

theorem toList_text (v : Value α) : v.text.toList = v.roleText.toList ++ ' ' ::
    ((v.name.toList ++ [' ']) ++ ':' ::
      ((' ' :: (v.kind.text.toList ++ (bracketed v.shape.dims).toList) ++ [' ']) ++ '=' ::
        ' ' :: '%' :: (toString v.id).toList)) := by
  simp [text, ValueId.text, Shape.text]

/-- A line determines the declaration, whatever its name: it ends with the last colon. -/
theorem alike_of_text_eq (h : v.text = w.text) : v.Alike w := by
  have htext := congrArg String.toList h
  rw [toList_text, toList_text] at htext
  have hspace (u : Value α) : ' ' ∉ u.roleText.toList := by
    unfold roleText
    split <;> decide
  have hequals (u : Value α) : '=' ∉ ' ' :: '%' :: (toString u.id).toList := by
    simpa using notMem_nat (by decide) u.id
  have hcolon (u : Value α) :
      ':' ∉ (' ' :: (u.kind.text.toList ++ (bracketed u.shape.dims).toList) ++ [' ']) ++ '=' ::
        ' ' :: '%' :: (toString u.id).toList := by
    have hkind : ':' ∉ u.kind.text.toList := by cases u.kind <;> decide
    have hextents : ':' ∉ (bracketed u.shape.dims).toList :=
      Text.notMem_bracketed (by decide) (by decide) u.shape.dims
    have hid : ':' ∉ (toString u.id).toList := notMem_nat (by decide) u.id
    simpa [hkind] using And.intro hextents hid
  -- the name may hold any character, so the line is split from both ends
  obtain ⟨hrole, hrest⟩ := Text.split_first (hspace v) (hspace w) htext
  obtain ⟨hname, hrest⟩ := Text.split_last (hcolon v) (hcolon w) hrest
  obtain ⟨hdeclaration, hid⟩ := Text.split_last (hequals v) (hequals w) hrest
  simp only [List.cons_append, List.cons.injEq, true_and, List.append_cancel_right_eq]
    at hname hid hdeclaration
  obtain ⟨hkind, hshape⟩ := of_declaration_eq hdeclaration
  obtain ⟨hrole, htrainable⟩ := of_roleText_eq (String.toList_inj.mp hrole)
  exact ⟨nat_inj hid, String.toList_inj.mp hname, hkind, hshape, hrole, htrainable⟩

/-- What is printed of a declaration. -/
theorem Alike.text_eq (h : v.Alike w) : v.text = w.text := by
  have hrole : v.roleText = w.roleText := by
    have htrainable := h.trainable
    rw [roleText, roleText, ← h.role]
    cases hr : v.role with
    | weight => rw [← htrainable hr]
    | activation => rfl
  rw [text, text, hrole, h.name, h.kind, h.shape, h.id]

/-- A value is declared on one line, if its name has no line break. -/
theorem newline_notMem_text (v : Value α) (hname : '\n' ∉ v.name.toList) :
    '\n' ∉ v.text.toList := by
  have hrole : '\n' ∉ v.roleText.toList := by
    unfold roleText
    split <;> decide
  have hkind : '\n' ∉ v.kind.text.toList := by cases v.kind <;> decide
  have hextents := Text.notMem_bracketed (by decide : '\n'.isDigit = false) (by decide) v.shape.dims
  have hid := notMem_nat (by decide : '\n'.isDigit = false) v.id
  rw [toList_text]
  simp only [List.mem_append, List.mem_cons, hrole, hname, hkind, hextents, hid]
  decide

end Value

/-! ### Instructions -/

/-- Every access has its own word. -/
theorem Access.text_inj {a b : Access} (h : a.text = b.text) : a = b := by
  cases a <;> cases b <;> first | rfl | exact absurd h (by decide)

namespace Instruction

variable {α β : Type} {number : α → String} {i j : Instruction α}

/-- The instruction with other numbers. -/
def map (f : α → β) : Instruction α → Instruction β
  | copy i => copy i
  | reshape i => reshape i
  | activation f i => activation f i
  | convolution i => convolution i
  | pool i => pool i
  | fullyConnected i => fullyConnected i
  | softmax i => softmax i
  | regression i => regression i
  | transpose i => transpose i
  | concat i => concat i
  | batchNorm i => batchNorm { i with epsilon := f i.epsilon, momentum := f i.momentum }
  | localResponse i => localResponse { i with alpha := f i.alpha, beta := f i.beta, k := f i.k }
  | arithmetic i => arithmetic i
  | alloc dest => alloc dest
  | dealloc src => dealloc src

/-- How an operand is printed. -/
def operandText (o : ValueId × Access) : List Char :=
  o.2.text.toList ++ ' ' :: '%' :: (toString o.1).toList

/-- How an attribute is printed. -/
def attributeText (a : String × String) : List Char := a.1.toList ++ ':' :: ' ' :: a.2.toList

/-- How the attributes are printed: in braces, if there are any. -/
def attributesText (as : List (String × String)) : List Char :=
  if as = [] then []
  else ' ' :: '\x7b' :: ([',', ' '].intercalate (as.map attributeText) ++ ['\x7d'])

theorem operands_ne_nil (i : Instruction α) : i.operands ≠ [] := by
  cases i <;> simp [operands]

theorem toList_text (number : α → String) (i : Instruction α) :
    (i.text number).toList = i.mnemonic.toList ++ ' ' ::
      ([',', ' '].intercalate (i.operands.map operandText)
        ++ attributesText (i.attributes number)) := by
  have hoperands : (i.operands.map fun o => o.2.text ++ " " ++ ValueId.text o.1).map String.toList
      = i.operands.map operandText := by
    simp [operandText, ValueId.text]
  have hattributes : ((i.attributes number).map fun a => a.1 ++ ": " ++ a.2).map String.toList
      = (i.attributes number).map attributeText := by
    simp [attributeText]
  rw [text, attributesText]
  by_cases h : i.attributes number = [] <;>
    simp [h, i.operands_ne_nil, ← hoperands, ← hattributes, String.toList_intercalate]

/-! ### The parts of a line -/

theorem notMem_mnemonic (i : Instruction α) :
    ' ' ∉ i.mnemonic.toList ∧ '\n' ∉ i.mnemonic.toList := by
  unfold mnemonic
  split <;> (try split) <;> decide

/-- Operands hold nothing of the text around them. -/
theorem notMem_operandText {c : Char} (hdigit : c.isDigit = false) (hother : c ∉ "@inout %".toList)
    (o : ValueId × Access) : c ∉ operandText o := by
  have haccess : c ∉ o.2.text.toList := by
    intro h
    refine hother ?_
    rcases ho : o.2 <;> rw [ho] at h <;> simp [Access.text] at h ⊢ <;> tauto
  have hnumber : c ∉ (toString o.1).toList := notMem_nat hdigit o.1
  simp only [String.reduceToList, List.mem_cons, List.not_mem_nil, or_false, not_or] at hother
  simp only [operandText, List.mem_append, List.mem_cons, haccess, hother, hnumber, or_self,
    not_false_eq_true]

theorem operandText_ne_nil (o : ValueId × Access) : operandText o ≠ [] := by
  simp [operandText]

theorem operandText_inj {o o' : ValueId × Access} (h : operandText o = operandText o') :
    o = o' := by
  have hspace (a : Access) : ' ' ∉ a.text.toList := by cases a <;> decide
  obtain ⟨haccess, hid⟩ := Text.split_first (hspace o.2) (hspace o'.2) h
  exact Prod.ext (nat_inj (List.cons.inj hid).2)
    (Access.text_inj (String.toList_inj.mp haccess))

/-- The name of an attribute is a word. -/
theorem notMem_attribute_name {a : String × String} (h : a ∈ i.attributes number) :
    ',' ∉ a.1.toList ∧ ':' ∉ a.1.toList ∧ '\n' ∉ a.1.toList := by
  have hname : a.1 ∈ ["kernel", "stride", "pad", "shuffle", "dim", "channel", "epsilon",
      "momentum", "half_window", "alpha", "beta", "k"] := by
    have hmem := List.mem_map_of_mem (f := Prod.fst) h
    revert hmem
    cases i <;> simp only [attributes, windowAttributes, List.map_cons, List.map_nil,
      List.mem_cons] <;> tauto
  revert hname
  generalize a.1 = n
  revert n
  decide

/-- The value of an attribute is a number, or a list of axes. -/
theorem attribute_value {a : String × String} (h : a ∈ i.attributes number) :
    (∃ n : Nat, a.2 = toString n) ∨ (∃ x, a.2 = number x) ∨
      ∃ t, i = transpose t ∧ a = ("shuffle", bracketed t.shuffle) := by
  cases i <;>
    simp only [attributes, windowAttributes, List.mem_cons, List.not_mem_nil, or_false] at h
  case convolution i | pool i => obtain rfl | rfl | rfl := h <;> exact .inl ⟨_, rfl⟩
  case transpose t => exact .inr (.inr ⟨t, rfl, h⟩)
  case concat i =>
    obtain rfl := h
    exact .inl ⟨_, rfl⟩
  case batchNorm i =>
    obtain rfl | rfl | rfl := h
    · exact .inl ⟨_, rfl⟩
    all_goals exact .inr (.inl ⟨_, rfl⟩)
  case localResponse i =>
    obtain rfl | rfl | rfl | rfl := h
    · exact .inl ⟨_, rfl⟩
    all_goals exact .inr (.inl ⟨_, rfl⟩)

/-- Only a list of axes has separators in it. -/
theorem attributeText_separated (hnumber : ∀ x, ',' ∉ (number x).toList)
    (hi : i.mnemonic ≠ "transpose") : ∀ l ∈ (i.attributes number).map attributeText,
      ',' ∉ l ∧ l ≠ [] := by
  simp only [List.forall_mem_map]
  intro a ha
  have hname := (notMem_attribute_name ha).1
  have hvalue : ',' ∉ a.2.toList := by
    obtain ⟨n, hn⟩ | ⟨x, hx⟩ | ⟨t, rfl, -⟩ := attribute_value ha
    · exact hn ▸ notMem_nat (by decide) n
    · exact hx ▸ hnumber x
    · exact absurd rfl hi
  simp [attributeText, hname, hvalue]

theorem eq_transpose_of_mnemonic (h : i.mnemonic = "transpose") : ∃ t, i = transpose t := by
  unfold mnemonic at h
  split at h <;> (try split at h) <;> first | exact ⟨_, rfl⟩ | exact absurd h (by decide)

/-- Between the same words the same attributes have been printed. -/
theorem attributes_eq_of_text_eq (hnumber : ∀ x, ',' ∉ (number x).toList)
    (hmnemonic : i.mnemonic = j.mnemonic)
    (h : attributesText (i.attributes number) = attributesText (j.attributes number)) :
    i.attributes number = j.attributes number := by
  unfold attributesText at h
  -- a text without attributes lacks the brackets of one that has some
  by_cases hi : i.attributes number = [] <;> by_cases hj : j.attributes number = []
  · rw [hi, hj]
  · simp [hi, hj] at h
  · simp [hi, hj] at h
  simp only [hi, hj, if_false, List.cons.injEq, true_and, List.append_cancel_right_eq] at h
  by_cases htranspose : i.mnemonic = "transpose"
  · -- a single list of axes, which has separators of its own
    obtain ⟨t, rfl⟩ := eq_transpose_of_mnemonic htranspose
    obtain ⟨u, rfl⟩ := eq_transpose_of_mnemonic (hmnemonic ▸ htranspose)
    simp only [attributes, List.map_cons, List.map_nil, List.intercalate_singleton, attributeText,
      List.append_cancel_left_eq, List.cons.injEq, true_and] at h
    rw [attributes, attributes, String.toList_inj.mp h]
  · have hparts := Text.intercalate_inj (attributeText_separated hnumber htranspose)
      (attributeText_separated hnumber (hmnemonic ▸ htranspose)) h
    refine Text.map_inj_on (fun a ha b hb hab => ?_) hparts
    obtain ⟨hname, hvalue⟩ := Text.split_first (notMem_attribute_name ha).2.1
      (notMem_attribute_name hb).2.1 hab
    exact Prod.ext (String.toList_inj.mp hname) (String.toList_inj.mp (List.cons.inj hvalue).2)

/-- Every kind of instruction has words of its own. -/
theorem ctorIdx_eq_of_mnemonic (h : i.mnemonic = j.mnemonic) : i.ctorIdx = j.ctorIdx := by
  have hword (k : Instruction α) : k.ctorIdx = [["copy"], ["reshape"], ["relu", "sigmoid", "tanh"],
      ["convolution"], ["pool.max", "pool.avg"], ["fullyconnected"], ["softmax"], ["regression"],
      ["transpose"], ["concat"], ["batchnormalization"], ["localresponsenormalization"],
      ["arithmetic.add", "arithmetic.mul"], ["allocactivation"], ["deallocactivation"]].findIdx
        (k.mnemonic ∈ ·) := by
    cases k
    case activation f i => cases f <;> rfl
    case pool i => rcases i with ⟨- | -⟩ <;> rfl
    case arithmetic i => rcases i with ⟨- | -⟩ <;> rfl
    all_goals rfl
  rw [hword i, hword j, h]

/-- Mnemonic, operands and attributes determine the instruction. -/
theorem map_eq_of_parts (hmnemonic : i.mnemonic = j.mnemonic) (hoperands : i.operands = j.operands)
    (hattributes : i.attributes number = j.attributes number) : i.map number = j.map number := by
  have hkind := ctorIdx_eq_of_mnemonic hmnemonic
  cases i <;> cases j
  case copy.copy i j | reshape.reshape i j =>
    obtain ⟨dest, src⟩ := i
    obtain ⟨rfl, rfl⟩ : dest = j.dest ∧ src = j.src := by simpa [operands] using hoperands
    rfl
  case activation.activation f i g j =>
    obtain ⟨dest, src⟩ := i
    obtain ⟨rfl, rfl⟩ : dest = j.dest ∧ src = j.src := by simpa [operands] using hoperands
    obtain rfl : f = g := by cases f <;> cases g <;> simp [mnemonic] at hmnemonic ⊢
    rfl
  case convolution.convolution i j =>
    obtain ⟨dest, src, filter, bias, ⟨kernel, stride, pad⟩⟩ := i
    obtain ⟨dest', src', filter', bias', ⟨kernel', stride', pad'⟩⟩ := j
    simp_all [operands, attributes, windowAttributes]
  case pool.pool i j =>
    obtain ⟨kind, dest, src, coords, ⟨kernel, stride, pad⟩⟩ := i
    obtain ⟨kind', dest', src', coords', ⟨kernel', stride', pad'⟩⟩ := j
    obtain rfl : kind = kind' := by
      cases kind <;> cases kind' <;> simp [mnemonic] at hmnemonic ⊢
    -- coordinates, if there are any, are the third operand
    rcases coords with - | xy <;> rcases coords' with - | xy' <;>
      simp_all [operands, attributes, windowAttributes]
  case fullyConnected.fullyConnected i j | softmax.softmax i j | regression.regression i j =>
    cases i
    cases j
    simp_all [operands]
  case transpose.transpose i j =>
    obtain ⟨dest, src, shuffle⟩ := i
    obtain ⟨dest', src', shuffle'⟩ := j
    simp only [attributes, List.cons.injEq, Prod.mk.injEq, and_true, true_and] at hattributes
    obtain rfl := Text.bracketed_inj (congrArg String.toList hattributes)
    simp_all [operands]
  case concat.concat i j =>
    obtain ⟨dest, srcs, dim⟩ := i
    obtain ⟨dest', srcs', dim'⟩ := j
    simp only [operands, List.cons.injEq, Prod.mk.injEq, and_true] at hoperands
    obtain ⟨rfl, hsrcs⟩ := hoperands
    obtain rfl : srcs = srcs' :=
      List.map_injective_iff.mpr (fun _ _ h => (Prod.ext_iff.mp h).1) hsrcs
    simp_all [attributes]
  case batchNorm.batchNorm i j | localResponse.localResponse i j =>
    cases i
    cases j
    simp_all [operands, attributes, map]
  case arithmetic.arithmetic i j =>
    obtain ⟨kind, dest, lhs, rhs⟩ := i
    obtain ⟨kind', dest', lhs', rhs'⟩ := j
    obtain rfl : kind = kind' := by
      cases kind <;> cases kind' <;> simp [mnemonic] at hmnemonic ⊢
    simp_all [operands]
  case alloc.alloc | dealloc.dealloc => simp_all [operands]
  -- two different kinds do not share a word
  all_goals cases hkind

/-! ### Lines -/

/-- The first brace begins the attributes. -/
theorem split_attributesText {xs xs' : List Char} {as as' : List (String × String)}
    (hxs : '\x7b' ∉ xs) (hxs' : '\x7b' ∉ xs')
    (h : xs ++ attributesText as = xs' ++ attributesText as') :
    xs = xs' ∧ attributesText as = attributesText as' := by
  unfold attributesText at h ⊢
  by_cases has : as = [] <;> by_cases has' : as' = [] <;>
    simp only [has, has', if_true, if_false, List.append_nil] at h ⊢
  · exact ⟨h, trivial⟩
  · exact absurd (by simp [h]) hxs
  · exact absurd (by simp [← h]) hxs'
  · rw [List.append_cons, List.append_cons xs'] at h
    obtain ⟨hxs, hbody⟩ := Text.split_first (by simpa using hxs) (by simpa using hxs') h
    exact ⟨List.append_cancel_right hxs, by rw [hbody]⟩

theorem notMem_operands {c : Char} (hdigit : c.isDigit = false) (hother : c ∉ "@inout %,".toList)
    (i : Instruction α) : c ∉ [',', ' '].intercalate (i.operands.map operandText) := by
  simp only [String.reduceToList, List.mem_cons, List.not_mem_nil, or_false, not_or] at hother
  exact Text.notMem_intercalate (by simp [hother])
    (List.forall_mem_map.mpr fun o _ => notMem_operandText hdigit (by simp [hother]) o)

/-- A line determines the instruction, up to what the text of a number says of it. -/
theorem map_eq_of_text_eq (hnumber : ∀ x, ',' ∉ (number x).toList)
    (h : i.text number = j.text number) : i.map number = j.map number := by
  have htext := congrArg String.toList h
  rw [toList_text, toList_text] at htext
  obtain ⟨hmnemonic, hrest⟩ := Text.split_first i.notMem_mnemonic.1 j.notMem_mnemonic.1 htext
  obtain ⟨hoperands, hattributes⟩ :=
    split_attributesText (notMem_operands (by decide) (by decide) i)
      (notMem_operands (by decide) (by decide) j) hrest
  have hseparated (k : Instruction α) : ∀ l ∈ k.operands.map operandText, ',' ∉ l ∧ l ≠ [] :=
    List.forall_mem_map.mpr fun o _ =>
      ⟨notMem_operandText (by decide) (by decide) o, operandText_ne_nil o⟩
  have hparts := Text.intercalate_inj (hseparated i) (hseparated j) hoperands
  have hmnemonic := String.toList_inj.mp hmnemonic
  exact map_eq_of_parts hmnemonic (List.map_injective_iff.mpr (fun _ _ => operandText_inj) hparts)
    (attributes_eq_of_text_eq hnumber hmnemonic hattributes)

/-- The text of the numbers is all that is printed of them. -/
theorem text_map (f : α → β) (number : β → String) (i : Instruction α) :
    (i.map f).text number = i.text (number ∘ f) := by
  have hmnemonic : (i.map f).mnemonic = i.mnemonic := by
    cases i
    case activation g i => cases g <;> rfl
    all_goals rfl
  have hoperands : (i.map f).operands = i.operands := by cases i <;> rfl
  have hattributes : (i.map f).attributes number = i.attributes (number ∘ f) := by cases i <;> rfl
  rw [text, text, hmnemonic, hoperands, hattributes]

theorem map_map {γ : Type} (f : α → β) (g : β → γ) (i : Instruction α) :
    (i.map f).map g = i.map (g ∘ f) := by
  cases i <;> rfl

/-- What one reading of the numbers tells apart, no coarser reading does. -/
theorem map_eq_of_factors {γ : Type} {f : α → β} {g : α → γ} (h : g.FactorsThrough f) (c : γ)
    {is js : List (Instruction α)} (heq : is.map (map f) = js.map (map f)) :
    is.map (map g) = js.map (map g) := by
  -- the coarser reading of a number is found from the finer one
  obtain ⟨k, rfl⟩ : ∃ k : β → γ, g = k ∘ f :=
    ⟨Function.extend f g fun _ => c, (h.extend_comp _).symm⟩
  have hmap (ls : List (Instruction α)) : ls.map (map (k ∘ f)) = (ls.map (map f)).map (map k) := by
    simp [map_map, Function.comp_def]
  rw [hmap, hmap, heq]

/-- An instruction is printed on one line. -/
theorem newline_notMem_text (hnumber : ∀ x, '\n' ∉ (number x).toList) (i : Instruction α) :
    '\n' ∉ (i.text number).toList := by
  have hattribute : ∀ a ∈ i.attributes number, '\n' ∉ attributeText a := by
    intro a ha
    have hname := (notMem_attribute_name ha).2.2
    have hvalue : '\n' ∉ a.2.toList := by
      obtain ⟨n, hn⟩ | ⟨x, hx⟩ | ⟨t, -, rfl⟩ := attribute_value ha
      · exact hn ▸ notMem_nat (by decide) n
      · exact hx ▸ hnumber x
      · exact Text.notMem_bracketed (by decide) (by decide) t.shuffle
    simp [attributeText, hname, hvalue]
  -- around the attributes stand brackets, commas and blanks
  have hattributes : '\n' ∉ attributesText (i.attributes number) := by
    unfold attributesText
    split
    · simp
    · have hparts := Text.notMem_intercalate (by decide : '\n' ∉ [',', ' '])
        (List.forall_mem_map.mpr hattribute)
      simp [hparts]
  rw [toList_text]
  simp [i.notMem_mnemonic.2, notMem_operands (by decide : '\n'.isDigit = false) (by decide) i,
    hattributes]

end Instruction

/-! ### Programs -/

namespace Program

variable {α : Type} {number : α → String} {p q : Program α}

/-- The lines of the declarations. -/
def valueLines (p : Program α) : List (List Char) := p.values.map fun v => v.text.toList

/-- The line of an instruction. -/
def numberedLine (number : α → String) (i : Instruction α) (k : Nat) : List Char :=
  (toString k).toList ++ ':' :: ' ' :: (i.text number).toList

/-- The lines of the instructions. -/
def instructionLines (number : α → String) (p : Program α) : List (List Char) :=
  p.instructions.zipIdx.map fun (i, k) => numberedLine number i k

/-- A program is printed line by line. -/
theorem toList_text (number : α → String) (p : Program α) :
    (p.text number).toList
      = (p.valueLines ++ p.instructionLines number).flatMap (· ++ ['\n']) := by
  simp [text, valueLines, instructionLines, numberedLine, List.flatMap_map]

/-- The line starts with a digit. -/
def startsWithDigit (l : List Char) : Bool := l.head?.any Char.isDigit

/-- The line of a declaration starts with a word. -/
theorem startsWithDigit_valueLines {l : List Char} (h : l ∈ p.valueLines) :
    startsWithDigit l = false := by
  obtain ⟨v, -, rfl⟩ := List.mem_map.mp h
  rw [v.toList_text]
  unfold Value.roleText
  split <;> rfl

/-- The line of an instruction starts with its number. -/
theorem startsWithDigit_instructionLines {l : List Char} (h : l ∈ p.instructionLines number) :
    startsWithDigit l = true := by
  obtain ⟨⟨i, k⟩, -, rfl⟩ := List.mem_map.mp h
  obtain ⟨c, cs, hcs⟩ := List.exists_cons_of_ne_nil (nat_ne_nil k)
  dsimp only [numberedLine]
  rw [hcs]
  exact isDigit_of_mem_nat (n := k) (by rw [hcs]; exact List.mem_cons_self)

/-- Where no name has a line break, no line has one. -/
theorem newline_notMem_lines (hnumber : ∀ x, '\n' ∉ (number x).toList)
    (hp : ∀ v ∈ p.values, '\n' ∉ v.name.toList) :
    ∀ l ∈ p.valueLines ++ p.instructionLines number, '\n' ∉ l := by
  intro l hl
  obtain hl | hl := List.mem_append.mp hl
  · obtain ⟨v, hv, rfl⟩ := List.mem_map.mp hl
    exact v.newline_notMem_text (hp v hv)
  · obtain ⟨⟨i, k⟩, -, rfl⟩ := List.mem_map.mp hl
    have hk := notMem_nat (by decide : '\n'.isDigit = false) k
    have hi := i.newline_notMem_text hnumber
    dsimp only [numberedLine]
    intro hmem
    obtain hmem | hmem := List.mem_append.mp hmem
    · exact hk hmem
    · exact hi (by simpa using hmem)

/-- Where names have no line breaks, the lines of a program are determined. -/
theorem lines_eq_of_text_eq (hnumber : ∀ x, '\n' ∉ (number x).toList)
    (hp : ∀ v ∈ p.values, '\n' ∉ v.name.toList) (hq : ∀ v ∈ q.values, '\n' ∉ v.name.toList)
    (h : p.text number = q.text number) :
    p.valueLines = q.valueLines ∧ p.instructionLines number = q.instructionLines number := by
  have htext := congrArg String.toList h
  rw [toList_text, toList_text] at htext
  have hlines := Text.lines_inj (newline_notMem_lines hnumber hp) (newline_notMem_lines hnumber hq)
    htext
  -- the first character tells the two kinds of lines apart
  have hinstructions (r : Program α) :
      (r.valueLines ++ r.instructionLines number).filter startsWithDigit
        = r.instructionLines number := by
    rw [List.filter_append, List.filter_eq_nil_iff.mpr, List.nil_append, List.filter_eq_self]
    · exact fun l hl => startsWithDigit_instructionLines hl
    · exact fun l hl => by simp [startsWithDigit_valueLines hl]
  have heq := congrArg (List.filter startsWithDigit) hlines
  rw [hinstructions p, hinstructions q] at heq
  rw [heq] at hlines
  exact ⟨List.append_cancel_right hlines, heq⟩

/-- **The text of a program.**  However scalars are written, as long as their texts have
no commas and no line breaks: two programs without line breaks in their names have the
same text exactly if their declarations are printed alike, one by one, and their
instructions differ at most in scalars with one text. -/
theorem text_eq_iff (hcomma : ∀ x, ',' ∉ (number x).toList)
    (hnewline : ∀ x, '\n' ∉ (number x).toList) (hp : ∀ v ∈ p.values, '\n' ∉ v.name.toList)
    (hq : ∀ v ∈ q.values, '\n' ∉ v.name.toList) :
    p.text number = q.text number ↔ List.Forall₂ Value.Alike p.values q.values ∧
      p.instructions.map (Instruction.map number) =
        q.instructions.map (Instruction.map number) := by
  constructor
  · intro h
    obtain ⟨hvalues, hinstructions⟩ := lines_eq_of_text_eq hnewline hp hq h
    refine ⟨?_, List.ext_getElem? fun k => ?_⟩
    · have htexts : List.Forall₂ (· = ·) p.valueLines q.valueLines := by
        rw [List.forall₂_eq_eq_eq, hvalues]
      rw [valueLines, valueLines, List.forall₂_map_left_iff, List.forall₂_map_right_iff] at htexts
      exact htexts.imp fun v w hvw => Value.alike_of_text_eq (String.toList_inj.mp hvw)
    · -- lines at one position have one number in front
      have hk := congrArg (fun ls => ls[k]?) hinstructions
      simp only [instructionLines, List.getElem?_map, List.getElem?_zipIdx] at hk ⊢
      rcases hi : p.instructions[k]? with - | i <;> rcases hj : q.instructions[k]? with - | j <;>
        simp only [hi, hj, Option.map_none, Option.map_some, reduceCtorEq, Option.some.injEq,
          Nat.zero_add, numberedLine, List.append_cancel_left_eq, List.cons.injEq, true_and] at hk ⊢
      exact Instruction.map_eq_of_text_eq hcomma (String.toList_inj.mp hk)
  · rintro ⟨hvalues, hinstructions⟩
    -- the lines can be printed from the texts of the scalars alone
    have hlines (r : Program α) : r.instructionLines number
        = (r.instructions.map (Instruction.map number)).zipIdx.map fun (i, k) =>
          numberedLine id i k := by
      rw [instructionLines, List.zipIdx_map, List.map_map]
      refine List.map_congr_left fun ⟨i, k⟩ _ => ?_
      simp [numberedLine, Instruction.text_map]
    have htexts : p.valueLines = q.valueLines := by
      rw [← List.forall₂_eq_eq_eq, valueLines, valueLines, List.forall₂_map_left_iff,
        List.forall₂_map_right_iff]
      exact hvalues.imp fun v w hvw => congrArg String.toList hvw.text_eq
    rw [← String.toList_inj, toList_text, toList_text, htexts, hlines p, hlines q, hinstructions]

/-! ### Single-precision scalars -/

/-- **The text of a program over single-precision numbers.**  Two programs without line
breaks in their names have the same text exactly if they have equally many values, pair
by pair with the same number, name, kind, shape and role, and the same flag if the value
lives for the whole session, and the same instructions, where two scalars that are no
numbers count as one. -/
theorem printed_alike_iff {p q : Program Float32} (hp : ∀ v ∈ p.values, '\n' ∉ v.name.toList)
    (hq : ∀ v ∈ q.values, '\n' ∉ v.name.toList) :
    p.text Decimal.text = q.text Decimal.text ↔ List.Forall₂ Value.Alike p.values q.values ∧
      p.instructions.map (Instruction.map Decimal.pattern) =
        q.instructions.map (Instruction.map Decimal.pattern) := by
  rw [text_eq_iff (fun x => Decimal.notMem_text (by decide) (by decide) x)
    (fun x => Decimal.notMem_text (by decide) (by decide) x) hp hq]
  have htext : Decimal.text.FactorsThrough Decimal.pattern := fun x y h =>
    Decimal.text_eq_text_iff.mpr h
  have hpattern : Decimal.pattern.FactorsThrough Decimal.text := fun x y h =>
    Decimal.text_eq_text_iff.mp h
  exact and_congr_right fun _ =>
    ⟨Instruction.map_eq_of_factors hpattern none, Instruction.map_eq_of_factors htext ""⟩

/-- A name with a colon and a number in it: the training flag of an activation is not
printed, its name is. -/
theorem printed_alike_iff_activation :
    let program (name : String) (trainable : Bool) : Program Float32 :=
      ⟨[⟨0, name, .float, ⟨[2]⟩, .activation, trainable, .zero⟩], [.alloc 0, .copy ⟨0, 0⟩]⟩
    (program "x : index[7] = %3" true).text Decimal.text =
        (program "x : index[7] = %3" false).text Decimal.text ∧
      (program "x : index[7] = %3" true).text Decimal.text ≠
        (program "x" true).text Decimal.text := by
  intro program
  refine ⟨(printed_alike_iff ?_ ?_).mpr ⟨.cons ⟨rfl, rfl, rfl, rfl, rfl, nofun⟩ .nil, rfl⟩,
    fun h => ?_⟩
  · decide
  · decide
  · obtain ⟨hvalues, -⟩ := (printed_alike_iff (by decide) (by decide)).mp h
    obtain ⟨hvalue, -⟩ := List.forall₂_cons.mp hvalues
    exact absurd hvalue.name (by decide)

end Program

end TensorProgram
