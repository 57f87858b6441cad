/-
TensorProgram/Proofs/Tensor/Axes.lean

One axis of a shape.  Every element has one entry along an axis, and a division by
the stride with a remainder recovers it from the position of the element
(`Shape.coordinate_flat`).  The elements with one entry form a slice
(`Shape.slice`); a shape of any rank is divided into slices of equal size, one for
every entry (`Shape.length_slice`).
-/
import TensorProgram.Proofs.Window

namespace TensorProgram.Shape

variable {dims coord : List Nat} {s : Shape} {axis d x : Nat}

/-- An axis and those after it repeat evenly. -/
theorem mul_volume_drop_dvd (hd : dims[axis]? = some d) :
    d * volume (dims.drop (axis + 1)) ∣ volume dims := by
  induction dims generalizing axis with
  | nil => cases hd
  | cons e dims ih =>
      cases axis with
      | zero =>
          obtain rfl := Option.some.inj hd
          exact Nat.dvd_refl _
      | succ axis => exact Nat.dvd_mul_left_of_dvd (ih hd) e

/-- Stride and extent of an axis recover an entry from the position. -/
theorem flat_div_mod (hcoord : coord ∈ coordinatesIn dims) (hd : dims[axis]? = some d)
    (hx : coord[axis]? = some x) : flat dims coord / volume (dims.drop (axis + 1)) % d = x := by
  induction dims generalizing coord axis with
  | nil => cases hd
  | cons e dims ih =>
      obtain ⟨hlen, hin⟩ := mem_coordinatesIn.mp hcoord
      match coord, hlen, hin with
      | i :: coord, hlen, ⟨hi, hin⟩ =>
          have hlen : coord.length = dims.length := Nat.succ.inj hlen
          have hlt : flat dims coord < volume dims := flat_lt hin hlen
          have hpos : 0 < volume dims := Nat.zero_lt_of_lt hlt
          rw [flat_cons]
          cases axis with
          | zero =>
              -- the axes behind fill less than one round
              obtain rfl := Option.some.inj hd
              obtain rfl := Option.some.inj hx
              rw [List.drop_succ_cons, List.drop_zero, Nat.mul_comm, Nat.mul_add_div hpos,
                Nat.div_eq_of_lt hlt, Nat.add_zero, Nat.mod_eq_of_lt hi]
          | succ axis =>
              -- whole rounds of the axes in front leave no remainder
              obtain ⟨rounds, hrounds⟩ : d * volume (dims.drop (axis + 1)) ∣ volume dims :=
                mul_volume_drop_dvd hd
              have hstride : 0 < volume (dims.drop (axis + 1)) := volume_drop_pos hpos _
              have hfront : i * volume dims
                  = volume (dims.drop (axis + 1)) * (d * (rounds * i)) := by
                rw [hrounds]
                ring
              rw [List.drop_succ_cons, hfront, Nat.mul_add_div hstride, Nat.mul_add_mod]
              exact ih (mem_coordinatesIn.mpr ⟨hlen, hin⟩) hd hx

/-- The entry of a coordinate along an axis is found from its position. -/
theorem coordinate_flat (hcoord : coord ∈ s.coordinates) (hx : coord[axis]? = some x) :
    s.coordinate axis (flat s.dims coord) = .ok x := by
  obtain ⟨hlen, hin⟩ := mem_coordinatesIn.mp hcoord
  have hpos : 0 < volume s.dims := Nat.zero_lt_of_lt (flat_lt hin hlen)
  have haxis : axis < s.dims.length := by
    rw [← hlen]
    exact (List.getElem?_eq_some_iff.mp hx).1
  have hd : s.dims[axis]? = some s.dims[axis] := List.getElem?_eq_getElem haxis
  have hstride : (rowMajorStrides s.dims)[axis]? = some (volume (s.dims.drop (axis + 1))) := by
    rw [rowMajorStrides_getElem?, hd]
    rfl
  have hsub : s.dims[axis] * volume (s.dims.drop (axis + 1)) ≠ 0 :=
    (Nat.pos_of_dvd_of_pos (mul_volume_drop_dvd hd) hpos).ne'
  obtain ⟨hextent, hrest⟩ := mul_ne_zero_iff.mp hsub
  simp only [coordinate, Layout.coordinate, Layout.contiguous, strides, hstride, hd]
  rw [if_neg (not_or.mpr ⟨hrest, hextent⟩), flat_div_mod hcoord hd hx]

/-! ### Slices -/

/-- The coordinates with this entry along an axis. -/
def slice (s : Shape) (axis x : Nat) : List (List Nat) :=
  s.coordinates.filter fun coord => coord[axis]? = some x

theorem mem_slice : coord ∈ s.slice axis x ↔ coord ∈ s.coordinates ∧ coord[axis]? = some x := by
  rw [slice, List.mem_filter, decide_eq_true_iff]

theorem length_filter_coordinatesIn (hd : dims[axis]? = some d) (hx : x < d) :
    ((coordinatesIn dims).filter fun coord => coord[axis]? = some x).length * d = volume dims := by
  induction dims generalizing axis with
  | nil => cases hd
  | cons e dims ih =>
      rw [coordinatesIn, List.filter_flatMap]
      cases axis with
      | zero =>
          obtain rfl := Option.some.inj hd
          -- on the first axis one row in `d` is taken whole, and the others not at all
          have hrow (i : Nat) :
              ((coordinatesIn dims).map (i :: ·)).filter (fun coord => coord[0]? = some x)
                = if i = x then (coordinatesIn dims).map (i :: ·) else [] := by
            rw [List.filter_map]
            by_cases hi : i = x <;> simp [hi, Function.comp_def]
          simp only [hrow]
          rw [Window.flatMap_range_eq hx fun i _ hne => if_neg hne, if_pos rfl, List.length_map,
            length_coordinatesIn, volume_cons, Nat.mul_comm]
      | succ axis =>
          have hrow (i : Nat) :
              ((coordinatesIn dims).map (i :: ·)).filter (fun coord => coord[axis + 1]? = some x)
                = ((coordinatesIn dims).filter fun coord => coord[axis]? = some x).map (i :: ·) := by
            rw [List.filter_map]
            rfl
          simp only [hrow, List.length_flatMap, List.length_map]
          rw [List.map_const', List.length_range, List.sum_replicate_nat, Nat.mul_assoc,
            ih hd, volume_cons]

/-- Every slice has the same share of the elements. -/
theorem length_slice (hd : s.dims[axis]? = some d) (hx : x < d) :
    (s.slice axis x).length = s.elemCount / d := by
  rw [slice, elemCount, ← length_filter_coordinatesIn hd hx]
  exact (Nat.mul_div_cancel _ (Nat.zero_lt_of_lt hx)).symm

end TensorProgram.Shape
