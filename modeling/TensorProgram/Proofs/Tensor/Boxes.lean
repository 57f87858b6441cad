/-
TensorProgram/Proofs/Tensor/Boxes.lean

Blocks inside a larger tensor.  The window of a block that fits is walked over
the coordinates of the block, each moved by the offset (`Layout.exists_window`),
so inserting the block writes its elements there and extracting it reads them
from there (`View.performs_insertAt`, `View.performs_extractAt`).

The moved coordinates are those of a box (`Shape.InBox`), and inside the box
the coordinate of the block is found by taking the offset away.  An insertion
is therefore known coordinate by coordinate: the block inside the box, the old
element outside (`View.insertInto_ok`).  Round trips and the order of insertions
into disjoint boxes are read off that description.
-/
import TensorProgram.Proofs.Tensor.Views

namespace TensorProgram

variable {ε : Type} [Zero ε]

open Run (Performs)
open Shape (coordinatesIn flat Inside)

/-! ### Walking the window of a block -/

section Window

variable {outer inner : Shape} {offset : List Nat}

/-- The window of a block that fits is walked over the moved coordinates, and
none of its positions comes twice. -/
theorem Layout.exists_window (hroom : outer.HasRoom inner offset) :
    ∃ view, (Layout.contiguous outer).window inner offset = .ok view ∧ view.indices.Nodup ∧
      view.indices = (coordinatesIn inner.dims).map
        fun c => flat outer.dims (List.zipWith (· + ·) offset c) := by
  have hembeds := Layout.embeds_contiguous outer
  obtain ⟨start, hok, -⟩ := Layout.window_of_hasRoom hembeds.strided hroom
  refine ⟨_, hok, (hembeds.window hroom hok).indices_lt_and_nodup.2, ?_⟩
  rw [Layout.indices_eq]
  refine List.map_congr_left fun c hc => ?_
  have hplace := (Layout.place_window hembeds.strided hroom hok hc).2
  rw [Layout.place, Layout.place, Layout.contiguous, Nat.zero_add] at hplace
  exact hplace

/-- Inside the outer shape the moved coordinates have positions. -/
theorem Layout.flat_moved_lt (hroom : outer.HasRoom inner offset) {c : List Nat}
    (hc : c ∈ coordinatesIn inner.dims) :
    flat outer.dims (List.zipWith (· + ·) offset c) < outer.elemCount := by
  obtain ⟨hlen, hin⟩ := Shape.mem_coordinatesIn.mp
    (Shape.moved_mem hroom hc)
  exact Shape.flat_lt hin hlen

/-- Inserting a block writes its elements at the moved coordinates. -/
theorem View.performs_insertAt {block : View ε} (hroom : outer.HasRoom block.shape offset) :
    Performs overwrite (block.insertInto offset outer)
      ((coordinatesIn block.shape.dims).map fun c =>
        (flat outer.dims (List.zipWith (· + ·) offset c), block.elem c)) := by
  obtain ⟨view, hview, -, hindices⟩ := Layout.exists_window hroom
  have hwalk : view.indices.zipIdx = (coordinatesIn block.shape.dims).map fun c =>
      (flat outer.dims (List.zipWith (· + ·) offset c), flat block.shape.dims c) := by
    rw [hindices, List.zipIdx_map, Shape.zipIdx_coordinatesIn, List.map_map]
    rfl
  rw [insertInto, hview, Run.liftM_ok, pure_bind, hwalk]
  refine Run.performs_scatter_map (fun c hc => ?_) (fun c _ => rfl) fun c hc => ?_
  · obtain ⟨hlen, hin⟩ := Shape.mem_coordinatesIn.mp hc
    exact block.raw_eq (Shape.flat_lt hin hlen)
  · exact Layout.flat_moved_lt hroom hc

/-- Extracting a block reads the elements at the moved coordinates. -/
theorem View.performs_extractAt {src : View ε} {s : Shape}
    (hroom : src.shape.HasRoom s offset) :
    Performs overwrite (src.extractInto offset s)
      (coordinatewise s.dims fun c => src.elem (List.zipWith (· + ·) offset c)) := by
  obtain ⟨view, hview, -, hindices⟩ := Layout.exists_window hroom
  rw [extractInto, hview, Run.liftM_ok, pure_bind, hindices]
  exact performs_gather (Nat.le_refl _) fun c hc => Layout.flat_moved_lt hroom hc

end Window

/-! ### Blocks that lie along an axis -/

section Axis

variable {dest : Shape} {axis start d : Nat}

/-- A block whose end lies within the extent of the axis fits at its origin. -/
theorem Shape.hasRoom_origin {block : Shape}
    (hdims : block.dims = dest.dims.set axis (block.dims.getD axis 0))
    (hd : dest.dims[axis]? = some d) (hle : start + block.dims.getD axis 0 ≤ d) :
    dest.HasRoom block ((List.replicate dest.rank 0).set axis start) := by
  have hlen : block.dims.length = dest.dims.length := by rw [hdims, List.length_set]
  have hoffset : ((List.replicate dest.rank 0).set axis start).length = dest.dims.length := by
    simp [Shape.rank]
  refine ⟨hlen, hoffset, (Shape.forall_zip_iff hlen hoffset).mp fun p hp => ?_⟩
  obtain ⟨k, hk, rfl⟩ := List.mem_iff_getElem.mp hp
  obtain ⟨haxis, rfl⟩ := List.getElem?_eq_some_iff.mp hd
  have hblock (k : Nat) (hk : k < block.dims.length) :
      block.dims[k] = if axis = k then block.dims.getD axis 0
        else dest.dims.get ⟨k, hlen ▸ hk⟩ := by
    have h := List.getElem_of_eq hdims hk
    rwa [List.getElem_set] at h
  simp only [List.getElem_zip, List.getElem_set, List.getElem_replicate]
  rw [hblock]
  by_cases hax : axis = k
  · subst hax
    simpa using hle
  · simp [hax]

/-- Moving by the origin of the block is moving along the axis. -/
theorem zipWith_replicate_set {dims c : List Nat} (hc : c ∈ coordinatesIn dims)
    (hlen : dims.length = dest.rank) :
    List.zipWith (· + ·) ((List.replicate dest.rank 0).set axis start) c = shift axis start c := by
  rw [← zipWith_origin, (Shape.mem_coordinatesIn.mp hc).1, hlen]

/-- Inserting a block writes its elements at the coordinates moved along the
axis. -/
theorem View.performs_insertInto {block : View ε}
    (hdims : block.shape.dims = dest.dims.set axis (block.shape.dims.getD axis 0))
    (hd : dest.dims[axis]? = some d) (hle : start + block.shape.dims.getD axis 0 ≤ d) :
    Performs overwrite (block.insertInto ((List.replicate dest.rank 0).set axis start) dest)
      ((coordinatesIn block.shape.dims).map fun c =>
        (flat dest.dims (shift axis start c), block.elem c)) := by
  have hroom := Shape.hasRoom_origin hdims hd hle
  have hmoved : ((coordinatesIn block.shape.dims).map fun c =>
      (flat dest.dims (shift axis start c), block.elem c)) = _ :=
    List.map_congr_left fun c hc => by rw [← zipWith_replicate_set hc hroom.rank]
  rw [hmoved]
  exact performs_insertAt hroom

/-- Extracting a block reads the elements at the coordinates moved along the
axis. -/
theorem View.performs_extractInto {src : View ε} {s : Shape}
    (hdims : s.dims = src.shape.dims.set axis (s.dims.getD axis 0))
    (hd : src.shape.dims[axis]? = some d) (hle : start + s.dims.getD axis 0 ≤ d) :
    Performs overwrite (src.extractInto ((List.replicate src.shape.rank 0).set axis start) s)
      (coordinatewise s.dims fun c => src.elem (shift axis start c)) := by
  have hroom := Shape.hasRoom_origin hdims hd hle
  rw [coordinatewise_congr fun c hc => by rw [← zipWith_replicate_set hc hroom.rank]]
  exact performs_extractAt hroom

end Axis

/-! ### Boxes -/

namespace Shape

/-- The coordinate lies in the box that a block at `offset` covers. -/
def InBox (offset : List Nat) (inner : Shape) (c : List Nat) : Prop :=
  ∀ k < c.length, offset.getD k 0 ≤ c.getD k 0 ∧
    c.getD k 0 < offset.getD k 0 + inner.dims.getD k 0

instance (offset : List Nat) (inner : Shape) (c : List Nat) : Decidable (InBox offset inner c) :=
  inferInstanceAs (Decidable (∀ k < c.length, _))

variable {outer inner : Shape} {offset c : List Nat}

/-- The whole coordinates of a shape, entry by entry. -/
theorem mem_coordinates_iff {s : Shape} :
    c ∈ s.coordinates ↔ c.length = s.rank ∧ ∀ k < c.length, c.getD k 0 < s.dims.getD k 0 := by
  rw [coordinates, mem_coordinatesIn, rank]
  refine and_congr_right fun hlen => ?_
  generalize s.dims = dims at hlen ⊢
  induction dims generalizing c with
  | nil =>
      obtain rfl := List.length_eq_zero_iff.mp hlen
      simp
  | cons d dims ih =>
      cases c with
      | nil => simp at hlen
      | cons x c =>
          rw [inside_cons, ih (by simpa using hlen)]
          constructor
          · rintro ⟨hx, hc⟩ k hk
            cases k with
            | zero => exact hx
            | succ k => exact hc k (by simpa using hk)
          · intro h
            exact ⟨h 0 (by simp), fun k hk => h (k + 1) (by simpa using hk)⟩

theorem getD_zipWith {f : Nat → Nat → Nat} (hf : f 0 0 = 0) {a b : List Nat}
    (h : a.length = b.length) (k : Nat) :
    (List.zipWith f a b).getD k 0 = f (a.getD k 0) (b.getD k 0) := by
  by_cases hk : k < a.length
  · have hkb : k < b.length := h ▸ hk
    have hkz : k < (List.zipWith f a b).length := by rw [List.length_zipWith]; omega
    rw [List.getD_eq_getElem _ _ hk, List.getD_eq_getElem _ _ hkb, List.getD_eq_getElem _ _ hkz,
      List.getElem_zipWith]
  · have hkb : b.length ≤ k := by omega
    have hkz : (List.zipWith f a b).length ≤ k := by rw [List.length_zipWith]; omega
    rw [List.getD_eq_default _ _ hkz, List.getD_eq_default _ _ hkb,
      List.getD_eq_default _ _ (by omega), hf]

/-- A moved coordinate lies in the box. -/
theorem inBox_moved (hroom : outer.HasRoom inner offset) (hc : c ∈ inner.coordinates) :
    InBox offset inner (List.zipWith (· + ·) offset c) := by
  obtain ⟨hlen, hlt⟩ := mem_coordinates_iff.mp hc
  have hsame : offset.length = c.length := (hroom.length.trans hroom.rank.symm).trans hlen.symm
  intro k hk
  rw [List.length_zipWith] at hk
  rw [getD_zipWith rfl hsame]
  have hentry := hlt k (by omega)
  omega

/-- A coordinate of the outer shape in the box is the moved one of a coordinate
of the block. -/
theorem back_mem (hroom : outer.HasRoom inner offset) (hc : c ∈ outer.coordinates)
    (hbox : InBox offset inner c) : List.zipWith (· - ·) c offset ∈ inner.coordinates := by
  have hlen := (mem_coordinates_iff.mp hc).1
  have hsame : c.length = offset.length := hlen.trans hroom.length.symm
  refine mem_coordinates_iff.mpr ⟨?_, fun k hk => ?_⟩
  · rw [List.length_zipWith, ← hsame, Nat.min_self, hlen, hroom.rank]
  · rw [List.length_zipWith] at hk
    rw [getD_zipWith rfl hsame]
    have hentry := hbox k (by omega)
    omega

/-- Taking the offset away and moving again. -/
theorem moved_back (hlen : c.length = offset.length) (hbox : InBox offset inner c) :
    List.zipWith (· + ·) offset (List.zipWith (· - ·) c offset) = c := by
  apply List.ext_getElem
  · simp [hlen]
  · intro k hk hk'
    have hentry := hbox k hk'
    rw [List.getD_eq_getElem _ _ hk', List.getD_eq_getElem _ _ (hlen ▸ hk')] at hentry
    rw [List.getElem_zipWith, List.getElem_zipWith]
    omega

/-- Moving and taking the offset away again. -/
theorem back_moved (hlen : c.length = offset.length) :
    List.zipWith (· - ·) (List.zipWith (· + ·) offset c) offset = c := by
  apply List.ext_getElem
  · simp [hlen]
  · intro k hk hk'
    rw [List.getElem_zipWith, List.getElem_zipWith]
    omega

end Shape

/-! ### Insertion and extraction, coordinate by coordinate -/

namespace View

open Shape (InBox)

variable {outer : Shape} {offset : List Nat}

/-- The elements of `old` with those of the block in its box. -/
def overlay (block : View ε) (offset : List Nat) (old : View ε) (c : List Nat) : ε :=
  if InBox offset block.shape c then block.elem (List.zipWith (· - ·) c offset) else old.elem c

/-- With room for the block, an insertion lays it over the old elements. -/
theorem insertInto_ok {block : View ε} (hroom : outer.HasRoom block.shape offset)
    (old : Vector ε outer.elemCount) :
    ∃ new, block.insertInto offset outer old = .ok () new ∧
      ∀ c ∈ outer.coordinates,
        (View.mk outer new).elem c = block.overlay offset ⟨outer, old⟩ c := by
  have hrun := performs_insertAt hroom
  refine ⟨_, hrun.run old, fun c hc => ?_⟩
  obtain ⟨hlen, hin⟩ := Shape.mem_coordinatesIn.mp hc
  have hlt : flat outer.dims c < outer.elemCount := Shape.flat_lt hin hlen
  have hread (data : Vector ε outer.elemCount) :
      (View.mk outer data).elem c = data[flat outer.dims c] := by rw [elem, entry, dif_pos hlt]
  rw [hread, overlay]
  split
  case isTrue hbox =>
    obtain ⟨view, -, hnodup, hindices⟩ := Layout.exists_window hroom
    have hmoved := Shape.moved_back (hlen.trans hroom.length.symm) hbox
    have hwrite : (flat outer.dims c, block.elem (List.zipWith (· - ·) c offset)) ∈
        (coordinatesIn block.shape.dims).map fun b =>
          (flat outer.dims (List.zipWith (· + ·) offset b), block.elem b) :=
      List.mem_map.mpr ⟨_, Shape.back_mem hroom hc hbox, by rw [hmoved]⟩
    refine getElem_applyWrites_overwrite ?_ old hwrite hlt
    rw [List.map_map]
    rwa [hindices] at hnodup
  case isFalse hbox =>
    rw [hread]
    -- a position that is written is that of a coordinate in the box
    refine getElem_applyWrites_of_notMem _ old hlt fun hwritten => hbox ?_
    simp only [List.mem_map, exists_exists_and_eq_and] at hwritten
    obtain ⟨b, hb, hflat⟩ := hwritten
    have hsame := Shape.flat_injOn (Shape.moved_mem hroom hb) hc hflat
    rw [← hsame]
    exact Shape.inBox_moved hroom hb

omit [Zero ε] in
/-- Without room nothing is written, and the block is reported. -/
theorem insertInto_error {block : View ε} (hwords : block.shape.EndsInWords offset)
    (hroom : ¬ outer.HasRoom block.shape offset)
    (old : Vector ε outer.elemCount) :
    block.insertInto offset outer old
      = .error (.error (.blockOutOfBounds block.shape outer offset)) old := by
  rw [insertInto, Layout.window_of_not_hasRoom hwords hroom]
  rfl

/-- With room for the block, an extraction reads it at the moved coordinates. -/
theorem extractInto_ok (src : View ε) {s : Shape} (hroom : src.shape.HasRoom s offset)
    (old : Vector ε s.elemCount) :
    ∃ new, src.extractInto offset s old = .ok () new ∧
      ∀ c ∈ s.coordinates, (View.mk s new).elem c = src.elem (List.zipWith (· + ·) offset c) := by
  have hfills := (performs_extractAt hroom).fills_coordinatewise
  exact ⟨_, hfills old, fun c hc => elem_filled s _ hc⟩

omit [Zero ε] in
/-- Without room nothing is read, and the block is reported. -/
theorem extractInto_error {src : View ε} {s : Shape} (hwords : s.EndsInWords offset)
    (hroom : ¬ src.shape.HasRoom s offset) (old : Vector ε s.elemCount) :
    src.extractInto offset s old
      = .error (.error (.blockOutOfBounds s src.shape offset)) old := by
  rw [extractInto, Layout.window_of_not_hasRoom hwords hroom]
  rfl

/-- What was laid over at an offset is read back there. -/
theorem extractInto_of_overlay {block old : View ε} {new : Vector ε outer.elemCount}
    (hroom : outer.HasRoom block.shape offset)
    (hnew : ∀ c ∈ outer.coordinates, (View.mk outer new).elem c = block.overlay offset old c)
    (part : Vector ε block.shape.elemCount) :
    (View.mk outer new).extractInto offset block.shape part = .ok () block.data := by
  obtain ⟨out, hrun, hout⟩ := extractInto_ok ⟨outer, new⟩ hroom part
  rw [hrun]
  congr 1
  refine ext_elem fun c hc => ?_
  have hlen : c.length = offset.length :=
    (Shape.mem_coordinatesIn.mp hc).1.trans (hroom.rank.trans hroom.length.symm)
  have hmem := Shape.moved_mem hroom hc
  rw [hout c hc, hnew _ hmem, overlay, if_pos (Shape.inBox_moved hroom hc), Shape.back_moved hlen]

/-- Laying over what was read at the same offset changes nothing. -/
theorem insertInto_of_extracted (block : View ε) {outer : View ε}
    (hroom : outer.shape.HasRoom block.shape offset)
    (hblock : ∀ c ∈ block.shape.coordinates,
      block.elem c = outer.elem (List.zipWith (· + ·) offset c)) :
    block.insertInto offset outer.shape outer.data = .ok () outer.data := by
  obtain ⟨new, hrun, hnew⟩ := insertInto_ok hroom outer.data
  rw [hrun]
  congr 1
  refine ext_elem fun c hc => ?_
  rw [hnew c hc, overlay]
  split
  case isTrue hbox =>
    have hlen : c.length = offset.length :=
      (Shape.mem_coordinatesIn.mp hc).1.trans hroom.length.symm
    rw [hblock _ (Shape.back_mem hroom hc hbox), Shape.moved_back hlen hbox]
  case isFalse => rfl

/-- Blocks in disjoint boxes may be laid over in either order. -/
theorem insertInto_comm {a b : View ε} {p q : List Nat} (ha : outer.HasRoom a.shape p)
    (hb : outer.HasRoom b.shape q)
    (hdisjoint : ∀ c ∈ outer.coordinates, InBox p a.shape c → ¬ InBox q b.shape c)
    (data : Vector ε outer.elemCount) :
    ∃ x y both, a.insertInto p outer data = .ok () x ∧ b.insertInto q outer x = .ok () both ∧
      b.insertInto q outer data = .ok () y ∧ a.insertInto p outer y = .ok () both := by
  obtain ⟨x, hrunx, hx⟩ := insertInto_ok ha data
  obtain ⟨y, hruny, hy⟩ := insertInto_ok hb data
  obtain ⟨xy, hrunxy, hxy⟩ := insertInto_ok hb x
  obtain ⟨yx, hrunyx, hyx⟩ := insertInto_ok ha y
  have hsame : xy = yx := by
    refine ext_elem fun c hc => ?_
    rw [hxy c hc, hyx c hc, overlay, overlay, hx c hc, hy c hc, overlay, overlay]
    by_cases hbox : InBox p a.shape c
    · rw [if_pos hbox, if_pos hbox, if_neg (hdisjoint c hc hbox)]
    · rw [if_neg hbox, if_neg hbox]
  exact ⟨x, y, xy, hrunx, hrunxy, hruny, hsame ▸ hrunyx⟩

/-- Blocks go in and come out exactly where there is room for them.  An inserted
block is found again at its offset, fills its box and leaves every element
outside the box; without room, and if its ends are words, it is reported and nothing is
written.  An extracted block has the elements of its box, and putting it back changes
nothing.  Insertions into disjoint boxes commute. -/
theorem inserts_and_extracts (outer : View ε) :
    (∀ (block : View ε) (offset : List Nat),
      (outer.shape.HasRoom block.shape offset →
        ∃ new, block.insertInto offset outer.shape outer.data = .ok () new ∧
          (∀ part, (View.mk outer.shape new).extractInto offset block.shape part
            = .ok () block.data) ∧
          ∀ c ∈ outer.shape.coordinates, ∃ x, (View.mk outer.shape new).get c = .ok x ∧
            (InBox offset block.shape c → block.get (List.zipWith (· - ·) c offset) = .ok x) ∧
            (¬ InBox offset block.shape c → outer.get c = .ok x)) ∧
      (block.shape.EndsInWords offset → ¬ outer.shape.HasRoom block.shape offset →
        block.insertInto offset outer.shape outer.data
          = .error (.error (.blockOutOfBounds block.shape outer.shape offset)) outer.data)) ∧
    (∀ (s : Shape) (offset : List Nat) (old : Vector ε s.elemCount),
      (outer.shape.HasRoom s offset →
        ∃ part, outer.extractInto offset s old = .ok () part ∧
          (View.mk s part).insertInto offset outer.shape outer.data = .ok () outer.data ∧
          ∀ c ∈ s.coordinates, ∃ x, (View.mk s part).get c = .ok x ∧
            outer.get (List.zipWith (· + ·) offset c) = .ok x) ∧
      (s.EndsInWords offset → ¬ outer.shape.HasRoom s offset →
        outer.extractInto offset s old
          = .error (.error (.blockOutOfBounds s outer.shape offset)) old)) ∧
    ∀ (a b : View ε) (p q : List Nat), outer.shape.HasRoom a.shape p →
      outer.shape.HasRoom b.shape q →
      (∀ c ∈ outer.shape.coordinates, InBox p a.shape c → ¬ InBox q b.shape c) →
      ∃ x y both, a.insertInto p outer.shape outer.data = .ok () x ∧
        b.insertInto q outer.shape x = .ok () both ∧
        b.insertInto q outer.shape outer.data = .ok () y ∧
        a.insertInto p outer.shape y = .ok () both := by
  refine ⟨fun block offset => ⟨fun hroom => ?_, fun hwords hroom => ?_⟩,
    fun s offset old => ⟨fun hroom => ?_, fun hwords hroom => extractInto_error hwords hroom old⟩,
    fun a b p q ha hb hdisjoint => insertInto_comm ha hb hdisjoint outer.data⟩
  · obtain ⟨new, hrun, hnew⟩ := insertInto_ok hroom outer.data
    refine ⟨new, hrun, extractInto_of_overlay hroom hnew, fun c hc => ?_⟩
    refine ⟨_, get_of_mem ⟨outer.shape, new⟩ hc, fun hbox => ?_, fun hbox => ?_⟩
    · rw [hnew c hc, overlay, if_pos hbox, get_of_mem block (Shape.back_mem hroom hc hbox)]
    · rw [hnew c hc, overlay, if_neg hbox, get_of_mem outer hc]
  · exact insertInto_error hwords hroom outer.data
  · obtain ⟨part, hrun, hpart⟩ := extractInto_ok outer hroom old
    refine ⟨part, hrun, insertInto_of_extracted ⟨s, part⟩ hroom hpart, fun c hc => ?_⟩
    refine ⟨_, get_of_mem ⟨s, part⟩ hc, ?_⟩
    rw [hpart c hc, get_of_mem outer (Shape.moved_mem hroom hc)]

/-- A row and a column of a table, beside one another, and a row that ends outside. -/
theorem inserts_and_extracts_rowAndColumn :
    let outer : View Nat := ⟨⟨[2, 3]⟩, #v[1, 2, 3, 4, 5, 6]⟩
    let row : View Nat := ⟨⟨[1, 2]⟩, #v[7, 8]⟩
    let column : View Nat := ⟨⟨[2, 1]⟩, #v[9, 10]⟩
    row.insertInto [1, 1] outer.shape outer.data = .ok () #v[1, 2, 3, 4, 7, 8] ∧
      (View.mk ⟨[2, 3]⟩ #v[1, 2, 3, 4, 7, 8]).extractInto [1, 1] ⟨[1, 2]⟩ #v[0, 0]
        = .ok () row.data ∧
      row.insertInto [1, 2] outer.shape outer.data
        = .error (.error (.blockOutOfBounds row.shape outer.shape [1, 2])) outer.data ∧
      ∃ x y, row.insertInto [1, 1] outer.shape outer.data = .ok () x ∧
        column.insertInto [0, 0] outer.shape x = .ok () #v[9, 2, 3, 10, 7, 8] ∧
        column.insertInto [0, 0] outer.shape outer.data = .ok () y ∧
        row.insertInto [1, 1] outer.shape y = .ok () #v[9, 2, 3, 10, 7, 8] := by
  intro outer row column
  have hrow : outer.shape.HasRoom row.shape [1, 1] := ⟨rfl, rfl, by decide⟩
  have hcolumn : outer.shape.HasRoom column.shape [0, 0] := ⟨rfl, rfl, by decide⟩
  have hunfit : ¬ outer.shape.HasRoom row.shape [1, 2] := fun h => absurd (h.le 1) (by decide)
  have hdisjoint : ∀ c ∈ outer.shape.coordinates,
      InBox [1, 1] row.shape c → ¬ InBox [0, 0] column.shape c := by decide
  obtain ⟨hinserts, -, hcommute⟩ := inserts_and_extracts outer
  have hfirst : row.insertInto [1, 1] outer.shape outer.data = .ok () #v[1, 2, 3, 4, 7, 8] := rfl
  have hsecond : column.insertInto [0, 0] outer.shape #v[1, 2, 3, 4, 7, 8]
      = .ok () #v[9, 2, 3, 10, 7, 8] := rfl
  obtain ⟨new, hnew, hback, -⟩ := (hinserts row [1, 1]).1 hrow
  obtain rfl : #v[1, 2, 3, 4, 7, 8] = new := by
    rw [hfirst] at hnew
    injection hnew
  obtain ⟨x, y, both, hx, hxy, hy, hyx⟩ :=
    hcommute row column [1, 1] [0, 0] hrow hcolumn hdisjoint
  obtain rfl : #v[1, 2, 3, 4, 7, 8] = x := by
    rw [hfirst] at hx
    injection hx
  obtain rfl : #v[9, 2, 3, 10, 7, 8] = both := by
    rw [hsecond] at hxy
    injection hxy
  exact ⟨hfirst, hback _, (hinserts row [1, 2]).2 (by decide) hunfit, _, y, hfirst, hsecond, hy, hyx⟩

/-- A block that begins at the last word does not fit, and instead of a report there is a
fault, or, if the block is empty, success. -/
theorem insertInto_lastWord :
    ¬ Shape.HasRoom ⟨[2]⟩ ⟨[1]⟩ [2 ^ 64 - 1] ∧
    (View.mk ⟨[1]⟩ #v[7]).insertInto [2 ^ 64 - 1] ⟨[2]⟩ #v[0, 0] = .error .fault #v[0, 0] ∧
    (View.mk ⟨[2]⟩ #v[1, 2]).extractInto [2 ^ 64 - 1] ⟨[1]⟩ #v[0] = .error .fault #v[0] ∧
    ¬ Shape.HasRoom ⟨[2, 1]⟩ ⟨[0, 1]⟩ [0, 2 ^ 64 - 1] ∧
    (View.mk ⟨[0, 1]⟩ #v[]).insertInto [0, 2 ^ 64 - 1] ⟨[2, 1]⟩ #v[0, 0] = .ok () #v[0, 0] :=
  ⟨fun h => absurd (h.le 0) (by decide), rfl, rfl, fun h => absurd (h.le 1) (by decide), rfl⟩

end View

end TensorProgram
