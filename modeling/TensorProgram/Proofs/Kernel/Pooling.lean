/-
TensorProgram/Proofs/Kernel/Pooling.lean

What poolings compute.  An average pool fills its output.  A max pool fills its
output and its saved coordinates if every window holds an element
(`Pool.forwardMax_eq`), and stops at the first window that holds none
(`Pool.forwardMax_stops`); which of the two depends on the extents alone.  After
a max pool every saved coordinate lies inside the input
(`Pool.savedInside_coordinates`), and then its way back succeeds
(`Pool.backwardMax_eq`).
-/
import Mathlib.Data.List.Induction
import TensorProgram.Kernel.Pooling
import TensorProgram.Proofs.Kernel.Convolution

namespace TensorProgram

variable {α : Type} [Scalar α]

open Context (shapeOf_eq floats_withoutWeight floats_withoutWeight_both indices_eq gradFloats_eq
  updateWeight_fills updateWeightPair_of_ok updateWeightPair_of_error Deposits deposits_updateGrad)
open Run (Performs PerformsBoth performs_scatter performs_scatter_inside liftM_check_ok)
open Shape (flat)

namespace Pool

/-- The shapes of input and output fit these extents. -/
structure Fits (d : ImageDims) (src dest : Shape) : Prop where
  /-- The input. -/
  src : src = d.input.toShape
  /-- The output. -/
  dest : dest = d.output.toShape
  /-- There are as many images in as out. -/
  batch : d.input.n = d.output.n
  /-- There are as many channels in as out. -/
  channels : d.input.c = d.output.c

/-- The shape of the saved coordinates. -/
def pairs (output : NHWC) : Shape := ⟨[output.n, output.h, output.w, output.c, 2]⟩

/-- The coordinate of an element under a window. -/
def tapCoord (o : OutputSite) (t : Tap) : List Nat := [o.n, t.ox, t.oy, o.d]

variable (i : Pool) {c : Context α} {src out : View α} {dest : Shape} {d : ImageDims}

omit [Scalar α] in
theorem dims_eq {t u : Tensor α} (hsrc : c.weights[i.src]? = some t)
    (hdest : c.weights[i.dest]? = some u) (h : Fits d t.shape u.shape) : i.dims c = .ok d := by
  have hagree : ¬ (d.input.n ≠ d.output.n ∨ d.input.c ≠ d.output.c) := by
    rw [h.batch, h.channels]
    simp
  rw [dims, shapeOf_eq hsrc, shapeOf_eq hdest, h.src, h.dest]
  simp only [Except.ok_bind, NHWC.ofDims_toShape, if_neg hagree]
  rfl

section Elements

variable {s : Shape} (h : Fits d s dest) {o : OutputSite} {t : Tap} (ho : o ∈ i.window.sites d.output)
  (ht : t ∈ i.window.taps o.anchor d.input)

omit [Scalar α] in
include h ho in
/-- Positions of the image within the input have a place there. -/
theorem inside_input {x y : Nat} (hx : x < d.input.h) (hy : y < d.input.w) :
    Shape.Inside d.input.toShape.dims [o.n, x, y, o.d] := by
  obtain ⟨hn, hd, -⟩ := (i.window.mem_sites).mp ho
  exact ⟨h.batch ▸ hn, hx, hy, h.channels ▸ hd, Shape.inside_nil _⟩

omit [Scalar α] in
include h ho ht in
theorem inside_tap : Shape.Inside d.input.toShape.dims (tapCoord o t) := by
  obtain ⟨-, -, hx, hy⟩ := i.window.mem_taps ht
  exact i.inside_input h ho hx hy

include ho ht in
theorem get_tap (h : Fits d src.shape dest) : src.get (tapCoord o t) = .ok (src.elem (tapCoord o t)) := by
  refine src.get_eq ?_ ?_
  · rw [h.src]
    exact i.inside_tap h ho ht
  · rw [h.src]
    rfl

end Elements

/-! ### Average -/

/-- The average under the window of a site. -/
def mean (d : ImageDims) (src : View α) (o : OutputSite) : α :=
  Scalar.sum ((i.window.taps o.anchor d.input).map fun t => src.elem (tapCoord o t)) / i.area

theorem average_eq (h : Fits d src.shape dest) {o : OutputSite}
    (ho : o ∈ i.window.sites d.output) : i.average src d.input o = .ok (i.mean d src o) := by
  have hvalues : (i.window.taps o.anchor d.input).mapM (fun t => src.get [o.n, t.ox, t.oy, o.d])
      = .ok ((i.window.taps o.anchor d.input).map fun t => src.elem (tapCoord o t)) :=
    Outcome.mapM_eq_ok fun t ht => i.get_tap ho ht h
  rw [average, hvalues]
  rfl

/-- What an average pool writes, site by site. -/
def averages (d : ImageDims) (src : View α) : List (Nat × α) :=
  (i.window.sites d.output).map fun o => (o.position d.output, i.mean d src o)

/-- The output of an average pool. -/
theorem forwardAvg_eq {old : Vector α dest.elemCount} (hsrc : c.weights[i.src]? = some src.tensor)
    (hdest : c.weights[i.dest]? = some ⟨dest, .float old⟩) (hne : i.dest ≠ i.src)
    (h : Fits d src.shape dest) :
    i.forwardAvg c = .ok () (c.setWeight i.dest ⟨dest, .float (filled _ (i.averages d src))⟩) := by
  rw [forwardAvg, Run.get_bind_apply, i.dims_eq hsrc hdest h, liftM_check_ok, pure_bind]
  apply updateWeight_fills hdest
  · rw [floats_withoutWeight hne hsrc, liftM_check_ok, pure_bind]
  · exact (performs_sites h.dest fun o ho => i.average_eq h ho).fills fun k hk =>
      mem_fst_sites h.dest hk

/-- The contributions of an average pool: to every element under a window an
equal share. -/
def shares (d : ImageDims) (out : View α) : List (Nat × α) :=
  (i.window.sites d.output).flatMap fun o =>
    (i.window.taps o.anchor d.input).map fun t =>
      (flat d.input.toShape.dims (tapCoord o t), out.elem o.coord / i.area)

/-- Adding to every element under a window its share. -/
theorem performs_shares {s : Shape} (h : Fits d s dest) (hout : out.shape = dest) :
    Performs accumulate ((i.window.sites d.output).forM fun o => do
        let share := (← out.get o.coord) / i.area
        scatter accumulate (i.window.taps o.anchor d.input)
          (fun t => s.position [o.n, t.ox, t.oy, o.d]) fun _ => return share :
        Run (Vector α s.elemCount) Unit) (i.shares d out) := by
  refine Performs.forM fun o ho => ?_
  rw [get_site (hout.trans h.dest) ho, Run.liftM_ok, pure_bind]
  exact performs_scatter_inside h.src (fun _ _ => rfl) (fun _ ht => i.inside_tap h ho ht)
    fun _ _ => rfl

theorem backwardAvg_eq {t : Tensor α} (hsrc : c.weights[i.src]? = some src.tensor)
    (hdest : c.weights[i.dest]? = some t) (hne : i.src ≠ i.dest)
    (hgrad : c.HasGrad i.src src.shape) (h : Fits d src.shape t.shape)
    (hout : c.gradOrZeros i.dest = .ok out.tensor) (houts : out.shape = t.shape) :
    i.backwardAvg c = .ok () (c.deposits accumulate
      [(i.dest, []), (i.src, i.shares d out)]) := by
  rw [backwardAvg, Run.get_bind_apply, i.dims_eq hsrc hdest h, liftM_check_ok, pure_bind]
  apply Deposits.backward hout
  apply deposits_updateGrad hne hgrad
  · intro c' _ hgrads
    rw [gradFloats_eq hgrads, liftM_check_ok, pure_bind]
  · exact i.performs_shares h houts

/-! ### Maximum -/

/-- The candidate that a max pool keeps for a site, if its window holds an
element. -/
def kept (d : ImageDims) (src : View α) (o : OutputSite) : Option (Candidate α) :=
  (i.window.taps o.anchor d.input).foldl
    (fun best t => some (Candidate.better best ⟨src.elem (tapCoord o t), t.ox, t.oy⟩)) none

/-- The window of a site holds no element. -/
def isEmptyWindow (d : ImageDims) (o : OutputSite) : Bool :=
  (i.window.taps o.anchor d.input).isEmpty

/-- Why a max pool stops at a site. -/
def emptyWindowError (o : OutputSite) : Error :=
  .emptyPoolingWindow o.anchor.x.toInt o.anchor.y.toInt

/-- The best of a list of candidates is one of them, and none of those behind it
is as good. -/
theorem Candidate.foldl_better_split {ι : Type} (f : ι → Candidate α) {ts : List ι}
    {b : Candidate α} (h : ts.foldl (fun best t => some (better best (f t))) none = some b) :
    ∃ l t l', ts = l ++ t :: l' ∧ b = f t ∧ ∀ u ∈ l', Scalar.le b.value (f u).value = false := by
  induction ts using List.reverseRecOn generalizing b with
  | nil => cases h
  | append_singleton ts t ih =>
      rw [List.foldl_append, List.foldl_cons, List.foldl_nil] at h
      obtain rfl := Option.some.inj h
      rcases hbest : ts.foldl (fun best t => some (better best (f t))) none with - | best
      · exact ⟨ts, t, [], rfl, rfl, by simp⟩
      · rw [better]
        split
        · exact ⟨ts, t, [], rfl, rfl, by simp⟩
        · -- the candidate before stays, and `t` is not as good
          rename_i hle
          obtain ⟨l, u, l', rfl, hb, hbehind⟩ := ih hbest
          refine ⟨l, u, l' ++ [t], by simp, hb, fun v hv => ?_⟩
          rcases List.mem_append.mp hv with hv | hv
          · exact hbehind v hv
          · obtain rfl := List.mem_singleton.mp hv
            exact Bool.not_eq_true _ ▸ hle

/-- A kept candidate has the coordinate of a tap. -/
theorem exists_tap_of_kept {o : OutputSite} {b : Candidate α} (hb : i.kept d src o = some b) :
    ∃ t ∈ i.window.taps o.anchor d.input, b.x = t.ox ∧ b.y = t.oy := by
  obtain ⟨l, t, l', htaps, rfl, -⟩ := Candidate.foldl_better_split _ hb
  exact ⟨t, by simp [htaps], rfl, rfl⟩

/-- A walk over the taps that has a candidate keeps one. -/
theorem exists_foldl_better {o : OutputSite} (ts : List Tap) (b : Candidate α) :
    ∃ b', ts.foldl (fun best t =>
      some (Candidate.better best ⟨src.elem (tapCoord o t), t.ox, t.oy⟩)) (some b) = some b' := by
  induction ts generalizing b with
  | nil => exact ⟨b, rfl⟩
  | cons t ts ih => exact ih _

theorem exists_kept {o : OutputSite} (h : i.isEmptyWindow d o = false) :
    ∃ b, i.kept d src o = some b := by
  rw [isEmptyWindow] at h
  rw [kept]
  rcases htaps : i.window.taps o.anchor d.input with - | ⟨t, ts⟩
  · rw [htaps] at h
    cases h
  · exact exists_foldl_better ts _

theorem kept_eq_none {o : OutputSite} (h : i.isEmptyWindow d o = true) :
    i.kept d src o = none := by
  rw [isEmptyWindow, List.isEmpty_iff] at h
  rw [kept, h]
  rfl

/-- The walk over taps inside the input reads an element at each of them. -/
theorem foldlM_best_eq (h : Fits d src.shape dest) {o : OutputSite}
    (ho : o ∈ i.window.sites d.output) (ts : List Tap) (best : Option (Candidate α))
    (hts : ∀ t ∈ ts, t ∈ i.window.taps o.anchor d.input) :
    ts.foldlM (fun best t => do
        let value ← src.get [o.n, t.ox, t.oy, o.d]
        return some (Candidate.better best ⟨value, t.ox, t.oy⟩)) best
      = (.ok (ts.foldl (fun best t =>
          some (Candidate.better best ⟨src.elem (tapCoord o t), t.ox, t.oy⟩)) best) :
        Outcome (Option (Candidate α))) := by
  induction ts generalizing best with
  | nil => rfl
  | cons t ts ih =>
      have hget : src.get [o.n, t.ox, t.oy, o.d] = .ok (src.elem (tapCoord o t)) :=
        i.get_tap ho (hts t (by simp)) h
      rw [List.foldlM_cons, hget]
      exact ih _ fun u hu => hts u (by simp [hu])

theorem best_eq (h : Fits d src.shape dest) {o : OutputSite} (ho : o ∈ i.window.sites d.output) :
    i.best src d.input o = match i.kept d src o with
      | some b => .ok b
      | none => .error (.error (emptyWindowError o)) := by
  rw [best, i.foldlM_best_eq h ho _ none fun _ ht => ht, Except.ok_bind, ← kept]
  cases i.kept d src o <;> rfl

/-- The candidate that a max pool keeps for a site. -/
def keptAt (d : ImageDims) (src : View α) (o : OutputSite) : Candidate α :=
  (i.kept d src o).getD ⟨0, 0, 0⟩

/-- The maxima that a max pool writes, site by site. -/
def maxima (d : ImageDims) (src : View α) : List (Nat × α) :=
  (i.window.sites d.output).flatMap fun o => [(o.position d.output, (i.keptAt d src o).value)]

/-- The coordinates that a max pool saves, site by site. -/
def coordinates (d : ImageDims) (src : View α) : List (Nat × Nat) :=
  (i.window.sites d.output).flatMap fun o =>
    [(flat (pairs d.output).dims (o.coord ++ [0]), (i.keptAt d src o).x),
      (flat (pairs d.output).dims (o.coord ++ [1]), (i.keptAt d src o).y)]

section Pairs

variable {o : OutputSite} (ho : o ∈ i.window.sites d.output)

omit [Scalar α] in
include ho in
theorem inside_pair {z : Nat} (hz : z < 2) :
    Shape.Inside (pairs d.output).dims (o.coord ++ [z]) := by
  obtain ⟨hn, hx, hy, hd, -⟩ := i.window.inside_site ho
  exact ⟨hn, hx, hy, hd, hz, Shape.inside_nil _⟩

omit [Scalar α] in
include ho in
/-- Saving the coordinates of a candidate as the pair of a site. -/
theorem performs_pair (b : Candidate α) :
    Performs overwrite (scatter overwrite [(0, b.x), (1, b.y)]
      (fun p => (pairs d.output).position (o.coord ++ [p.1])) fun p => return p.2 :
        Run (Vector Nat (pairs d.output).elemCount) Unit)
      [(flat (pairs d.output).dims (o.coord ++ [0]), b.x),
        (flat (pairs d.output).dims (o.coord ++ [1]), b.y)] := by
  have hin : ∀ p ∈ [(0, b.x), (1, b.y)],
      Shape.Inside (pairs d.output).dims (o.coord ++ [p.1]) := by
    simp only [List.forall_mem_cons]
    exact ⟨i.inside_pair ho (by decide), i.inside_pair ho (by decide), by simp⟩
  exact performs_scatter_inside (v := Prod.snd) rfl (fun _ _ => rfl) hin fun _ _ => rfl

end Pairs

theorem mem_fst_maxima (hdest : dest = d.output.toShape) {k : Nat} (hk : k < dest.elemCount) :
    k ∈ (i.maxima d src).map Prod.fst := by
  rw [maxima, ← List.map_eq_flatMap]
  exact mem_fst_sites hdest hk

theorem mem_fst_coordinates {k : Nat} (hk : k < (pairs d.output).elemCount) :
    k ∈ (i.coordinates d src).map Prod.fst := by
  obtain ⟨coord, hlen, hin, rfl⟩ := Shape.exists_coordinate hk
  obtain ⟨n, x, y, e, z, rfl⟩ : ∃ n x y e z, coord = [n, x, y, e, z] := by
    match coord, hlen with
    | [n, x, y, e, z], _ => exact ⟨n, x, y, e, z, rfl⟩
  obtain ⟨hn, hx, hy, he, hz, -⟩ := hin
  have hin : Shape.Inside d.output.toShape.dims [n, x, y, e] :=
    ⟨hn, hx, hy, he, Shape.inside_nil _⟩
  obtain ⟨o, ho, hcoord⟩ := i.window.exists_site rfl hin
  have hpair : [n, x, y, e, z] = o.coord ++ [z] := by rw [hcoord]; rfl
  rw [coordinates, List.map_flatMap]
  refine List.mem_flatMap.mpr ⟨o, ho, ?_⟩
  rw [hpair]
  obtain rfl | rfl : z = 0 ∨ z = 1 := by omega
  · simp
  · simp

/-- The saved positions are those of the pairs, each once. -/
theorem nodup_fst_coordinates : ((i.coordinates d src).map Prod.fst).Nodup := by
  have hlen : ((i.coordinates d src).map Prod.fst).length = (pairs d.output).elemCount := by
    simp only [coordinates, List.length_map, List.length_flatMap, List.length_cons, List.length_nil,
      List.map_const', List.sum_replicate_nat, i.window.length_sites, NHWC.elemCount_toShape]
    simp only [pairs, Shape.elemCount_mk, Shape.volume_cons, Shape.volume_nil]
    ring
  have hcover : ∀ k < (pairs d.output).elemCount, k ∈ (i.coordinates d src).map Prod.fst :=
    fun _ hk => i.mem_fst_coordinates hk
  exact (perm_range_of_cover hcover hlen).nodup_iff.mpr List.nodup_range

/-- Writing the maximum under the window of a site. -/
theorem performs_visit {saved : Shape} (h : Fits d src.shape dest) (hsaved : saved = pairs d.output)
    {o : OutputSite} (ho : o ∈ i.window.sites d.output) (hopen : i.isEmptyWindow d o = false) :
    PerformsBoth (do
        let b ← i.best src d.input o
        Run.onSnd <| scatter overwrite [(0, b.x), (1, b.y)]
          (fun p => saved.position (o.coord ++ [p.1])) fun p => return p.2
        Run.onFst <| scatter overwrite [b.value] (fun _ => dest.position o.coord) pure :
          Run (Vector α dest.elemCount × Vector Nat saved.elemCount) Unit)
      [(o.position d.output, (i.keptAt d src o).value)]
      [(flat (pairs d.output).dims (o.coord ++ [0]), (i.keptAt d src o).x),
        (flat (pairs d.output).dims (o.coord ++ [1]), (i.keptAt d src o).y)] := by
  obtain ⟨b, hb⟩ : ∃ b, i.kept d src o = some b := i.exists_kept hopen
  have hat : i.keptAt d src o = b := by rw [keptAt, hb, Option.getD_some]
  rw [i.best_eq h ho, hb, hat, Run.liftM_ok, pure_bind, hsaved, h.dest]
  have hfst : Performs overwrite (scatter overwrite [b.value]
      (fun _ => d.output.toShape.position o.coord) pure :
        Run (Vector α d.output.toShape.elemCount) Unit) [(o.position d.output, b.value)] :=
    performs_scatter (p := fun _ => o.position d.output) (v := fun x => x) (fun _ _ => rfl)
      (fun _ _ => Shape.position_eq (i.window.inside_site ho))
      fun _ _ => i.window.flat_site_lt ho
  exact (i.performs_pair ho b).onSnd.bind hfst.onFst

section Forward

variable {coords : ValueId} {saved : Shape} {old : Vector α dest.elemCount}
  {oldSaved : Vector Nat saved.elemCount} (hsrc : c.weights[i.src]? = some src.tensor)
  (hdest : c.weights[i.dest]? = some ⟨dest, .float old⟩)
  (hcoords : i.coords = some coords) (hbound : c.weights[coords]? = some ⟨saved, .index oldSaved⟩)
  (hsaved : saved = pairs d.output) (h : Fits d src.shape dest)

omit [Scalar α] in
include hcoords in
theorem savedIn_eq {t : Tensor α} (ht : c.weights[coords]? = some t)
    (hshape : t.shape = pairs d.output) : i.savedIn c d.output = .ok coords := by
  simp only [savedIn, hcoords, shapeOf_eq ht, hshape, Except.ok_bind]
  rw [pairs, requireSameShape_self]
  rfl

variable (hs : i.dest ≠ i.src) (hc : i.dest ≠ coords) (hcs : coords ≠ i.src)

include hsrc hdest hcoords hbound hsaved h hs hc hcs

/-- The output and the saved coordinates of a max pool whose windows all hold an
element. -/
theorem forwardMax_eq (hopen : (i.window.sites d.output).find? (i.isEmptyWindow d) = none) :
    i.forwardMax c = .ok () ((c.setWeight i.dest ⟨dest, .float (filled _ (i.maxima d src))⟩).setWeight
      coords ⟨saved, .index (filled _ (i.coordinates d src))⟩) := by
  rw [forwardMax, Run.get_bind_apply, i.dims_eq hsrc hdest h, liftM_check_ok, pure_bind,
    Run.get_bind_apply, i.savedIn_eq hcoords hbound hsaved, liftM_check_ok, pure_bind]
  apply updateWeightPair_of_ok hc hdest hbound
  rw [floats_withoutWeight_both hs hcs hsrc, liftM_check_ok, pure_bind]
  apply Tensor.onFloatsAndIndices_of_ok
  have hall : ∀ o ∈ i.window.sites d.output, i.isEmptyWindow d o = false := by
    simpa using hopen
  have hperforms := PerformsBoth.forM fun o ho => i.performs_visit h hsaved ho (hall o ho)
  refine hperforms.fills (fun k hk => i.mem_fst_maxima h.dest hk) (fun k hk => ?_) _
  rw [hsaved] at hk
  exact i.mem_fst_coordinates hk

/-- A max pool stops at the first window that holds no element. -/
theorem forwardMax_stops {o : OutputSite}
    (hfirst : (i.window.sites d.output).find? (i.isEmptyWindow d) = some o) :
    ∃ c', i.forwardMax c = .error (.error (emptyWindowError o)) c' := by
  rw [forwardMax, Run.get_bind_apply, i.dims_eq hsrc hdest h, liftM_check_ok, pure_bind,
    Run.get_bind_apply, i.savedIn_eq hcoords hbound hsaved, liftM_check_ok, pure_bind]
  let visit (o : OutputSite) : Run (Vector α dest.elemCount × Vector Nat saved.elemCount) Unit := do
    let b ← i.best src d.input o
    Run.onSnd <| scatter overwrite [(0, b.x), (1, b.y)]
      (fun p => saved.position (o.coord ++ [p.1])) fun p => return p.2
    Run.onFst <| scatter overwrite [b.value] (fun _ => dest.position o.coord) pure
  -- windows with an element are written until the first one without
  have hgood : ∀ o ∈ i.window.sites d.output, i.isEmptyWindow d o = false → ∀ p,
      ∃ p', visit o p = .ok () p' :=
    fun o ho hopen p => ⟨_, (i.performs_visit h hsaved ho hopen).run p.1 p.2⟩
  have hbad : ∀ o ∈ i.window.sites d.output, i.isEmptyWindow d o = true → ∀ p,
      ∃ p', visit o p = .error (.error (emptyWindowError o)) p' := by
    intro o ho hempty p
    refine ⟨p, ?_⟩
    show (do
      let b ← i.best src d.input o
      Run.onSnd <| scatter overwrite [(0, b.x), (1, b.y)]
        (fun p => saved.position (o.coord ++ [p.1])) fun p => return p.2
      Run.onFst <| scatter overwrite [b.value] (fun _ => dest.position o.coord) pure :
        Run (Vector α dest.elemCount × Vector Nat saved.elemCount) Unit) p = _
    rw [i.best_eq h ho, i.kept_eq_none hempty]
    rfl
  obtain ⟨⟨x, y⟩, hxy⟩ := Run.forM_stops hgood hbad hfirst (old, oldSaved)
  refine ⟨(c.setWeight i.dest ⟨dest, .float x⟩).setWeight coords ⟨saved, .index y⟩,
    updateWeightPair_of_error hc hdest hbound ?_⟩
  rw [floats_withoutWeight_both hs hcs hsrc, liftM_check_ok, pure_bind]
  exact Tensor.onFloatsAndIndices_of_error hxy

end Forward

/-! ### Saved coordinates -/

/-- Every saved coordinate lies inside the input. -/
def SavedInside (d : ImageDims) (saved : View Nat) : Prop :=
  ∀ o ∈ i.window.sites d.output,
    saved.elem (o.coord ++ [0]) < d.input.h ∧ saved.elem (o.coord ++ [1]) < d.input.w

/-- The pair that a max pool saves for a site. -/
theorem elem_coordinates (src : View α) {o : OutputSite} (ho : o ∈ i.window.sites d.output) :
    let saved := View.mk (pairs d.output) (filled _ (i.coordinates d src))
    saved.elem (o.coord ++ [0]) = (i.keptAt d src o).x ∧
      saved.elem (o.coord ++ [1]) = (i.keptAt d src o).y := by
  have hread (z v : Nat) (hz : z < 2)
      (hmem : (flat (pairs d.output).dims (o.coord ++ [z]), v) ∈ i.coordinates d src) :
      (View.mk (pairs d.output) (filled _ (i.coordinates d src))).elem (o.coord ++ [z]) = v :=
    View.entry_filled i.nodup_fst_coordinates hmem (Shape.flat_lt (i.inside_pair ho hz) rfl)
  exact ⟨hread 0 _ (by omega) (List.mem_flatMap.mpr ⟨o, ho, by simp⟩),
    hread 1 _ (by omega) (List.mem_flatMap.mpr ⟨o, ho, by simp⟩)⟩

/-- The maximum that a max pool writes for a site. -/
theorem elem_maxima (src : View α) {o : OutputSite} (ho : o ∈ i.window.sites d.output) :
    (View.mk d.output.toShape (filled _ (i.maxima d src))).elem o.coord
      = (i.keptAt d src o).value := by
  rw [maxima, ← List.map_eq_flatMap]
  exact elem_sites (fun o => (i.keptAt d src o).value) rfl ho

section Open

variable (hopen : (i.window.sites d.output).find? (i.isEmptyWindow d) = none)

include hopen

/-- Where no window is empty a candidate is kept for every site. -/
theorem kept_eq_some (src : View α) {o : OutputSite} (ho : o ∈ i.window.sites d.output) :
    i.kept d src o = some (i.keptAt d src o) := by
  have hall : ∀ o ∈ i.window.sites d.output, i.isEmptyWindow d o = false := by
    simpa using hopen
  obtain ⟨b, hb⟩ : ∃ b, i.kept d src o = some b := i.exists_kept (hall o ho)
  rw [keptAt, hb, Option.getD_some]

/-- What a max pool saves lies inside the input. -/
theorem savedInside_coordinates :
    i.SavedInside d ⟨pairs d.output, filled _ (i.coordinates d src)⟩ := by
  intro o ho
  obtain ⟨t, ht, hx, hy⟩ := i.exists_tap_of_kept (i.kept_eq_some hopen src ho)
  obtain ⟨-, -, hox, hoy⟩ := i.window.mem_taps ht
  obtain ⟨hsx, hsy⟩ := i.elem_coordinates src ho
  rw [hsx, hsy, hx, hy]
  exact ⟨hox, hoy⟩

end Open

/-- The contributions of a max pool: the gradient of an output to the element
that was kept for it. -/
def routed (d : ImageDims) (saved : View Nat) (out : View α) : List (Nat × α) :=
  (i.window.sites d.output).map fun o =>
    (flat d.input.toShape.dims
      [o.n, saved.elem (o.coord ++ [0]), saved.elem (o.coord ++ [1]), o.d], out.elem o.coord)

section Saved

variable {s : Shape} {saved : View Nat} (hsaved : saved.shape = pairs d.output)
  (h : Fits d s dest)

omit [Scalar α] in
include hsaved in
theorem get_saved {o : OutputSite} (ho : o ∈ i.window.sites d.output) {z : Nat} (hz : z < 2) :
    saved.get (o.coord ++ [z]) = .ok (saved.elem (o.coord ++ [z])) := by
  refine saved.get_eq ?_ ?_
  · rw [hsaved]
    exact i.inside_pair ho hz
  · rw [hsaved]
    rfl

omit [Scalar α] in
include hsaved h in
/-- The position of a saved coordinate, or the report that it lies outside. -/
theorem savedPosition_eq {o : OutputSite} (ho : o ∈ i.window.sites d.output) :
    let x := saved.elem (o.coord ++ [0])
    let y := saved.elem (o.coord ++ [1])
    savedPosition saved d.input s o
      = if x < d.input.h ∧ y < d.input.w then
          .ok (flat d.input.toShape.dims [o.n, x, y, o.d])
        else .error (.error (.savedCoordinateOutside x y d.input.n d.input.h d.input.w d.input.c)) := by
  intro x y
  rw [savedPosition, i.get_saved hsaved ho (by omega), Except.ok_bind,
    i.get_saved hsaved ho (by omega), Except.ok_bind]
  by_cases hin : x < d.input.h ∧ y < d.input.w
  · have hnot : ¬ (d.input.h ≤ x ∨ d.input.w ≤ y) := by omega
    rw [if_pos hin, if_neg hnot, h.src]
    exact Shape.position_eq (i.inside_input h ho hin.1 hin.2)
  · have hout : d.input.h ≤ x ∨ d.input.w ≤ y := by omega
    rw [if_neg hin, if_pos hout]
    rfl

include hsaved h in
/-- Adding at the saved coordinates changes the element there, or reports a
coordinate outside. -/
theorem faultless_routed (hout : out.shape = dest) (data : Vector α s.elemCount) :
    (scatter accumulate (i.window.sites d.output) (savedPosition saved d.input s)
      (out.get ·.coord) : Run (Vector α s.elemCount) Unit).Faultless data := by
  refine Run.faultless_forM (fun o ho data => ?_) data
  dsimp only
  rw [get_site (hout.trans h.dest) ho, i.savedPosition_eq hsaved h ho, Run.liftM_ok, pure_bind]
  split
  · rename_i hin
    have hlt := Shape.flat_lt (i.inside_input h ho hin.1 hin.2) rfl
    rw [Run.liftM_ok, pure_bind]
    refine Run.faultless_of_ok (modifyAt_of_lt ?_ _ data)
    rw [h.src]
    exact hlt
  · exact Run.faultless_of_error rfl

end Saved

section Backward

variable {t : Tensor α} {coords : ValueId} {saved : View Nat}
  (hsrc : c.weights[i.src]? = some src.tensor) (hdest : c.weights[i.dest]? = some t)
  (hcoords : i.coords = some coords) (hbound : c.weights[coords]? = some saved.indexTensor)
  (hsaved : saved.shape = pairs d.output) (h : Fits d src.shape t.shape)

include hsrc hdest hcoords hbound hsaved h

/-- The contributions of a max pool whose saved coordinates lie inside. -/
theorem backwardMax_eq (hne : i.src ≠ i.dest) (hgrad : c.HasGrad i.src src.shape)
    (hinside : i.SavedInside d saved) (hout : c.gradOrZeros i.dest = .ok out.tensor)
    (houts : out.shape = t.shape) :
    i.backwardMax c = .ok () (c.deposits accumulate
      [(i.dest, []), (i.src, i.routed d saved out)]) := by
  rw [backwardMax, Run.get_bind_apply, i.dims_eq hsrc hdest h, liftM_check_ok, pure_bind,
    Run.get_bind_apply, i.savedIn_eq hcoords hbound hsaved, liftM_check_ok, pure_bind]
  apply Deposits.backward hout
  apply deposits_updateGrad hne hgrad
  · intro c' hweights hgrads
    rw [gradFloats_eq hgrads, indices_eq (v := saved) (by rw [hweights, hbound])]
    simp only [liftM_check_ok, pure_bind]
    rfl
  · refine performs_scatter (fun o ho => ?_) (fun o ho => ?_) fun o ho => ?_
    · exact get_site (houts.trans h.dest) ho
    · rw [i.savedPosition_eq hsaved h ho, if_pos (hinside o ho)]
    · rw [h.src]
      exact Shape.flat_lt (i.inside_input h ho (hinside o ho).1 (hinside o ho).2) rfl

/-- The way back of a max pool never faults, whatever its saved coordinates. -/
theorem faultless_backwardMax (hne : i.src ≠ i.dest) (hgrad : c.HasGrad i.src src.shape)
    (hout : c.gradOrZeros i.dest = .ok out.tensor) (houts : out.shape = t.shape) :
    i.backwardMax.Faultless c := by
  have hgrads : (c.setGrad i.dest out.tensor).grads[i.dest]? = some out.tensor :=
    Context.grads_setGrad_self
  have hset : (c.setGrad i.dest out.tensor).HasGrad i.src src.shape := by
    have hdeposit : c.deposit accumulate (i.dest, []) = c.setGrad i.dest out.tensor :=
      Context.deposit_eq [] hout
    rw [← hdeposit]
    exact hgrad.deposit _
  -- checks and the gradient of the output go through, so only the routing could fault
  intro c' hfault
  rw [backwardMax, Run.get_bind_apply, i.dims_eq hsrc hdest h, liftM_check_ok, pure_bind,
    Run.get_bind_apply, i.savedIn_eq hcoords hbound hsaved, liftM_check_ok, pure_bind] at hfault
  have hensure : Context.change (fun c : Context α => c.ensureGrad i.dest) c
      = .ok () (c.setGrad i.dest out.tensor) := by
    apply Context.change_of_ok
    rw [Context.ensureGrad, hout]
    rfl
  rw [Run.bind_of_ok hensure] at hfault
  refine Context.faultless_updateGrad (fun g hg => ?_) c' hfault
  obtain ⟨data, hdata⟩ := hset
  obtain rfl := Except.ok.inj (hdata.symm.trans hg)
  have hgrads' : ((c.setGrad i.dest out.tensor).withoutGrad i.src).grads[i.dest]?
      = some out.tensor := by rw [Context.grads_withoutGrad_of_ne hne, hgrads]
  have hbound' : ((c.setGrad i.dest out.tensor).withoutGrad i.src).weights[coords]?
      = some saved.indexTensor := hbound
  rw [gradFloats_eq hgrads', indices_eq hbound', liftM_check_ok, pure_bind, liftM_check_ok,
    pure_bind]
  exact Tensor.faultless_onFloats (i.faultless_routed hsaved h houts data)

end Backward

end Pool

end TensorProgram
