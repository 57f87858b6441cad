/-
TensorProgram/Proofs/Kernel/EmptyWindow.lean

When a max pool meets a window that holds no element.  Padding smaller than the
side of the window leaves none empty: truncating division lets a window start at
most at the last position from which it still reaches into the padded extent, so
along either axis it covers at least one position of the input
(`Window.exists_offset`).  Padding of at least the side empties the very first
window, and so does an input without positions (`Window.taps_first_eq_nil`).  The
first window is also the first that a max pool visits, so the pool reports at
`(-pad, -pad)` before it has written anything, or not at all.

So it is where padded extents are words.  Padding that wraps moves the first window into
the image, and the pool succeeds (`Pool.forward_max_wrappedPadding`).
-/
import TensorProgram.Scalar.Binary32
import TensorProgram.Proofs.Context.Atomic
import TensorProgram.Proofs.Kernel.Pooling
import TensorProgram.Proofs.Window.Geometry

namespace TensorProgram

namespace Window

variable (win : Window) {extent size p : Nat} {images : NHWC} {o : OutputSite}

/-! ### Windows along one axis -/

/-- A window whose side exceeds the padding covers a position of the extent. -/
theorem exists_offset (hsize : win.outputSize extent = .ok size) (hp : p < size)
    (hwords : extent + 2 * win.pad < 2 ^ 63) (hextent : 0 < extent) (hpad : win.pad < win.kernel) :
    ∃ f q : Nat, f < win.kernel ∧ q < extent ∧ (q : Int) = p * win.stride - win.pad + f := by
  have hends := (lt_outputSize_iff hsize p).mp hp
  rw [win.padded_eq (by omega)] at hends
  have hcast : ((p * win.stride : Nat) : Int) = p * win.stride := Nat.cast_mul ..
  by_cases hbefore : p * win.stride < win.pad
  · -- it starts in the padding and reaches the first position
    exact ⟨win.pad - p * win.stride, 0, by omega, hextent, by omega⟩
  · -- it starts on a position of the extent
    exact ⟨0, p * win.stride - win.pad, by omega, by omega, by omega⟩

/-! ### Windows over images -/

/-- Images are there to be visited, and their first window holds no element. -/
def MeetsEmpty (images : NHWC) : Prop :=
  1 ≤ images.n ∧ 1 ≤ images.c ∧ (win.kernel ≤ win.pad ∨ images.h = 0 ∨ images.w = 0)

instance : Decidable (win.MeetsEmpty images) :=
  inferInstanceAs (Decidable (_ ∧ _ ∧ (_ ∨ _ ∨ _)))

/-- The first window starts where the padding does. -/
theorem toInt_first (hpad : win.pad < 2 ^ 63) :
    (win.anchor 0 0).x.toInt = -win.pad ∧ (win.anchor 0 0).y.toInt = -win.pad := by
  have hfirst : (Int64.ofInt (((0 : Nat) : Int) * win.stride - win.pad)).toInt = -win.pad := by
    rw [Int64.toInt_ofInt_of_le (by omega) (by omega)]
    omega
  rw [win.anchor_eq]
  exact ⟨hfirst, hfirst⟩

section Sites

variable {height width : Nat} (hdims : win.outputDims images = .ok (height, width))

include hdims

/-- The first site is that of the first window. -/
theorem head?_sites_of_outputDims (hn : 1 ≤ images.n) (hc : 1 ≤ images.c) :
    (win.sites ⟨images.n, height, width, images.c⟩).head? = some ⟨0, 0, win.anchor 0 0⟩ := by
  obtain ⟨hheight, hwidth⟩ := win.outputDims_eq_ok hdims
  obtain ⟨-, -, -, rfl⟩ := win.of_outputSize_eq_ok hheight
  obtain ⟨-, -, -, rfl⟩ := win.of_outputSize_eq_ok hwidth
  obtain ⟨n, hn⟩ := Nat.exists_eq_add_of_le' hn
  obtain ⟨c, hc⟩ := Nat.exists_eq_add_of_le' hc
  rw [hn, hc, sites, anchors]
  simp only [List.range_succ_eq_map]
  rfl

variable (hheight : images.h + 2 * win.pad < 2 ^ 63) (hwidth : images.w + 2 * win.pad < 2 ^ 63)

include hheight hwidth

/-- The first window lies in the padding if that is as wide as the window. -/
theorem taps_first_eq_nil (h : win.kernel ≤ win.pad ∨ images.h = 0 ∨ images.w = 0) :
    win.taps (win.anchor 0 0) images = [] := by
  obtain ⟨hh, hw⟩ := win.outputDims_eq_ok hdims
  have hin := win.inWords_of_outputDims (n := images.n) (c := images.c) hdims hheight hwidth
  apply List.eq_nil_iff_forall_not_mem.mpr
  intro t ht
  obtain ⟨hfx, hfy, hox, hoy, hx, hy⟩ :=
    (hin.mem_taps (win.pos_of_outputSize hh) (win.pos_of_outputSize hw)).mp ht
  omega

/-- Unless the first window is empty, no window is. -/
theorem exists_tap_of_site (hmeets : ¬ win.MeetsEmpty images)
    (ho : o ∈ win.sites ⟨images.n, height, width, images.c⟩) :
    ∃ t, t ∈ win.taps o.anchor images := by
  obtain ⟨hn, hc, ha⟩ := win.mem_sites.mp ho
  obtain ⟨ax, ay, hax, hay, hanchor⟩ := win.mem_anchors.mp ha
  obtain ⟨hh, hw⟩ := win.outputDims_eq_ok hdims
  -- the site belongs to a channel of an image, so the windows and the images are to blame
  have hrest : win.pad < win.kernel ∧ 0 < images.h ∧ 0 < images.w := by
    rw [MeetsEmpty] at hmeets
    simp only at hn hc
    omega
  obtain ⟨hpad, hposh, hposw⟩ := hrest
  obtain ⟨fx, ox, hfx, hox, hx⟩ := win.exists_offset hh hax hheight hposh hpad
  obtain ⟨fy, oy, hfy, hoy, hy⟩ := win.exists_offset hw hay hwidth hposw hpad
  have hin := win.inWords_of_outputDims (n := images.n) (c := images.c) hdims hheight hwidth
  rw [← hanchor]
  exact ⟨⟨fx, fy, ox, oy⟩, (hin.mem_taps hax hay).mpr ⟨hfx, hfy, hox, hoy, hx, hy⟩⟩

end Sites

end Window

namespace Pool

open Context (floats_withoutWeight_both updateWeightPair_of_error setWeight_self)
open Run (liftM_check_ok)

variable {α : Type} [Scalar α] (i : Pool) {c : Context α} {src : View α} {d : ImageDims}

/-! ### Max pools -/

/-- A max pool whose first window is empty reports that and keeps the context. -/
theorem forwardMax_first {dest saved : Shape} {coords : ValueId} {old : Vector α dest.elemCount}
    {oldSaved : Vector Nat saved.elemCount} {o : OutputSite}
    (hsrc : c.weights[i.src]? = some src.tensor)
    (hdest : c.weights[i.dest]? = some ⟨dest, .float old⟩) (hcoords : i.coords = some coords)
    (hbound : c.weights[coords]? = some ⟨saved, .index oldSaved⟩)
    (hsaved : saved = pairs d.output) (h : Fits d src.shape dest) (hs : i.dest ≠ i.src)
    (hc : i.dest ≠ coords) (hcs : coords ≠ i.src)
    (hfirst : (i.window.sites d.output).head? = some o) (hempty : i.isEmptyWindow d o = true) :
    i.forwardMax c = .error (.error (emptyWindowError o)) c := by
  obtain ⟨rest, hsites⟩ := List.head?_eq_some_iff.mp hfirst
  have ho : o ∈ i.window.sites d.output := by
    rw [hsites]
    exact List.mem_cons_self
  rw [forwardMax, Run.get_bind_apply, i.dims_eq hsrc hdest h, liftM_check_ok, pure_bind,
    Run.get_bind_apply, i.savedIn_eq hcoords hbound hsaved, liftM_check_ok, pure_bind]
  -- both tensors are put back as they were taken out
  have hback : (c.setWeight i.dest ⟨dest, .float old⟩).setWeight coords ⟨saved, .index oldSaved⟩
      = c := by
    rw [setWeight_self hdest, setWeight_self hbound]
  nth_rewrite 2 [← hback]
  apply updateWeightPair_of_error hc hdest hbound
  rw [floats_withoutWeight_both hs hcs hsrc, liftM_check_ok, pure_bind]
  apply Tensor.onFloatsAndIndices_of_error
  rw [hsites, Run.forM_cons, i.best_eq h ho, i.kept_eq_none hempty]
  rfl

section Outcome

variable {images : NHWC} {height width : Nat} {coords : ValueId}
  {x : Vector α images.toShape.elemCount}
  {y : Vector α (NHWC.mk images.n height width images.c).toShape.elemCount}
  {z : Vector Nat (Shape.elemCount ⟨[images.n, height, width, images.c, 2]⟩)}

/-- **A max pool meets an empty window if and only if** there is an image with a
channel, and the padding is as wide as the window or the image has no position.
It then reports the position of the first window and keeps the context; it
succeeds on all other inputs.  The padded extents have to be words. -/
theorem forward_max_stops_iff (hkind : i.kind = .max)
    (hheight : images.h + 2 * i.window.pad < 2 ^ 63)
    (hwidth : images.w + 2 * i.window.pad < 2 ^ 63)
    (hdims : i.window.outputDims images = .ok (height, width)) (hcoords : i.coords = some coords)
    (hsrc : c.weights[i.src]? = some ⟨images.toShape, .float x⟩)
    (hdest : c.weights[i.dest]? = some
      ⟨(NHWC.mk images.n height width images.c).toShape, .float y⟩)
    (hsaved : c.weights[coords]? = some
      ⟨⟨[images.n, height, width, images.c, 2]⟩, .index z⟩)
    (hds : i.dest ≠ i.src) (hdc : i.dest ≠ coords) (hcs : coords ≠ i.src) :
    ((∃ x y c', i.forward c = .error (.error (.emptyPoolingWindow x y)) c') ↔
      i.window.MeetsEmpty images) ∧
    (i.window.MeetsEmpty images → i.forward c =
      .error (.error (.emptyPoolingWindow (-i.window.pad) (-i.window.pad))) c) ∧
    (¬ i.window.MeetsEmpty images → ∃ c', i.forward c = .ok () c') := by
  have hforward : i.forward = i.forwardMax (α := α) := by rw [forward, hkind]
  let d : ImageDims := ⟨images, ⟨images.n, height, width, images.c⟩⟩
  have hsrc : c.weights[i.src]? = some (View.mk images.toShape x).tensor := hsrc
  have hfits : Fits d images.toShape d.output.toShape := ⟨rfl, rfl, rfl, rfl⟩
  -- the window of the first site is empty, and the kernel stops before it writes
  have hstops : i.window.MeetsEmpty images → i.forward c =
      .error (.error (.emptyPoolingWindow (-i.window.pad) (-i.window.pad))) c := by
    intro hmeets
    have hempty : i.isEmptyWindow d ⟨0, 0, i.window.anchor 0 0⟩ = true := by
      rw [isEmptyWindow, List.isEmpty_iff]
      exact i.window.taps_first_eq_nil hdims hheight hwidth hmeets.2.2
    have hfirst := i.window.head?_sites_of_outputDims hdims hmeets.1 hmeets.2.1
    have hrun := i.forwardMax_first hsrc hdest hcoords hsaved rfl hfits hds hdc hcs
      hfirst hempty
    obtain ⟨hx, hy⟩ := i.window.toInt_first (by omega)
    rw [hforward, hrun, emptyWindowError, hx, hy]
  -- every window holds an element, so no site stops the kernel
  have hsucceeds : ¬ i.window.MeetsEmpty images → ∃ c', i.forward c = .ok () c' := by
    intro hmeets
    have hopen : (i.window.sites d.output).find? (i.isEmptyWindow d) = none := by
      apply List.find?_eq_none.mpr
      intro o ho hempty
      rw [isEmptyWindow, List.isEmpty_iff] at hempty
      obtain ⟨t, ht⟩ := i.window.exists_tap_of_site hdims hheight hwidth hmeets ho
      rw [hempty] at ht
      cases ht
    rw [hforward]
    exact ⟨_, i.forwardMax_eq hsrc hdest hcoords hsaved rfl hfits hds hdc hcs hopen⟩
  refine ⟨⟨?_, fun hmeets => ⟨_, _, _, hstops hmeets⟩⟩, hstops, hsucceeds⟩
  -- a run that reports has not succeeded
  rintro ⟨x, y, c', herror⟩
  by_contra hmeets
  obtain ⟨c'', hok⟩ := hsucceeds hmeets
  rw [hok] at herror
  cases herror

end Outcome

/-- A window of one element that starts in the padding of an image of one
element. -/
def beside : Pool := ⟨.max, 1, 0, some 2, ⟨1, 3, 1⟩⟩

/-- An image of one element, its pooled image and the saved coordinate. -/
def onePixel : Context Float32 :=
  ((({} : Context Float32).setWeight 0 ⟨⟨[1, 1, 1, 1]⟩, .float #v[7]⟩).setWeight 1
    ⟨⟨[1, 1, 1, 1]⟩, .float #v[5]⟩).setWeight 2 ⟨⟨[1, 1, 1, 1, 2]⟩, .index #v[4, 4]⟩

theorem forward_max_stops_iff_onePixel : beside.window.MeetsEmpty ⟨1, 1, 1, 1⟩ ∧
    beside.forward onePixel = .error (.error (.emptyPoolingWindow (-1) (-1))) onePixel := by
  have hmeets : beside.window.MeetsEmpty ⟨1, 1, 1, 1⟩ := by decide
  have hdims : beside.window.outputDims ⟨1, 1, 1, 1⟩ = .ok (1, 1) := rfl
  have hsrc : onePixel.weights[beside.src]?
      = some ⟨NHWC.toShape ⟨1, 1, 1, 1⟩, .float #v[7]⟩ := rfl
  have hdest : onePixel.weights[beside.dest]?
      = some ⟨NHWC.toShape ⟨1, 1, 1, 1⟩, .float #v[5]⟩ := rfl
  have hsaved : onePixel.weights[(2 : ValueId)]? = some ⟨⟨[1, 1, 1, 1, 2]⟩, .index #v[4, 4]⟩ := rfl
  obtain ⟨-, hstops, -⟩ := forward_max_stops_iff beside rfl (by decide) (by decide) hdims rfl hsrc
    hdest hsaved (by decide) (by decide) (by decide)
  exact ⟨hmeets, hstops hmeets⟩

/-- A window of one element over nine, in padding by the largest word. -/
def wrapped : Pool := ⟨.max, 1, 0, some 2, ⟨1, 1, 2 ^ 64 - 1⟩⟩

/-- An image of nine elements, its pooled image and the saved coordinate. -/
def ninePixels : Context Float32 :=
  ((({} : Context Float32).setWeight 0
    ⟨⟨[1, 3, 3, 1]⟩, .float #v[1, 2, 3, 4, 5, 6, 7, 8, 9]⟩).setWeight 1
    ⟨⟨[1, 1, 1, 1]⟩, .float #v[0]⟩).setWeight 2 ⟨⟨[1, 1, 1, 1, 2]⟩, .index #v[0, 0]⟩

/-- Padding that wraps: its window would be empty, but the pool finds an element in it
and succeeds. -/
theorem forward_max_wrappedPadding : wrapped.window.MeetsEmpty ⟨1, 3, 3, 1⟩ ∧
    wrapped.window.outputDims ⟨1, 3, 3, 1⟩ = .ok (1, 1) ∧
    ∃ c', wrapped.forward ninePixels = .ok () c' ∧
      c'.weights[(1 : ValueId)]? = some ⟨⟨[1, 1, 1, 1]⟩, .float #v[5]⟩ ∧
      c'.weights[(2 : ValueId)]? = some ⟨⟨[1, 1, 1, 1, 2]⟩, .index #v[1, 1]⟩ :=
  ⟨by decide, rfl, _, rfl, rfl, rfl⟩

end Pool

end TensorProgram
