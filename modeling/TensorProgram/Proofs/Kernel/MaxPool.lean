/-
TensorProgram/Proofs/Kernel/MaxPool.lean

A max pool forward and backward.  Forward it saves, for every window, the last of
the largest elements: no element under the window is larger, and those that are
visited later are smaller (`Pool.kept_spec`).  Backward the gradient of an output
goes to the element that was saved for it, and to no other, so an element
receives the gradients of exactly those windows that saved it
(`Pool.elem_routed`) and nothing is lost or counted twice (`Pool.sum_routed`).

Where the window of an output lies is exact in words only.  Padding that wraps makes the
pool save an element from outside of it (`Pool.max_routes_back_wrappedPadding`).

Main statement: `Pool.max_routes_back`.
-/
import TensorProgram.Proofs.Scalar.Exact
import TensorProgram.Proofs.Kernel.Atomicity
import TensorProgram.Proofs.Kernel.EmptyWindow

namespace TensorProgram

variable {α : Type} [Scalar α]

open Shape (flat)

/-- Among these numbers `≤` is a total preorder, as it is where none of them is a
not-a-number. -/
structure Scalar.TotalOn (S : α → Prop) : Prop where
  total {x y : α} : S x → S y → Scalar.le x y = true ∨ Scalar.le y x = true
  trans {x y z : α} : S x → S y → S z → Scalar.le x y = true → Scalar.le y z = true →
    Scalar.le x z = true

theorem Scalar.TotalOn.refl {S : α → Prop} (h : Scalar.TotalOn S) {x : α} (hx : S x) :
    Scalar.le x x = true :=
  (h.total hx hx).elim id id

theorem View.elem_mem {v : View α} {coord : List Nat} (h : Shape.Inside v.shape.dims coord)
    (hlen : coord.length = v.shape.dims.length) : v.elem coord ∈ v.data := by
  have hlt : flat v.shape.dims coord < v.shape.elemCount := Shape.flat_lt h hlen
  rw [View.elem, View.entry, dif_pos hlt]
  exact Vector.getElem_mem hlt

namespace Pool

variable (i : Pool) {src g : View α} {dest : Shape} {d : ImageDims} {o : OutputSite}

/-! ### The element that is kept -/

/-- No candidate is better than the best, if their values are totally ordered. -/
theorem Candidate.le_foldl_better {ι : Type} (f : ι → Candidate α) {ts : List ι} {b : Candidate α}
    {S : α → Prop} (hle : Scalar.TotalOn S) (hS : ∀ t ∈ ts, S (f t).value)
    (h : ts.foldl (fun best t => some (better best (f t))) none = some b) :
    ∀ t ∈ ts, Scalar.le (f t).value b.value = true := by
  -- the last candidate is compared with the best of the others
  induction ts using List.reverseRecOn generalizing b with
  | nil => cases h
  | append_singleton ts u ih =>
      have hu : S (f u).value := hS u (by simp)
      have hbefore : ∀ t ∈ ts, S (f t).value := fun t ht => hS t (by simp [ht])
      rw [List.foldl_append, List.foldl_cons, List.foldl_nil] at h
      obtain rfl := Option.some.inj h
      rcases hbest : ts.foldl (fun best t => some (better best (f t))) none with - | best
      · -- there was no candidate before
        have hnone : ts = [] := by
          rcases List.eq_nil_or_concat ts with rfl | ⟨ts', t, rfl⟩
          · rfl
          · rw [List.concat_eq_append, List.foldl_append] at hbest
            cases hbest
        intro t ht
        obtain rfl : t = u := by simpa [hnone] using ht
        exact hle.refl hu
      · obtain ⟨l, w, l', hts, hw, -⟩ := Candidate.foldl_better_split f hbest
        have hSbest : S best.value := hw ▸ hbefore w (by simp [hts])
        intro t ht
        rw [better]
        split
        · rename_i hbetter
          rcases List.mem_append.mp ht with ht | ht
          · exact hle.trans (hbefore t ht) hSbest hu (ih hbefore hbest t ht) hbetter
          · obtain rfl := List.mem_singleton.mp ht
            exact hle.refl hu
        · rename_i hnot
          rcases List.mem_append.mp ht with ht | ht
          · exact ih hbefore hbest t ht
          · obtain rfl := List.mem_singleton.mp ht
            exact (hle.total hSbest hu).resolve_left hnot

/-- What is kept for a site: the element at a tap of its window that no other
exceeds, and the later ones do not reach. -/
theorem kept_spec (h : Fits d src.shape dest) (hsrc : Scalar.TotalOn (· ∈ src.data))
    (ho : o ∈ i.window.sites d.output) {b : Candidate α} (hb : i.kept d src o = some b) :
    ∃ t ∈ i.window.taps o.anchor d.input,
      b = ⟨src.elem (tapCoord o t), t.ox, t.oy⟩ ∧
      ∀ u ∈ i.window.taps o.anchor d.input,
        Scalar.le (src.elem (tapCoord o u)) b.value = true ∧
        (t.Before u → Scalar.le b.value (src.elem (tapCoord o u)) = false) := by
  have hmem : ∀ t ∈ i.window.taps o.anchor d.input, src.elem (tapCoord o t) ∈ src.data := by
    intro t ht
    have hin := i.inside_tap h ho ht
    rw [← h.src] at hin
    refine View.elem_mem hin ?_
    rw [h.src]
    rfl
  have hle := Candidate.le_foldl_better _ hsrc hmem hb
  obtain ⟨l, t, l', htaps, rfl, hbehind⟩ := Candidate.foldl_better_split _ hb
  refine ⟨t, by simp [htaps], rfl, fun u hu => ⟨hle u hu, fun hbefore => hbehind u ?_⟩⟩
  -- a tap that comes after `t` in the order of the walk stands behind it in the list
  have hpairwise : (i.window.taps o.anchor d.input).Pairwise Tap.Before :=
    i.window.pairwise_taps o.anchor
  rw [htaps, List.pairwise_append] at hpairwise
  obtain ⟨-, -, hcross⟩ := hpairwise
  rw [htaps, List.mem_append, List.mem_cons] at hu
  rcases hu with hu | rfl | hu
  · have hafter := hcross u hu t (by simp)
    rw [Tap.Before] at hbefore hafter
    omega
  · rw [Tap.Before] at hbefore
    omega
  · exact hu

/-! ### The way back -/

section Routed

variable {saved : View Nat} (h : Fits d src.shape dest) (hinside : i.SavedInside d saved)

include h hinside

/-- The positions that gradients are routed to lie inside the input. -/
theorem routed_lt : ∀ w ∈ i.routed d saved g, w.1 < src.shape.elemCount := by
  intro w hw
  obtain ⟨o, ho, rfl⟩ := List.mem_map.mp hw
  rw [h.src]
  exact Shape.flat_lt (i.inside_input h ho (hinside o ho).1 (hinside o ho).2) rfl

omit [Scalar α] in
/-- A site routes to the coordinate that it saved, and to no other. -/
theorem flat_saved_eq_iff (ho : o ∈ i.window.sites d.output) {n x y z : Nat}
    (hin : Shape.Inside d.input.toShape.dims [n, x, y, z]) :
    flat d.input.toShape.dims
        [o.n, saved.elem (o.coord ++ [0]), saved.elem (o.coord ++ [1]), o.d]
      = flat src.shape.dims [n, x, y, z] ↔
    o.n = n ∧ saved.elem (o.coord ++ [0]) = x ∧ saved.elem (o.coord ++ [1]) = y ∧ o.d = z := by
  have hsaved := i.inside_input h ho (hinside o ho).1 (hinside o ho).2
  rw [h.src]
  constructor
  · intro heq
    have hfrom : [o.n, saved.elem (o.coord ++ [0]), saved.elem (o.coord ++ [1]), o.d]
        ∈ Shape.coordinatesIn d.input.toShape.dims := Shape.mem_coordinatesIn.mpr ⟨rfl, hsaved⟩
    have hto : [n, x, y, z] ∈ Shape.coordinatesIn d.input.toShape.dims :=
      Shape.mem_coordinatesIn.mpr ⟨rfl, hin⟩
    simpa using Shape.flat_injOn hfrom hto heq
  · rintro ⟨rfl, rfl, rfl, rfl⟩
    rfl

omit [Scalar α] in
/-- The sites that route to an element: those of its image and channel that saved
its row and column, in the order of the walk. -/
theorem filter_sites_saved {n x y z : Nat} (hin : Shape.Inside d.input.toShape.dims [n, x, y, z]) :
    (i.window.sites d.output).filter (fun o =>
      flat d.input.toShape.dims
          [o.n, saved.elem (o.coord ++ [0]), saved.elem (o.coord ++ [1]), o.d]
        = flat src.shape.dims [n, x, y, z])
      = ((i.window.anchors d.output).filter fun a =>
          saved.elem [n, a.ax, a.ay, z, 0] = x ∧ saved.elem [n, a.ax, a.ay, z, 1] = y).map
        (OutputSite.mk n z) := by
  have hn : n < d.output.n := h.batch ▸ hin.1
  have hz : z < d.output.c := h.channels ▸ hin.2.2.2.1
  rw [i.window.filter_sites hn hz fun o ho hp => ?_]
  · congr 1
    refine List.filter_congr fun a ha => ?_
    have ho := i.flat_saved_eq_iff h hinside (o := ⟨n, z, a⟩)
      (i.window.mem_sites.mpr ⟨hn, hz, ha⟩) hin
    simp only [OutputSite.coord, List.cons_append, List.nil_append, true_and, and_true] at ho
    exact decide_eq_decide.mpr ho
  · obtain ⟨hn, -, -, hd⟩ := (i.flat_saved_eq_iff h hinside ho hin).mp (of_decide_eq_true hp)
    exact ⟨hn, hd⟩

/-- An element of the input receives, in the order of the walk, the gradients of
the windows that saved it. -/
theorem elem_routed (data : Vector α src.shape.elemCount) {n x y z : Nat} (hn : n < d.input.n)
    (hx : x < d.input.h) (hy : y < d.input.w) (hz : z < d.input.c) :
    (View.mk src.shape (applyWrites accumulate (i.routed d saved g) data)).elem [n, x, y, z]
      = ((i.window.anchors d.output).filter fun a =>
          saved.elem [n, a.ax, a.ay, z, 0] = x ∧ saved.elem [n, a.ax, a.ay, z, 1] = y).foldl
        (fun s a => s + g.elem [n, a.ax, a.ay, z]) ((View.mk src.shape data).elem [n, x, y, z]) := by
  have hin : Shape.Inside d.input.toShape.dims [n, x, y, z] :=
    ⟨hn, hx, hy, hz, Shape.inside_nil _⟩
  have hlt : flat src.shape.dims [n, x, y, z] < src.shape.elemCount := by
    rw [h.src]
    exact Shape.flat_lt hin rfl
  rw [View.elem, View.elem, View.entry, View.entry, dif_pos hlt, dif_pos hlt,
    getElem_applyWrites_eq_foldl, routed, List.filter_map, List.map_map]
  show (List.map _ ((i.window.sites d.output).filter fun o =>
      flat d.input.toShape.dims
          [o.n, saved.elem (o.coord ++ [0]), saved.elem (o.coord ++ [1]), o.d]
        = flat src.shape.dims [n, x, y, z])).foldl accumulate _ = _
  rw [i.filter_sites_saved h hinside hin, List.map_map, List.foldl_map]
  rfl

end Routed

/-- Writes that add inside a buffer add their values to its sum. -/
theorem sum_applyWrites_accumulate {K : Type} [ExactScalar K] {n : Nat} {ws : List (Nat × K)}
    (hlt : ∀ w ∈ ws, w.1 < n) (data : Vector K n) :
    (applyWrites accumulate ws data).toList.sum = data.toList.sum + (ws.map Prod.snd).sum := by
  induction ws generalizing data with
  | nil => rw [applyWrites_nil, List.map_nil, List.sum_nil, add_zero]
  | cons w ws ih =>
      have hw : w.1 < n := hlt w (by simp)
      have hfirst : (applyWrite accumulate data w).toList.sum = data.toList.sum + w.2 := by
        have hlist : w.1 < data.toList.length := by simpa using hw
        rw [applyWrite, dif_pos hw, Vector.toList_set, List.sum_set', dif_pos hlist, accumulate,
          Vector.getElem_toList, neg_add_cancel_left]
      rw [applyWrites_cons, ih (fun v hv => hlt v (by simp [hv])), hfirst, List.map_cons,
        List.sum_cons, add_assoc]

/-- In exact arithmetic all of the output gradient arrives, and nothing else. -/
theorem sum_routed (hexact : Scalar.Exact α) {saved : View Nat} (h : Fits d src.shape dest)
    (hinside : i.SavedInside d saved) (hg : g.shape = dest) (data : Vector α src.shape.elemCount) :
    Scalar.sum (applyWrites accumulate (i.routed d saved g) data).toList
      = Scalar.sum data.toList + Scalar.sum g.data.toList := by
  obtain ⟨e, rfl⟩ := hexact
  have helements : g.data.toList
      = (List.range g.shape.elemCount).map g.entry := by
    apply List.ext_getElem
    · simp
    · intro k hk hk'
      have hlt : k < g.shape.elemCount := by simpa using hk
      rw [Vector.getElem_toList, List.getElem_map, List.getElem_range, View.entry, dif_pos hlt]
  -- the walk over the sites meets every element of the output gradient once
  have hroutes : ((i.routed d saved g).map Prod.snd).sum = g.data.toList.sum := by
    have hsites : ((i.window.sites d.output).map fun o => flat d.output.toShape.dims o.coord).Perm
        (List.range d.output.toShape.elemCount) := i.window.perm_sites
    have hperm := hsites.map g.entry
    rw [← h.dest, ← hg, List.map_map] at hperm
    rw [helements, ← hperm.sum_eq, routed, List.map_map]
    rfl
  rw [Scalar.sum_eq, Scalar.sum_eq, Scalar.sum_eq,
    sum_applyWrites_accumulate (i.routed_lt h hinside), hroutes]

/-! ### Both directions -/

/-- What a max pool that succeeds leaves: its operands fit, and for every site the
element that it kept and its coordinate. -/
theorem of_forwardMax_ok {i : Pool} {c c' : Context α} (hrun : i.forwardMax c = .ok () c') :
    ∃ (d : ImageDims) (coords : ValueId) (src dest : View α) (saved : View Nat),
      i.coords = some coords ∧ i.src ≠ i.dest ∧ c.weights[i.src]? = some src.tensor ∧
      c'.weights[i.src]? = some src.tensor ∧ c'.weights[i.dest]? = some dest.tensor ∧
      c'.weights[coords]? = some saved.indexTensor ∧ Fits d src.shape dest.shape ∧
      saved.shape = pairs d.output ∧ i.SavedInside d saved ∧
      ∀ o ∈ i.window.sites d.output, ∃ b, i.kept d src o = some b ∧
        dest.elem o.coord = b.value ∧ saved.elem (o.coord ++ [0]) = b.x ∧
        saved.elem (o.coord ++ [1]) = b.y := by
  obtain ⟨d, coords, src, hcoords, hsrc, hfits, hne, hdc, hcs, ⟨hopen, hok⟩ | ⟨o, c'', hstop⟩⟩ :=
    Run.of_reports_or i.forwardMax_cases hrun
  · rw [hok] at hrun
    obtain ⟨-, rfl⟩ := EStateM.Result.ok.inj hrun
    refine ⟨d, coords, src, ⟨d.output.toShape, filled _ (i.maxima d src)⟩,
      ⟨pairs d.output, filled _ (i.coordinates d src)⟩, hcoords, hne.symm, hsrc, ?_, ?_,
      Context.weights_setWeight_self, hfits, rfl, i.savedInside_coordinates hopen, fun o ho => ?_⟩
    · rw [Context.weights_setWeight_of_ne hcs, Context.weights_setWeight_of_ne hne, hsrc]
    · rw [Context.weights_setWeight_of_ne hdc.symm, Context.weights_setWeight_self]
      rfl
    · obtain ⟨hx, hy⟩ := i.elem_coordinates src ho
      exact ⟨_, i.kept_eq_some hopen src ho, i.elem_maxima src ho, hx, hy⟩
  · rw [hstop] at hrun
    cases hrun

/-- **A max pool routes gradients back to its maxima.**  After a max pool that
succeeds on totally ordered elements, the saved pair of every output is that of a
tap of its window, the output is the element there, no other element under the
window is larger, and later ones are smaller.  The way back then succeeds and adds
to every element of the input, in the order of the walk, the gradients of the
outputs that saved it; exactly, all of the output gradient and nothing else.  If the
windows stay in the signed words, the taps of a window are all of its entries above the
input. -/
theorem max_routes_back (i : Pool) (hkind : i.kind = .max) {c c' : Context α}
    (hrun : i.forward c = .ok () c') :
    ∃ (d : ImageDims) (coords : ValueId) (src dest : View α) (saved : View Nat),
      i.coords = some coords ∧ c.weights[i.src]? = some src.tensor ∧
      c'.weights[i.dest]? = some dest.tensor ∧ c'.weights[coords]? = some saved.indexTensor ∧
      Fits d src.shape dest.shape ∧ saved.shape = pairs d.output ∧
      (Scalar.TotalOn (· ∈ src.data) → ∀ n ax ay z : Nat, n < d.output.n → ax < d.output.h →
        ay < d.output.w → z < d.output.c →
        ∃ t ∈ i.window.taps (i.window.anchor ax ay) d.input,
          saved.elem [n, ax, ay, z, 0] = t.ox ∧ saved.elem [n, ax, ay, z, 1] = t.oy ∧
          dest.elem [n, ax, ay, z] = src.elem [n, t.ox, t.oy, z] ∧
          ∀ u ∈ i.window.taps (i.window.anchor ax ay) d.input,
            Scalar.le (src.elem [n, u.ox, u.oy, z]) (dest.elem [n, ax, ay, z]) = true ∧
            (t.Before u →
              Scalar.le (dest.elem [n, ax, ay, z]) (src.elem [n, u.ox, u.oy, z]) = false)) ∧
      (i.window.InWords d.input d.output → ∀ ax ay, ax < d.output.h → ay < d.output.w →
        ∀ t, t ∈ i.window.taps (i.window.anchor ax ay) d.input ↔
          t.fx < i.window.kernel ∧ t.fy < i.window.kernel ∧ t.ox < d.input.h ∧ t.oy < d.input.w ∧
            (t.ox : Int) = ax * i.window.stride - i.window.pad + t.fx ∧
            (t.oy : Int) = ay * i.window.stride - i.window.pad + t.fy) ∧
      ∀ (b : Context α) (old g : View α), b.weights = c'.weights →
        b.gradOrZeros i.src = .ok old.tensor → old.shape = src.shape →
        b.gradOrZeros i.dest = .ok g.tensor → g.shape = dest.shape →
        ∃ (b' : Context α) (new : View α), i.backward b = .ok () b' ∧
          b'.grads[i.src]? = some new.tensor ∧ new.shape = src.shape ∧
          (∀ n x y z : Nat, n < d.input.n → x < d.input.h → y < d.input.w → z < d.input.c →
            new.elem [n, x, y, z] = ((i.window.anchors d.output).filter fun a =>
                saved.elem [n, a.ax, a.ay, z, 0] = x ∧ saved.elem [n, a.ax, a.ay, z, 1] = y).foldl
              (fun s a => s + g.elem [n, a.ax, a.ay, z]) (old.elem [n, x, y, z])) ∧
          (Scalar.Exact α → Scalar.sum new.data.toList
            = Scalar.sum old.data.toList + Scalar.sum g.data.toList) := by
  have hforward : i.forward = i.forwardMax (α := α) := by rw [forward, hkind]
  have hbackward : i.backward = i.backwardMax (α := α) := by rw [backward, hkind]
  rw [hforward] at hrun
  obtain ⟨d, coords, src, dest, saved, hcoords, hne, hsrc, hsrc', hdest, hbound, hfits, hpairs,
    hinside, hkept⟩ := of_forwardMax_ok hrun
  refine ⟨d, coords, src, dest, saved, hcoords, hsrc, hdest, hbound, hfits, hpairs, ?_,
    fun hwords ax ay hax hay t => hwords.mem_taps hax hay, ?_⟩
  · intro horder n ax ay z hn hax hay hz
    have ho : ⟨n, z, i.window.anchor ax ay⟩ ∈ i.window.sites d.output :=
      i.window.mem_sites.mpr ⟨hn, hz, i.window.mem_anchors.mpr ⟨ax, ay, hax, hay, rfl⟩⟩
    obtain ⟨b, hb, hvalue, hx, hy⟩ := hkept _ ho
    obtain ⟨t, ht, rfl, hmax⟩ := i.kept_spec hfits horder ho hb
    exact ⟨t, ht, hx, hy, hvalue, fun u hu => hvalue ▸ hmax u hu⟩
  · intro b old g hweights hold holds hg hgs
    obtain ⟨s, data⟩ := old
    obtain rfl : s = src.shape := holds
    rw [← hweights] at hsrc' hdest hbound
    have hrun' := i.backwardMax_eq hsrc' hdest hcoords hbound hpairs hfits hne ⟨data, hold⟩ hinside
      hg hgs
    -- the output gradient is taken out first, which leaves that of the input
    have hkeeps : (b.deposit accumulate (i.dest, [])).gradOrZeros i.src
        = .ok ⟨src.shape, .float data⟩ :=
      (Context.gradOrZeros_deposit_of_ne hne.symm).trans hold
    refine ⟨_, ⟨src.shape, applyWrites accumulate (i.routed d saved g) data⟩,
      hbackward ▸ hrun', Context.grads_deposit_self _ hkeeps, rfl, ?_, ?_⟩
    · exact fun n x y z hn hx hy hz => i.elem_routed hfits hinside data hn hx hy hz
    · exact fun hexact => i.sum_routed hexact hfits hinside hgs data

/-- Rational numbers, with zero for what would leave them. -/
local instance rationals : ExactScalar ℚ :=
  exactScalars (fun _ => 0) (fun _ => 0) (fun _ _ => 0) fun _ _ _ => 0

/-- Rational numbers are totally ordered. -/
theorem totalOn_rationals (S : ℚ → Prop) : Scalar.TotalOn S where
  total _ _ := by simpa [Scalar.le] using le_total _ _
  trans _ _ _ := by simpa [Scalar.le] using le_trans

/-- Two windows that share an element, in a row of three. -/
def overlapping : Pool := ⟨.max, 1, 0, some 2, ⟨2, 1, 0⟩⟩

/-- A row whose second element is the last maximum of both windows, with the
gradients of the row and of its maxima. -/
def threeElements : Context ℚ :=
  ((((({} : Context ℚ).setWeight 0 ⟨⟨[1, 1, 3, 1]⟩, .float #v[5, 5, 4]⟩).setWeight 1
    ⟨⟨[1, 1, 2, 1]⟩, .float #v[0, 0]⟩).setWeight 2 ⟨⟨[1, 1, 2, 1, 2]⟩, .index #v[0, 0, 0, 0]⟩).setGrad
    0 ⟨⟨[1, 1, 3, 1]⟩, .float #v[1, 2, 3]⟩).setGrad 1 ⟨⟨[1, 1, 2, 1]⟩, .float #v[10, 20]⟩

theorem max_routes_back_threeElements : overlapping.kind = .max ∧
    ∃ (c' b' : Context ℚ) (new : View ℚ), overlapping.forward threeElements = .ok () c' ∧
      overlapping.backward c' = .ok () b' ∧ b'.grads[(0 : ValueId)]? = some new.tensor ∧
      new.elem [0, 0, 0, 0] = 1 ∧ new.elem [0, 0, 1, 0] = 32 ∧ new.elem [0, 0, 2, 0] = 3 ∧
      Scalar.sum new.data.toList = 36 ∧
      ⟨0, 1, 0, 2⟩ ∈ overlapping.window.taps (overlapping.window.anchor 0 1) ⟨1, 1, 3, 1⟩ := by
  obtain ⟨c', hrun, hshape, hgrads⟩ : ∃ c', overlapping.forward threeElements = .ok () c' ∧
      c'.shapeOf 1 = .ok ⟨[1, 1, 2, 1]⟩ ∧ c'.grads = threeElements.grads := ⟨_, rfl, rfl, rfl⟩
  obtain ⟨⟨⟨n, h, w, k⟩, ⟨n', h', w', k'⟩⟩, coords, src, dest, saved, -, hsrc, hdest, -, hfits, -,
    hmax, hentries, hback⟩ := max_routes_back overlapping rfl hrun
  obtain rfl : ⟨⟨[1, 1, 3, 1]⟩, #v[5, 5, 4]⟩ = src := Except.ok.inj (Context.floats_eq hsrc)
  have hdests : dest.shape = ⟨[1, 1, 2, 1]⟩ :=
    Except.ok.inj ((Context.shapeOf_eq hdest).symm.trans hshape)
  obtain ⟨rfl, rfl, rfl, rfl⟩ : 1 = n ∧ 1 = h ∧ 3 = w ∧ 1 = k := by
    simpa [NHWC.toShape] using congrArg Shape.dims hfits.src
  obtain ⟨rfl, rfl, rfl, rfl⟩ : 1 = n' ∧ 1 = h' ∧ 2 = w' ∧ 1 = k' := by
    simpa [NHWC.toShape] using congrArg Shape.dims (hdests.symm.trans hfits.dest)
  -- both windows save the second element
  have hfirst : saved.elem [0, 0, 0, 0, 0] = 0 ∧ saved.elem [0, 0, 0, 0, 1] = 1 := by
    obtain ⟨t, ht, hx, hy, hvalue, hall⟩ :=
      hmax (totalOn_rationals _) 0 0 0 0 (by decide) (by decide) (by decide) (by decide)
    have htaps : overlapping.window.taps (overlapping.window.anchor 0 0) ⟨1, 1, 3, 1⟩
        = [⟨0, 0, 0, 0⟩, ⟨0, 1, 0, 1⟩] := by decide
    rw [htaps] at ht hall
    obtain rfl | rfl : t = ⟨0, 0, 0, 0⟩ ∨ t = ⟨0, 1, 0, 1⟩ := by simpa using ht
    · have hlater := (hall ⟨0, 1, 0, 1⟩ (by simp)).2 (.inl (by decide))
      rw [hvalue] at hlater
      exact absurd hlater (by decide +kernel)
    · exact ⟨hx, hy⟩
  have hsecond : saved.elem [0, 0, 1, 0, 0] = 0 ∧ saved.elem [0, 0, 1, 0, 1] = 1 := by
    obtain ⟨t, ht, hx, hy, hvalue, hall⟩ :=
      hmax (totalOn_rationals _) 0 0 1 0 (by decide) (by decide) (by decide) (by decide)
    have htaps : overlapping.window.taps (overlapping.window.anchor 0 1) ⟨1, 1, 3, 1⟩
        = [⟨0, 0, 0, 1⟩, ⟨0, 1, 0, 2⟩] := by decide
    rw [htaps] at ht hall
    obtain rfl | rfl : t = ⟨0, 0, 0, 1⟩ ∨ t = ⟨0, 1, 0, 2⟩ := by simpa using ht
    · exact ⟨hx, hy⟩
    · have hlarger := (hall ⟨0, 0, 0, 1⟩ (by simp)).1
      rw [hvalue] at hlarger
      exact absurd hlarger (by decide +kernel)
  obtain ⟨b', new, hrun', hnew, -, hform, hsum⟩ := hback c' ⟨⟨[1, 1, 3, 1]⟩, #v[1, 2, 3]⟩
    ⟨⟨[1, 1, 2, 1]⟩, #v[10, 20]⟩ rfl
    (Context.gradOrZeros_of_grad (by rw [hgrads]; rfl)) rfl
    (Context.gradOrZeros_of_grad (by rw [hgrads]; rfl)) hdests.symm
  have hanchors : overlapping.window.anchors ⟨1, 1, 2, 1⟩
      = [overlapping.window.anchor 0 0, overlapping.window.anchor 0 1] := rfl
  have hreceived (y : Nat) (hy : y < 3) := hform 0 0 y 0 (by decide) (by decide) hy (by decide)
  simp only [hanchors, List.filter_cons, List.filter_nil, Window.anchor, hfirst, hsecond, true_and]
    at hreceived
  have hwords : overlapping.window.InWords ⟨1, 1, 3, 1⟩ ⟨1, 1, 2, 1⟩ :=
    ⟨by decide, by decide, by decide, by decide⟩
  refine ⟨rfl, c', b', new, hrun, hrun', hnew, ?_, ?_, ?_, ?_, ?_⟩
  · exact (hreceived 0 (by decide)).trans (by decide +kernel)
  · exact (hreceived 1 (by decide)).trans (by decide +kernel)
  · exact (hreceived 2 (by decide)).trans (by decide +kernel)
  · exact (hsum Scalar.exact).trans (by decide +kernel)
  · exact (hentries hwords 0 1 (by decide) (by decide) ⟨0, 1, 0, 2⟩).mpr (by decide)

/-- Padding that wraps: the pool succeeds and saves the middle of the image, where no
entry of its window lies. -/
theorem max_routes_back_wrappedPadding : ∃ c', wrapped.forward ninePixels = .ok () c' ∧
    c'.weights[(2 : ValueId)]? = some ⟨⟨[1, 1, 1, 1, 2]⟩, .index #v[1, 1]⟩ ∧
    ∀ fx < wrapped.window.kernel,
      (1 : Int) ≠ (0 : Nat) * wrapped.window.stride - wrapped.window.pad + fx :=
  ⟨_, rfl, rfl, by decide⟩

end Pool

end TensorProgram
