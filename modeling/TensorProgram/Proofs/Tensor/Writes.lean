/-
TensorProgram/Proofs/Tensor/Writes.lean

What a loop of writes does to a buffer.  A write is a position with a value
that is combined with the element there; `applyWrites` makes a list of writes
one after the other.  `Run.Performs combine f ws` says that the call `f`
succeeds on every buffer and makes exactly the writes `ws`, and
`Run.Fills f out` that it leaves `out` whatever the buffer held.

Main statements: a scatter performs one write for each target
(`performs_scatter`), loops perform the writes of their visits
(`Performs.forM`), and a call that overwrites every position fills the buffer
(`Performs.fills`).  The last is where stale contents disappear.
-/
import Mathlib.Algebra.Ring.Nat
import TensorProgram.Proofs.Tensor.Coordinates
import TensorProgram.Tensor.Update

namespace TensorProgram

variable {ε β γ ι : Type} {n m : Nat}

/-! ### Results of computations that succeed -/

namespace Outcome

/-- The computation answers. -/
def Defined (x : Outcome β) : Prop := ∃ b, x = .ok b

/-- The answer of a computation; zero if it has none. -/
def orZero [Zero β] (x : Outcome β) : β :=
  match x with
  | .ok b => b
  | .error _ => 0

theorem defined_ok (b : β) : Defined (.ok b : Outcome β) := ⟨b, rfl⟩

/-- A sequence answers if its first part does and its second part does after
every answer of the first. -/
theorem Defined.bind {x : Outcome β} {f : β → Outcome γ} (hx : x.Defined)
    (hf : ∀ b, x = .ok b → (f b).Defined) : (x >>= f : Outcome γ).Defined := by
  obtain ⟨b, hb⟩ := hx
  rw [hb, Except.ok_bind]
  exact hf b hb

theorem Defined.eq_orZero [Zero β] {x : Outcome β} (h : x.Defined) : x = .ok x.orZero := by
  obtain ⟨b, rfl⟩ := h
  rfl

@[simp] theorem orZero_ok [Zero β] (b : β) : (orZero (.ok b : Outcome β)) = b := rfl

end Outcome

/-! ### Lists of writes -/

/-- Combine a value with the element at a position. -/
def applyWrite (combine : ε → ε → ε) (data : Vector ε n) (w : Nat × ε) : Vector ε n :=
  if h : w.1 < n then data.set w.1 (combine data[w.1] w.2) else data

/-- Make a list of writes in order. -/
def applyWrites (combine : ε → ε → ε) (ws : List (Nat × ε)) (data : Vector ε n) : Vector ε n :=
  ws.foldl (applyWrite combine) data

section Apply

variable (combine : ε → ε → ε) (data : Vector ε n)

@[simp] theorem applyWrites_nil : applyWrites combine [] data = data := rfl

theorem applyWrites_cons (w : Nat × ε) (ws : List (Nat × ε)) :
    applyWrites combine (w :: ws) data
      = applyWrites combine ws (applyWrite combine data w) := rfl

theorem applyWrites_append (ws vs : List (Nat × ε)) :
    applyWrites combine (ws ++ vs) data
      = applyWrites combine vs (applyWrites combine ws data) := by
  simp [applyWrites]

/-- What a write leaves at each position. -/
theorem getElem_applyWrite (w : Nat × ε) {k : Nat} (hk : k < n) :
    (applyWrite combine data w)[k] = if w.1 = k then combine data[k] w.2 else data[k] := by
  by_cases hlt : w.1 < n
  · rw [applyWrite, dif_pos hlt, Vector.getElem_set]
    by_cases hw : w.1 = k
    · subst hw
      simp
    · simp [hw]
  · have hw : w.1 ≠ k := by omega
    rw [applyWrite, dif_neg hlt, if_neg hw]

end Apply

/-- The buffer that a list of overwriting writes leaves; zero where none falls. -/
def filled [Zero ε] (n : Nat) (ws : List (Nat × ε)) : Vector ε n :=
  applyWrites overwrite ws (Vector.replicate n 0)

/-- Overwriting forgets: positions that are written, or that agreed before,
agree afterwards. -/
theorem getElem_applyWrites_overwrite_congr {ws : List (Nat × ε)} {data data' : Vector ε n}
    {k : Nat} (hk : k < n) (h : k ∈ ws.map Prod.fst ∨ data[k] = data'[k]) :
    (applyWrites overwrite ws data)[k] = (applyWrites overwrite ws data')[k] := by
  induction ws generalizing data data' with
  | nil => simpa using h
  | cons w ws ih =>
      rw [applyWrites_cons, applyWrites_cons]
      refine ih ?_
      rw [getElem_applyWrite, getElem_applyWrite]
      by_cases hw : w.1 = k
      · right
        simp [hw, overwrite]
      · simpa [hw, Ne.symm hw] using h

/-- A position receives, in their order, the values of the writes to it. -/
theorem getElem_applyWrites_eq_foldl (combine : ε → ε → ε) (ws : List (Nat × ε))
    (data : Vector ε n) {k : Nat} (hk : k < n) :
    (applyWrites combine ws data)[k]
      = ((ws.filter fun w => w.1 = k).map Prod.snd).foldl combine data[k] := by
  induction ws generalizing data with
  | nil => rfl
  | cons w ws ih =>
      rw [applyWrites_cons, ih, getElem_applyWrite, List.filter_cons]
      by_cases hw : w.1 = k
      · simp only [hw, if_true, decide_true, List.map_cons, List.foldl_cons]
      · simp only [hw, if_false, decide_false, Bool.false_eq_true]

/-- A position without a write keeps its element. -/
theorem getElem_applyWrites_of_notMem (combine : ε → ε → ε) {ws : List (Nat × ε)}
    (data : Vector ε n) {k : Nat} (hk : k < n) (hnot : k ∉ ws.map Prod.fst) :
    (applyWrites combine ws data)[k] = data[k] := by
  have hnone : (ws.filter fun w => w.1 = k) = [] := by
    refine List.filter_eq_nil_iff.mpr fun w hw hk => hnot ?_
    exact of_decide_eq_true hk ▸ List.mem_map_of_mem hw
  rw [getElem_applyWrites_eq_foldl, hnone]
  rfl

/-- Of writes to different positions each one meets the element that was there. -/
theorem getElem_applyWrites_of_nodup (combine : ε → ε → ε) {ws : List (Nat × ε)}
    (hnodup : (ws.map Prod.fst).Nodup) (data : Vector ε n) {w : Nat × ε} (hw : w ∈ ws)
    (hlt : w.1 < n) : (applyWrites combine ws data)[w.1] = combine data[w.1] w.2 := by
  induction ws generalizing data with
  | nil => exact absurd hw List.not_mem_nil
  | cons v ws ih =>
      rw [List.map_cons, List.nodup_cons] at hnodup
      rw [applyWrites_cons]
      rcases List.mem_cons.mp hw with rfl | hmem
      · -- the first write: no later one touches its position
        rw [getElem_applyWrites_of_notMem combine _ hlt hnodup.1, getElem_applyWrite, if_pos rfl]
      · have hne : v.1 ≠ w.1 := fun h => hnodup.1 (h ▸ List.mem_map_of_mem hmem)
        rw [ih hnodup.2 _ hmem, getElem_applyWrite, if_neg hne]

/-- Of overwriting writes to different positions each one stays. -/
theorem getElem_applyWrites_overwrite {ws : List (Nat × ε)} (hnodup : (ws.map Prod.fst).Nodup)
    (data : Vector ε n) {w : Nat × ε} (hw : w ∈ ws) (hlt : w.1 < n) :
    (applyWrites overwrite ws data)[w.1] = w.2 :=
  getElem_applyWrites_of_nodup overwrite hnodup data hw hlt

/-- Filled by writes to different positions, a buffer has at each what was written. -/
theorem View.entry_filled [Zero ε] {s : Shape} {ws : List (Nat × ε)}
    (hnodup : (ws.map Prod.fst).Nodup) {w : Nat × ε} (hw : w ∈ ws) (hlt : w.1 < s.elemCount) :
    (View.mk s (filled _ ws)).entry w.1 = w.2 := by
  rw [entry, dif_pos hlt]
  exact getElem_applyWrites_overwrite hnodup _ hw hlt

/-! ### Calls that perform writes -/

namespace Run

/-- The call succeeds on every buffer and makes these writes. -/
structure Performs (combine : ε → ε → ε) (f : Run (Vector ε n) Unit) (ws : List (Nat × ε)) :
    Prop where
  /-- Every write lies inside the buffer. -/
  lt : ∀ w ∈ ws, w.1 < n
  /-- The call makes the writes. -/
  run : ∀ data, f data = .ok () (applyWrites combine ws data)

/-- The call leaves one result whatever the buffer held. -/
def Fills (f : Run (Vector ε n) Unit) (out : Vector ε n) : Prop := ∀ data, f data = .ok () out

variable {combine : ε → ε → ε}

theorem performs_pure : Performs combine (pure () : Run (Vector ε n) Unit) [] :=
  ⟨by simp, fun _ => rfl⟩

theorem Performs.bind {f g : Run (Vector ε n) Unit} {ws vs : List (Nat × ε)}
    (hf : Performs combine f ws) (hg : Performs combine g vs) :
    Performs combine (f >>= fun _ => g) (ws ++ vs) where
  lt w hw := (List.mem_append.mp hw).elim (hf.lt w) (hg.lt w)
  run data := by rw [bind_of_ok (hf.run data), hg.run, applyWrites_append]

/-- A loop performs the writes of its visits. -/
theorem Performs.forM {xs : List ι} {visit : ι → Run (Vector ε n) Unit}
    {ws : ι → List (Nat × ε)} (h : ∀ x ∈ xs, Performs combine (visit x) (ws x)) :
    Performs combine (xs.forM visit) (xs.flatMap ws) := by
  induction xs with
  | nil => exact performs_pure
  | cons x xs ih =>
      rw [forM_cons, List.flatMap_cons]
      exact (h x (by simp)).bind (ih fun y hy => h y (by simp [hy]))

/-- A scatter performs one write for each target. -/
theorem performs_scatter {targets : List ι} {position : ι → Outcome Nat}
    {value : ι → Outcome ε} {p : ι → Nat} {v : ι → ε}
    (hvalue : ∀ t ∈ targets, value t = .ok (v t))
    (hposition : ∀ t ∈ targets, position t = .ok (p t)) (hlt : ∀ t ∈ targets, p t < n) :
    Performs combine (scatter combine targets position value : Run (Vector ε n) Unit)
      (targets.map fun t => (p t, v t)) := by
  induction targets with
  | nil => exact performs_pure
  | cons t targets ih =>
      have hrest := ih (fun u hu => hvalue u (by simp [hu]))
        (fun u hu => hposition u (by simp [hu])) (fun u hu => hlt u (by simp [hu]))
      have ht : p t < n := hlt t (by simp)
      refine ⟨?_, fun data => ?_⟩
      · intro w hw
        rcases List.mem_cons.mp hw with rfl | hw
        · exact ht
        · exact hrest.lt w hw
      · rw [scatter_cons combine position value data (hvalue t (by simp)) (hposition t (by simp)) ht,
          hrest.run, List.map_cons, applyWrites_cons, applyWrite, dif_pos ht]

/-- A scatter to coordinates inside a shape writes at their positions. -/
theorem performs_scatter_inside {targets : List ι} {dims : List Nat} {s : Shape}
    {coord : ι → List Nat} {value : ι → Outcome ε} {v : ι → ε} (hs : s = ⟨dims⟩)
    (hvalue : ∀ t ∈ targets, value t = .ok (v t))
    (hin : ∀ t ∈ targets, Shape.Inside dims (coord t))
    (hlen : ∀ t ∈ targets, (coord t).length = dims.length) :
    Performs combine (scatter combine targets (fun t => s.position (coord t)) value :
      Run (Vector ε s.elemCount) Unit)
      (targets.map fun t => (Shape.flat dims (coord t), v t)) := by
  subst hs
  exact performs_scatter hvalue (fun t ht => Shape.position_eq (hin t ht))
    fun t ht => Shape.flat_lt (hin t ht) (hlen t ht)

/-- A scatter over images performs one write for each preimage. -/
theorem performs_scatter_map {κ : Type} {targets : List κ} {g : κ → ι} {position : ι → Outcome Nat}
    {value : ι → Outcome ε} {p : κ → Nat} {v : κ → ε}
    (hvalue : ∀ t ∈ targets, value (g t) = .ok (v t))
    (hposition : ∀ t ∈ targets, position (g t) = .ok (p t)) (hlt : ∀ t ∈ targets, p t < n) :
    Performs combine (scatter combine (targets.map g) position value : Run (Vector ε n) Unit)
      (targets.map fun t => (p t, v t)) := by
  have h : Performs combine (scatter combine targets (fun t => position (g t)) fun t => value (g t) :
      Run (Vector ε n) Unit) (targets.map fun t => (p t, v t)) :=
    performs_scatter hvalue hposition hlt
  rw [scatter, Run.forM_map]
  exact h

/-- A scatter whose values and positions are defined performs the writes they
name. -/
theorem performs_scatter_of_defined [Zero ε] {targets : List ι} {position : ι → Outcome Nat}
    {value : ι → Outcome ε} (hvalue : ∀ t ∈ targets, (value t).Defined)
    (hposition : ∀ t ∈ targets, ∃ k, position t = .ok k ∧ k < n) :
    Performs combine (scatter combine targets position value : Run (Vector ε n) Unit)
      (targets.map fun t => ((position t).orZero, (value t).orZero)) := by
  refine performs_scatter (fun t ht => (hvalue t ht).eq_orZero) (fun t ht => ?_) fun t ht => ?_
  · obtain ⟨k, hk, -⟩ := hposition t ht
    rw [hk, Outcome.orZero_ok]
  · obtain ⟨k, hk, hlt⟩ := hposition t ht
    rw [hk, Outcome.orZero_ok]
    exact hlt

/-- A scatter that succeeds has found a value and a position for every target. -/
theorem of_scatter_ok {targets : List ι} {position : ι → Outcome Nat} {value : ι → Outcome ε}
    {data data' : Vector ε n} (h : scatter combine targets position value data = .ok () data') :
    ∀ t ∈ targets, (value t).Defined ∧ ∃ k, position t = .ok k ∧ k < n := by
  intro t ht
  obtain ⟨before, after, hvisit⟩ := exists_of_forM_ok h t ht
  obtain ⟨v, hv, hvisit⟩ := exists_of_compute_ok hvisit
  obtain ⟨k, hk, hvisit⟩ := exists_of_compute_ok hvisit
  refine ⟨⟨v, hv⟩, k, hk, ?_⟩
  by_contra hout
  rw [modifyAt_of_le (Nat.le_of_not_lt hout)] at hvisit
  cases hvisit

/-- A call that overwrites every position fills the buffer. -/
theorem Performs.fills [Zero ε] {f : Run (Vector ε n) Unit} {ws : List (Nat × ε)}
    (h : Performs overwrite f ws) (hcover : ∀ k < n, k ∈ ws.map Prod.fst) :
    Fills f (filled n ws) := by
  intro data
  rw [h.run, filled]
  congr 1
  exact Vector.ext fun k hk => getElem_applyWrites_overwrite_congr hk (.inl (hcover k hk))

end Run

/-! ### One value for every position -/

open Run (Performs Fills performs_scatter)

/-- A write for every position of a buffer of this length. -/
def pointwise (n : Nat) (f : Nat → ε) : List (Nat × ε) :=
  (List.range n).map fun k => (k, f k)

theorem map_fst_pointwise (n : Nat) (f : Nat → ε) :
    (pointwise n f).map Prod.fst = List.range n := by
  rw [pointwise, List.map_map]
  exact List.map_id _

theorem mem_fst_pointwise {n : Nat} (f : Nat → ε) {k : Nat} (hk : k < n) :
    k ∈ (pointwise n f).map Prod.fst := by
  rw [map_fst_pointwise]
  exact List.mem_range.mpr hk

/-- Filled by one value for every position, a buffer has it there. -/
theorem View.entry_pointwise [Zero ε] {s : Shape} (f : Nat → ε) {k : Nat} (hk : k < s.elemCount) :
    (View.mk s (filled _ (pointwise s.elemCount f))).entry k = f k := by
  have hnodup : ((pointwise s.elemCount f).map Prod.fst).Nodup := by
    rw [map_fst_pointwise]
    exact List.nodup_range
  exact entry_filled (w := (k, f k)) hnodup (List.mem_map.mpr ⟨k, List.mem_range.mpr hk, rfl⟩) hk

/-- A scatter over all positions in order writes one value to each. -/
theorem performs_pointwise {n m : Nat} {combine : ε → ε → ε}
    {value : Nat → Outcome ε} {f : Nat → ε} (hvalue : ∀ k < m, value k = .ok (f k))
    (hle : m ≤ n) :
    Performs combine (scatter combine (List.range m) atPosition value : Run (Vector ε n) Unit)
      (pointwise m f) := by
  apply performs_scatter
  · exact fun k hk => hvalue k (List.mem_range.mp hk)
  · exact fun k _ => rfl
  · exact fun k hk => Nat.lt_of_lt_of_le (List.mem_range.mp hk) hle

/-- Overwriting all positions in order fills the buffer. -/
theorem fills_pointwise [Zero ε] {n : Nat} {value : Nat → Outcome ε} {f : Nat → ε}
    (hvalue : ∀ k < n, value k = .ok (f k)) :
    Fills (scatter overwrite (List.range n) atPosition value : Run (Vector ε n) Unit)
      (filled n (pointwise n f)) :=
  (performs_pointwise hvalue (Nat.le_refl n)).fills fun _ => mem_fst_pointwise f

namespace Run

/-! ### Two buffers -/

/-- The call succeeds on every pair of buffers and overwrites these positions of
the first and those of the second. -/
structure PerformsBoth (f : Run (Vector ε n × Vector γ m) Unit) (ws : List (Nat × ε))
    (vs : List (Nat × γ)) : Prop where
  /-- Every write lies inside its buffer. -/
  lt : (∀ w ∈ ws, w.1 < n) ∧ ∀ v ∈ vs, v.1 < m
  /-- The call makes the writes. -/
  run : ∀ x y, f (x, y) = .ok () (applyWrites overwrite ws x, applyWrites overwrite vs y)

theorem Performs.onFst {f : Run (Vector ε n) Unit} {ws : List (Nat × ε)}
    (h : Performs overwrite f ws) :
    PerformsBoth (Run.onFst f : Run (Vector ε n × Vector γ m) Unit) ws [] where
  lt := ⟨h.lt, by simp⟩
  run x y := by rw [Run.onFst, h.run]; rfl

theorem Performs.onSnd {f : Run (Vector γ m) Unit} {vs : List (Nat × γ)}
    (h : Performs overwrite f vs) :
    PerformsBoth (Run.onSnd f : Run (Vector ε n × Vector γ m) Unit) [] vs where
  lt := ⟨by simp, h.lt⟩
  run x y := by rw [Run.onSnd, h.run]; rfl

theorem PerformsBoth.bind {f g : Run (Vector ε n × Vector γ m) Unit} {ws ws' : List (Nat × ε)}
    {vs vs' : List (Nat × γ)} (hf : PerformsBoth f ws vs) (hg : PerformsBoth g ws' vs') :
    PerformsBoth (f >>= fun _ => g) (ws ++ ws') (vs ++ vs') where
  lt := ⟨fun w hw => (List.mem_append.mp hw).elim (hf.lt.1 w) (hg.lt.1 w),
    fun v hv => (List.mem_append.mp hv).elim (hf.lt.2 v) (hg.lt.2 v)⟩
  run x y := by
    rw [bind_of_ok (hf.run x y), hg.run, applyWrites_append, applyWrites_append]

/-- A loop on two buffers performs the writes of its visits. -/
theorem PerformsBoth.forM {xs : List ι} {visit : ι → Run (Vector ε n × Vector γ m) Unit}
    {ws : ι → List (Nat × ε)} {vs : ι → List (Nat × γ)}
    (h : ∀ x ∈ xs, PerformsBoth (visit x) (ws x) (vs x)) :
    PerformsBoth (xs.forM visit) (xs.flatMap ws) (xs.flatMap vs) := by
  induction xs with
  | nil => exact ⟨by simp, fun _ _ => rfl⟩
  | cons x xs ih =>
      rw [forM_cons, List.flatMap_cons, List.flatMap_cons]
      exact (h x (by simp)).bind (ih fun y hy => h y (by simp [hy]))

/-- The call leaves one pair of results whatever the buffers held. -/
def FillsBoth (f : Run (Vector ε n × Vector γ m) Unit) (x : Vector ε n) (y : Vector γ m) : Prop :=
  ∀ p, f p = .ok () (x, y)

/-- A call that overwrites every position of both buffers fills them. -/
theorem PerformsBoth.fills [Zero ε] [Zero γ] {f : Run (Vector ε n × Vector γ m) Unit}
    {ws : List (Nat × ε)} {vs : List (Nat × γ)} (h : PerformsBoth f ws vs)
    (hws : ∀ k < n, k ∈ ws.map Prod.fst) (hvs : ∀ k < m, k ∈ vs.map Prod.fst) :
    FillsBoth f (filled n ws) (filled m vs) := by
  rintro ⟨x, y⟩
  rw [h.run, filled, filled]
  congr 2
  · exact Vector.ext fun k hk => getElem_applyWrites_overwrite_congr hk (.inl (hws k hk))
  · exact Vector.ext fun k hk => getElem_applyWrites_overwrite_congr hk (.inl (hvs k hk))

end Run

end TensorProgram
