import Mathlib.Data.List.GetD
import Mathlib.Topology.Algebra.Order.Field
import Mathlib.Topology.LocallyFinite
import BlackOilWells.Proofs.DefinedFlows

/-!
# Linear interpolation between nodes

The nodes of an axis divide the line into intervals, of which the first and the last one reach beyond the axis.  An
interval serves the coordinates in it (`Axis.Serves`), so that a node is served by the intervals on both sides.  On
values at the nodes of an increasing axis all intervals that serve a coordinate give the same
(`Axis.between_of_serves`), and the search for the lower node finds one of them (`Axis.lowerNode_serves`).

So the interpolation (`Axis.curve`) is continuous and goes through the values at the nodes, and between two nodes it
stays between their values.  If the values increase it is strictly increasing and takes every value, also beyond the
axis, and exchanging nodes and values inverts it (`Axis.curve_curve`).
-/

namespace BlackOilWells

namespace Axis

variable {K : Type} [Field K] [LinearOrder K]

/-! ### Increasing lists -/

private theorem isIncreasing_iff_pairwise {axis : List K} : isIncreasing axis = true ↔ axis.Pairwise (· < ·) := by
  rw [← List.isChain_iff_pairwise]
  induction axis with
  | nil => simp [isIncreasing]
  | cons a axis ih =>
    cases axis with
    | nil => simp [isIncreasing]
    | cons b axis => rw [isIncreasing, Bool.and_eq_true, decide_eq_true_iff, ih, List.isChain_cons_cons]

theorem isIncreasing_iff {axis : List K} :
    isIncreasing axis = true ↔ ∀ i j, i < j → j < axis.length → axis.getD i 0 < axis.getD j 0 := by
  rw [isIncreasing_iff_pairwise, List.pairwise_iff_getElem]
  constructor
  · intro h i j hij hj
    have hi : i < axis.length := by omega
    rw [List.getD_eq_getElem _ _ hi, List.getD_eq_getElem _ _ hj]
    exact h i j hi hj hij
  · intro h i j hi hj hij
    have hlt := h i j hij hj
    rwa [List.getD_eq_getElem _ _ hi, List.getD_eq_getElem _ _ hj] at hlt

private theorem getD_le_getD {axis : List K} (h : isIncreasing axis = true) {i j : Nat} (hij : i ≤ j)
    (hj : j < axis.length) :
    axis.getD i 0 ≤ axis.getD j 0 := by
  rcases hij.lt_or_eq with hlt | rfl
  · exact (isIncreasing_iff.1 h i j hlt hj).le
  · exact le_rfl

/-! ### Intervals -/

/-- Whether the interval above a node serves a coordinate.  The first interval reaches down and the last one up beyond
the axis; a single node serves all coordinates. -/
structure Serves (axis : List K) (i : Nat) (x : K) : Prop where
  interval : i = 0 ∨ i + 1 < axis.length
  lower : i = 0 ∨ axis.getD i 0 ≤ x
  upper : axis.length ≤ i + 2 ∨ x ≤ axis.getD (i + 1) 0

/-- Whether a coordinate does not lie beyond the nodes of an axis. -/
def Covers (axis : List K) (x : K) : Prop := (∃ a ∈ axis, a ≤ x) ∧ ∃ b ∈ axis, x ≤ b

/-- Whether a coordinate lies between two neighbouring nodes, or on a single one. -/
structure Surrounds (axis : List K) (i j : Nat) (x : K) : Prop where
  adjacent : j = i ∨ j = i + 1
  node : j < axis.length
  lower : axis.getD i 0 ≤ x
  upper : x ≤ axis.getD j 0

theorem Serves.lt_length {axis : List K} {i : Nat} {x : K} (hx : Serves axis i x) (hpos : 0 < axis.length) :
    i < axis.length := by
  rcases hx.interval with rfl | hlt
  · exact hpos
  · omega

private theorem Serves.next_lt {axis : List K} {i : Nat} {x : K} (hx : Serves axis i x) (htwo : 2 ≤ axis.length) :
    i + 1 < axis.length := by
  rcases hx.interval with rfl | hlt
  · exact htwo
  · exact hlt

private theorem le_of_lt_takeWhile {axis : List K} {x : K} {i : Nat}
    (h : i < (axis.takeWhile fun a => decide (a ≤ x)).length) : axis.getD i 0 ≤ x := by
  induction axis generalizing i with
  | nil => simp at h
  | cons a axis ih =>
    by_cases ha : a ≤ x
    · cases i with
      | zero => exact ha
      | succ i =>
        rw [List.takeWhile_cons_of_pos (by simpa using ha), List.length_cons] at h
        exact ih (by omega)
    · rw [List.takeWhile_cons_of_neg (by simpa using ha)] at h
      simp at h

private theorem lt_of_eq_takeWhile {axis : List K} {x : K} {i : Nat}
    (h : i = (axis.takeWhile fun a => decide (a ≤ x)).length) (hi : i < axis.length) : x < axis.getD i 0 := by
  induction axis generalizing i with
  | nil => simp at hi
  | cons a axis ih =>
    by_cases ha : a ≤ x
    · rw [List.takeWhile_cons_of_pos (by simpa using ha), List.length_cons] at h
      subst h
      simp only [List.length_cons, Nat.add_lt_add_iff_right] at hi
      exact ih rfl hi
    · rw [List.takeWhile_cons_of_neg (by simpa using ha)] at h
      subst h
      exact not_le.1 ha

theorem lowerNode_serves {axis : List K} (h : isIncreasing axis = true) (x : K) :
    Serves axis (lowerNode axis x) x := by
  have hlength : (axis.takeWhile fun a => decide (a ≤ x)).length ≤ axis.length :=
    (List.takeWhile_prefix _).length_le
  have hbelow : ∀ i < (axis.takeWhile fun a => decide (a ≤ x)).length, axis.getD i 0 ≤ x := fun i hi =>
    le_of_lt_takeWhile hi
  have habove : (axis.takeWhile fun a => decide (a ≤ x)).length < axis.length →
      x < axis.getD (axis.takeWhile fun a => decide (a ≤ x)).length 0 := lt_of_eq_takeWhile rfl
  unfold lowerNode
  generalize (axis.takeWhile fun a => decide (a ≤ x)).length = k at *
  refine ⟨by omega, ?_, ?_⟩
  · by_cases hk : k = 0
    · left
      omega
    · right
      exact hbelow _ (by omega)
  · by_cases hlast : axis.length ≤ min (k - 1) (axis.length - 2) + 2
    · exact .inl hlast
    · right
      have hnode : min (k - 1) (axis.length - 2) = k - 1 := by omega
      rw [hnode]
      -- below the axis the first interval serves, which ends above the first node
      rcases Nat.eq_zero_or_pos k with rfl | hk
      · have hfirst := isIncreasing_iff.1 h 0 1 (by omega) (by omega)
        exact ((habove (by omega)).trans hfirst).le
      · rw [Nat.sub_add_cancel hk]
        exact (habove (by omega)).le

/-- Two intervals that serve one coordinate are the same, or they meet there. -/
private theorem Serves.eq_or_adjacent {axis : List K} (h : isIncreasing axis = true) {i j : Nat} {x : K}
    (hi : Serves axis i x) (hj : Serves axis j x) (hij : i ≤ j) :
    i = j ∨ (j = i + 1 ∧ j < axis.length ∧ x = axis.getD j 0) := by
  rcases hij.lt_or_eq with hlt | rfl
  · right
    have hjl : j + 1 < axis.length := hj.interval.resolve_left (by omega)
    have hlower : axis.getD j 0 ≤ x := hj.lower.resolve_left (by omega)
    have hupper : x ≤ axis.getD (i + 1) 0 := hi.upper.resolve_left (by omega)
    rcases (Nat.succ_le_of_lt hlt).lt_or_eq with hgap | rfl
    · have hnodes := isIncreasing_iff.1 h (i + 1) j hgap (by omega)
      exact absurd (hlower.trans hupper) (not_le.2 hnodes)
    · exact ⟨rfl, by omega, le_antisymm hupper hlower⟩
  · exact .inl rfl

/-! ### Values between two nodes -/

theorem weight_eq {axis : List K} {i : Nat} (hi : i + 1 < axis.length) (x : K) :
    weight axis i x = (x - axis.getD i 0) / (axis.getD (i + 1) 0 - axis.getD i 0) := by
  unfold weight
  rw [List.getElem?_eq_getElem (Nat.lt_of_succ_lt hi), List.getElem?_eq_getElem hi,
    List.getD_eq_getElem _ _ (Nat.lt_of_succ_lt hi), List.getD_eq_getElem _ _ hi]

theorem weight_of_length_le {axis : List K} {i : Nat} (hi : axis.length ≤ i + 1) (x : K) : weight axis i x = 0 := by
  unfold weight
  rw [List.getElem?_eq_none hi]
  cases axis[i]? <;> rfl

/-- The value at a position between a node and the next one. -/
def between (v : Nat → K) (i : Nat) (s : K) : K := v i + (v (i + 1) - v i) * s

@[simp] theorem between_zero (v : Nat → K) (i : Nat) : between v i 0 = v i := by simp [between]

@[simp] theorem between_one (v : Nat → K) (i : Nat) : between v i 1 = v (i + 1) := by simp [between]

private theorem between_eq_mix (v : Nat → K) (i : Nat) (s : K) : between v i s = (1 - s) * v i + s * v (i + 1) := by
  simp only [between]
  ring

/-- Between rows and columns the order does not matter. -/
theorem between_between (v : Nat → Nat → K) (i j : Nat) (s w : K) :
    between (fun k => between (v k) j s) i w = between (fun l => between (v · l) i w) j s := by
  simp only [between]
  ring

theorem valueAt_eq {axis values : List K} (hlength : values.length = axis.length) {i : Nat} (hi : i < axis.length)
    (x : K) : valueAt values i (weight axis i x) = .ok (between (values.getD · 0) i (weight axis i x)) := by
  have hi' : i < values.length := hlength ▸ hi
  refine Outcome.bind_ok.2 ⟨values[i], Outcome.need_ok.2 (List.getElem?_eq_getElem hi'), congrArg Except.ok ?_⟩
  dsimp only [between]
  rw [List.getD_eq_getElem _ _ hi']
  by_cases hnext : i + 1 < axis.length
  · have hnext' : i + 1 < values.length := hlength ▸ hnext
    rw [List.getElem?_eq_getElem hnext', List.getD_eq_getElem _ _ hnext']
    rfl
  · rw [weight_of_length_le (not_lt.1 hnext), mul_zero, mul_zero]

/-- The values at the nodes of an axis, interpolated linearly and continued beyond the axis. -/
def curve (axis : List K) (v : Nat → K) (x : K) : K := between v (lowerNode axis x) (weight axis (lowerNode axis x) x)

/-- Only the values at the nodes matter. -/
theorem curve_congr {axis : List K} (htwo : 2 ≤ axis.length) {v w : Nat → K} (hvw : ∀ j < axis.length, v j = w j)
    (x : K) : curve axis v x = curve axis w x := by
  have hnode : lowerNode axis x + 1 < axis.length := by
    unfold lowerNode
    omega
  rw [curve, curve, between, between, hvw _ (by omega), hvw _ hnode]

/-! ### Intervals that serve a coordinate -/

section

variable {axis : List K} (h : isIncreasing axis = true)

include h

private theorem step_ne_zero {i : Nat} (hi : i + 1 < axis.length) : axis.getD (i + 1) 0 - axis.getD i 0 ≠ 0 := by
  rw [sub_ne_zero]
  exact (isIncreasing_iff.1 h i (i + 1) (by omega) hi).ne'

private theorem weight_node {i : Nat} (hi : i + 1 < axis.length) :
    weight axis i (axis.getD i 0) = 0 ∧ weight axis i (axis.getD (i + 1) 0) = 1 := by
  rw [weight_eq hi, weight_eq hi, sub_self, zero_div, div_self (step_ne_zero h hi)]
  exact ⟨rfl, rfl⟩

/-- All intervals that serve a coordinate give the same value. -/
theorem between_of_serves (v : Nat → K) {i j : Nat} {x : K} (hi : Serves axis i x) (hj : Serves axis j x) :
    between v i (weight axis i x) = between v j (weight axis j x) := by
  -- where two intervals meet, both give the value at the node
  have hle {i j : Nat} (hi : Serves axis i x) (hj : Serves axis j x) (hij : i ≤ j) :
      between v i (weight axis i x) = between v j (weight axis j x) := by
    rcases hi.eq_or_adjacent h hj hij with rfl | ⟨rfl, hlt, rfl⟩
    · rfl
    · have hj' : i + 1 + 1 < axis.length := hj.interval.resolve_left (by omega)
      rw [(weight_node h hlt).2, (weight_node h hj').1, between_one, between_zero]
  rcases le_total i j with hij | hij
  · exact hle hi hj hij
  · exact (hle hj hi hij).symm

theorem curve_eq (v : Nat → K) {i : Nat} {x : K} (hi : Serves axis i x) :
    curve axis v x = between v i (weight axis i x) := between_of_serves h v (lowerNode_serves h x) hi

private theorem weight_between {i : Nat} (hi : i + 1 < axis.length) (s : K) :
    weight axis i (between (axis.getD · 0) i s) = s := by
  rw [weight_eq hi]
  simp only [between]
  rw [add_sub_cancel_left, mul_div_cancel_left₀ _ (step_ne_zero h hi)]

private theorem between_weight {i : Nat} (hi : i + 1 < axis.length) (x : K) :
    between (axis.getD · 0) i (weight axis i x) = x := by
  rw [weight_eq hi]
  simp only [between]
  rw [mul_div_cancel₀ _ (step_ne_zero h hi), add_sub_cancel]

/-- On the axis the interval of the lower node holds the coordinate. -/
theorem Covers.lowerNode {x : K} (hx : Covers axis x) : axis.getD (lowerNode axis x) 0 ≤ x ∧
    (axis.length ≤ Axis.lowerNode axis x + 1 ∨ x ≤ axis.getD (Axis.lowerNode axis x + 1) 0) := by
  obtain ⟨⟨a, ha, hax⟩, b, hb, hxb⟩ := hx
  obtain ⟨k, hk, rfl⟩ := List.mem_iff_getElem.1 ha
  obtain ⟨l, hl, rfl⟩ := List.mem_iff_getElem.1 hb
  rw [← List.getD_eq_getElem _ 0 hk] at hax
  rw [← List.getD_eq_getElem _ 0 hl] at hxb
  have hserves := lowerNode_serves h x
  constructor
  · rcases hserves.lower with hzero | hle
    · rw [hzero]
      exact (getD_le_getD h (Nat.zero_le k) hk).trans hax
    · exact hle
  · by_cases hnext : axis.length ≤ Axis.lowerNode axis x + 1
    · exact .inl hnext
    · right
      rcases hserves.upper with hlast | hle
      · exact hxb.trans (getD_le_getD h (by omega) (by omega))
      · exact hle

theorem Covers.exists_surrounds {x : K} (hx : Covers axis x) : ∃ i j, Surrounds axis i j x := by
  obtain ⟨hlower, hupper⟩ := hx.lowerNode h
  by_cases hnext : Axis.lowerNode axis x + 1 < axis.length
  · exact ⟨_, _, .inr rfl, hnext, hlower, hupper.resolve_left (not_le.2 hnext)⟩
  · -- a single node, on which the coordinate lies
    have hzero := (lowerNode_serves h x).interval.resolve_right hnext
    obtain ⟨-, b, hb, hxb⟩ := hx
    obtain ⟨l, hl, rfl⟩ := List.mem_iff_getElem.1 hb
    have hl0 : l = 0 := by omega
    subst hl0
    rw [hzero] at hlower
    refine ⟨0, 0, .inl rfl, hl, hlower, ?_⟩
    rwa [List.getD_eq_getElem _ _ hl]

/-- The interpolation goes through the values at the nodes. -/
theorem curve_node (v : Nat → K) {i : Nat} (hi : i < axis.length) : curve axis v (axis.getD i 0) = v i := by
  by_cases hnext : i + 1 < axis.length
  · have hupper := getD_le_getD h (Nat.le_succ i) hnext
    have hserves : Serves axis i (axis.getD i 0) := ⟨.inr hnext, .inr le_rfl, .inr hupper⟩
    rw [curve_eq h v hserves, (weight_node h hnext).1, between_zero]
  · cases i with
    | zero =>
      have hserves : Serves axis 0 (axis.getD 0 0) := ⟨.inl rfl, .inl rfl, .inl (by omega)⟩
      rw [curve_eq h v hserves, weight_of_length_le (by omega), between_zero]
    | succ i =>
      have hlower := getD_le_getD h (Nat.le_succ i) hi
      have hserves : Serves axis i (axis.getD (i + 1) 0) := ⟨.inr hi, .inr hlower, .inr le_rfl⟩
      rw [curve_eq h v hserves, (weight_node h hi).2, between_one]

end

section

variable [IsStrictOrderedRing K] {axis : List K}

private theorem between_mem (v : Nat → K) (i : Nat) {s : K} (h0 : 0 ≤ s) (h1 : s ≤ 1) :
    min (v i) (v (i + 1)) ≤ between v i s ∧ between v i s ≤ max (v i) (v (i + 1)) := by
  have h1' := sub_nonneg.2 h1
  have hsum (m : K) : (1 - s) * m + s * m = m := by ring
  rw [between_eq_mix]
  constructor
  · rw [← hsum (min (v i) (v (i + 1)))]
    gcongr
    · exact min_le_left ..
    · exact min_le_right ..
  · rw [← hsum (max (v i) (v (i + 1)))]
    gcongr
    · exact le_max_left ..
    · exact le_max_right ..

theorem between_lt_between {v w : Nat → K} {i : Nat} (hlow : v i < w i) (hhigh : v (i + 1) < w (i + 1)) {s : K}
    (h0 : 0 ≤ s) (h1 : s ≤ 1) : between v i s < between w i s := by
  rw [between_eq_mix, between_eq_mix]
  rcases h0.lt_or_eq with hpos | rfl
  · have hle : (1 - s) * v i ≤ (1 - s) * w i := mul_le_mul_of_nonneg_left hlow.le (sub_nonneg.2 h1)
    exact add_lt_add_of_le_of_lt hle (mul_lt_mul_of_pos_left hhigh hpos)
  · simpa using hlow

variable (h : isIncreasing axis = true)

include h

theorem weight_nonneg {i : Nat} {x : K} (hx : axis.getD i 0 ≤ x) : 0 ≤ weight axis i x := by
  by_cases hi : i + 1 < axis.length
  · rw [weight_eq hi]
    have hd := isIncreasing_iff.1 h i (i + 1) (by omega) hi
    exact div_nonneg (sub_nonneg.2 hx) (sub_nonneg.2 hd.le)
  · rw [weight_of_length_le (not_lt.1 hi)]

theorem weight_le_one {i : Nat} {x : K} (hx : axis.length ≤ i + 1 ∨ x ≤ axis.getD (i + 1) 0) :
    weight axis i x ≤ 1 := by
  by_cases hi : i + 1 < axis.length
  · rw [weight_eq hi]
    have hd := isIncreasing_iff.1 h i (i + 1) (by omega) hi
    have hx' := hx.resolve_left (not_le.2 hi)
    rw [div_le_one (sub_pos.2 hd)]
    exact sub_le_sub_right hx' _
  · rw [weight_of_length_le (not_lt.1 hi)]
    exact zero_le_one

private theorem weight_strictMono {i : Nat} (hi : i + 1 < axis.length) : StrictMono (weight axis i) := by
  intro x y hxy
  have hd := isIncreasing_iff.1 h i (i + 1) (by omega) hi
  rw [weight_eq hi, weight_eq hi]
  exact div_lt_div_of_pos_right (sub_lt_sub_right hxy _) (sub_pos.2 hd)

/-- Between two nodes the interpolation stays between their values. -/
theorem Surrounds.curve_mem (v : Nat → K) {i j : Nat} {x : K} (hx : Surrounds axis i j x) :
    min (v i) (v j) ≤ curve axis v x ∧ curve axis v x ≤ max (v i) (v j) := by
  rcases hx.adjacent with rfl | rfl
  · obtain rfl : axis.getD j 0 = x := le_antisymm hx.lower hx.upper
    rw [curve_node h v hx.node, min_self, max_self]
    exact ⟨le_rfl, le_rfl⟩
  · rw [curve_eq h v ⟨.inr hx.node, .inr hx.lower, .inr hx.upper⟩]
    exact between_mem v i (weight_nonneg h hx.lower) (weight_le_one h (.inr hx.upper))

/-! ### Increasing values -/

section

variable {values : List K} (hv : isIncreasing values = true) (hlength : values.length = axis.length)

include hv hlength

/-- The interval of a coordinate serves the value there. -/
theorem Serves.between {i : Nat} {x : K} (hx : Serves axis i x) :
    Serves values i (between (values.getD · 0) i (weight axis i x)) := by
  have hvalues (hi : i + 1 < axis.length) : values.getD i 0 ≤ values.getD (i + 1) 0 :=
    getD_le_getD hv (Nat.le_succ i) (hlength ▸ hi)
  refine ⟨hlength ▸ hx.interval, ?_, ?_⟩
  · rcases Nat.eq_zero_or_pos i with hzero | hpos
    · exact .inl hzero
    · right
      have hi := hx.interval.resolve_left (by omega)
      have hw := weight_nonneg h (hx.lower.resolve_left (by omega))
      exact le_add_of_nonneg_right (mul_nonneg (sub_nonneg.2 (hvalues hi)) hw)
  · by_cases hlast : axis.length ≤ i + 2
    · exact .inl (hlength ▸ hlast)
    · right
      have hi : i + 1 < axis.length := by omega
      have hw := weight_le_one h (.inr (hx.upper.resolve_left hlast))
      have hstep := mul_le_of_le_one_right (sub_nonneg.2 (hvalues hi)) hw
      exact (add_le_add_right hstep _).trans_eq (add_sub_cancel ..)

variable (htwo : 2 ≤ axis.length)

include htwo

/-- Exchanging the nodes and the values inverts the interpolation, also beyond the axis. -/
theorem curve_curve (x : K) : curve values (axis.getD · 0) (curve axis (values.getD · 0) x) = x := by
  have hx := lowerNode_serves h x
  have hi := hx.next_lt htwo
  rw [curve_eq h _ hx, curve_eq hv _ (hx.between h hv hlength), weight_between hv (hlength ▸ hi), between_weight h hi]

private theorem curve_monotone : Monotone (curve axis (values.getD · 0)) := by
  intro x y hxy
  have hx := lowerNode_serves h x
  have hy := lowerNode_serves h y
  rw [curve_eq h _ hx, curve_eq h _ hy]
  have hx' := hx.between h hv hlength
  have hy' := hy.between h hv hlength
  generalize lowerNode axis x = i at *
  generalize lowerNode axis y = j at *
  rcases lt_trichotomy i j with hij | rfl | hij
  · -- the values at the nodes lie in between
    have hj := hy.interval.resolve_left (by omega)
    have hupper := hx'.upper.resolve_left (by omega)
    have hnodes := getD_le_getD hv (Nat.succ_le_of_lt hij) (by omega)
    exact (hupper.trans hnodes).trans (hy'.lower.resolve_left (by omega))
  · have hi := hx.next_lt htwo
    have hvalues : values.getD i 0 ≤ values.getD (i + 1) 0 := getD_le_getD hv (Nat.le_succ i) (hlength ▸ hi)
    have hw := (weight_strictMono h hi).monotone hxy
    exact add_le_add_right (mul_le_mul_of_nonneg_left hw (sub_nonneg.2 hvalues)) _
  · -- a later interval cannot serve a smaller coordinate, unless the two are equal
    have hi := hx.interval.resolve_left (by omega)
    have hnodes := getD_le_getD h (Nat.succ_le_of_lt hij) (by omega)
    have hyx : y ≤ x :=
      ((hy.upper.resolve_left (by omega)).trans hnodes).trans (hx.lower.resolve_left (by omega))
    obtain rfl := le_antisymm hxy hyx
    exact (between_of_serves h _ hx hy).le

theorem curve_strictMono : StrictMono (curve axis (values.getD · 0)) := by
  refine (curve_monotone h hv hlength htwo).strictMono_of_injective fun x y hxy => ?_
  rw [← curve_curve h hv hlength htwo x, hxy, curve_curve h hv hlength htwo y]

end

end

/-! ### Continuity -/

section

variable [TopologicalSpace K] [OrderTopology K] {X : Type} [TopologicalSpace X] {f : X → K}

private theorem isClosed_serves (axis : List K) (i : Nat) (hf : Continuous f) : IsClosed {x | Serves axis i (f x)} := by
  have hparts : {x | Serves axis i (f x)} = {x | i = 0 ∨ i + 1 < axis.length} ∩
      (({_x | i = 0} ∪ {x | axis.getD i 0 ≤ f x}) ∩ ({_x | axis.length ≤ i + 2} ∪ {x | f x ≤ axis.getD (i + 1) 0})) :=
    Set.ext fun x => ⟨fun hx => ⟨hx.1, hx.2, hx.3⟩, fun hx => ⟨hx.1, hx.2.1, hx.2.2⟩⟩
  rw [hparts]
  refine isClosed_const.inter (IsClosed.inter ?_ ?_)
  · exact isClosed_const.union (isClosed_le continuous_const hf)
  · exact isClosed_const.union (isClosed_le hf continuous_const)

variable [IsStrictOrderedRing K]

private theorem continuous_weight (axis : List K) (i : Nat) : Continuous (weight axis i) := by
  by_cases hi : i + 1 < axis.length
  · rw [funext (weight_eq hi)]
    exact (continuous_id.sub continuous_const).div_const _
  · rw [funext (weight_of_length_le (not_lt.1 hi))]
    exact continuous_const

/-- The interpolation is continuous in the coordinate and in the values. -/
theorem continuous_curve {axis : List K} (h : isIncreasing axis = true) {v : X → Nat → K}
    (hv : ∀ i, Continuous (v · i)) (hf : Continuous f) : Continuous fun x => curve axis (v x) (f x) := by
  -- the coordinates that an interval serves are a closed set, and on it the interpolation is that of the interval
  have hcover : ⋃ i : Fin (axis.length + 1), {x | Serves axis i (f x)} = Set.univ := by
    refine Set.eq_univ_of_forall fun x => Set.mem_iUnion.2 ?_
    have hserves := lowerNode_serves h (f x)
    have hlt : lowerNode axis (f x) < axis.length + 1 := by
      unfold lowerNode
      omega
    exact ⟨⟨lowerNode axis (f x), hlt⟩, hserves⟩
  refine (locallyFinite_of_finite _).continuous hcover (fun i => isClosed_serves axis i hf) fun i => ?_
  have hpiece : Continuous fun x => between (v x) i (weight axis i (f x)) :=
    (hv i).add (((hv (i + 1)).sub (hv i)).mul ((continuous_weight axis i).comp hf))
  exact hpiece.continuousOn.congr fun x hx => curve_eq h (v x) hx

end

end Axis

end BlackOilWells
