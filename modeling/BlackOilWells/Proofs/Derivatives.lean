import Mathlib
import BlackOilWells.Fluid.Phase
import BlackOilWells.Numeric.Coupled
import BlackOilWells.Proofs.Exact

/-!
# Derivatives of differentiable values

Over the reals, the partial derivatives that a `Dual` carries are those of its value.  A differentiable value depends on
a point of some space; each of its directions is a coordinate of that space, and its partial derivatives give the linear
map `Dual.slope`.  The value `Tracks` its derivatives at a point if it has this linear map as its derivative there.

Constants and coordinates track their derivatives, and so does what the arithmetic makes of values that do
(`Tracks.add`, `Tracks.mul`, `Tracks.div`, `Tracks.chain`); powers and roots have the slopes of the real functions
(`Dual.pow_eq`, `Dual.sqrt_eq`).  Where a test on values chooses between two expressions, the choice does not change
near a point at which the two sides of the test differ (`eventually_lt_iff`, `Tracks.ite`).

The values of a well depend on three unknowns of a cell and three of the well.  Where these are themselves functions of
a point, `frame` gives the six coordinates.
-/

namespace BlackOilWells

open Filter Topology

variable {E : Type} [NormedAddCommGroup E] [NormedSpace ℝ E] {n : Nat} {c : Fin n → E →L[ℝ] ℝ} {x : E}

/-! ### Tests -/

omit [NormedSpace ℝ E] in
/-- A comparison of continuous values that differ does not change nearby. -/
theorem eventually_lt_iff {f g : E → ℝ} (hf : ContinuousAt f x) (hg : ContinuousAt g x) (h : f x ≠ g x) :
    ∀ᶠ q in 𝓝 x, (f q < g q ↔ f x < g x) := by
  rcases lt_or_gt_of_ne h with h | h
  · filter_upwards [hf.eventually_lt hg h] with q hq
    exact iff_of_true hq h
  · filter_upwards [hg.eventually_lt hf h] with q hq
    exact iff_of_false hq.not_gt h.not_gt

/-! ### Partial derivatives -/

namespace Dual

section

variable {i : Nat} (h : i < n)

theorem partials_const {K : Type} [Field K] [LinearOrder K] (k : K) : (const k : Dual K n).partials[i] = 0 :=
  Vector.getElem_replicate h

theorem partials_zero {K : Type} [Field K] [LinearOrder K] : (0 : Dual K n).partials[i] = 0 := partials_const h 0

theorem partials_seed (k : ℝ) (j : Fin n) : (seed k j : Dual ℝ n).partials[i] = if ⟨i, h⟩ = j then 1 else 0 :=
  Vector.getElem_ofFn h

theorem partials_chain (d : Dual ℝ n) (k s : ℝ) : (d.chain k s).partials[i] = d.partials[i] * s :=
  Vector.getElem_map _ h

theorem partials_add (d e : Dual ℝ n) : (d + e).partials[i] = d.partials[i] + e.partials[i] := Vector.getElem_zipWith h

theorem partials_sub (d e : Dual ℝ n) : (d - e).partials[i] = d.partials[i] - e.partials[i] := Vector.getElem_zipWith h

theorem partials_mul (d e : Dual ℝ n) : (d * e).partials[i] = d.partials[i] * e.value + d.value * e.partials[i] :=
  Vector.getElem_zipWith h

theorem partials_div (d e : Dual ℝ n) :
    (d / e).partials[i] = (d.partials[i] * e.value - d.value * e.partials[i]) * (1 / e.value) * (1 / e.value) :=
  Vector.getElem_zipWith h

end

/-! ### The derivative that a value carries -/

/-- The linear map of the partial derivatives, where each direction is a coordinate. -/
def slope (c : Fin n → E →L[ℝ] ℝ) (d : Dual ℝ n) : E →L[ℝ] ℝ := ∑ i : Fin n, d.partials[i.val] • c i

theorem slope_apply (d : Dual ℝ n) (v : E) : slope c d v = ∑ i : Fin n, d.partials[i.val] * c i v := by
  rw [slope, sum_apply]
  rfl

theorem slope_const (k : ℝ) : slope c (const k) = 0 := by
  simp only [slope, partials_const, zero_smul, Finset.sum_const_zero]

theorem slope_seed (k : ℝ) (j : Fin n) : slope c (seed k j) = c j := by
  simp only [slope, partials_seed, ite_smul, one_smul, zero_smul, Finset.sum_ite_eq', Finset.mem_univ, if_true]

theorem slope_chain (d : Dual ℝ n) (k s : ℝ) : slope c (d.chain k s) = s • slope c d := by
  rw [slope, slope, Finset.smul_sum]
  refine Finset.sum_congr rfl fun i _ => ?_
  rw [partials_chain, mul_comm, mul_smul]

theorem slope_add (d e : Dual ℝ n) : slope c (d + e) = slope c d + slope c e := by
  simp only [slope, partials_add, add_smul, Finset.sum_add_distrib]

theorem slope_sub (d e : Dual ℝ n) : slope c (d - e) = slope c d - slope c e := by
  ext v
  simp only [slope_apply, partials_sub, sub_mul, Finset.sum_sub_distrib, sub_apply]

theorem slope_mul (d e : Dual ℝ n) : slope c (d * e) = d.value • slope c e + e.value • slope c d := by
  ext v
  simp only [slope_apply, add_apply, smul_apply, smul_eq_mul, Finset.mul_sum, ← Finset.sum_add_distrib]
  refine Finset.sum_congr rfl fun i _ => ?_
  rw [partials_mul]
  ring

theorem slope_div (d e : Dual ℝ n) (h : e.value ≠ 0) :
    slope c (d / e) = d.value • (-(e.value ^ 2)⁻¹ • slope c e) + e.value⁻¹ • slope c d := by
  ext v
  simp only [slope_apply, add_apply, smul_apply, smul_eq_mul, Finset.mul_sum, ← Finset.sum_add_distrib]
  refine Finset.sum_congr rfl fun i _ => ?_
  rw [partials_div]
  field_simp
  ring

end Dual

/-! ### Powers, roots and exponentials -/

/-- The real numbers with their square root and exponential. -/
noncomputable instance realScalar : ElementaryScalar ℝ where
  sqrt := Real.sqrt
  exp := Real.exp

/-- Above the least exponent, the exponent of the slope of a power does not wrap around. -/
private theorem toInt_sub_one {k : Int32} (h : Int32.minValue < k) : (k - 1).toInt = k.toInt - 1 := by
  have hlt := k.toInt_lt
  rw [Int32.lt_iff_toInt_lt, Int32.toInt_minValue] at h
  rw [Int32.toInt_sub, Int32.toInt_one, Int.bmod_eq_of_le]
  all_goals omega

namespace Dual

theorem pow_eq (d : Dual ℝ n) {k : Int32} (hk : Int32.minValue < k) :
    d.pow k = d.chain (d.value ^ k.toInt) (k.toInt * d.value ^ (k.toInt - 1)) := by
  have hslope : (if k = 0 then (0 : ℝ) else Scalar.ofInt k.toInt * Scalar.powInt d.value (k - 1).toInt) =
      k.toInt * d.value ^ (k.toInt - 1) := by
    by_cases hzero : k = 0
    · rw [if_pos hzero, hzero, Int32.toInt_zero, Int.cast_zero, zero_mul]
    · rw [if_neg hzero, Scalar.ofInt_exact, Scalar.powInt_exact, toInt_sub_one hk]
  rw [← hslope, ← Scalar.powInt_exact]
  rfl

theorem sqrt_eq (d : Dual ℝ n) : d.sqrt = d.chain √d.value (1 / (2 * √d.value)) := by
  have hslope : 0.5 / √d.value = 1 / (2 * √d.value) := by
    rw [← div_div]
    norm_num
  rw [← hslope]
  rfl

end Dual

/-! ### Tracking -/

/-- Whether the partial derivatives of a value are its derivatives at a point. -/
def Tracks (c : Fin n → E →L[ℝ] ℝ) (F : E → Dual ℝ n) (x : E) : Prop :=
  HasFDerivAt (fun q => (F q).value) (Dual.slope c (F x)) x

namespace Tracks

variable {F G : E → Dual ℝ n}

theorem continuousAt (h : Tracks c F x) : ContinuousAt (fun q => (F q).value) x := HasFDerivAt.continuousAt h

theorem congr (hG : Tracks c G x) (h : ∀ᶠ q in 𝓝 x, F q = G q) : Tracks c F x := by
  unfold Tracks
  rw [h.self_of_nhds]
  exact HasFDerivAt.congr_of_eventuallyEq hG (h.mono fun q hq => congrArg Dual.value hq)

theorem const (k : ℝ) : Tracks c (fun _ => .const k) x := by
  unfold Tracks
  rw [Dual.slope_const]
  exact hasFDerivAt_const k x

theorem seed {f : E → ℝ} (j : Fin n) (hf : HasFDerivAt f (c j) x) : Tracks c (fun q => .seed (f q) j) x := by
  unfold Tracks
  rw [Dual.slope_seed]
  exact hf

theorem add (hF : Tracks c F x) (hG : Tracks c G x) : Tracks c (fun q => F q + G q) x := by
  unfold Tracks
  rw [Dual.slope_add]
  exact HasFDerivAt.add hF hG

theorem sub (hF : Tracks c F x) (hG : Tracks c G x) : Tracks c (fun q => F q - G q) x := by
  unfold Tracks
  rw [Dual.slope_sub]
  exact HasFDerivAt.sub hF hG

theorem mul (hF : Tracks c F x) (hG : Tracks c G x) : Tracks c (fun q => F q * G q) x := by
  unfold Tracks
  rw [Dual.slope_mul]
  exact HasFDerivAt.mul hF hG

/-- A function of the value, with its slope as the factor of the partial derivatives. -/
theorem chain {f : ℝ → ℝ} {s : ℝ} (hF : Tracks c F x) (hf : HasDerivAt f s (F x).value)
    (hG : ∀ᶠ q in 𝓝 x, (G q).value = f (F q).value) (hx : G x = (F x).chain (f (F x).value) s) : Tracks c G x := by
  unfold Tracks
  rw [hx, Dual.slope_chain]
  exact (hf.comp_hasFDerivAt x hF).congr_of_eventuallyEq hG

/-- The choice of a test that does not change. -/
theorem ite {P : E → Prop} [DecidablePred P] (hP : ∀ᶠ q in 𝓝 x, (P q ↔ P x)) (hF : P x → Tracks c F x)
    (hG : ¬P x → Tracks c G x) : Tracks c (fun q => if P q then F q else G q) x := by
  by_cases h : P x
  · refine (hF h).congr (hP.mono fun q hq => ?_)
    exact if_pos (hq.2 h)
  · refine (hG h).congr (hP.mono fun q hq => ?_)
    exact if_neg (mt hq.1 h)

theorem neg (hF : Tracks c F x) : Tracks c (fun q => -F q) x :=
  hF.chain (hasDerivAt_neg _) (.of_forall fun _ => rfl) rfl

theorem add_scalar (hF : Tracks c F x) (k : ℝ) : Tracks c (fun q => F q + k) x :=
  HasFDerivAt.add_const k hF

theorem sub_scalar (hF : Tracks c F x) (k : ℝ) : Tracks c (fun q => F q - k) x :=
  HasFDerivAt.sub_const k hF

theorem mul_scalar (hF : Tracks c F x) (k : ℝ) : Tracks c (fun q => F q * k) x :=
  hF.chain ((hasDerivAt_id _).mul_const k) (.of_forall fun _ => rfl) (by rw [one_mul]; rfl)

theorem div_scalar (hF : Tracks c F x) (k : ℝ) : Tracks c (fun q => F q / k) x :=
  hF.chain ((hasDerivAt_id _).div_const k) (.of_forall fun _ => rfl) rfl

theorem scalar_sub (hF : Tracks c F x) (k : ℝ) : Tracks c (fun q => k - F q) x := hF.neg.add_scalar k

theorem abs (hF : Tracks c F x) (h : (F x).value ≠ 0) : Tracks c (fun q => (F q).abs) x :=
  .ite (eventually_lt_iff hF.continuousAt continuousAt_const h) (fun _ => hF.neg) fun _ => hF

theorem div (hF : Tracks c F x) (hG : Tracks c G x) (h : (G x).value ≠ 0) : Tracks c (fun q => F q / G q) x := by
  have hinv : HasFDerivAt (fun q => ((G q).value)⁻¹) (-((G x).value ^ 2)⁻¹ • Dual.slope c (G x)) x :=
    (hasDerivAt_inv h).comp_hasFDerivAt x hG
  unfold Tracks
  rw [Dual.slope_div _ _ h]
  exact (HasFDerivAt.mul hF hinv).congr_of_eventuallyEq (.of_forall fun q => congrArg _ (one_div _))

theorem min (hF : Tracks c F x) (hG : Tracks c G x) (h : (F x).value ≠ (G x).value) :
    Tracks c (fun q => (F q).min (G q)) x :=
  .ite (eventually_lt_iff hG.continuousAt hF.continuousAt h.symm) (fun _ => hG) fun _ => hF

theorem max (hF : Tracks c F x) (hG : Tracks c G x) (h : (F x).value ≠ (G x).value) :
    Tracks c (fun q => (F q).max (G q)) x :=
  .ite (eventually_lt_iff hF.continuousAt hG.continuousAt h) (fun _ => hG) fun _ => hF

theorem pow (hF : Tracks c F x) {k : Int32} (hk : Int32.minValue < k) (h : k < 0 → (F x).value ≠ 0) :
    Tracks c (fun q => (F q).pow k) x := by
  have hbase : (F x).value ≠ 0 ∨ 0 ≤ k.toInt := by
    by_cases hneg : k < 0
    · exact .inl (h hneg)
    · rw [Int32.lt_iff_toInt_lt, Int32.toInt_zero] at hneg
      exact .inr (not_lt.1 hneg)
  exact hF.chain (hasDerivAt_zpow k.toInt _ hbase) (.of_forall fun _ => Scalar.powInt_exact ..) (Dual.pow_eq _ hk)

theorem sqrt (hF : Tracks c F x) (h : 0 < (F x).value) : Tracks c (fun q => (F q).sqrt) x :=
  hF.chain (Real.hasDerivAt_sqrt h.ne') (.of_forall fun _ => rfl) (Dual.sqrt_eq _)

theorem exp (hF : Tracks c F x) : Tracks c (fun q => (F q).exp) x :=
  hF.chain (Real.hasDerivAt_exp _) (.of_forall fun _ => rfl) rfl

theorem zero : Tracks c (fun _ => 0) x := .const 0

theorem foldl_add {ι : Type} {H : ι → E → Dual ℝ n} {l : List ι} (hF : Tracks c F x)
    (hH : ∀ i ∈ l, Tracks c (H i) x) : Tracks c (fun q => (l.map (H · q)).foldl (· + ·) (F q)) x := by
  induction l generalizing F with
  | nil => exact hF
  | cons i l ih =>
    exact ih (hF.add (hH i (List.mem_cons_self ..))) fun j hj => hH j (List.mem_cons_of_mem i hj)

theorem sum_value {ι : Type} {l : List ι} {H : ι → E → Dual ℝ n} {c : ι → Fin n → E →L[ℝ] ℝ}
    (h : ∀ i ∈ l, Tracks (c i) (H i) x) :
    HasFDerivAt (fun q => (l.map fun i => (H i q).value).sum) (l.map fun i => (H i x).slope (c i)).sum x := by
  induction l with
  | nil => exact hasFDerivAt_const 0 x
  | cons i l ih =>
    exact HasFDerivAt.add (h i (List.mem_cons_self ..)) (ih fun j hj => h j (List.mem_cons_of_mem i hj))

end Tracks

/-- Whether an outcome is a value near a point, and the value tracks its derivatives there. -/
def TracksOk {ε : Type} (c : Fin n → E →L[ℝ] ℝ) (F : E → Except ε (Dual ℝ n)) (x : E) : Prop :=
  ∃ G, (∀ᶠ q in 𝓝 x, F q = .ok (G q)) ∧ Tracks c G x

/-! ### Quantities by phase -/

/-- Whether the values of all phases track their derivatives. -/
def TracksAll (c : Fin n → E →L[ℝ] ℝ) (Q : E → PerPhase (Dual ℝ n)) (x : E) : Prop :=
  ∀ p, Tracks c (fun q => (Q q).get p) x

namespace TracksAll

variable {Q R : E → PerPhase (Dual ℝ n)}

theorem mk {W O G : E → Dual ℝ n} (hW : Tracks c W x) (hO : Tracks c O x) (hG : Tracks c G x) :
    TracksAll c (fun q => ⟨W q, O q, G q⟩) x := by
  intro p
  cases p with
  | water => exact hW
  | oil => exact hO
  | gas => exact hG

theorem zero : TracksAll c (fun _ => .replicate 0) x := by
  intro p
  simp only [PerPhase.get_replicate]
  exact .zero

theorem map {f : E → Dual ℝ n → Dual ℝ n} (hf : ∀ p, Tracks c (fun q => f q ((Q q).get p)) x) :
    TracksAll c (fun q => (Q q).map (f q)) x := by
  intro p
  simp only [PerPhase.get_map]
  exact hf p

theorem select (phases : PhaseSet) (hQ : ∀ p, phases.isActive p = true → Tracks c (fun q => (Q q).get p) x) :
    TracksAll c (fun q => phases.select (Q q) (.replicate 0)) x := by
  intro p
  simp only [PhaseSet.select, PerPhase.get_ofFn, PerPhase.get_replicate]
  by_cases hp : phases.isActive p = true
  · simp only [if_pos hp]
    exact hQ p hp
  · simp only [if_neg hp]
    exact .zero

theorem select_ofFn (phases : PhaseSet) {f : Phase → E → Dual ℝ n}
    (hf : ∀ p, phases.isActive p = true → Tracks c (f p) x) :
    TracksAll c (fun q => phases.select (.ofFn (f · q)) (.replicate 0)) x := by
  refine .select phases fun p hp => ?_
  simp only [PerPhase.get_ofFn]
  exact hf p hp

theorem total {phases : PhaseSet} (hQ : ∀ p, phases.isActive p = true → Tracks c (fun q => (Q q).get p) x) :
    Tracks c (fun q => phases.total (Q q)) x :=
  Tracks.zero.foldl_add fun p hp => hQ p (List.mem_filter.1 hp).2

end TracksAll

/-! ### Cell and well unknowns -/

/-- The linear form of a row of partial derivatives. -/
noncomputable def Vec3.form (r : Vec3 ℝ) : (Fin 3 → ℝ) →L[ℝ] ℝ :=
  r.x • ContinuousLinearMap.proj 0 + r.y • ContinuousLinearMap.proj 1 + r.z • ContinuousLinearMap.proj 2

/-- The coordinates of the directions of a `WellDual`, when the cell unknowns depend on the point as `a` and the well
unknowns as `b`. -/
noncomputable def frame (a b : E →L[ℝ] Fin 3 → ℝ) (i : Fin 6) : E →L[ℝ] ℝ :=
  if h : i.val < 3 then (ContinuousLinearMap.proj ⟨i.val, h⟩).comp a
  else (ContinuousLinearMap.proj ⟨i.val - 3, by omega⟩).comp b

theorem Vec3.form_apply (r : Vec3 ℝ) (v : Fin 3 → ℝ) : r.form v = r.x * v 0 + r.y * v 1 + r.z * v 2 := rfl

theorem Vec3.form_zero : (0 : Vec3 ℝ).form = 0 := by
  ext1 v
  rw [Vec3.form_apply]
  simp

theorem Vec3.form_add (r s : Vec3 ℝ) : (r + s).form = r.form + s.form := by
  ext1 v
  simp only [add_apply, Vec3.form_apply, Vec3.add_x, Vec3.add_y, Vec3.add_z]
  ring

theorem Vec3.form_sub (r s : Vec3 ℝ) : (r - s).form = r.form - s.form := by
  rw [eq_sub_iff_add_eq, ← Vec3.form_add, sub_add_cancel]

theorem Vec3.form_neg (r : Vec3 ℝ) : (-r).form = -r.form := by
  rw [eq_neg_iff_add_eq_zero, ← Vec3.form_add, neg_add_cancel, Vec3.form_zero]

variable {a b : E →L[ℝ] Fin 3 → ℝ}

theorem slope_frame (d : WellDual ℝ) : d.slope (frame a b) = d.byCell.form.comp a + d.byWell.form.comp b := by
  ext v
  rw [Dual.slope_apply, Fin.sum_univ_six]
  simp [frame, Vec3.form, WellDual.byCell, WellDual.byWell]
  ring

theorem byCell_zero {K : Type} [Field K] [LinearOrder K] : (0 : WellDual K).byCell = 0 := by
  ext <;> exact Dual.partials_zero (by omega)

theorem byWell_zero {K : Type} [Field K] [LinearOrder K] : (0 : WellDual K).byWell = 0 := by
  ext <;> exact Dual.partials_zero (by omega)

theorem byWell_const (k : ℝ) : WellDual.byWell (.const k) = 0 := by
  ext <;> exact Dual.partials_const (by omega) k

theorem byWell_ofCell (d : CellDual ℝ) : (WellDual.ofCell d).byWell = 0 := by
  ext <;> exact Vector.getElem_ofFn (by omega)

theorem byWell_add (d e : WellDual ℝ) : WellDual.byWell (d + e) = d.byWell + e.byWell := by
  ext <;> exact Dual.partials_add (by omega) d e

theorem byWell_sub (d e : WellDual ℝ) : WellDual.byWell (d - e) = d.byWell - e.byWell := by
  ext <;> exact Dual.partials_sub (by omega) d e

theorem byWell_chain (d : WellDual ℝ) (k s : ℝ) : WellDual.byWell (d.chain k s) = d.byWell.scale s := by
  ext <;> exact Dual.partials_chain (by omega) d k s

theorem byWell_mul (d e : WellDual ℝ) :
    WellDual.byWell (d * e) = d.byWell.scale e.value + e.byWell.scale d.value := by
  ext <;> exact (Dual.partials_mul (by omega) d e).trans (congrArg _ (mul_comm _ _))

theorem byWell_div (d e : WellDual ℝ) : WellDual.byWell (d / e) =
    (d.byWell.scale e.value - e.byWell.scale d.value).scale (1 / e.value * (1 / e.value)) := by
  ext <;> exact (Dual.partials_div (by omega) d e).trans (by rw [mul_assoc, mul_comm d.value]; rfl)

/-- The slope of what is left of a value when others are subtracted, where each depends on other cell unknowns and all
depend on the same well unknowns. -/
theorem slope_sub_sum {ι : Type} (l : List ι) (a : ι → E →L[ℝ] Fin 3 → ℝ) (d : ι → WellDual ℝ) (e : WellDual ℝ) :
    e.slope (frame 0 b) - (l.map fun i => (d i).slope (frame (a i) b)).sum =
      (l.map fun i => (0 - (d i).byCell).form.comp (a i)).sum +
        (e.byWell - (l.map fun i => (d i).byWell).sum).form.comp b := by
  induction l with
  | nil => simp only [List.map_nil, List.sum_nil, sub_zero, zero_add, slope_frame, ContinuousLinearMap.comp_zero]
  | cons i l ih =>
    -- the part of the cell unknowns is its own summand, that of the well unknowns joins the row of the others
    have ha : (0 - (d i).byCell).form.comp (a i) = -(d i).byCell.form.comp (a i) := by
      rw [zero_sub, Vec3.form_neg, ContinuousLinearMap.neg_comp]
    have hb (B : Vec3 ℝ) : (e.byWell - ((d i).byWell + B)).form.comp b =
        (e.byWell - B).form.comp b - (d i).byWell.form.comp b := by
      rw [add_comm, ← sub_sub, Vec3.form_sub, ContinuousLinearMap.sub_comp]
    rw [List.map_cons, List.sum_cons, sub_add_eq_sub_sub_swap, ih, slope_frame, List.map_cons, List.sum_cons, ha,
      List.map_cons, List.sum_cons, hb]
    abel

theorem Tracks.seedWell (j : Fin 3) : Tracks (frame a b) (fun q => WellDual.seedWell (b q j) j) x := by
  have hj : frame a b ⟨3 + j.val, by omega⟩ = (ContinuousLinearMap.proj j).comp b := by
    simp [frame]
  refine .seed _ ?_
  rw [hj]
  exact ((ContinuousLinearMap.proj j).comp b).hasFDerivAt

theorem Tracks.ofCell {F : (Fin 3 → ℝ) → CellDual ℝ} (hF : Tracks ContinuousLinearMap.proj F (a x)) :
    Tracks (frame a b) (fun q => WellDual.ofCell (F (a q))) x := by
  have hs : Dual.slope (frame a b) (WellDual.ofCell (F (a x))) =
      (Dual.slope ContinuousLinearMap.proj (F (a x))).comp a := by
    ext v
    rw [ContinuousLinearMap.comp_apply, Dual.slope_apply, Dual.slope_apply, Fin.sum_univ_six, Fin.sum_univ_three]
    simp [frame, WellDual.ofCell]
  unfold Tracks
  rw [hs]
  exact HasFDerivAt.comp x hF a.hasFDerivAt

/-! ### The unknowns of a reservoir and a well -/

/-- The unknowns of the cells of a reservoir and of a well. -/
abbrev Point (n : Nat) := (Fin n → Fin 3 → ℝ) × (Fin 3 → ℝ)

/-- The unknowns of a cell; there are none outside of the reservoir. -/
noncomputable def cellPart (n k : Nat) : Point n →L[ℝ] Fin 3 → ℝ :=
  if h : k < n then (ContinuousLinearMap.proj ⟨k, h⟩).comp (ContinuousLinearMap.fst ℝ _ _) else 0

/-- The unknowns of the well. -/
noncomputable def wellPart (n : Nat) : Point n →L[ℝ] Fin 3 → ℝ := ContinuousLinearMap.snd ℝ _ _

theorem cellPart_apply {n : Nat} (i : Fin n) (q : Point n) : cellPart n i.val q = q.1 i := by
  rw [cellPart, dif_pos i.isLt]
  rfl

end BlackOilWells
