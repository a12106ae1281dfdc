import Mathlib
import BlackOilWells.Numeric.Expression
import BlackOilWells.Proofs.Derivatives

/-!
# Derivatives of expressions

Forward differentiation is exact over the reals.  An expression in differentiable values has a meaning as a real number
(`Expression.value`) and, over functions of some unknowns, as a function of the unknowns.  At a point at which each of
its operations is differentiable (`Expression.Regular`), the value that the arithmetic computes for it is the value of
the function and the partial derivatives are those of the function (`Expression.eval_isExactAt`).

* An update in place gives what the operation gives (`Operator.run_assign`, `ScalarUpdate.run_assign`).
* The values follow the real operations at every point (`Expression.value_eval`).
* One operation keeps that a value tracks its derivatives (`Tracks.apply` and the rules for single functions), and so an
  expression does (`Expression.tracks_eval`).
* A partial derivative is the derivative along a coordinate line, so the values are tracked along such a line
  (`Leaf.tracks_along`).
* What is computed from values of a cell does not depend on the well (`Expression.eval_ofCell`).
-/

namespace BlackOilWells

variable {n : Nat}

/-! ### Updates in place -/

section

variable {α ι : Type}

theorem Operator.run_assign [Scalar α] (op : Operator) (d e : Dual α n) :
    (op.assign e).run d = ((), op.apply d e) := by
  cases op <;> rfl

theorem ScalarUpdate.run_assign [Scalar α] (op : ScalarUpdate) (d : Dual α n) (k : α) :
    (op.assign k).run d = ((), op.operator.apply d k) := by
  cases op <;> rfl

namespace Expression

variable [ElementaryScalar α] (ρ : ι → Dual α n)

private theorem eval_update (op : Operator) (a b : Expression α ι) :
    (update op a b).eval ρ = op.apply (a.eval ρ) (b.eval ρ) :=
  congrArg Prod.snd (op.run_assign _ _)

private theorem eval_updateScalar (op : ScalarUpdate) (a : Expression α ι) (k : α) :
    (updateScalar op a k).eval ρ = op.operator.apply (a.eval ρ) k :=
  congrArg Prod.snd (op.run_assign _ _)

end Expression

end

/-! ### Values -/

namespace Operator

private theorem value_apply (op : Operator) (d e : Dual ℝ n) :
    (op.apply d e : Dual ℝ n).value = op.apply d.value e.value := by
  cases op with
  | add => rfl
  | sub => rfl
  | mul => rfl
  | div => exact Dual.value_div d e

private theorem value_apply_scalar (op : Operator) (d : Dual ℝ n) (k : ℝ) :
    (op.apply d k : Dual ℝ n).value = op.apply d.value k := by
  cases op <;> rfl

private theorem value_scalar_apply (op : Operator) (k : ℝ) (d : Dual ℝ n) :
    (op.apply k d : Dual ℝ n).value = op.apply k d.value := by
  cases op with
  | add => exact add_comm _ _
  | sub => exact neg_add_eq_sub _ _
  | mul => exact mul_comm _ _
  | div => exact Dual.value_div (.const k) d

end Operator

namespace Expression

variable {ι : Type}

/-- The real number that an expression stands for. -/
noncomputable def value (v : ι → ℝ) : Expression ℝ ι → ℝ
  | leaf i => v i
  | const k => k
  | neg a => -a.value v
  | abs a => |a.value v|
  | sqrt a => √(a.value v)
  | exp a => Real.exp (a.value v)
  | pow a k => a.value v ^ k.toInt
  | min a b => Min.min (a.value v) (b.value v)
  | max a b => Max.max (a.value v) (b.value v)
  | binary op a b => op.apply (a.value v) (b.value v)
  | scalarRight op a k => op.apply (a.value v) k
  | scalarLeft op k a => op.apply k (a.value v)
  | update op a b => op.apply (a.value v) (b.value v)
  | updateScalar op a k => op.operator.apply (a.value v) k

theorem value_eval (e : Expression ℝ ι) (ρ : ι → Dual ℝ n) : (e.eval ρ).value = e.value fun i => (ρ i).value := by
  induction e with
  | leaf i => rfl
  | const k => rfl
  | neg a ih => exact congrArg _ ih
  | abs a ih =>
    rw [eval, value, ← ih, Dual.value_abs]
    split
    · exact (abs_of_neg ‹_›).symm
    · exact (abs_of_nonneg (not_lt.1 ‹_›)).symm
  | sqrt a ih => exact congrArg Real.sqrt ih
  | exp a ih => exact congrArg Real.exp ih
  | pow a k ih =>
    rw [eval, value, ← ih]
    exact Scalar.powInt_exact ..
  | min a b iha ihb => rw [eval, value, ← iha, ← ihb, Dual.value_min]
  | max a b iha ihb => rw [eval, value, ← iha, ← ihb, Dual.value_max]
  | binary op a b iha ihb => rw [eval, value, ← iha, ← ihb, op.value_apply]
  | scalarRight op a k ih => rw [eval, value, ← ih, op.value_apply_scalar]
  | scalarLeft op k a ih => rw [eval, value, ← ih, op.value_scalar_apply]
  | update op a b iha ihb => rw [eval_update, value, ← iha, ← ihb, op.value_apply]
  | updateScalar op a k ih => rw [eval_updateScalar, value, ← ih, op.operator.value_apply_scalar]

end Expression

/-! ### Derivatives -/

section

variable {E : Type} [NormedAddCommGroup E] [NormedSpace ℝ E] {c : Fin n → E →L[ℝ] ℝ} {x : E} {F G : E → Dual ℝ n}

namespace Tracks

theorem apply (op : Operator) (hF : Tracks c F x) (hG : Tracks c G x) (h : op = .div → (G x).value ≠ 0) :
    Tracks c (fun q => op.apply (F q) (G q)) x := by
  cases op with
  | add => exact hF.add hG
  | sub => exact hF.sub hG
  | mul => exact hF.mul hG
  | div => exact hF.div hG (h rfl)

private theorem apply_scalar (op : Operator) (hF : Tracks c F x) (k : ℝ) : Tracks c (fun q => op.apply (F q) k) x := by
  cases op with
  | add => exact hF.add_scalar k
  | sub => exact hF.sub_scalar k
  | mul => exact hF.mul_scalar k
  | div => exact hF.div_scalar k

private theorem scalar_apply (op : Operator) (k : ℝ) (hF : Tracks c F x) (h : op = .div → (F x).value ≠ 0) :
    Tracks c (fun q => op.apply k (F q)) x := by
  cases op with
  | add => exact hF.add_scalar k
  | sub => exact hF.scalar_sub k
  | mul => exact hF.mul_scalar k
  | div => exact (Tracks.const k).div hF (h rfl)

end Tracks

namespace Expression

variable {ι : Type}

/-- Whether every operation of an expression is defined and differentiable where its leaves have given values: no
divisor and no argument of a magnitude is zero, no argument of a root is zero or negative, no zero has a negative
exponent, no exponent is the least one, and no choice is between equal values. -/
def Regular (v : ι → ℝ) : Expression ℝ ι → Prop
  | leaf _ => True
  | const _ => True
  | neg a => a.Regular v
  | abs a => a.Regular v ∧ a.value v ≠ 0
  | sqrt a => a.Regular v ∧ 0 < a.value v
  | exp a => a.Regular v
  | pow a k => a.Regular v ∧ Int32.minValue < k ∧ (k < 0 → a.value v ≠ 0)
  | min a b => a.Regular v ∧ b.Regular v ∧ a.value v ≠ b.value v
  | max a b => a.Regular v ∧ b.Regular v ∧ a.value v ≠ b.value v
  | binary op a b => a.Regular v ∧ b.Regular v ∧ (op = .div → b.value v ≠ 0)
  | scalarRight op a k => a.Regular v ∧ (op = .div → k ≠ 0)
  | scalarLeft op _ a => a.Regular v ∧ (op = .div → a.value v ≠ 0)
  | update op a b => a.Regular v ∧ b.Regular v ∧ (op = .div → b.value v ≠ 0)
  | updateScalar _ a _ => a.Regular v

/-- An expression over values that track their derivatives tracks its derivatives. -/
theorem tracks_eval (e : Expression ℝ ι) {ρ : E → ι → Dual ℝ n} (hρ : ∀ i, Tracks c (fun q => ρ q i) x)
    (he : e.Regular fun i => (ρ x i).value) : Tracks c (fun q => e.eval (ρ q)) x := by
  -- regularity speaks of the real values, the rules of the computed ones
  have hvalue (a : Expression ℝ ι) : (a.eval (ρ x)).value = a.value fun i => (ρ x i).value := a.value_eval _
  induction e with
  | leaf i => exact hρ i
  | const k => exact .const k
  | neg a ih => exact (ih he).neg
  | abs a ih =>
    obtain ⟨ha, h⟩ := he
    exact (ih ha).abs (by rwa [hvalue])
  | sqrt a ih =>
    obtain ⟨ha, h⟩ := he
    exact (ih ha).sqrt (by rwa [hvalue])
  | exp a ih => exact (ih he).exp
  | pow a k ih =>
    obtain ⟨ha, hk, h⟩ := he
    exact (ih ha).pow hk (by rwa [hvalue])
  | min a b iha ihb =>
    obtain ⟨ha, hb, h⟩ := he
    exact (iha ha).min (ihb hb) (by rwa [hvalue, hvalue])
  | max a b iha ihb =>
    obtain ⟨ha, hb, h⟩ := he
    exact (iha ha).max (ihb hb) (by rwa [hvalue, hvalue])
  | binary op a b iha ihb =>
    obtain ⟨ha, hb, h⟩ := he
    exact (iha ha).apply op (ihb hb) (by rwa [hvalue])
  | scalarRight op a k ih => exact (ih he.1).apply_scalar op k
  | scalarLeft op k a ih =>
    obtain ⟨ha, h⟩ := he
    exact (ih ha).scalar_apply op k (by rwa [hvalue])
  | update op a b iha ihb =>
    obtain ⟨ha, hb, h⟩ := he
    simp only [eval_update]
    exact (iha ha).apply op (ihb hb) (by rwa [hvalue])
  | updateScalar op a k ih =>
    simp only [eval_updateScalar]
    exact (ih he).apply_scalar op.operator k

end Expression

end

/-! ### Partial derivatives -/

/-- Whether numbers are the partial derivatives of a function at a point: the derivatives along the coordinate lines. -/
def ArePartials (f : (Fin n → ℝ) → ℝ) (partials : Vector ℝ n) (x : Fin n → ℝ) : Prop :=
  ∀ i : Fin n, HasLineDerivAt ℝ f (partials.get i) x (Pi.single i 1)

/-- Whether a differentiable value has the value and the partial derivatives of a function at a point. -/
structure Dual.IsExactAt (d : Dual ℝ n) (f : (Fin n → ℝ) → ℝ) (x : Fin n → ℝ) : Prop where
  value : d.value = f x
  partials : ArePartials f d.partials x

/-- What an expression in `n` unknowns is built on: the unknowns, and functions of them that come with their partial
derivatives. -/
inductive Leaf (n : Nat) where
  | seed (slot : Fin n)
  | given (f : (Fin n → ℝ) → ℝ) (partials : Vector ℝ n)

/-- The coordinates of the points `x + t • v` of a line as functions of `t`. -/
noncomputable def along (v : Fin n → ℝ) (i : Fin n) : ℝ →L[ℝ] ℝ := .toSpanSingleton ℝ (v i)

private theorem slope_along (i : Fin n) (d : Dual ℝ n) : d.slope (along (Pi.single i 1)) 1 = d.partials.get i := by
  rw [Dual.slope_apply, Finset.sum_eq_single i]
  · simp [along, Vector.get_eq_getElem]
  · intro j _ hj
    simp [along, hj]
  · simp

namespace Leaf

/-- The number that a leaf stands for. -/
def value (x : Fin n → ℝ) : Leaf n → ℝ
  | seed slot => x slot
  | given f _ => f x

/-- The differentiable value of a leaf. -/
noncomputable def dual (x : Fin n → ℝ) : Leaf n → Dual ℝ n
  | seed slot => .seed (x slot) slot
  | given f partials => ⟨f x, partials⟩

/-- Whether the partial derivatives that come with a function are its own at a point. -/
def IsGenuine (x : Fin n → ℝ) : Leaf n → Prop
  | seed _ => True
  | given f partials => ArePartials f partials x

private theorem value_dual (x : Fin n → ℝ) (l : Leaf n) : (l.dual x).value = l.value x := by
  cases l <;> rfl

theorem tracks_along {x : Fin n → ℝ} {l : Leaf n} (hl : l.IsGenuine x) (i : Fin n) :
    Tracks (along (Pi.single i 1)) (fun t : ℝ => l.dual (x + t • Pi.single i 1)) 0 := by
  cases l with
  | seed slot =>
    have hline := ((hasDerivAt_id (0 : ℝ)).smul_const ((Pi.single i 1 : Fin n → ℝ) slot)).const_add (x slot)
    rw [one_smul] at hline
    exact .seed slot hline
  | given f partials =>
    refine hasFDerivAt_iff_hasDerivAt.2 ?_
    rw [slope_along]
    exact hl i

end Leaf

private theorem Expression.isExactAt_of_regular {ι : Type} {e : Expression ℝ ι} {x : Fin n → ℝ} {leaf : ι → Leaf n}
    (hleaf : ∀ i, (leaf i).IsGenuine x) (he : e.Regular fun i => (leaf i).value x) :
    (e.eval fun i => (leaf i).dual x).IsExactAt (fun q => e.value fun i => (leaf i).value q) x := by
  have hvalue (q : Fin n → ℝ) : (e.eval fun i => (leaf i).dual q).value = e.value fun i => (leaf i).value q := by
    rw [e.value_eval]
    simp only [Leaf.value_dual]
  refine ⟨hvalue x, fun i => ?_⟩
  -- on the line in direction `i` only the derivative in slot `i` counts
  have htracks : Tracks (along (Pi.single i 1))
      (fun t : ℝ => e.eval fun k => (leaf k).dual (x + t • Pi.single i 1)) 0 := by
    refine e.tracks_eval (fun k => (leaf k).tracks_along (hleaf k) i) ?_
    simpa only [zero_smul, add_zero, Leaf.value_dual] using he
  have hderiv := hasFDerivAt_iff_hasDerivAt.1 htracks
  simp only [slope_along, zero_smul, add_zero, hvalue] at hderiv
  exact hderiv

/-! ### Values of a cell -/

namespace WellDual

private theorem partials_ofCell (d : CellDual ℝ) {i : Nat} (h : i < 6) :
    (ofCell d).partials[i] = if hi : i < 3 then d.partials[i] else 0 :=
  Vector.getElem_ofFn h

/-- An operation on each pair of derivatives that takes zeros to zero does not see whether the derivatives by the well
unknowns have been added. -/
private theorem ofCell_zipWith {f : ℝ → ℝ → ℝ} (hf : f 0 0 = 0) (d e : CellDual ℝ) (k : ℝ) :
    ofCell ⟨k, Vector.zipWith f d.partials e.partials⟩ =
      ⟨k, Vector.zipWith f (ofCell d).partials (ofCell e).partials⟩ := by
  refine congrArg (Dual.mk k) (Vector.ext fun i h => ?_)
  rw [Vector.getElem_ofFn, Vector.getElem_zipWith, partials_ofCell, partials_ofCell]
  split
  · exact Vector.getElem_zipWith ..
  · exact hf.symm

private theorem ofCell_const (k : ℝ) : ofCell (.const k) = .const k := by
  refine congrArg (Dual.mk k) (Vector.ext fun i h => ?_)
  rw [Vector.getElem_ofFn, Vector.getElem_replicate]
  split
  · exact Vector.getElem_replicate ..
  · rfl

private theorem ofCell_chain (d : CellDual ℝ) (k s : ℝ) : ofCell (d.chain k s) = (ofCell d).chain k s := by
  refine congrArg (Dual.mk k) (Vector.ext fun i h => ?_)
  rw [Vector.getElem_ofFn, Vector.getElem_map, partials_ofCell]
  split
  · exact Vector.getElem_map ..
  · exact (zero_mul s).symm

private theorem ofCell_apply (op : Operator) (d e : CellDual ℝ) :
    ofCell (op.apply d e) = op.apply (ofCell d) (ofCell e) := by
  cases op with
  | add => exact ofCell_zipWith (add_zero 0) d e _
  | sub => exact ofCell_zipWith (sub_zero 0) d e _
  | mul =>
    refine ofCell_zipWith ?_ d e _
    rw [zero_mul, mul_zero, add_zero]
  | div =>
    refine ofCell_zipWith ?_ d e _
    rw [zero_mul, mul_zero, sub_zero, zero_mul, zero_mul]

private theorem ofCell_apply_scalar (op : Operator) (d : CellDual ℝ) (k : ℝ) :
    ofCell (op.apply d k) = op.apply (ofCell d) k := by
  cases op with
  | add => rfl
  | sub => rfl
  | mul => exact ofCell_chain ..
  | div => exact ofCell_chain ..

private theorem ofCell_scalar_apply (op : Operator) (k : ℝ) (d : CellDual ℝ) :
    ofCell (op.apply k d) = op.apply k (ofCell d) := by
  cases op with
  | add => rfl
  | sub => exact congrArg (fun e : WellDual ℝ => e + k) (ofCell_chain d _ _)
  | mul => exact ofCell_chain ..
  | div =>
    calc ofCell (.const k / d)
      _ = ofCell (.const k) / ofCell d := ofCell_apply .div (.const k) d
      _ = k / ofCell d := by rw [ofCell_const]; rfl

private theorem toCell_ofCell (d : CellDual ℝ) : toCell (ofCell d) = d := by
  refine congrArg (Dual.mk d.value) (Vector.ext fun i h => ?_)
  rw [Vector.getElem_ofFn, partials_ofCell, dif_pos h]

end WellDual

/-- An expression over values of a cell is a value of the cell. -/
theorem Expression.eval_ofCell {ι : Type} (e : Expression ℝ ι) (ρ : ι → CellDual ℝ) :
    (e.eval fun i => WellDual.ofCell (ρ i)) = WellDual.ofCell (e.eval ρ) := by
  induction e with
  | leaf i => rfl
  | const k => exact (WellDual.ofCell_const k).symm
  | neg a ih =>
    rw [eval, ih]
    exact (WellDual.ofCell_chain ..).symm
  | abs a ih =>
    rw [eval, ih, eval, Dual.abs, Dual.abs, apply_ite WellDual.ofCell]
    exact congrArg (ite _ · _) (WellDual.ofCell_chain ..).symm
  | sqrt a ih =>
    rw [eval, ih]
    exact (WellDual.ofCell_chain ..).symm
  | exp a ih =>
    rw [eval, ih]
    exact (WellDual.ofCell_chain ..).symm
  | pow a k ih =>
    rw [eval, ih]
    exact (WellDual.ofCell_chain ..).symm
  | min a b iha ihb =>
    rw [eval, iha, ihb, eval, Dual.min, Dual.min, apply_ite WellDual.ofCell]
    rfl
  | max a b iha ihb =>
    rw [eval, iha, ihb, eval, Dual.max, Dual.max, apply_ite WellDual.ofCell]
    rfl
  | binary op a b iha ihb => rw [eval, iha, ihb, eval, WellDual.ofCell_apply]
  | scalarRight op a k ih => rw [eval, ih, eval, WellDual.ofCell_apply_scalar]
  | scalarLeft op k a ih => rw [eval, ih, eval, WellDual.ofCell_scalar_apply]
  | update op a b iha ihb => rw [eval_update, iha, ihb, eval_update, WellDual.ofCell_apply]
  | updateScalar op a k ih => rw [eval_updateScalar, ih, eval_updateScalar, WellDual.ofCell_apply_scalar]

/-! ### Exactness -/

namespace Expression

/-- Forward differentiation is exact.  At a regular point, an expression over unknowns and functions of them has the
value and the partial derivatives of the function that it stands for.  Over values of a cell it has no derivative by the
well unknowns, and its derivatives by the cell unknowns are those of the same expression in the cell unknowns alone. -/
theorem eval_isExactAt {ι : Type} (e : Expression ℝ ι) :
    (∀ (n : ℕ) (x : Fin n → ℝ) (leaf : ι → Leaf n), (∀ i, (leaf i).IsGenuine x) →
      e.Regular (fun i => (leaf i).value x) →
      (e.eval fun i => (leaf i).dual x).IsExactAt (fun q => e.value fun i => (leaf i).value q) x) ∧
    ∀ ρ : ι → CellDual ℝ, WellDual.byWell (e.eval fun i => WellDual.ofCell (ρ i)) = 0 ∧
      WellDual.toCell (e.eval fun i => WellDual.ofCell (ρ i)) = e.eval ρ := by
  refine ⟨fun n x leaf hleaf he => isExactAt_of_regular hleaf he, fun ρ => ?_⟩
  rw [eval_ofCell]
  exact ⟨byWell_ofCell _, WellDual.toCell_ofCell _⟩

/-- A root that is divided in place by a magnitude, or a product that is reduced in place if it is larger. -/
def dividedRoot : Expression ℝ (Option (Fin 2)) :=
  max (update .div (sqrt (binary .add (pow (leaf (some 0)) 2) (pow (leaf (some 1)) (-2))))
    (abs (scalarLeft .sub 1 (leaf (some 0))))) (updateScalar .sub (leaf none) 1)

/-- Two unknowns and their product. -/
noncomputable def twoUnknowns : Option (Fin 2) → Leaf 2
  | some slot => .seed slot
  | none => .given (fun q => q 0 * q 1) #v[1 / 4, 3]

/-- The same as values of a cell. -/
noncomputable def twoCellUnknowns : Option (Fin 2) → CellDual ℝ
  | some slot => .seed (![3, 1 / 4] slot) slot.castSucc
  | none => ⟨3 / 4, #v[1 / 4, 3, 0]⟩

private theorem product_arePartials : ArePartials (fun q => q 0 * q 1) #v[1 / 4, 3] ![3, 1 / 4] := by
  intro i
  have hline (j : Fin 2) := ((hasDerivAt_id (0 : ℝ)).smul_const ((Pi.single i 1 : Fin 2 → ℝ) j)).const_add
    ((![3, 1 / 4] : Fin 2 → ℝ) j)
  refine ((hline 0).mul (hline 1)).congr_deriv ?_
  fin_cases i <;> simp

private theorem toInt_exponents : Int32.toInt 2 = 2 ∧ Int32.toInt (-2) = -2 := ⟨rfl, rfl⟩

private theorem sqrt_sum_powers : √((3 : ℝ) ^ (2 : ℤ) + (1 / 4) ^ (-2 : ℤ)) = 5 := by
  rw [Real.sqrt_eq_iff_mul_self_eq] <;> norm_num

private theorem dividedRoot_regular : dividedRoot.Regular fun k => (twoUnknowns k).value ![3, 1 / 4] := by
  simp only [dividedRoot, twoUnknowns, Regular, value, Leaf.value, Operator.apply, ScalarUpdate.operator,
    toInt_exponents, Matrix.cons_val_zero, Matrix.cons_val_one, sqrt_sum_powers]
  -- what is left are the two bases, the sum under the root, the magnitude, the divisor and the choice
  refine ⟨⟨⟨⟨⟨trivial, by decide, ?_⟩, ⟨trivial, by decide, ?_⟩, nofun⟩, ?_⟩, ⟨⟨trivial, nofun⟩, ?_⟩, ?_⟩, trivial, ?_⟩
  all_goals norm_num

private theorem value_dividedRoot : (dividedRoot.value fun k => (twoUnknowns k).value ![3, 1 / 4]) = 5 / 2 := by
  simp only [dividedRoot, twoUnknowns, value, Leaf.value, Operator.apply, ScalarUpdate.operator, toInt_exponents,
    Matrix.cons_val_zero, Matrix.cons_val_one, sqrt_sum_powers]
  norm_num

/-- Where the root is taken of twenty-five and the magnitude of a negative number. -/
theorem eval_isExactAt_dividedRoot : ArePartials (fun q => q 0 * q 1) #v[1 / 4, 3] ![3, 1 / 4] ∧
    (dividedRoot.Regular fun k => (twoUnknowns k).value ![3, 1 / 4]) ∧
    (dividedRoot.eval fun k => (twoUnknowns k).dual ![3, 1 / 4]).value = 5 / 2 ∧
    ArePartials (fun q => Max.max (√(q 0 ^ (2 : ℤ) + q 1 ^ (-2 : ℤ)) / |1 - q 0|) (q 0 * q 1 - 1))
      (dividedRoot.eval fun k => (twoUnknowns k).dual ![3, 1 / 4]).partials ![3, 1 / 4] ∧
    WellDual.byWell (dividedRoot.eval fun k => WellDual.ofCell (twoCellUnknowns k)) = 0 ∧
    WellDual.toCell (dividedRoot.eval fun k => WellDual.ofCell (twoCellUnknowns k)) =
      dividedRoot.eval twoCellUnknowns := by
  have hleaf (k : Option (Fin 2)) : (twoUnknowns k).IsGenuine ![3, 1 / 4] := by
    cases k with
    | some slot => trivial
    | none => exact product_arePartials
  obtain ⟨hpoint, hcell⟩ := eval_isExactAt dividedRoot
  have hexact := hpoint 2 ![3, 1 / 4] twoUnknowns hleaf dividedRoot_regular
  exact ⟨product_arePartials, dividedRoot_regular, hexact.value.trans value_dividedRoot, hexact.partials,
    hcell twoCellUnknowns⟩

end Expression

end BlackOilWells
