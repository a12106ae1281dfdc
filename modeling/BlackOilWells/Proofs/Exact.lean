import Mathlib.Algebra.Order.Field.Basic
import Mathlib.Tactic.FieldSimp
import Mathlib.Tactic.Ring
import BlackOilWells.Fluid.Phase
import BlackOilWells.Numeric.Dual

/-!
# Exact arithmetic

The well equations over an ordered field.  Every number is finite there, comparisons decide the order of the field and
`==` is equality, so that the laws of the field hold for what the programs compute; integer powers are its own
(`Scalar.powInt_exact`).  Vectors of three entries form a
commutative group and blocks act on them (`Block.action`); `Block.inverse?` gives a two-sided inverse exactly if the
determinant is not zero (`Block.inverse?_eq_none_iff`, `Block.mulVec_inverse`, `Block.inverse_mulVec`), and so exactly
if there is one (`Block.inverse?_eq_some_iff`).
-/

namespace BlackOilWells

/-- The numbers of an ordered field as scalars. -/
instance exactScalar {K : Type} [Field K] [LinearOrder K] : Scalar K where
  decLT := inferInstance
  decLE := inferInstance
  abs x := |x|
  isNaN _ := false
  isFinite _ := true
  beq x y := decide (x = y)

theorem Scalar.sum_exact {K : Type} [Field K] [LinearOrder K] (xs : List K) : Scalar.sum xs = xs.sum := by
  rw [Scalar.sum, List.sum_eq_foldl]
  change xs.foldl (· + ·) (-0) = xs.foldl (· + ·) 0
  rw [neg_zero]

theorem Scalar.min_exact {K : Type} [Field K] [LinearOrder K] (x y : K) : Scalar.min x y = Min.min x y := by
  rw [min_comm, min_def_lt]
  rfl

theorem Scalar.max_exact {K : Type} [Field K] [LinearOrder K] (x y : K) : Scalar.max x y = Max.max x y := by
  rw [max_def_lt]
  rfl

theorem Scalar.ofInt_exact {K : Type} [Field K] [LinearOrder K] (k : ℤ) : (Scalar.ofInt k : K) = k := by
  unfold Scalar.ofInt
  split
  · rename_i h
    rw [Nat.cast_natAbs, abs_of_neg h, Int.cast_neg, neg_neg]
  · rename_i h
    rw [Nat.cast_natAbs, abs_of_nonneg (not_lt.1 h)]

private theorem Scalar.powNat_exact {K : Type} [Field K] [LinearOrder K] (x r : K) (n : ℕ) :
    Scalar.powNat x r n = r * x ^ n := by
  induction n using Nat.strongRecOn generalizing x r with
  | _ n ih =>
    -- the last binary digit of the exponent goes into the factor, the others are left to the square
    have hodd : (if n % 2 = 1 then r * x else r) = r * x ^ (n % 2) := by
      rcases Nat.mod_two_eq_zero_or_one n with h | h
      · rw [if_neg (by omega), h, pow_zero, mul_one]
      · rw [if_pos h, h, pow_one]
    rw [Scalar.powNat]
    split
    · rename_i h
      refine hodd.trans ?_
      rw [Nat.mod_eq_of_lt (by omega)]
    · rename_i h
      rw [ih (n / 2) (by omega)]
      calc (if n % 2 = 1 then r * x else r) * (x * x) ^ (n / 2)
        _ = r * x ^ (n % 2) * (x * x) ^ (n / 2) := by rw [hodd]
        _ = r * x ^ (n % 2 + 2 * (n / 2)) := by rw [pow_add, pow_mul, pow_two, mul_assoc]
        _ = r * x ^ n := by rw [Nat.mod_add_div]

theorem Scalar.powInt_exact {K : Type} [Field K] [LinearOrder K] (x : K) (k : ℤ) : Scalar.powInt x k = x ^ k := by
  have hmag : Scalar.powNat x 1 k.natAbs = x ^ k.natAbs := (Scalar.powNat_exact x 1 _).trans (one_mul _)
  unfold Scalar.powInt
  split
  · rename_i h
    change 1 / Scalar.powNat x 1 k.natAbs = _
    rw [hmag, one_div, ← zpow_natCast, ← zpow_neg, Int.natCast_natAbs, abs_of_neg h, neg_neg]
  · rename_i h
    rw [hmag, ← zpow_natCast, Int.natCast_natAbs, abs_of_nonneg (not_lt.1 h)]

theorem PerPhase.weightedSum_exact {K : Type} [Field K] [LinearOrder K] (d q : PerPhase K) :
    d.weightedSum q = d.water * q.water + d.oil * q.oil + d.gas * q.gas := by
  simp [weightedSum, zipWith, PerPhase.sum, toList, Scalar.sum]

/-! ### Differentiable values -/

namespace Dual

variable {K : Type} [Field K] [LinearOrder K] {n : Nat}

theorem value_div (d e : Dual K n) : (d / e).value = d.value / e.value := (div_eq_mul_one_div _ _).symm

theorem value_abs (d : Dual K n) : d.abs.value = if d.value < 0 then -d.value else d.value := by
  unfold abs
  rw [apply_ite value]
  rfl

theorem value_min (d e : Dual K n) : (d.min e).value = Min.min d.value e.value := by
  rw [min_comm, min_def_lt, Dual.min, apply_ite value]

theorem value_max (d e : Dual K n) : (d.max e).value = Max.max d.value e.value := by
  rw [max_def_lt, Dual.max, apply_ite value]

theorem isFinite_exact (d : Dual K n) : d.isFinite = true := Vector.all_eq_true.2 fun _ _ => rfl

theorem value_foldl_add {ι : Type} (f : ι → Dual K n) (l : List ι) (a : Dual K n) :
    ((l.map f).foldl (· + ·) a).value = a.value + (l.map fun i => (f i).value).sum := by
  induction l generalizing a with
  | nil => exact (add_zero _).symm
  | cons i l ih =>
    rw [List.map_cons, List.foldl_cons, ih, List.map_cons, List.sum_cons, ← add_assoc]
    rfl

end Dual

/-! ### Vectors of three entries -/

namespace Vec3

attribute [ext] Vec3

variable {G : Type}

@[simp] theorem zero_x [Zero G] : (0 : Vec3 G).x = 0 := rfl

@[simp] theorem zero_y [Zero G] : (0 : Vec3 G).y = 0 := rfl

@[simp] theorem zero_z [Zero G] : (0 : Vec3 G).z = 0 := rfl

@[simp] theorem add_x [Add G] (u v : Vec3 G) : (u + v).x = u.x + v.x := rfl

@[simp] theorem add_y [Add G] (u v : Vec3 G) : (u + v).y = u.y + v.y := rfl

@[simp] theorem add_z [Add G] (u v : Vec3 G) : (u + v).z = u.z + v.z := rfl

@[simp] theorem sub_x [Sub G] (u v : Vec3 G) : (u - v).x = u.x - v.x := rfl

@[simp] theorem sub_y [Sub G] (u v : Vec3 G) : (u - v).y = u.y - v.y := rfl

@[simp] theorem sub_z [Sub G] (u v : Vec3 G) : (u - v).z = u.z - v.z := rfl

instance [Neg G] : Neg (Vec3 G) := ⟨map (-·)⟩

@[simp] theorem neg_x [Neg G] (v : Vec3 G) : (-v).x = -v.x := rfl

@[simp] theorem neg_y [Neg G] (v : Vec3 G) : (-v).y = -v.y := rfl

@[simp] theorem neg_z [Neg G] (v : Vec3 G) : (-v).z = -v.z := rfl

instance [AddCommGroup G] : AddCommGroup (Vec3 G) where
  add_assoc u v w := by ext <;> exact add_assoc ..
  zero_add v := by ext <;> exact zero_add _
  add_zero v := by ext <;> exact add_zero _
  add_comm u v := by ext <;> exact add_comm ..
  neg_add_cancel v := by ext <;> exact neg_add_cancel _
  sub_eq_add_neg u v := by ext <;> exact sub_eq_add_neg ..
  nsmul := nsmulRec
  zsmul := zsmulRec

section Multiples

variable {K : Type} [Field K]

theorem add_scale (u v : Vec3 K) (a : K) : (u + v).scale a = u.scale a + v.scale a := by
  ext <;> exact add_mul ..

/-- The multiplication with a number as an additive map. -/
def scaling (a : K) : Vec3 K →+ Vec3 K := AddMonoidHom.mk' (·.scale a) fun u v => add_scale u v a

theorem zero_scale (a : K) : (0 : Vec3 K).scale a = 0 := map_zero (scaling a)

theorem sum_scale (vs : List (Vec3 K)) (a : K) : vs.sum.scale a = (vs.map (·.scale a)).sum :=
  map_list_sum (scaling a) vs

end Multiples

end Vec3

/-! ### Blocks -/

namespace Block

variable {K : Type} [Field K]

theorem mulVec_add (m : Block K) (u v : Vec3 K) : m.mulVec (u + v) = m.mulVec u + m.mulVec v := by
  ext <;> simp [mulVec, Vec3.map, Vec3.dot] <;> ring

theorem add_mulVec (m k : Block K) (v : Vec3 K) : (m + k).mulVec v = m.mulVec v + k.mulVec v := by
  ext <;> simp [mulVec, Vec3.map, Vec3.dot] <;> ring

/-- A block as an additive map of vectors, additive in the block as well. -/
def action : Block K →+ Vec3 K →+ Vec3 K :=
  AddMonoidHom.mk' (fun m => AddMonoidHom.mk' m.mulVec m.mulVec_add) fun m k => by
    ext v : 1
    exact add_mulVec m k v

theorem mulVec_sub (m : Block K) (u v : Vec3 K) : m.mulVec (u - v) = m.mulVec u - m.mulVec v :=
  map_sub (action m) u v

theorem mulVec_sum (m : Block K) (vs : List (Vec3 K)) : m.mulVec vs.sum = (vs.map m.mulVec).sum :=
  map_list_sum (action m) vs

theorem zero_mulVec (v : Vec3 K) : (0 : Block K).mulVec v = 0 := DFunLike.congr_fun (map_zero action) v

theorem sub_mulVec (m k : Block K) (v : Vec3 K) : (m - k).mulVec v = m.mulVec v - k.mulVec v :=
  DFunLike.congr_fun (map_sub action m k) v

theorem mul_mulVec (m k : Block K) (v : Vec3 K) : (m.mul k).mulVec v = m.mulVec (k.mulVec v) := by
  ext <;> simp [mulVec, mul, transpose, Vec3.map, Vec3.dot] <;> ring

/-- The matrix with ones on the diagonal. -/
def identity : Block K := ⟨⟨1, 0, 0⟩, ⟨0, 1, 0⟩, ⟨0, 0, 1⟩⟩

theorem identity_mulVec (v : Vec3 K) : identity.mulVec v = v := by
  ext <;> simp [mulVec, identity, Vec3.map, Vec3.dot]

theorem ext_mulVec {m k : Block K} (h : ∀ v, m.mulVec v = k.mulVec v) : m = k := by
  have hx := h ⟨1, 0, 0⟩
  have hy := h ⟨0, 1, 0⟩
  have hz := h ⟨0, 0, 1⟩
  simp only [mulVec, Vec3.map, Vec3.dot, mul_one, mul_zero, add_zero, zero_add, Vec3.mk.injEq] at hx hy hz
  ext
  · exact hx.1
  · exact hy.1
  · exact hz.1
  · exact hx.2.1
  · exact hy.2.1
  · exact hz.2.1
  · exact hx.2.2
  · exact hy.2.2
  · exact hz.2.2

/-! ### The inverse -/

/-- Whether two matrices are inverse to each other. -/
structure IsInverse (m inv : Block K) : Prop where
  mul_inv : m.mul inv = identity
  inv_mul : inv.mul m = identity

private theorem IsInverse.det_ne_zero {m inv : Block K} (h : m.IsInverse inv) : m.det ≠ 0 := by
  have hprod : m.det * inv.det = (m.mul inv).det := by
    simp only [det, mul, transpose, Vec3.map, Vec3.dot]
    ring
  intro hd
  rw [hd, zero_mul, h.mul_inv] at hprod
  simp [det, identity] at hprod

private theorem IsInverse.unique {m inv inv' : Block K} (h : m.IsInverse inv) (h' : m.IsInverse inv') : inv = inv' := by
  refine ext_mulVec fun v => ?_
  calc inv.mulVec v = inv.mulVec ((m.mul inv').mulVec v) := by rw [h'.mul_inv, identity_mulVec]
    _ = (inv.mul m).mulVec (inv'.mulVec v) := by rw [mul_mulVec, mul_mulVec]
    _ = inv'.mulVec v := by rw [h.inv_mul, identity_mulVec]

variable [LinearOrder K] {m inv : Block K}

theorem inverse?_eq_none_iff : m.inverse? = none ↔ m.det = 0 := by
  unfold inverse?
  by_cases h : m.det = 0
  · simp [h, BEq.beq]
  · simp [h, BEq.beq]

private theorem det_ne_zero (h : m.inverse? = some inv) : m.det ≠ 0 := by
  intro hd
  rw [inverse?_eq_none_iff.2 hd] at h
  cases h

theorem mulVec_inverse (h : m.inverse? = some inv) (v : Vec3 K) : m.mulVec (inv.mulVec v) = v := by
  have hd := det_ne_zero h
  simp only [inverse?, BEq.beq, hd, decide_false, Bool.false_eq_true, ↓reduceIte, Option.some.injEq] at h
  subst h
  ext <;> simp only [mulVec, Vec3.map, Vec3.dot] <;> field_simp <;> simp only [det] <;> ring

theorem inverse_mulVec (h : m.inverse? = some inv) (v : Vec3 K) : inv.mulVec (m.mulVec v) = v := by
  have hd := det_ne_zero h
  simp only [inverse?, BEq.beq, hd, decide_false, Bool.false_eq_true, ↓reduceIte, Option.some.injEq] at h
  subst h
  ext <;> simp only [mulVec, Vec3.map, Vec3.dot] <;> field_simp <;> simp only [det] <;> ring

theorem inverse?_eq_some_iff : m.inverse? = some inv ↔ m.IsInverse inv := by
  have hinverse {k : Block K} (hk : m.inverse? = some k) : m.IsInverse k := by
    refine ⟨ext_mulVec fun v => ?_, ext_mulVec fun v => ?_⟩
    · rw [mul_mulVec, mulVec_inverse hk, identity_mulVec]
    · rw [mul_mulVec, inverse_mulVec hk, identity_mulVec]
  refine ⟨hinverse, fun h => ?_⟩
  obtain ⟨inv', h'⟩ := Option.ne_none_iff_exists'.1 (mt inverse?_eq_none_iff.1 h.det_ne_zero)
  rw [h', h.unique (hinverse h')]

end Block

end BlackOilWells
