import Mathlib.Algebra.BigOperators.Ring.List
import Mathlib.Algebra.Order.BigOperators.Group.List
import BlackOilWells.Proofs.Exact

/-!
# Mediants

The quotient of two sums is a mean of the quotients of their terms, weighted with the denominators.  So one of these
quotients is at least as large (`exists_mediant_le`) and one at most as large (`exists_le_mediant`), and both belong to
terms with a positive denominator.
-/

namespace BlackOilWells

variable {ι K : Type} [Field K] [LinearOrder K] [IsStrictOrderedRing K] {l : List ι} {a b : ι → K}

theorem exists_mediant_le (hb : ∀ i ∈ l, 0 ≤ b i) (hab : ∀ i ∈ l, b i = 0 → a i = 0) (hpos : 0 < (l.map b).sum) :
    ∃ i ∈ l, 0 < b i ∧ (l.map a).sum / (l.map b).sum ≤ a i / b i := by
  by_contra hnone
  have hlt (i : ι) (hi : i ∈ l) (hbi : 0 < b i) : a i < (l.map a).sum / (l.map b).sum * b i := by
    by_contra hnot
    exact hnone ⟨i, hi, hbi, (le_div_iff₀ hbi).2 (not_lt.1 hnot)⟩
  have hle (i : ι) (hi : i ∈ l) : a i ≤ (l.map a).sum / (l.map b).sum * b i := by
    rcases (hb i hi).eq_or_lt with hzero | hbi
    · rw [hab i hi hzero.symm, ← hzero, mul_zero]
    · exact (hlt i hi hbi).le
  -- some term has a positive denominator, and there the bound is strict
  have hzero : (l.map fun _ : ι => (0 : K)).sum < (l.map b).sum := by simpa using hpos
  obtain ⟨i, hi, hbi⟩ := List.exists_lt_of_sum_lt _ _ hzero
  have hsum := List.sum_lt_sum _ _ hle ⟨i, hi, hlt i hi hbi⟩
  rw [List.sum_map_mul_left, div_mul_cancel₀ _ hpos.ne'] at hsum
  exact hsum.false

theorem exists_le_mediant (hb : ∀ i ∈ l, 0 ≤ b i) (hab : ∀ i ∈ l, b i = 0 → a i = 0) (hpos : 0 < (l.map b).sum) :
    ∃ i ∈ l, 0 < b i ∧ a i / b i ≤ (l.map a).sum / (l.map b).sum := by
  have hneg : (l.map fun i => -a i).sum = -(l.map a).sum := by
    simpa using List.sum_map_mul_left l a (-1)
  obtain ⟨i, hi, hbi, hle⟩ := exists_mediant_le (a := fun i => -a i) hb
    (fun i hi h => by rw [hab i hi h, neg_zero]) hpos
  rw [hneg, neg_div, neg_div, neg_le_neg_iff] at hle
  exact ⟨i, hi, hbi, hle⟩

end BlackOilWells
