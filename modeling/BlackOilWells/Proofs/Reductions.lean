import Mathlib.Algebra.Order.Field.Basic
import Mathlib.Algebra.Order.Ring.Unbundled.Rat
import BlackOilWells.Proofs.Collectives
import BlackOilWells.Proofs.Exact

/-!
# Reductions in exact arithmetic

Where addition is associative and commutative and the finite values are in a linear order, the combined value of a
reduction depends neither on the order of the contributions nor on how they are spread over processes.  The sum of
partial sums is the sum of all terms (`sum_of_parts`), and a largest contribution is the largest among the values that
the processes have taken their own largest value from (`max_of_parts`).

These laws (`Scalar.IsExact`) hold in an ordered field.  There every value is finite, and no residual is ever refused
for being undefined.  They also hold if a division by zero has an undefined result that spoils whatever it enters
(`Computed`).
-/

namespace BlackOilWells

/-- Arithmetic without rounding, in which some values may not be finite. -/
class Scalar.IsExact (α : Type) [Scalar α] : Prop where
  add_assoc : ∀ x y z : α, x + y + z = x + (y + z)
  add_comm : ∀ x y : α, x + y = y + x
  zero_add : ∀ x : α, 0 + x = x
  natCast_zero : ((0 : Nat) : α) = 0
  natCast_succ : ∀ n : Nat, ((n + 1 : Nat) : α) = (n : α) + 1
  finite_zero : Scalar.isFinite (0 : α) = true
  finite_one : Scalar.isFinite (1 : α) = true
  finite_abs : ∀ {x : α}, Scalar.isFinite x = true → Scalar.isFinite (Scalar.abs x) = true
  zero_lt_one : (0 : α) < 1
  isNaN_eq : ∀ {x : α}, Scalar.isFinite x = true → Scalar.isNaN x = false
  le_antisymm : ∀ {x y : α}, Scalar.isFinite x = true → Scalar.isFinite y = true → x ≤ y → y ≤ x → x = y
  le_trans : ∀ {x y z : α}, Scalar.isFinite x = true → Scalar.isFinite y = true → Scalar.isFinite z = true →
    x ≤ y → y ≤ z → x ≤ z
  le_total : ∀ {x y : α}, Scalar.isFinite x = true → Scalar.isFinite y = true → x ≤ y ∨ y ≤ x
  lt_iff : ∀ {x y : α}, Scalar.isFinite x = true → Scalar.isFinite y = true → (x < y ↔ ¬y ≤ x)

section

variable {α : Type} [Scalar α] [Scalar.IsExact α]

theorem Scalar.IsExact.add_zero (x : α) : x + 0 = x := (add_comm x 0).trans (zero_add x)

theorem Scalar.IsExact.le_refl {x : α} (hx : Scalar.isFinite x = true) : x ≤ x := (le_total hx hx).elim id id

private theorem Scalar.IsExact.le_of_lt {x y : α} (hx : Scalar.isFinite x = true) (hy : Scalar.isFinite y = true)
    (h : x < y) :
    x ≤ y := (le_total hx hy).resolve_right ((lt_iff hx hy).1 h)

theorem Scalar.IsExact.zero_le_one : (0 : α) ≤ 1 := le_of_lt finite_zero finite_one zero_lt_one

end

/-! ### Fields -/

instance {K : Type} [Field K] [LinearOrder K] [IsStrictOrderedRing K] : Scalar.IsExact K where
  add_assoc := add_assoc
  add_comm := add_comm
  zero_add := zero_add
  natCast_zero := Nat.cast_zero
  natCast_succ := Nat.cast_succ
  finite_zero := rfl
  finite_one := rfl
  finite_abs _ := rfl
  zero_lt_one := zero_lt_one
  isNaN_eq _ := rfl
  le_antisymm _ _ := le_antisymm
  le_trans _ _ _ := le_trans
  le_total {x y} _ _ := le_total x y
  lt_iff _ _ := not_le.symm

/-! ### Fields with an undefined value -/

/-- A computed number: that of a field, or undefined. -/
inductive Computed (K : Type) where
  | value (x : K)
  | undefined
deriving DecidableEq, Repr

namespace Computed

variable {K : Type}

/-- Apply a function to defined values. -/
def map (f : K → K) : Computed K → Computed K
  | value x => value (f x)
  | undefined => undefined

/-- Combine defined values. -/
def map₂ (f : K → K → K) : Computed K → Computed K → Computed K
  | value x, value y => value (f x y)
  | _, _ => undefined

/-- Compare defined values. -/
def Holds₂ (r : K → K → Prop) : Computed K → Computed K → Prop
  | value x, value y => r x y
  | _, _ => False

instance (r : K → K → Prop) [DecidableRel r] : DecidableRel (Holds₂ r)
  | value x, value y => inferInstanceAs (Decidable (r x y))
  | value _, undefined => inferInstanceAs (Decidable False)
  | undefined, _ => inferInstanceAs (Decidable False)

variable [Field K] [LinearOrder K]

/-- The quotient, undefined for a divisor that is zero. -/
def div : Computed K → Computed K → Computed K
  | value x, value y => if y = 0 then undefined else value (x / y)
  | _, _ => undefined

instance : Scalar (Computed K) where
  zero := value 0
  one := value 1
  add := map₂ (· + ·)
  sub := map₂ (· - ·)
  mul := map₂ (· * ·)
  div := div
  neg := map (-·)
  natCast n := value n
  ofScientific m s e := value (OfScientific.ofScientific m s e)
  lt := Holds₂ (· < ·)
  le := Holds₂ (· ≤ ·)
  beq x y := decide (Holds₂ (· = ·) x y)
  decLT := inferInstanceAs (DecidableRel (Holds₂ (· < ·)))
  decLE := inferInstanceAs (DecidableRel (Holds₂ (· ≤ ·)))
  abs := map (|·|)
  isNaN x := decide (x = undefined)
  isFinite x := decide (x ≠ undefined)

private theorem exists_of_finite {x : Computed K} (h : Scalar.isFinite x = true) : ∃ y, x = value y := by
  cases x with
  | value y => exact ⟨y, rfl⟩
  | undefined => cases h

instance [IsStrictOrderedRing K] : Scalar.IsExact (Computed K) where
  add_assoc
    | value x, value y, value z => congrArg value (add_assoc x y z)
    | undefined, _, _ | value _, undefined, _ | value _, value _, undefined => rfl
  add_comm
    | value x, value y => congrArg value (add_comm x y)
    | undefined, undefined | undefined, value _ | value _, undefined => rfl
  zero_add
    | value x => congrArg value (zero_add x)
    | undefined => rfl
  natCast_zero := congrArg value Nat.cast_zero
  natCast_succ n := congrArg value (Nat.cast_succ n)
  finite_zero := rfl
  finite_one := rfl
  finite_abs {x} h := by
    obtain ⟨y, rfl⟩ := exists_of_finite h
    rfl
  zero_lt_one := zero_lt_one (α := K)
  isNaN_eq {x} h := by
    obtain ⟨y, rfl⟩ := exists_of_finite h
    rfl
  le_antisymm {x y} hx hy h h' := by
    obtain ⟨x, rfl⟩ := exists_of_finite hx
    obtain ⟨y, rfl⟩ := exists_of_finite hy
    exact congrArg value (le_antisymm (α := K) h h')
  le_trans {x y z} hx hy hz h h' := by
    obtain ⟨x, rfl⟩ := exists_of_finite hx
    obtain ⟨y, rfl⟩ := exists_of_finite hy
    obtain ⟨z, rfl⟩ := exists_of_finite hz
    exact le_trans (α := K) h h'
  le_total {x y} hx hy := by
    obtain ⟨x, rfl⟩ := exists_of_finite hx
    obtain ⟨y, rfl⟩ := exists_of_finite hy
    exact le_total (α := K) x y
  lt_iff {x y} hx hy := by
    obtain ⟨x, rfl⟩ := exists_of_finite hx
    obtain ⟨y, rfl⟩ := exists_of_finite hy
    exact (not_le (α := K)).symm

end Computed

namespace Reduction

variable {α β ι : Type} [Scalar α] [Scalar.IsExact α]

/-! ### Sums -/

instance : Std.Associative (α := α) (· + ·) := ⟨Scalar.IsExact.add_assoc⟩

instance : Std.Commutative (α := α) (· + ·) := ⟨Scalar.IsExact.add_comm⟩

instance : Std.LawfulIdentity (α := α) (· + ·) 0 where
  left_id := Scalar.IsExact.zero_add
  right_id := Scalar.IsExact.add_zero

private theorem sum_perm {xs ys : List α} (h : xs.Perm ys) : xs.sum = ys.sum := by
  rw [List.sum_eq_foldl, List.sum_eq_foldl]
  exact h.foldl_eq 0

/-- The sum of partial sums is the sum of all terms, in any order. -/
theorem sum_of_parts (f : β → α) {parts : List ι} {terms : ι → List β} {all : List β}
    (h : (parts.flatMap terms).Perm all) :
    combine .sum (parts.map fun x => ((terms x).map f).sum) = (all.map f).sum := by
  have hparts : parts.map (fun x => ((terms x).map f).sum) = (parts.map fun x => (terms x).map f).map List.sum := by
    rw [List.map_map]
    rfl
  rw [combine, hparts, ← List.sum_flatten, ← List.flatMap_def, ← List.map_flatMap]
  exact sum_perm (h.map f)

theorem natCast_length (xs : List β) : ((xs.length : Nat) : α) = (xs.map fun _ => (1 : α)).sum := by
  induction xs with
  | nil => exact Scalar.IsExact.natCast_zero
  | cons x xs ih =>
    rw [List.length_cons, Scalar.IsExact.natCast_succ, ih, List.map_cons, List.sum_cons]
    exact Scalar.IsExact.add_comm _ _

/-! ### Largest values -/

/-- Whether a value is the largest one of a list. -/
def IsLargest (m : α) (xs : List α) : Prop := m ∈ xs ∧ ∀ x ∈ xs, x ≤ m

private theorem IsLargest.unique {m m' : α} {xs : List α} (hfinite : ∀ x ∈ xs, Scalar.isFinite x = true)
    (h : IsLargest m xs) (h' : IsLargest m' xs) : m = m' :=
  Scalar.IsExact.le_antisymm (hfinite m h.1) (hfinite m' h'.1) (h'.2 m h.1) (h.2 m' h'.1)

omit [Scalar.IsExact α] in
private theorem IsLargest.perm {m : α} {xs ys : List α} (h : IsLargest m xs) (hxs : xs.Perm ys) : IsLargest m ys :=
  ⟨hxs.mem_iff.1 h.1, fun x hx => h.2 x (hxs.mem_iff.2 hx)⟩

private theorem max_eq {x y : α} (hx : Scalar.isFinite x = true) : Scalar.max x y = if x < y then y else x := by
  rw [Scalar.max, Scalar.IsExact.isNaN_eq hx]
  rfl

/-- Taking the larger of two again and again gives the largest. -/
theorem isLargest_foldl {a : α} {xs : List α} (h : ∀ x ∈ a :: xs, Scalar.isFinite x = true) :
    IsLargest (xs.foldl Scalar.max a) (a :: xs) := by
  induction xs generalizing a with
  | nil =>
    refine ⟨List.mem_singleton_self a, fun x hx => ?_⟩
    rw [List.mem_singleton.1 hx]
    exact Scalar.IsExact.le_refl (h a (List.mem_singleton_self a))
  | cons b xs ih =>
    obtain ⟨ha, hbs⟩ := List.forall_mem_cons.1 h
    obtain ⟨hb, hxs⟩ := List.forall_mem_cons.1 hbs
    -- the larger one of the first two takes the place of both
    rw [List.foldl_cons, max_eq ha]
    split
    case isTrue hlt =>
      obtain ⟨hmem, hall⟩ := ih (List.forall_mem_cons.2 ⟨hb, hxs⟩)
      refine ⟨List.mem_cons_of_mem a hmem, List.forall_mem_cons.2 ⟨?_, hall⟩⟩
      have hab : a ≤ b := Scalar.IsExact.le_of_lt ha hb hlt
      exact Scalar.IsExact.le_trans ha hb (hbs _ hmem) hab (hall b (List.mem_cons_self ..))
    case isFalse hlt =>
      have hrest : ∀ x ∈ a :: xs, Scalar.isFinite x = true := List.forall_mem_cons.2 ⟨ha, hxs⟩
      obtain ⟨hmem, hall⟩ := ih hrest
      obtain ⟨hla, hall⟩ := List.forall_mem_cons.1 hall
      have hba : b ≤ a := not_not.1 fun hn => hlt ((Scalar.IsExact.lt_iff ha hb).2 hn)
      refine ⟨?_, List.forall_mem_cons.2 ⟨hla, List.forall_mem_cons.2 ⟨?_, hall⟩⟩⟩
      · rcases List.mem_cons.1 hmem with h | h
        · exact List.mem_cons.2 (.inl h)
        · exact List.mem_cons_of_mem a (List.mem_cons_of_mem b h)
      · exact Scalar.IsExact.le_trans hb ha (hrest _ hmem) hba hla

/-- The largest contribution is what it says. -/
theorem isLargest_combine {xs : List α} (hxs : xs ≠ []) (h : ∀ x ∈ xs, Scalar.isFinite x = true) :
    IsLargest (combine .max xs) xs := by
  cases xs with
  | nil => exact absurd rfl hxs
  | cons x xs => exact isLargest_foldl h

/-- The largest of values that are each the largest of a list with zero in it. -/
private theorem IsLargest.of_parts {parts : List ι} (hparts : parts ≠ []) {m : ι → α} {values : ι → List α}
    (hfinite : ∀ x ∈ parts, ∀ v ∈ 0 :: values x, Scalar.isFinite v = true)
    (h : ∀ x ∈ parts, IsLargest (m x) (0 :: values x)) :
    IsLargest (combine .max (parts.map m)) (0 :: parts.flatMap values) := by
  have hm (x) (hx : x ∈ parts) : Scalar.isFinite (m x) = true := hfinite x hx _ (h x hx).1
  obtain ⟨hmem, hall⟩ := isLargest_combine (mt List.map_eq_nil_iff.1 hparts) (List.forall_mem_map.2 hm)
  obtain ⟨x, hx, hmx⟩ := List.mem_map.1 hmem
  have hle (y) (hy : y ∈ parts) (v) (hv : v ∈ 0 :: values y) : v ≤ combine .max (parts.map m) :=
    Scalar.IsExact.le_trans (hfinite y hy v hv) (hm y hy) (hmx ▸ hm x hx) ((h y hy).2 v hv)
      (hall _ (List.mem_map_of_mem hy))
  refine ⟨?_, List.forall_mem_cons.2 ⟨hle x hx 0 (List.mem_cons_self ..), fun v hv => ?_⟩⟩
  · rw [← hmx]
    rcases List.mem_cons.1 (h x hx).1 with h0 | hv
    · exact List.mem_cons.2 (.inl h0)
    · exact List.mem_cons_of_mem 0 (List.mem_flatMap.2 ⟨x, hx, hv⟩)
  · obtain ⟨y, hy, hv⟩ := List.mem_flatMap.1 hv
    exact hle y hy v (List.mem_cons_of_mem 0 hv)

/-- The largest of the largest values of parts is the largest of all values, in any order. -/
theorem max_of_parts {parts : List ι} (hparts : parts ≠ []) {m : ι → α} {most : α} {values : ι → List α}
    {all : List α} (hall : (parts.flatMap values).Perm all) (hfinite : ∀ v ∈ all, Scalar.isFinite v = true)
    (h : ∀ x ∈ parts, IsLargest (m x) (0 :: values x)) (hmost : IsLargest most (0 :: all)) :
    combine .max (parts.map m) = most := by
  have hfinite₀ : ∀ v ∈ 0 :: all, Scalar.isFinite v = true :=
    List.forall_mem_cons (p := (Scalar.isFinite · = true)) |>.2 ⟨Scalar.IsExact.finite_zero, hfinite⟩
  refine IsLargest.unique hfinite₀ ((IsLargest.of_parts hparts (fun x hx v hv => ?_) h).perm (hall.cons 0)) hmost
  rcases List.mem_cons.1 hv with rfl | hv
  · exact Scalar.IsExact.finite_zero
  · exact hfinite v (hall.mem_iff.1 (List.mem_flatMap.2 ⟨x, hx, hv⟩))

end Reduction

end BlackOilWells
