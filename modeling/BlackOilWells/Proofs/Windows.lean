import Mathlib.Algebra.BigOperators.Ring.List
import Mathlib.Algebra.Ring.Nat
import Mathlib.Data.List.TakeDrop
import BlackOilWells.Numeric.Stride
import BlackOilWells.Well.Topology

/-!
# Windows of lists

The quantities of all wells and connections lie in flat lists, and those of one well are a run of consecutive members
(`window`).  Reading and writing inside a window is reading and writing the window on its own; writing outside leaves it
as it is.  The same holds for groups of three (`BlackOilWells.Stride`), whose windows begin and end between groups.
-/

namespace BlackOilWells

variable {β : Type}

theorem getElem?_window (l : List β) {a n k : Nat} (h : k < n) : (window a n l)[k]? = l[a + k]? := by
  rw [window, List.getElem?_take_of_lt h, List.getElem?_drop]

theorem window_one {l : List β} {a : Nat} {b : β} (h : l[a]? = some b) : window a 1 l = [b] := by
  obtain ⟨hlt, rfl⟩ := List.getElem?_eq_some_iff.1 h
  rw [window, List.drop_eq_getElem_cons hlt, List.take_succ_cons, List.take_zero]

theorem map_window {δ : Type} (f : β → δ) (a n : Nat) (l : List β) : (window a n l).map f = window a n (l.map f) := by
  rw [window, window, List.map_take, List.map_drop]

theorem length_window (a n : Nat) (l : List β) : (window a n l).length = min n (l.length - a) := by
  rw [window, List.length_take, List.length_drop]

/-- Writing inside a window. -/
theorem window_set (l : List β) (a n k : Nat) (b : β) : window a n (l.set (a + k) b) = (window a n l).set k b := by
  rw [window, window, List.drop_set, if_neg (Nat.not_lt.2 (Nat.le_add_right a k)), Nat.add_sub_cancel_left,
    List.take_set]

/-- Writing outside a window. -/
theorem window_set_of_disjoint (l : List β) {a n i : Nat} (h : i < a ∨ a + n ≤ i) (b : β) :
    window a n (l.set i b) = window a n l := by
  refine List.ext_getElem? fun k => ?_
  by_cases hk : k < n
  · rw [getElem?_window _ hk, getElem?_window _ hk, List.getElem?_set_ne (by omega)]
  · rw [window, window, List.getElem?_take_eq_none (Nat.le_of_not_lt hk),
      List.getElem?_take_eq_none (Nat.le_of_not_lt hk)]

/-! ### Windows one after the other -/

/-- A list of lists holds each of them in a window. -/
theorem window_flatten (ls : List (List β)) {j : Nat} {l : List β} (h : ls[j]? = some l) :
    window ((ls.take j).map List.length).sum l.length ls.flatten = l := by
  induction ls generalizing j with
  | nil => cases h
  | cons l₀ ls ih =>
    cases j with
    | zero =>
      obtain rfl := Option.some.inj h
      exact List.take_left
    | succ j =>
      rw [List.take_succ_cons, List.map_cons, List.sum_cons, window, List.flatten_cons, List.drop_length_add_append]
      exact ih h

theorem length_flatMap_window {ι : Type} {order : List ι} {first len : ι → Nat} {l : List β}
    (h : ∀ w ∈ order, first w + len w ≤ l.length) :
    (order.flatMap fun w => window (first w) (len w) l).length = (order.map len).sum := by
  rw [List.length_flatMap]
  refine congrArg List.sum (List.map_congr_left fun w hw => ?_)
  have hw := h w hw
  rw [length_window]
  omega

/-- Windows of a list, one after the other, are windows of what they make up. -/
theorem window_flatMap_window {ι : Type} {order : List ι} {first len : ι → Nat} {l : List β}
    (h : ∀ w ∈ order, first w + len w ≤ l.length) {j : Nat} {i : ι} (hj : order[j]? = some i) :
    window ((order.take j).map len).sum (len i) (order.flatMap fun w => window (first w) (len w) l) =
      window (first i) (len i) l := by
  have hlength (w : ι) (hw : w ∈ order) : (window (first w) (len w) l).length = len w := by
    have hw := h w hw
    rw [length_window]
    omega
  have hget : (order.map fun w => window (first w) (len w) l)[j]? = some (window (first i) (len i) l) := by
    rw [List.getElem?_map, hj, Option.map_some]
  have hwindow := window_flatten _ hget
  have hplace : ((order.map fun w => window (first w) (len w) l).take j).map List.length = (order.take j).map len := by
    rw [← List.map_take, List.map_map]
    exact List.map_congr_left fun w hw => hlength w (List.mem_of_mem_take hw)
  rw [hplace, hlength i (List.mem_of_getElem? hj)] at hwindow
  exact hwindow

namespace Stride

theorem get?_window (l : List β) {a n k : Nat} (h : k < n) :
    get? (window (3 * a) (3 * n) l) k = get? l (a + k) := by
  rw [get?_eq, get?_eq, getElem?_window _ (by omega), getElem?_window _ (by omega), getElem?_window _ (by omega)]
  simp only [Nat.mul_add, Nat.add_assoc]

theorem get?_flatMap_window {ι : Type} {order : List ι} {first len : ι → Nat} {l : List β}
    (h : ∀ w ∈ order, 3 * first w + 3 * len w ≤ l.length) {j k : Nat} {i : ι} (hj : order[j]? = some i)
    (hk : k < len i) : get? (order.flatMap fun w => window (3 * first w) (3 * len w) l)
      (((order.take j).map len).sum + k) = get? l (first i + k) := by
  have hwindow := window_flatMap_window h hj
  have hplace : ((order.take j).map fun w => 3 * len w).sum = 3 * ((order.take j).map len).sum :=
    List.sum_map_mul_left ..
  rw [hplace] at hwindow
  rw [← get?_window _ hk, hwindow, get?_window _ hk]

theorem window_set (l : List β) (a n k : Nat) (v : Vec3 β) :
    window (3 * a) (3 * n) (set l (a + k) v) = set (window (3 * a) (3 * n) l) k v := by
  rw [set, set, Nat.mul_add, Nat.add_assoc (3 * a), Nat.add_assoc (3 * a), BlackOilWells.window_set,
    BlackOilWells.window_set, BlackOilWells.window_set]

theorem window_set_of_disjoint (l : List β) {a n i : Nat} (h : i < a ∨ a + n ≤ i) (v : Vec3 β) :
    window (3 * a) (3 * n) (set l i v) = window (3 * a) (3 * n) l := by
  rw [set, BlackOilWells.window_set_of_disjoint _ (by omega), BlackOilWells.window_set_of_disjoint _ (by omega),
    BlackOilWells.window_set_of_disjoint _ (by omega)]

end Stride

end BlackOilWells
