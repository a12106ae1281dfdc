import BlackOilWells.Numeric.Block

/-!
# Lists in groups of three

Quantities by well or connection that have three entries each are kept in one flat list, group after group.
`get?` reads a group and `set` writes one; a group that is not completely inside the list is absent.
-/

namespace BlackOilWells.Stride

variable {α : Type}

/-- The group of an index. -/
def get? (xs : List α) (i : Nat) : Option (Vec3 α) :=
  match xs.drop (3 * i) with
  | a :: b :: c :: _ => some ⟨a, b, c⟩
  | _ => none

/-- Replace the group of an index. -/
def set (xs : List α) (i : Nat) (v : Vec3 α) : List α :=
  ((xs.set (3 * i) v.x).set (3 * i + 1) v.y).set (3 * i + 2) v.z

theorem get?_eq (xs : List α) (i : Nat) :
    get? xs i = (xs[3 * i]?.bind fun a => xs[3 * i + 1]?.bind fun b => xs[3 * i + 2]?.map fun c => ⟨a, b, c⟩) := by
  have h (j : Nat) : xs[3 * i + j]? = (xs.drop (3 * i))[j]? := by rw [List.getElem?_drop]
  rw [show xs[3 * i]? = (xs.drop (3 * i))[0]? from h 0, h 1, h 2]
  unfold get?
  rcases xs.drop (3 * i) with _ | ⟨a, _ | ⟨b, _ | ⟨c, l⟩⟩⟩ <;> simp

theorem get?_eq_some_iff {xs : List α} {i : Nat} {v : Vec3 α} : get? xs i = some v ↔
    xs[3 * i]? = some v.x ∧ xs[3 * i + 1]? = some v.y ∧ xs[3 * i + 2]? = some v.z := by
  rw [get?_eq]
  obtain ⟨a, b, c⟩ := v
  simp only [Option.bind_eq_some_iff, Option.map_eq_some_iff, Vec3.mk.injEq]
  constructor
  · rintro ⟨a, ha, b, hb, c, hc, rfl, rfl, rfl⟩
    exact ⟨ha, hb, hc⟩
  · exact fun ⟨ha, hb, hc⟩ => ⟨a, ha, b, hb, c, hc, rfl, rfl, rfl⟩

/-- Writing the group that is there changes nothing. -/
theorem set_of_get? {xs : List α} {i : Nat} {v : Vec3 α} (h : get? xs i = some v) : set xs i v = xs := by
  obtain ⟨hx, hy, hz⟩ := get?_eq_some_iff.1 h
  obtain ⟨_, hx⟩ := List.getElem?_eq_some_iff.1 hx
  obtain ⟨_, hy⟩ := List.getElem?_eq_some_iff.1 hy
  obtain ⟨_, hz⟩ := List.getElem?_eq_some_iff.1 hz
  rw [set, ← hx, List.set_getElem_self, ← hy, List.set_getElem_self, ← hz, List.set_getElem_self]

theorem length_set (xs : List α) (i : Nat) (v : Vec3 α) : (set xs i v).length = xs.length := by
  simp [set]

theorem get?_isSome_iff (xs : List α) (i : Nat) : (get? xs i).isSome ↔ 3 * i + 2 < xs.length := by
  rw [get?_eq]
  constructor
  · intro h
    by_cases hc : 3 * i + 2 < xs.length
    · exact hc
    · simp [List.getElem?_eq_none (Nat.le_of_not_lt hc)] at h
  · intro h
    simp [List.getElem?_eq_getElem h, List.getElem?_eq_getElem (show 3 * i < xs.length by omega),
      List.getElem?_eq_getElem (show 3 * i + 1 < xs.length by omega)]

theorem get?_set_self {xs : List α} {i : Nat} (h : 3 * i + 2 < xs.length) (v : Vec3 α) :
    get? (set xs i v) i = some v := by
  have h0 : 3 * i < xs.length := by omega
  have h1 : 3 * i + 1 < xs.length := by omega
  simp [get?_eq, set, h, h0, h1]

theorem getElem?_set_of_ne (xs : List α) {i j b : Nat} (h : i ≠ j) (hb : b < 3) (v : Vec3 α) :
    (set xs i v)[3 * j + b]? = xs[3 * j + b]? := by
  rw [set, List.getElem?_set_ne (by omega), List.getElem?_set_ne (by omega), List.getElem?_set_ne (by omega)]

theorem get?_set_of_ne (xs : List α) {i j : Nat} (h : i ≠ j) (v : Vec3 α) :
    get? (set xs i v) j = get? xs j := by
  have h0 := getElem?_set_of_ne xs h (show 0 < 3 by decide) v
  have h1 := getElem?_set_of_ne xs h (show 1 < 3 by decide) v
  have h2 := getElem?_set_of_ne xs h (show 2 < 3 by decide) v
  rw [Nat.add_zero] at h0
  rw [get?_eq, get?_eq, h0, h1, h2]

end BlackOilWells.Stride
