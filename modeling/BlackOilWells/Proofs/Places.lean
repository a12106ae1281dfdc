import Mathlib.Algebra.Ring.Nat
import Mathlib.Data.List.Nodup
import BlackOilWells.Well.Topology

/-!
# Places of wells

The connections of all wells share one index space.  A well begins where the wells before it end (`Placed.offset`), so
the ranges of two wells are disjoint (`Placed.offset_apart`) and all of them end within the space
(`Placed.offset_add_le_sum`).
-/

namespace BlackOilWells

namespace Placed

variable {β : Type} (c : β → Nat)

/-- The index of the first connection of a member: the number of connections before it. -/
def offset (bs : List β) (i : Nat) : Nat := ((bs.take i).map c).sum

private theorem offset_cons (b : β) (bs : List β) (i : Nat) : offset c (b :: bs) (i + 1) = c b + offset c bs i := by
  rw [offset, List.take_succ_cons, List.map_cons, List.sum_cons, offset]

private theorem getElem?_ofListFrom (w first : Nat) (bs : List β) (i : Nat) :
    (ofListFrom c w first bs)[i]? = bs[i]?.map fun b => ⟨w + i, first + offset c bs i, b⟩ := by
  induction bs generalizing w first i with
  | nil => rfl
  | cons b bs ih =>
    rw [ofListFrom]
    cases i with
    | zero => rfl
    | succ i =>
      rw [List.getElem?_cons_succ, List.getElem?_cons_succ, ih, offset_cons]
      congr 1
      funext b'
      rw [Nat.add_right_comm w 1 i, Nat.add_assoc w i 1, Nat.add_assoc first]

/-- The place of a member. -/
theorem getElem?_ofList (bs : List β) (i : Nat) :
    (ofList c bs)[i]? = bs[i]?.map fun b => ⟨i, offset c bs i, b⟩ := by
  rw [ofList, getElem?_ofListFrom]
  simp only [Nat.zero_add]

theorem length_ofList (bs : List β) : (ofList c bs).length = bs.length := by
  have h (i : Nat) : (ofList c bs)[i]? = none ↔ bs[i]? = none := by rw [getElem?_ofList, Option.map_eq_none_iff]
  simp only [List.getElem?_eq_none_iff] at h
  exact Nat.le_antisymm ((h _).2 (Nat.le_refl _)) ((h _).1 (Nat.le_refl _))

/-- The places of a list hold its members. -/
theorem map_ofList {δ : Type} (f : β → δ) (bs : List β) : (ofList c bs).map (fun p => f p.item) = bs.map f := by
  refine List.ext_getElem? fun i => ?_
  rw [List.getElem?_map, getElem?_ofList, List.getElem?_map, Option.map_map]
  rfl

theorem mem_ofList {bs : List β} {p : Placed β} (h : p ∈ ofList c bs) :
    bs[p.index]? = some p.item ∧ p.first = offset c bs p.index := by
  obtain ⟨i, hi, hp⟩ := List.mem_iff_getElem.1 h
  have hget := getElem?_ofList c bs i
  rw [List.getElem?_eq_getElem hi, hp] at hget
  obtain ⟨b, hb, hp⟩ := Option.map_eq_some_iff.1 hget.symm
  rw [← hp]
  exact ⟨hb, rfl⟩

/-- A member stands at its index. -/
theorem getElem?_of_mem {bs : List β} {p : Placed β} (h : p ∈ ofList c bs) : (ofList c bs)[p.index]? = some p := by
  obtain ⟨hget, hfirst⟩ := mem_ofList c h
  rw [getElem?_ofList, hget, Option.map_some, ← hfirst]

/-- Every member has a place. -/
theorem exists_mem_ofList {bs : List β} {b : β} (h : b ∈ bs) : ∃ p ∈ ofList c bs, p.item = b := by
  have hmap := map_ofList c id bs
  rw [List.map_id] at hmap
  rw [← hmap] at h
  exact List.mem_map.1 h

variable {c} {bs : List β} {i j : Nat} {b : β}

private theorem offset_succ (h : bs[i]? = some b) : offset c bs (i + 1) = offset c bs i + c b := by
  rw [offset, List.take_add_one, h, Option.toList_some, List.map_append, List.sum_append, List.map_singleton,
    List.sum_singleton, offset]

theorem offset_mono (h : i ≤ j) : offset c bs i ≤ offset c bs j := by
  obtain ⟨k, rfl⟩ := Nat.exists_eq_add_of_le h
  rw [offset, offset, List.take_add, List.map_append, List.sum_append]
  exact Nat.le_add_right ..

/-- A member ends before every later one begins. -/
theorem offset_add_le (h : bs[i]? = some b) (hij : i < j) : offset c bs i + c b ≤ offset c bs j := by
  rw [← offset_succ h]
  exact offset_mono hij

/-- A connection of a member lies outside the range of every other one. -/
theorem offset_apart {b' : β} (h : bs[i]? = some b) (h' : bs[j]? = some b') (hij : j ≠ i) {k : Nat} (hk : k < c b') :
    offset c bs j + k < offset c bs i ∨ offset c bs i + c b ≤ offset c bs j + k := by
  rcases Nat.lt_or_gt_of_ne hij with hlt | hlt
  · have hend := offset_add_le (c := c) h' hlt
    omega
  · have hend := offset_add_le (c := c) h hlt
    omega

/-- A member ends within the space of all. -/
theorem offset_add_le_sum (h : bs[i]? = some b) : offset c bs i + c b ≤ (bs.map c).sum := by
  have hlt := (List.getElem?_eq_some_iff.1 h).1
  have hall : offset c bs bs.length = (bs.map c).sum := by rw [offset, List.take_length]
  rw [← hall]
  exact offset_add_le h hlt

/-- A connection of a member is one of all connections. -/
theorem first_add_lt {p : Placed β} (hp : p ∈ ofList c bs) {k : Nat} (hk : k < c p.item) :
    p.first + k < (bs.map c).sum := by
  obtain ⟨hget, hfirst⟩ := mem_ofList c hp
  have hle := offset_add_le_sum (c := c) hget
  omega

private theorem getElem?_flatten_offset {δ : Type} {ls : List (List δ)} {bs : List β}
    (h : ls.map List.length = bs.map c) {i : Nat} {l : List δ} (hl : ls[i]? = some l) {k : Nat} (hk : k < l.length) :
    ls.flatten[offset c bs i + k]? = l[k]? := by
  induction ls generalizing bs i with
  | nil => cases hl
  | cons l₀ ls ih =>
    cases bs with
    | nil => cases h
    | cons b bs =>
      obtain ⟨hlength, hrest⟩ := List.cons.inj h
      rw [List.flatten_cons]
      cases i with
      | zero =>
        obtain rfl := Option.some.inj hl
        have hzero : offset c (b :: bs) 0 = 0 := rfl
        rw [hzero, Nat.zero_add, List.getElem?_append_left hk]
      | succ i =>
        rw [offset_cons, ← hlength, Nat.add_assoc, List.getElem?_append_right (Nat.le_add_right ..),
          Nat.add_sub_cancel_left]
        exact ih hrest hl

/-- In a list made of one list for each member, that of a member begins at its place. -/
theorem getElem?_flatten {δ : Type} {ls : List (List δ)} {bs : List β} (h : ls.map List.length = bs.map c)
    {p : Placed β} (hp : p ∈ ofList c bs) {l : List δ} (hl : ls[p.index]? = some l) {k : Nat} (hk : k < c p.item) :
    ls.flatten[p.first + k]? = l[k]? := by
  obtain ⟨hget, hfirst⟩ := mem_ofList c hp
  have hlength := congrArg (·[p.index]?) h
  simp only [List.getElem?_map, hl, hget, Option.map_some, Option.some.injEq] at hlength
  rw [hfirst]
  exact getElem?_flatten_offset h hl (hlength ▸ hk)

/-! ### Ranges of indices -/

variable (c)

/-- The indices of the connections of a member. -/
def range (p : Placed β) : List Nat := List.range' p.first (c p.item)

theorem flatten_ranges (bs : List β) : ((ofList c bs).map (range c)).flatten = List.range (bs.map c).sum := by
  have h (w first : Nat) (bs : List β) :
      ((ofListFrom c w first bs).map (range c)).flatten = List.range' first (bs.map c).sum := by
    induction bs generalizing w first with
    | nil => rfl
    | cons b bs ih =>
      rw [ofListFrom, List.map_cons, List.flatten_cons, ih, List.map_cons, List.sum_cons, range, List.range'_append_1]
  rw [ofList, h, List.range_eq_range']

/-- A member begins where the one before it ends. -/
theorem first_succ {p q : Placed β} {i : Nat} (hp : (ofList c bs)[i]? = some p)
    (hq : (ofList c bs)[i + 1]? = some q) : q.first = p.first + c p.item := by
  rw [getElem?_ofList] at hp hq
  obtain ⟨b, hb, rfl⟩ := Option.map_eq_some_iff.1 hp
  obtain ⟨b', -, rfl⟩ := Option.map_eq_some_iff.1 hq
  exact offset_succ hb

/-- Different members share no connection. -/
theorem ranges_disjoint (bs : List β) : ((ofList c bs).map (range c)).Pairwise List.Disjoint := by
  have hnodup : ((ofList c bs).map (range c)).flatten.Nodup := by
    rw [flatten_ranges]
    exact List.nodup_range
  exact (List.nodup_flatten.1 hnodup).2

theorem length_ranges (bs : List β) : ((ofList c bs).map (range c)).map List.length = bs.map c := by
  rw [← map_ofList c c bs, List.map_map]
  exact List.map_congr_left fun p _ => List.length_range'

end Placed

/-- The number of connections of all wells. -/
theorem Wells.numConnections_eq_sum {α : Type} (ws : Wells α) :
    ws.numConnections = (ws.list.map (·.connections.length)).sum := by
  have h (l : List (Well α)) (n : Nat) :
      l.foldl (fun n w => n + w.connections.length) n = n + (l.map (·.connections.length)).sum := by
    induction l generalizing n with
    | nil => rfl
    | cons w l ih => rw [List.foldl_cons, ih, List.map_cons, List.sum_cons, Nat.add_assoc]
  rw [numConnections, h, Nat.zero_add]

end BlackOilWells
