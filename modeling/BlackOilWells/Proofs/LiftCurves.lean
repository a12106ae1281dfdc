import Mathlib.Analysis.Normed.Field.Lemmas
import BlackOilWells.Proofs.Interpolation

/-!
# Lift tables as surfaces

Over an ordered field a validated lift table is a surface over the plane of flows and tubing-head pressures
(`LiftTable.pressure`): the grid, interpolated along one axis and then along the other in either order.  Reading the
table gives its height (`LiftTable.bhp_value`), and the column of pressures at a flow is a section of it
(`LiftTable.column_ok`).

The surface is continuous, goes through the grid and between nodes stays between their pressures, and on the flow axis
it increases with the tubing-head pressure (`LiftTable.bhp_interpolates`).  A tubing-head pressure is found on an
increasing section by exchanging nodes and values, so that the two readings invert each other, also beyond the table,
and with a hydrostatic correction as well (`LiftTable.thp_inverts_bhp`).
-/

namespace BlackOilWells

open Axis

variable {K : Type} [Field K] [LinearOrder K]

/-- The flow depends on the values of the rates only. -/
private theorem FlowKind.value_flow (k : FlowKind) (q : PerPhase (WellDual K)) :
    (k.flow ((q.map (·.value)).map .const)).value = (k.flow q).value := by
  cases k with
  | oil => exact (Dual.value_abs _).trans (Dual.value_abs q.oil).symm
  | liquid => exact (Dual.value_abs _).trans (Dual.value_abs (q.oil + q.water)).symm
  | gas => exact (Dual.value_abs _).trans (Dual.value_abs q.gas).symm

namespace LiftTable

private theorem increasing_of_mem_grid {t : LiftTable K} (h : t.validate = .ok ⟨⟩) {row : List K}
    (hrow : row ∈ t.grid) :
    isIncreasing row = true := by
  change (if _ then (.error _ : Outcome K PUnit) else if _ then .error _ else if _ then .error _ else
    if _ then .error _ else .ok ⟨⟩) = _ at h
  split at h
  · cases h
  split at h
  · cases h
  split at h
  · cases h
  split at h
  · cases h
  rename_i hgrid
  exact List.all_eq_true.1 (not_not.1 hgrid) row hrow

/-! ### The surface -/

/-- The bottom-hole pressure in the grid at a flow and a tubing-head pressure. -/
def entry (t : LiftTable K) (i j : Nat) : K := (t.grid.getD i []).getD j 0

/-- The surface of a table: its grid, interpolated along both axes. -/
def pressure (t : LiftTable K) (flow thp : K) : K := curve t.flowNodes (fun i => curve t.thpNodes (t.entry i) thp) flow

/-- The section of the surface at a flow, over the nodes of the tubing-head pressure. -/
def sectionAt (t : LiftTable K) (flow : K) (j : Nat) : K := curve t.flowNodes (t.entry · j) flow

private theorem pressure_eq (t : LiftTable K) (flow thp : K) :
    t.pressure flow thp = curve t.thpNodes (t.sectionAt flow) thp :=
  between_between t.entry _ _ _ _

variable {t : LiftTable K}

private theorem entry_of_row {i : Nat} {row : List K} (h : t.grid[i]? = some row) : t.entry i = (row.getD · 0) := by
  obtain ⟨hi, rfl⟩ := List.getElem?_eq_some_iff.1 h
  funext j
  rw [entry, List.getD_eq_getElem _ _ hi]

omit [Field K] [LinearOrder K] in
private theorem Fits.exists_row (h : t.Fits) {i : Nat} (hi : i < t.flowNodes.length) :
    ∃ row, t.grid[i]? = some row ∧ row.length = t.thpNodes.length := by
  have hi' : i < t.grid.length := h.rows.symm ▸ hi
  exact ⟨_, List.getElem?_eq_getElem hi', h.columns _ (List.getElem_mem hi')⟩

private theorem Fits.getElem?_row (h : t.Fits) {i j : Nat} {row : List K} (hrow : t.grid[i]? = some row)
    (hj : j < t.thpNodes.length) : row[j]? = some (t.entry i j) := by
  have hj' : j < row.length := (h.columns row (List.mem_of_getElem? hrow)).symm ▸ hj
  rw [congrFun (entry_of_row hrow) j, List.getElem?_eq_getElem hj', List.getD_eq_getElem _ _ hj']

private theorem Fits.valueAt_row (h : t.Fits) {i j : Nat} {row : List K} (hrow : t.grid[i]? = some row)
    (hj : j < t.thpNodes.length) (thp : K) : Axis.valueAt row j (weight t.thpNodes j thp) =
      .ok (between (t.entry i) j (weight t.thpNodes j thp)) := by
  rw [entry_of_row hrow]
  exact valueAt_eq (h.columns row (List.mem_of_getElem? hrow)) hj thp

/-- What is read in a cell of the grid. -/
private theorem Fits.bhpAt_value (h : t.Fits) (flow : WellDual K) (thp : K) {i j : Nat} (hi : i < t.flowNodes.length)
    (hj : j < t.thpNodes.length) : (t.bhpAt flow i j (weight t.thpNodes j thp)).map (·.value) =
      .ok (between (fun k => between (t.entry k) j (weight t.thpNodes j thp)) i (weight t.flowNodes i flow.value)) := by
  obtain ⟨row, hrow, -⟩ := h.exists_row hi
  have hf := List.getElem?_eq_getElem hi
  have hlow := h.valueAt_row hrow hj thp
  rw [Outcome.map_ok]
  by_cases hnext : i + 1 < t.flowNodes.length
  · obtain ⟨row', hrow', -⟩ := h.exists_row hnext
    have hg := List.getElem?_eq_getElem hnext
    have hhigh := h.valueAt_row hrow' hj thp
    have hread : t.bhpAt flow i j (weight t.thpNodes j thp) = .ok ((flow - t.flowNodes[i]) /
        (t.flowNodes[i + 1] - t.flowNodes[i]) * (between (t.entry (i + 1)) j (weight t.thpNodes j thp) -
          between (t.entry i) j (weight t.thpNodes j thp)) + between (t.entry i) j (weight t.thpNodes j thp)) := by
      refine Outcome.bind_ok.2 ⟨row, Outcome.need_ok.2 hrow, Outcome.bind_ok.2 ⟨_, hlow, ?_⟩⟩
      rw [hf, hg, hrow']
      exact Outcome.bind_ok.2 ⟨_, hhigh, rfl⟩
    refine ⟨_, hread, ?_⟩
    rw [weight_eq hnext, List.getD_eq_getElem _ _ hi, List.getD_eq_getElem _ _ hnext]
    exact (add_comm _ _).trans (congrArg _ (mul_comm _ _))
  · have hread : t.bhpAt flow i j (weight t.thpNodes j thp) =
        .ok (.const (between (t.entry i) j (weight t.thpNodes j thp))) := by
      refine Outcome.bind_ok.2 ⟨row, Outcome.need_ok.2 hrow, Outcome.bind_ok.2 ⟨_, hlow, ?_⟩⟩
      rw [hf, List.getElem?_eq_none (not_lt.1 hnext)]
      rfl
    refine ⟨_, hread, ?_⟩
    rw [weight_of_length_le (not_lt.1 hnext), between_zero]
    rfl

/-- Reading a table gives the height of its surface. -/
theorem bhp_value (ht : t.validate = .ok ⟨⟩) (q : PerPhase (WellDual K)) (thp : K) :
    (t.bhp q thp).map (·.value) = .ok (t.pressure (t.flowKind.flow q).value thp) := by
  have hfits := fits_of_validate ht
  have hread := hfits.bhpAt_value (t.flowKind.flow q) thp (lowerNode_lt hfits.flow (t.flowKind.flow q).value)
    (lowerNode_lt hfits.thp thp)
  obtain ⟨b, hb, hvalue⟩ := Outcome.map_ok.1 hread
  rw [bhp_eq, hb]
  exact Outcome.map_ok.2 ⟨b, if_pos b.isFinite_exact, hvalue⟩

/-! ### Sections -/

/-- The column of pressures at a flow is the section of the surface. -/
theorem column_ok (h : t.Fits) (flow : K) : ∃ column, t.column flow = .ok column ∧
    column.length = t.thpNodes.length ∧ ∀ j < t.thpNodes.length, column.getD j 0 = t.sectionAt flow j := by
  obtain ⟨row, hrow, -⟩ := h.exists_row (lowerNode_lt h.flow flow)
  have hcolumn : t.column flow = .ok (List.zipWith
      (fun lo hi => lo + (hi - lo) * weight t.flowNodes (lowerNode t.flowNodes flow) flow) row
      (t.grid[lowerNode t.flowNodes flow + 1]?.getD row)) :=
    Outcome.bind_ok.2 ⟨row, Outcome.need_ok.2 hrow, rfl⟩
  refine ⟨_, hcolumn, h.column_length hcolumn, fun j hj => ?_⟩
  have hlow := h.getElem?_row hrow hj
  unfold sectionAt curve
  generalize lowerNode t.flowNodes flow = i at *
  rw [List.getD_eq_getElem?_getD, List.getElem?_zipWith, hlow]
  by_cases hnext : i + 1 < t.flowNodes.length
  · obtain ⟨row', hrow', -⟩ := h.exists_row hnext
    rw [hrow', Option.getD_some, h.getElem?_row hrow' hj]
    rfl
  · have hnone : t.grid[i + 1]? = none := List.getElem?_eq_none (h.rows.symm ▸ not_lt.1 hnext)
    rw [hnone, Option.getD_none, hlow, weight_of_length_le (not_lt.1 hnext), between_zero]
    exact (congrArg (_ + ·) (mul_zero _)).trans (add_zero _)

section

variable (ht : t.validate = .ok ⟨⟩)

include ht

private theorem entry_lt_entry {i j k : Nat} (hi : i < t.flowNodes.length) (hjk : j < k) (hk : k < t.thpNodes.length) :
    t.entry i j < t.entry i k := by
  obtain ⟨row, hrow, hlength⟩ := (fits_of_validate ht).exists_row hi
  rw [entry_of_row hrow]
  exact isIncreasing_iff.1 (increasing_of_mem_grid ht (List.mem_of_getElem? hrow)) j k hjk (hlength.symm ▸ hk)

variable [IsStrictOrderedRing K]

/-- On the flow axis, and for a single flow everywhere, the section increases. -/
private theorem sectionAt_lt {flow : K} (hflow : Covers t.flowNodes flow ∨ t.flowNodes.length = 1) {j k : Nat}
    (hjk : j < k)
    (hk : k < t.thpNodes.length) : t.sectionAt flow j < t.sectionAt flow k := by
  have hincreasing := (increasing_of_validate ht).1
  have hlow := entry_lt_entry ht (lowerNode_lt (fits_of_validate ht).flow flow) hjk hk
  by_cases hnext : lowerNode t.flowNodes flow + 1 < t.flowNodes.length
  · obtain ⟨hlower, hupper⟩ := (hflow.resolve_right (by omega)).lowerNode hincreasing
    have hhigh := entry_lt_entry ht hnext hjk hk
    change between (t.entry · j) _ _ < between (t.entry · k) _ _
    exact between_lt_between hlow hhigh (weight_nonneg hincreasing hlower) (weight_le_one hincreasing hupper)
  · unfold sectionAt curve
    rw [weight_of_length_le (not_lt.1 hnext), between_zero, between_zero]
    exact hlow

/-- The column at a flow gives the surface along the tubing-head pressure. -/
private theorem exists_column (htwo : 2 ≤ t.thpNodes.length) (flow : K) : ∃ column, t.column flow = .ok column ∧
    column.length = t.thpNodes.length ∧ t.pressure flow = curve t.thpNodes (column.getD · 0) ∧
    (Covers t.flowNodes flow ∨ t.flowNodes.length = 1 → isIncreasing column = true) := by
  obtain ⟨column, hcolumn, hlength, hsection⟩ := column_ok (fits_of_validate ht) flow
  refine ⟨column, hcolumn, hlength, ?_, ?_⟩
  · funext thp
    rw [pressure_eq]
    exact curve_congr htwo (fun j hj => (hsection j hj).symm) thp
  · intro hflow
    refine isIncreasing_iff.2 fun j k hjk hk => ?_
    have hk' : k < t.thpNodes.length := hlength ▸ hk
    rw [hsection j (by omega), hsection k hk']
    exact sectionAt_lt ht hflow hjk hk'

end

/-- The surface of a table: reading gives its height, in every cell that reaches a point the same one.  It goes through
the grid, stays between the pressures around a point of the table, is continuous, and on the flow axis increases with
the tubing-head pressure. -/
theorem bhp_interpolates [IsStrictOrderedRing K] [TopologicalSpace K] [OrderTopology K]
    (ht : t.validate = .ok ⟨⟩) :
    (∀ q thp, (t.bhp q thp).map (·.value) = .ok (t.pressure (t.flowKind.flow q).value thp)) ∧
    (∀ (i j : Nat) f p row b, t.flowNodes[i]? = some f → t.thpNodes[j]? = some p → t.grid[i]? = some row →
      row[j]? = some b → t.pressure f p = b) ∧
    (∀ flow thp, Covers t.flowNodes flow → Covers t.thpNodes thp →
      ∃ i i' j j', Surrounds t.flowNodes i i' flow ∧ Surrounds t.thpNodes j j' thp) ∧
    (∀ flow thp i i' j j', Surrounds t.flowNodes i i' flow → Surrounds t.thpNodes j j' thp →
      min (min (t.entry i j) (t.entry i j')) (min (t.entry i' j) (t.entry i' j')) ≤ t.pressure flow thp ∧
      t.pressure flow thp ≤ max (max (t.entry i j) (t.entry i j')) (max (t.entry i' j) (t.entry i' j'))) ∧
    (∀ (flow : WellDual K) thp i j, Serves t.flowNodes i flow.value → Serves t.thpNodes j thp →
      (t.bhpAt flow i j (weight t.thpNodes j thp)).map (·.value) = .ok (t.pressure flow.value thp)) ∧
    Continuous (fun x : K × K => t.pressure x.1 x.2) ∧
    ∀ flow, Covers t.flowNodes flow → 2 ≤ t.thpNodes.length → StrictMono (t.pressure flow) := by
  have hfits := fits_of_validate ht
  obtain ⟨hflow, hthp⟩ := increasing_of_validate ht
  refine ⟨bhp_value ht, ?_, ?_, ?_, ?_, ?_, ?_⟩
  · intro i j f p row b hf hp hrow hb
    obtain ⟨hi, rfl⟩ := List.getElem?_eq_some_iff.1 hf
    obtain ⟨hj, rfl⟩ := List.getElem?_eq_some_iff.1 hp
    have hentry := (hfits.getElem?_row hrow hj).symm.trans hb
    rw [← List.getD_eq_getElem _ 0 hi, ← List.getD_eq_getElem _ 0 hj]
    rw [pressure, curve_node hflow _ hi, curve_node hthp _ hj]
    exact Option.some.inj hentry
  · intro flow thp hf hp
    obtain ⟨i, i', hi⟩ := hf.exists_surrounds hflow
    obtain ⟨j, j', hj⟩ := hp.exists_surrounds hthp
    exact ⟨i, i', j, j', hi, hj⟩
  · intro flow thp i i' j j' hi hj
    obtain ⟨hlower, hupper⟩ := hi.curve_mem hflow (fun k => curve t.thpNodes (t.entry k) thp)
    obtain ⟨hlow, hlow'⟩ := hj.curve_mem hthp (t.entry i)
    obtain ⟨hhigh, hhigh'⟩ := hj.curve_mem hthp (t.entry i')
    exact ⟨(min_le_min hlow hhigh).trans hlower, hupper.trans (max_le_max hlow' hhigh')⟩
  · intro flow thp i j hi hj
    have hread := hfits.bhpAt_value flow thp (hi.lt_length hfits.flow) (hj.lt_length hfits.thp)
    rw [hread, pressure, curve_eq hflow _ hi]
    exact congrArg (fun v => Except.ok (between v i _)) (funext fun k => (curve_eq hthp (t.entry k) hj).symm)
  · exact continuous_curve hflow (fun i => continuous_curve hthp (fun j => continuous_const) continuous_snd)
      continuous_fst
  · intro flow hf htwo
    obtain ⟨column, -, hlength, hpressure, hincreasing⟩ := exists_column ht htwo flow
    rw [hpressure]
    exact curve_strictMono hthp (hincreasing (.inl hf)) hlength htwo

/-- Pressures that rise with the flow and faster at higher tubing-head pressures. -/
def steepening : LiftTable ℚ := ⟨1, 0, .liquid, [0, 100], [10, 20, 40], [[50, 60, 90], [80, 100, 150]]⟩

/-- At a flow between the nodes the pressure lies between those around it, and it increases with the tubing-head
pressure. -/
theorem bhp_interpolates_steepening : (50 : ℚ) ≤ steepening.pressure 50 15 ∧ steepening.pressure 50 15 ≤ 100 ∧
    StrictMono (steepening.pressure 50) ∧ Continuous fun x : ℚ × ℚ => steepening.pressure x.1 x.2 := by
  have hflow : Surrounds steepening.flowNodes 0 1 50 := ⟨.inr rfl, by decide, by decide +kernel, by decide +kernel⟩
  have hthp : Surrounds steepening.thpNodes 0 1 15 := ⟨.inr rfl, by decide, by decide +kernel, by decide +kernel⟩
  have hcovers : Covers steepening.flowNodes 50 := by
    constructor
    · exact ⟨0, List.mem_cons_self .., by decide +kernel⟩
    · exact ⟨100, List.mem_cons_of_mem _ (List.mem_cons_self ..), by decide +kernel⟩
  obtain ⟨-, -, -, hbounds, -, hcontinuous, hincreasing⟩ := bhp_interpolates (t := steepening) rfl
  obtain ⟨hlower, hupper⟩ := hbounds 50 15 0 1 0 1 hflow hthp
  exact ⟨hlower, hupper, hincreasing 50 hcovers (by decide), hcontinuous⟩

/-! ### Tubing-head pressures -/

/-- On an increasing column the tubing-head pressure is found by exchanging nodes and values. -/
private theorem thp_of_column (q : PerPhase (WellDual K)) {column : List K}
    (hcolumn : t.column (t.flowKind.flow q).value = .ok column) (hlength : column.length = t.thpNodes.length)
    (htwo : 2 ≤ t.thpNodes.length) (b : K) : t.thp (q.map (·.value)) b =
      if isIncreasing column then .ok (curve column (t.thpNodes.getD · 0) b)
      else .error (.numerical (.liftNotInvertible t.id (t.flowKind.flow q).value)) := by
  have hnext : lowerNode column b + 1 < t.thpNodes.length := by
    unfold lowerNode
    omega
  unfold thp
  rw [t.flowKind.value_flow]
  dsimp only
  rw [hcolumn]
  by_cases hincreasing : isIncreasing column = true
  · rw [if_pos hincreasing]
    refine (if_neg (not_not.2 hincreasing)).trans ?_
    rw [List.getElem?_eq_getElem hnext]
    have hread := valueAt_eq hlength.symm (hlength ▸ Nat.lt_of_succ_lt hnext) b
    exact Outcome.bind_ok.2 ⟨curve column (t.thpNodes.getD · 0) b, hread, if_pos rfl⟩
  · rw [if_neg hincreasing]
    exact if_pos hincreasing

/-- Whether a table tells the tubing-head pressures at rates: their flow lies on the flow axis, or there is a single
flow. -/
def SpansFlow (t : LiftTable K) (q : PerPhase (WellDual K)) : Prop :=
  Covers t.flowNodes (t.flowKind.flow q).value ∨ t.flowNodes.length = 1

end LiftTable

/-- Whether readings of bottom-hole and of tubing-head pressures invert each other at the same rates, where the latter
never fail for rates in a range. -/
structure HeadsInvert (bhp : PerPhase (WellDual K) → K → Outcome K (WellDual K))
    (thp : PerPhase K → K → Outcome K K) (range : PerPhase (WellDual K) → Prop) : Prop where
  bhp_ok : ∀ q p, ∃ b, bhp q p = .ok b
  bhp_of_thp : ∀ q b p, thp (q.map (·.value)) b = .ok p → (bhp q p).map (·.value) = .ok b
  thp_of_bhp : ∀ q p b p', (bhp q p).map (·.value) = .ok b → thp (q.map (·.value)) b = .ok p' → p' = p
  thp_ok : ∀ q b, range q → ∃ p, thp (q.map (·.value)) b = .ok p

/-- A correction of the bottom-hole pressure keeps two readings inverse. -/
private theorem HeadsInvert.corrected {bhp : PerPhase (WellDual K) → K → Outcome K (WellDual K)}
    {thp : PerPhase K → K → Outcome K K} {range : PerPhase (WellDual K) → Prop} (h : HeadsInvert bhp thp range)
    (c : K) : HeadsInvert (fun q p => (bhp q p).map (· - c)) (fun q b => thp q (b + c)) range := by
  refine ⟨fun q p => ?_, fun q b p hthp => ?_, fun q p b p' hbhp hthp => ?_, fun q b => h.thp_ok q (b + c)⟩
  · obtain ⟨b, hb⟩ := h.bhp_ok q p
    exact ⟨b - c, congrArg (Except.map _) hb⟩
  · obtain ⟨d, hd, hvalue⟩ := Outcome.map_ok.1 (h.bhp_of_thp q (b + c) p hthp)
    refine Outcome.map_ok.2 ⟨d - c, Outcome.map_ok.2 ⟨d, hd, rfl⟩, ?_⟩
    exact (congrArg (· - c) hvalue).trans (add_sub_cancel_right b c)
  · obtain ⟨d', hd', hvalue⟩ := Outcome.map_ok.1 hbhp
    obtain ⟨d, hd, rfl⟩ := Outcome.map_ok.1 hd'
    refine h.thp_of_bhp q p (b + c) p' (Outcome.map_ok.2 ⟨d, hd, ?_⟩) hthp
    rw [← hvalue]
    exact (sub_add_cancel d.value c).symm

namespace LiftTable

variable {t : LiftTable K} [IsStrictOrderedRing K]

private theorem headsInvert (ht : t.validate = .ok ⟨⟩) (htwo : 2 ≤ t.thpNodes.length) :
    HeadsInvert t.bhp t.thp t.SpansFlow := by
  have hnodes := (increasing_of_validate ht).2
  refine ⟨fun q p => ?_, fun q b p hthp => ?_, fun q p b p' hbhp hthp => ?_, fun q b hspans => ?_⟩
  · obtain ⟨b, hb, -⟩ := Outcome.map_ok.1 (bhp_value ht q p)
    exact ⟨b, hb⟩
  · obtain ⟨column, hcolumn, hlength, hpressure, -⟩ := exists_column ht htwo (t.flowKind.flow q).value
    rw [thp_of_column q hcolumn hlength htwo] at hthp
    split at hthp
    · rename_i hincreasing
      cases hthp
      rw [bhp_value ht, hpressure, curve_curve hincreasing hnodes hlength.symm (hlength.symm ▸ htwo)]
    · cases hthp
  · obtain ⟨column, hcolumn, hlength, hpressure, -⟩ := exists_column ht htwo (t.flowKind.flow q).value
    rw [thp_of_column q hcolumn hlength htwo] at hthp
    rw [bhp_value ht, hpressure] at hbhp
    split at hthp
    · rename_i hincreasing
      cases hbhp
      cases hthp
      exact curve_curve hnodes hincreasing hlength htwo p
    · cases hthp
  · obtain ⟨column, hcolumn, hlength, -, hincreasing⟩ := exists_column ht htwo (t.flowKind.flow q).value
    rw [thp_of_column q hcolumn hlength htwo, if_pos (hincreasing hspans)]
    exact ⟨_, rfl⟩

/-- Bottom-hole and tubing-head pressures invert each other in a table, and with the hydrostatic correction for every
well. -/
theorem thp_inverts_bhp (ht : t.validate = .ok ⟨⟩) (htwo : 2 ≤ t.thpNodes.length) :
    HeadsInvert t.bhp t.thp t.SpansFlow ∧ ∀ (u : WellUnit K) (setup : Setup K) (id : Nat),
      setup.lift.get id = .ok t → HeadsInvert (u.bhpOfThp setup id) (u.thpOfBhp setup id) t.SpansFlow := by
  refine ⟨headsInvert ht htwo, fun u setup id hid => ?_⟩
  have hbhp : u.bhpOfThp setup id = fun q p => (t.bhp q p).map fun d : WellDual K => d - u.liftCorrection setup t := by
    funext q p
    unfold WellUnit.bhpOfThp
    rw [hid]
    rfl
  have hthp : u.thpOfBhp setup id = fun q b => t.thp q (b + u.liftCorrection setup t) := by
    funext q b
    unfold WellUnit.thpOfBhp
    rw [hid]
    rfl
  rw [hbhp, hthp]
  exact (headsInvert ht htwo).corrected _

/-- A well whose bottom-hole pressures are corrected by twenty. -/
def steepeningUnit : WellUnit ℚ :=
  { WellUnit.create (.producer "P1" 10 [⟨0, 1, 10, 1⟩] ⟨[⟨.thp 1 0, 10, .replicate 0⟩], 0⟩) with
    segments := [⟨1 / 5, 0, 1⟩] }

/-- The setup of the well. -/
def steepeningSetup : Setup ℚ :=
  ⟨.single .water, { Settings.standard with gravity := 10 }, (FluidRegions.mk [.standard]).model, ⟨[steepening]⟩, none⟩

/-- The rates of the well: a flow halfway between the nodes of the table. -/
def steepeningRates : PerPhase (WellDual ℚ) := ⟨.const 0, .const (-50), .const 0⟩

/-- A tubing-head pressure that is found beyond the table gives the bottom-hole pressure back. -/
theorem thp_inverts_bhp_steepening : steepening.validate = .ok ⟨⟩ ∧ 2 ≤ steepening.thpNodes.length ∧
    steepeningSetup.lift.get 1 = .ok steepening ∧ steepening.SpansFlow steepeningRates ∧
    steepeningUnit.thpOfBhp steepeningSetup 1 (steepeningRates.map (·.value)) 140 = .ok 60 ∧
    (steepeningUnit.bhpOfThp steepeningSetup 1 steepeningRates 60).map (·.value) = .ok 140 := by
  have hspans : steepening.SpansFlow steepeningRates := by
    refine .inl ⟨⟨0, List.mem_cons_self .., by decide +kernel⟩, 100, ?_, by decide +kernel⟩
    exact List.mem_cons_of_mem _ (List.mem_cons_self ..)
  obtain ⟨-, hunit⟩ := thp_inverts_bhp (t := steepening) rfl (by decide)
  have hinverse := hunit steepeningUnit steepeningSetup 1 rfl
  have hthp : steepeningUnit.thpOfBhp steepeningSetup 1 (steepeningRates.map (·.value)) 140 = .ok 60 :=
    Outcome.ok_of_toOption (by decide +kernel)
  exact ⟨rfl, by decide, rfl, hspans, hthp, hinverse.bhp_of_thp steepeningRates 140 60 hthp⟩

end LiftTable

end BlackOilWells
