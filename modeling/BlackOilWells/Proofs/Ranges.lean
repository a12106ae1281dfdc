import BlackOilWells.Model.Potentials
import BlackOilWells.Proofs.Slots

/-!
# Accesses within range

A function that reads past the end of an array stops for a fault that nobody handles, and one that looks up what a
model does not have stops for an error.  The lemmas here say that a function stops for nothing but what its numbers
cause (`Fault.Computational`) where all that it reads is there.  Where a look-up may fail, the faults in question
comprise all errors, as those do that are no access past an end (`Fault.InRange`).

A lift table that was accepted has a value at every node that it looks at (`LiftTable.Fits`).  The closure relations of
a well look up cells and lift tables with a check, and need nothing more from a slot than its bottom-hole pressure.
-/

namespace BlackOilWells

open Attempt

variable {α : Type}

/-- Whether a fault is an error that somebody can handle, and not an access past the end of an array. -/
def Fault.InRange (e : Fault α) : Prop := e ≠ .outOfRange

theorem Fault.inRange_error (e : WellError α) : InRange (.error e) := nofun

theorem Fault.inRange_of_computational (e : Fault α) (h : e.Computational) : e.InRange := by
  rintro rfl
  exact h

variable {F : Fault α → Prop}

theorem Outcome.need_stops {β : Type} {b : Option β} (h : b.isSome) : (Outcome.need b : Outcome α β).Stops F :=
  .need fun hn => by
    rw [hn] at h
    cases h

theorem Outcome.getElem_stops {β : Type} {bs : List β} {i : Nat} (h : i < bs.length) :
    (Outcome.need bs[i]? : Outcome α β).Stops F :=
  need_stops (by rw [List.getElem?_eq_getElem h]; rfl)

private theorem Outcome.mem_of_need {β : Type} {bs : List β} {i : Nat} {b : β}
    (h : (Outcome.need bs[i]? : Outcome α β) = .ok b) : b ∈ bs := List.mem_of_getElem? (need_ok.1 h)

variable [Scalar α]

/-! ### Lift tables -/

namespace Axis

private theorem valueAt_stops {values : List α} {i : Nat} (h : i < values.length) (s : α) :
    (valueAt values i s).Stops F :=
  (Outcome.getElem_stops h).bind fun _ _ => .ok _

theorem lowerNode_lt {axis : List α} (h : 0 < axis.length) (x : α) : lowerNode axis x < axis.length := by
  unfold lowerNode
  omega

end Axis

namespace LiftTable

/-- Whether the grid of a table fits its axes, and no axis is empty. -/
structure Fits (t : LiftTable α) : Prop where
  flow : 0 < t.flowNodes.length
  thp : 0 < t.thpNodes.length
  rows : t.grid.length = t.flowNodes.length
  columns : ∀ row ∈ t.grid, row.length = t.thpNodes.length

variable {t : LiftTable α}

theorem fits_of_validate (h : t.validate = .ok ⟨⟩) : t.Fits := by
  change (if _ then (.error _ : Outcome α PUnit) else if _ then .error _ else if _ then .error _ else _) = _ at h
  split at h
  · cases h
  rename_i hempty
  split at h
  · cases h
  split at h
  · cases h
  rename_i hgrid
  simp only [Bool.or_eq_true, List.isEmpty_iff, not_or] at hempty
  simp only [Bool.or_eq_true, bne_iff_ne, ne_eq, List.any_eq_true, not_or, not_not, not_exists, not_and] at hgrid
  exact ⟨List.length_pos_iff.2 hempty.1, List.length_pos_iff.2 hempty.2, hgrid.1, hgrid.2⟩

namespace Fits

variable (h : t.Fits)

include h

private theorem bhp_stops (hF : ∀ e, Fault.Computational e → F e) (rates : PerPhase (WellDual α)) (thp : α) :
    (t.bhp rates thp).Stops F := by
  have hcolumn := Axis.lowerNode_lt h.thp thp
  have hrow := Axis.lowerNode_lt h.flow (t.flowKind.flow rates).value
  have hvalue {row : List α} (hr : row ∈ t.grid) (s : α) :
      (Axis.valueAt row (Axis.lowerNode t.thpNodes thp) s).Stops F :=
    Axis.valueAt_stops ((h.columns row hr).symm ▸ hcolumn) s
  refine Outcome.Stops.bind (Outcome.getElem_stops (h.rows.symm ▸ hrow)) fun row hr => ?_
  have hfinite (result : WellDual α) : Outcome.Stops F
      (if result.isFinite then .ok result else .error (.numerical (.liftNotFinite t.id)) : Outcome α (WellDual α)) :=
    .ite (fun _ => .ok _) fun _ => .error (hF _ trivial)
  refine Outcome.Stops.bind (hvalue (Outcome.mem_of_need hr) _) fun low _ => ?_
  dsimp only
  split
  · exact Outcome.Stops.bind (hvalue (List.mem_of_getElem? ‹_›) _) fun high _ => hfinite _
  · exact hfinite _

theorem column_length {flow : α} {column : List α} (hc : t.column flow = .ok column) :
    column.length = t.thpNodes.length := by
  obtain ⟨low, hlow, hc⟩ := Outcome.bind_ok.1 hc
  cases hc
  have hlength := h.columns low (Outcome.mem_of_need hlow)
  rw [List.length_zipWith, hlength]
  cases hnext : t.grid[Axis.lowerNode t.flowNodes flow + 1]? with
  | none => rw [Option.getD_none, hlength, Nat.min_self]
  | some row => rw [Option.getD_some, h.columns row (List.mem_of_getElem? hnext), Nat.min_self]

private theorem thp_stops (hF : ∀ e, Fault.Computational e → F e) (rates : PerPhase α) (bhp : α) :
    (t.thp rates bhp).Stops F := by
  have hrow := Axis.lowerNode_lt h.flow (t.flowKind.flow (rates.map .const)).value
  refine Outcome.Stops.bind ?_ fun column hc => ?_
  · exact Outcome.Stops.bind (Outcome.getElem_stops (h.rows.symm ▸ hrow)) fun _ _ => .ok _
  have hlength := h.column_length hc
  have hnode := Axis.lowerNode_lt (hlength.symm ▸ h.thp) bhp
  rw [hlength] at hnode
  refine .ite (fun _ => .error (hF _ trivial)) fun _ => ?_
  dsimp only
  split
  · refine Outcome.Stops.bind (Axis.valueAt_stops hnode _) fun thp _ => ?_
    exact Outcome.finite_stops hF _ _
  · refine Outcome.Stops.bind (Outcome.getElem_stops hnode) fun thp _ => ?_
    exact Outcome.finite_stops hF _ _

end Fits

end LiftTable

theorem LiftTables.stops_of_validate (hF : ∀ e, Fault.Computational e → F e) {ts : LiftTables α}
    (h : ∀ t ∈ ts.list, t.validate = .ok ⟨⟩) : ts.Stops F where
  bhp t ht := (LiftTable.fits_of_validate (h t ht)).bhp_stops hF
  thp t ht := (LiftTable.fits_of_validate (h t ht)).thp_stops hF

theorem LiftTables.Stops.serves_inRange {ts : LiftTables α} (h : ts.Stops Fault.InRange) (w : Well α) :
    ts.Serves Fault.InRange w :=
  ⟨fun _ _ _ _ _ => get_stops Fault.inRange_error _ _, h⟩

/-! ### Closure relations -/

/-- Whether the cells of all connections of a well are there, or any error is among given faults. -/
def Well.Reaches (F : Fault α → Prop) (cells : List (Cell α)) (w : Well α) : Prop :=
  ∀ c ∈ w.connections, cells[c.cell]? = none → ∀ e, F (.error e)

omit [Scalar α] in
theorem Well.reaches_inRange (cells : List (Cell α)) (w : Well α) : w.Reaches Fault.InRange cells :=
  fun _ _ _ => Fault.inRange_error

omit [Scalar α] in
theorem Well.Reaches.cellAt_stops {w : Well α} {cells : List (Cell α)} (h : w.Reaches F cells) {c : Connection α}
    (hc : c ∈ w.connections) : (cellAt cells c.cell).Stops F := by
  unfold cellAt
  cases hcell : cells[c.cell]? with
  | none => exact .error (h c hc hcell _)
  | some cell => exact .ok cell

variable (hF : ∀ e, Fault.Computational e → F e)

include hF

omit [Scalar α] in
theorem Outcome.ofFluid_stops {β : Type} (o : Except FluidError β) : (Outcome.ofFluid o : Outcome α β).Stops F := by
  cases o with
  | error e => exact .error (hF _ trivial)
  | ok b => exact .ok b

private theorem ConnectionInput.flux_stops (c : ConnectionInput α) (phases : PhaseSet) (pvt : PvtModel α) :
    (c.flux phases pvt).Stops F := by
  refine .ite (fun _ => .ite (fun _ => .ok _) fun _ => .ok _) fun _ => .ite (fun _ => .ok _) fun _ => ?_
  refine (Outcome.ofFluid_stops hF _).bind fun volume _ => ?_
  cases volume with
  | none => exact .ok _
  | some volume =>
    refine .ite (fun _ => .ok _) fun _ => .ite (fun _ => .ok _) fun _ => .error (hF _ trivial)

namespace WellUnit

variable {u : WellUnit α} {setup : Setup α} {cells : List (Cell α)}

theorem connectionFlux_stops (hcells : u.well.Reaches F cells) (setup : Setup α) (crossFlow : Bool) (bhp : WellDual α)
    {link : Connection α × Segment α} (hlink : link ∈ u.links) :
    (u.connectionFlux setup cells crossFlow bhp link).Stops F :=
  (hcells.cellAt_stops (List.of_mem_zip hlink).1).bind fun _ _ => ConnectionInput.flux_stops hF _ _ _

omit hF in
private theorem bottomHole_stops (hl : setup.lift.Serves F u.well) {control : Control α}
    (hc : control ∈ u.well.controls.list) : (u.bottomHole setup control).Stops F := by
  unfold bottomHole
  cases hk : control.kind with
  | thp table lift => exact u.bhpOfThp_stops hl.read (hl.find control hc table lift hk) _ _
  | bhp => exact .ok _
  | surfaceRate => exact .ok _
  | reservoirRate => exact .ok _

omit hF in
theorem admitsCrossFlow_stops (hl : setup.lift.Serves F u.well) (hcells : u.well.Reaches F cells)
    {control : Outcome α (Control α)} (hc : control.Stops F)
    (hmem : ∀ c, control = .ok c → c ∈ u.well.controls.list) : (u.admitsCrossFlow setup cells control).Stops F := by
  refine .ite (fun _ => .ok _) fun _ => hc.bind fun c hok => (bottomHole_stops hl (hmem c hok)).bind fun bhp _ => ?_
  exact .allM fun link hlink => (hcells.cellAt_stops (List.of_mem_zip hlink).1).bind fun _ _ => .ok _

theorem connectionFlows_stops (hl : setup.lift.Serves F u.well) (hcells : u.well.Reaches F cells) {s : Slot α}
    (hs : s.bhp.isSome) {control : Control α} (hc : control ∈ u.well.controls.list) :
    (u.connectionFlows setup cells s control).Stops F := by
  refine (bottomHole_stops hl hc).bind fun bhp _ => ?_
  refine (admitsCrossFlow_stops hl hcells (.ok control) fun c h => Except.ok.inj h ▸ hc).bind fun crossFlow _ => ?_
  refine .mapM fun link hlink => (connectionFlux_stops hF hcells _ _ _ hlink).bind fun _ _ => ?_
  exact (Outcome.need_stops hs).bind fun _ _ => .ok _

omit hF in
theorem tightestLimit_inRange (hl : setup.lift.Serves Fault.InRange u.well) (rates : PerPhase α) :
    (u.tightestLimit setup rates).Stops Fault.InRange := by
  refine Outcome.Stops.bind (.mapM fun c hc => ?_) fun limits _ => ?_
  · unfold pressureLimit?
    cases hk : c.kind with
    | thp table lift => exact (u.bhpOfThp_stops hl.read (hl.find c hc table lift hk) _ _).bind fun _ _ => .ok _
    | bhp => exact .ok _
    | surfaceRate => exact .ok _
    | reservoirRate => exact .ok _
  · cases limits.filterMap id with
    | nil => exact .error (Fault.inRange_error _)
    | cons limit rest => exact .ok _

end WellUnit

end BlackOilWells
