import Mathlib.Algebra.BigOperators.Ring.List
import Mathlib.Algebra.Group.Action.Defs
import Mathlib.Algebra.Ring.Nat
import BlackOilWells.Model.Switching
import BlackOilWells.Proofs.Places
import BlackOilWells.Proofs.Ranges

/-!
# States of the right size

A state has the right size for given wells if each of its lists has room for them or their connections, and if every
well is on a control that it has (`FlowState.Fits`).  A start has the right size (`FlowState.fits_of_init`), writing a
slot keeps it (`FlowState.Fits.putSlot`), and what is read from such a state for a well (`Slot.Within`) or for the
density of the fluid at a connection is there.
-/

namespace BlackOilWells

open Attempt

variable {α : Type} [Scalar α]

/-! ### States of the right size -/

/-- Whether a slot holds all there is to hold, and the control is one of the first `n`. -/
structure Slot.Within (n : Nat) (s : Slot α) : Prop where
  bhp : s.bhp.isSome
  thp : s.thp.isSome
  rates : s.rates.isSome
  unknowns : s.unknowns.isSome
  control : s.control.isSome
  current : ∀ i, s.control = some i → i < n

variable {F : Fault α → Prop}

omit [Scalar α] in
theorem Controls.get_of_lt {cs : Controls α} {i : Nat} (h : i < cs.list.length) : cs.get i = .ok cs.list[i] := by
  rw [get, List.getElem?_eq_getElem h]

omit [Scalar α] in
theorem Slot.Within.currentControl_stops {w : Well α} {s : Slot α} (h : s.Within w.controls.list.length) :
    (s.currentControl w).Stops F := by
  refine (Outcome.need_stops h.control).bind fun i hi => ?_
  rw [Controls.get_of_lt (h.current i (Outcome.need_ok.1 hi))]
  exact .ok _

theorem Slot.closed_within (hF : ∀ e, Fault.Computational e → F e) (w : Well α) (phases : PhaseSet) :
    Slot.Closed w phases (Slot.Within w.controls.list.length) F := by
  have absent {β : Type} {b : Option β} (h : b.isSome) (hn : b = none) : F .outOfRange := by
    rw [hn] at h
    cases h
  refine ⟨hF, fun h => ⟨absent h.bhp, fun _ _ _ => ?_⟩, fun h => ⟨absent h.thp, fun _ _ _ => ?_⟩,
    fun h => ⟨absent h.rates, fun _ _ _ => ?_⟩, fun h => ⟨absent h.unknowns, fun _ _ _ _ => ?_⟩,
    fun h => h.currentControl_stops⟩
  · exact { h with bhp := rfl }
  · exact { h with thp := rfl }
  · exact { h with rates := rfl }
  · exact { h with unknowns := rfl }

namespace Wells

/-- The number of connections and the number of constraints of each well. -/
def sizes (ws : Wells α) : List (Nat × Nat) := ws.list.map fun w => (w.connections.length, w.controls.list.length)

variable {ws : Wells α}

omit [Scalar α] in
private theorem numConnections_eq_sizes (ws : Wells α) : ws.numConnections = (ws.sizes.map Prod.fst).sum := by
  rw [numConnections_eq_sum, sizes, List.map_map]
  rfl

omit [Scalar α] in
theorem first_add_lt {p : Placed (Well α)} (hp : p ∈ ws.placed) {k : Nat} (hk : k < p.item.connections.length) :
    p.first + k < ws.numConnections := by
  rw [numConnections_eq_sum]
  exact Placed.first_add_lt hp hk

end Wells

namespace FlowState

omit [Scalar α] in
/-- A state with rates for all connections has those of a connection of a well. -/
theorem exists_ratesAt {ws : Wells α} {s : FlowState α} (h : s.connectionRates.length = 3 * ws.numConnections)
    {p : Placed (Well α)} (hp : p ∈ ws.placed) {k : Nat} (hk : k < p.item.connections.length) :
    ∃ q, s.ratesAt (p.first + k) = .ok q := by
  have hplace := Wells.first_add_lt hp hk
  have hsome : (Stride.get? s.connectionRates (p.first + k)).isSome := by
    rw [Stride.get?_isSome_iff]
    omega
  obtain ⟨v, hv⟩ := Option.isSome_iff_exists.1 hsome
  exact ⟨.ofVec v, Outcome.need_ok.2 (Option.map_eq_some_iff.2 ⟨v, hv, rfl⟩)⟩

/-- Whether a state has room for given wells and their connections, and each well is on a control that it has. -/
structure Fits (ws : Wells α) (s : FlowState α) : Prop where
  bhp : s.bhp.length = ws.list.length
  thp : s.thp.length = ws.list.length
  rates : s.rates.length = 3 * ws.list.length
  unknowns : s.unknowns.length = 3 * ws.list.length
  control : s.control.length = ws.list.length
  connectionPressure : s.connectionPressure.length = ws.numConnections
  connectionRates : s.connectionRates.length = 3 * ws.numConnections
  potentials : s.potentials.length = 3 * ws.numConnections
  current : ∀ (w : Nat) (well : Well α) (i : Nat),
    ws.list[w]? = some well → s.control[w]? = some i → i < well.controls.list.length

namespace Fits

variable {ws : Wells α} {s : FlowState α} (h : s.Fits ws)

include h

omit [Scalar α] in
/-- Every well is on a control. -/
theorem control_ne_none {w : Nat} (hw : w < ws.list.length) : s.control[w]? ≠ none := by
  rw [Ne, List.getElem?_eq_none_iff, h.control]
  exact Nat.not_le.2 hw

omit [Scalar α] in
/-- Of the wells only the sizes matter. -/
theorem of_sizes {ws' : Wells α} (hs : ws'.sizes = ws.sizes) : s.Fits ws' := by
  have hlist : ws'.list.length = ws.list.length := by
    have hlen := congrArg List.length hs
    rwa [Wells.sizes, Wells.sizes, List.length_map, List.length_map] at hlen
  have hconnections : ws'.numConnections = ws.numConnections := by
    rw [Wells.numConnections_eq_sizes, hs, Wells.numConnections_eq_sizes]
  refine ⟨hlist ▸ h.bhp, hlist ▸ h.thp, hlist ▸ h.rates, hlist ▸ h.unknowns, hlist ▸ h.control,
    hconnections ▸ h.connectionPressure, hconnections ▸ h.connectionRates, hconnections ▸ h.potentials, ?_⟩
  intro w well i hw hi
  have hsize : ws'.sizes[w]? = ws.sizes[w]? := congrArg (·[w]?) hs
  rw [Wells.sizes, Wells.sizes, List.getElem?_map, List.getElem?_map, hw, Option.map_some] at hsize
  obtain ⟨well', hw', heq⟩ := Option.map_eq_some_iff.1 hsize.symm
  have hcontrols : well'.controls.list.length = well.controls.list.length := congrArg Prod.snd heq
  rw [← hcontrols]
  exact h.current w well' i hw' hi

variable {w : Nat} {well : Well α} (hw : ws.list[w]? = some well)

include hw

omit [Scalar α] in
theorem slot : (s.slot w).Within well.controls.list.length := by
  obtain ⟨hlt, -⟩ := List.getElem?_eq_some_iff.1 hw
  have hget {β : Type} {xs : List β} (hx : xs.length = ws.list.length) : xs[w]?.isSome := by
    rw [isSome_getElem?]
    omega
  refine ⟨hget h.bhp, hget h.thp, ?_, ?_, hget h.control, fun i => h.current w well i hw⟩
  · have hr := h.rates
    rw [FlowState.slot, Option.isSome_map, Stride.get?_isSome_iff]
    omega
  · have hu := h.unknowns
    rw [FlowState.slot, Option.isSome_map, Stride.get?_isSome_iff]
    omega

omit [Scalar α] in
theorem putSlot {t : Slot α} (ht : ∀ i, t.control = some i → i < well.controls.list.length) :
    (s.putSlot w t).Fits ws := by
  obtain ⟨bhp, thp, rates, unknowns, control⟩ := t
  refine ⟨?_, ?_, ?_, ?_, ?_, h.connectionPressure, h.connectionRates, h.potentials, fun v well' i hv hi => ?_⟩
  · cases bhp
    · exact h.bhp
    · exact (List.length_set ..).trans h.bhp
  · cases thp
    · exact h.thp
    · exact (List.length_set ..).trans h.thp
  · cases rates
    · exact h.rates
    · exact (Stride.length_set ..).trans h.rates
  · cases unknowns
    · exact h.unknowns
    · exact (Stride.length_set ..).trans h.unknowns
  · cases control
    · exact h.control
    · exact (List.length_set ..).trans h.control
  · cases control with
    | none => exact h.current v well' i hv hi
    | some j =>
      change (s.control.set w j)[v]? = some i at hi
      by_cases hwv : w = v
      · subst hwv
        rw [hw] at hv
        cases hv
        obtain ⟨hlt, hi⟩ := List.getElem?_eq_some_iff.1 hi
        rw [List.getElem_set_self] at hi
        exact hi ▸ ht j rfl
      · rw [List.getElem?_set_ne hwv] at hi
        exact h.current v well' i hv hi

omit h in
omit [Scalar α] in
/-- What keeps a complete slot, keeps a state of the right size. -/
theorem onSlot_keeps {β : Type} {act : Attempt α (Slot α) β}
    (hact : Keeps (Slot.Within well.controls.list.length) F act) : Keeps (Fits ws) F (onSlot w act) := by
  intro s hs
  obtain ⟨ht, hstops⟩ := hact _ (hs.slot hw)
  rw [run_onSlot]
  exact ⟨hs.putSlot hw ht.current, hstops⟩

omit h in
omit [Scalar α] in
/-- A well is put on a control that it has. -/
theorem putControl_keeps {i : Nat} (hi : i < well.controls.list.length) :
    Keeps (Fits ws) F (onSlot w (Slot.putControl i)) := by
  refine onSlot_keeps hw fun t ht => ?_
  obtain ⟨j, hj⟩ := Option.isSome_iff_exists.1 ht.control
  unfold Slot.putControl
  rw [run_get_bind, hj]
  refine ⟨{ ht with control := rfl, current := fun k hk => ?_ }, .ok _⟩
  cases hk
  exact hi

end Fits

end FlowState

/-! ### The start -/

omit [Scalar α] in
theorem Controls.lt_of_get {cs : Controls α} {i : Nat} {c : Control α} (h : cs.get i = .ok c) : i < cs.list.length :=
  (List.getElem?_eq_some_iff.1 (getElem?_of_get h)).1

namespace Well

/-- The start of a well has a pressure for each connection, and its control is one of the constraints. -/
theorem start_ok {w : Well α} {cells : List (Cell α)} {phases : PhaseSet} {t : WellStart α}
    (h : w.start cells phases = .ok t) :
    t.pressures.length = w.connections.length ∧ t.control < w.controls.list.length := by
  obtain ⟨control, hc, h⟩ := Outcome.bind_ok.1 h
  obtain ⟨pressures, hp, h⟩ := Outcome.bind_ok.1 h
  obtain ⟨top, -, h⟩ := Outcome.bind_ok.1 h
  obtain ⟨unknowns, -, h⟩ := Outcome.bind_ok.1 h
  cases h
  exact ⟨(Outcome.mapM_ok.1 hp).length_eq.symm, Controls.lt_of_get hc⟩

private theorem start_stops {w : Well α} (hw : w.connections ≠ []) (hc : (w.controls.get w.controls.initial).Stops F)
    {cells : List (Cell α)} (hcells : w.Reaches F cells) {phases : PhaseSet}
    (hencode : ∀ control rates bhp, (w.encode phases control rates (.ok bhp)).Stops F) :
    (w.start cells phases).Stops F := by
  refine hc.bind fun control _ => Outcome.Stops.bind (.mapM fun c hc => ?_) fun pressures hp => ?_
  · unfold connectedPressure
    cases hcell : cells[c.cell]? with
    | none => exact .error (hcells c hc hcell _)
    | some cell => exact .ok _
  refine Outcome.Stops.bind (Outcome.need_stops ?_) fun top _ => ?_
  · have hlength := (Outcome.mapM_ok.1 hp).length_eq
    rw [List.isSome_head?]
    rintro rfl
    exact hw (List.eq_nil_of_length_eq_zero hlength)
  · exact (hencode control _ _).bind fun _ _ => .ok _

end Well

namespace FlowState

/-- A start has the right size. -/
theorem fits_of_init {ws : Wells α} {cells : List (Cell α)} {phases : PhaseSet} {s : FlowState α}
    (h : FlowState.init ws cells phases = .ok s) : s.Fits ws := by
  obtain ⟨starts, hstarts, h⟩ := Outcome.bind_ok.1 h
  cases h
  have hall := Outcome.mapM_ok.1 hstarts
  have hlength : starts.length = ws.list.length := hall.length_eq.symm
  have hpressures : (starts.map fun t => t.pressures.length).sum = ws.numConnections := by
    rw [Wells.numConnections_eq_sum, Outcome.map_of_mapM (fun w t ht => (Well.start_ok ht).1) hstarts]
  have hthree (f : WellStart α → List α) (hf : ∀ t, (f t).length = 3) :
      (starts.flatMap f).length = 3 * ws.list.length := by
    simp only [List.length_flatMap, hf, List.map_const', List.sum_replicate, smul_eq_mul, hlength, Nat.mul_comm]
  have hshares (f : WellStart α → List α) (hf : ∀ t, (f t).length = 3) :
      (starts.flatMap fun t => t.pressures.flatMap fun _ => f t).length = 3 * ws.numConnections := by
    simp only [List.length_flatMap, hf, List.map_const', List.sum_replicate, smul_eq_mul]
    rw [List.sum_map_mul_right, hpressures, Nat.mul_comm]
  refine ⟨?_, ?_, hthree _ fun _ => rfl, hthree _ fun _ => rfl, ?_, ?_, hshares (·.share.toList) fun _ => rfl,
    hshares _ fun _ => rfl, fun w well i hw hi => ?_⟩
  · exact (List.length_map ..).trans hlength
  · exact (List.length_map ..).trans hlength
  · exact (List.length_map ..).trans hlength
  · exact List.length_flatMap.trans hpressures
  · rw [ofStarts, List.getElem?_map] at hi
    obtain ⟨t, ht, rfl⟩ := Option.map_eq_some_iff.1 hi
    exact (Well.start_ok (Outcome.ok_of_getElem? hstarts hw ht)).2

theorem init_stops {ws : Wells α} (hws : ∀ w ∈ ws.list, w.connections ≠ [])
    (hc : ∀ w ∈ ws.list, (w.controls.get w.controls.initial).Stops F) {cells : List (Cell α)}
    (hcells : ∀ w ∈ ws.list, w.Reaches F cells) {phases : PhaseSet}
    (hencode : ∀ w ∈ ws.list, ∀ control rates bhp, (w.encode phases control rates (.ok bhp)).Stops F) :
    (FlowState.init ws cells phases).Stops F :=
  Outcome.Stops.bind (.mapM fun w hw => Well.start_stops (hws w hw) (hc w hw) (hcells w hw) (hencode w hw)) fun _ _ =>
    .ok _

end FlowState

/-! ### A well in a state -/

namespace Well

variable {w : Well α}

private theorem lt_of_scan {s : Slot α} {current i : Nat} (h : w.scan s current = .ok (some i)) :
    i < w.controls.list.length := by
  obtain ⟨rates, -, h⟩ := Outcome.bind_ok.1 h
  split at h
  · obtain ⟨bhp, -, h⟩ := Outcome.bind_ok.1 h
    obtain ⟨thp, -, h⟩ := Outcome.bind_ok.1 h
    obtain ⟨p, hp, rfl⟩ := Option.map_eq_some_iff.1 (Except.ok.inj h)
    have hget := List.mem_zipIdx_iff_getElem?.1 (List.mem_of_find?_eq_some hp)
    exact (List.getElem?_eq_some_iff.1 hget).1
  · cases h

variable {s : Slot α} (hs : s.Within w.controls.list.length)

include hs

theorem nextControl_stops (group : Option Nat) : (w.nextControl s group).Stops F := by
  refine (Outcome.need_stops hs.control).bind fun current _ => .ite (fun _ => .ok _) fun _ => ?_
  refine Outcome.Stops.bind ?_ fun broken _ => ?_
  · refine (Outcome.need_stops hs.rates).bind fun rates _ => .ite (fun _ => ?_) fun _ => .ok _
    exact (Outcome.need_stops hs.bhp).bind fun _ _ => (Outcome.need_stops hs.thp).bind fun _ _ => .ok _
  · cases broken with
    | none => exact .ok _
    | some i => exact .ok _

/-- A well is only put on a control that it has. -/
theorem lt_of_nextControl {group : Option Nat} {i : Nat} {b : Bool} (h : w.nextControl s group = .ok (i, b)) :
    i < w.controls.list.length := by
  obtain ⟨current, hc, h⟩ := Outcome.bind_ok.1 h
  have hlt := hs.current current (Outcome.need_ok.1 hc)
  split at h
  · cases h
    exact hlt
  obtain ⟨broken, hb, h⟩ := Outcome.bind_ok.1 h
  cases broken with
  | none =>
    cases h
    exact hlt
  | some j =>
    cases h
    exact lt_of_scan hb

end Well

theorem WellUnit.assemble_stops (hF : ∀ e, Fault.Computational e → F e) {u : WellUnit α} {setup : Setup α}
    (hl : setup.lift.Serves F u.well) {cells : List (Cell α)} (hcells : u.well.Reaches F cells) (dt : α) {s : Slot α}
    (hs : s.Within u.well.controls.list.length) : (u.assemble setup cells dt s).Stops F := by
  refine hs.currentControl_stops.bind fun control hc => ?_
  refine (connectionFlows_stops hF hl hcells hs.bhp (Slot.mem_of_currentControl hc)).bind fun flows _ => ?_
  refine Outcome.Stops.bind ?_ fun system _ => .ok _
  unfold WellSystem.eliminate
  cases WellSystem.invert (u.linearSystem setup control dt flows).jacobian with
  | error flaw => exact .error (hF _ trivial)
  | ok inv => exact .ok _

/-! ### Hydrostatics -/

namespace FlowState.Fits

variable {ws : Wells α} {s : FlowState α} (h : s.Fits ws) {p : Placed (Well α)} (hp : p ∈ ws.placed)

include h

omit [Scalar α] in
private theorem pressureAt_stops {i : Nat} (hi : i < ws.numConnections) : (s.pressureAt i).Stops F :=
  Outcome.getElem_stops (h.connectionPressure.symm ▸ hi)

omit [Scalar α] in
private theorem ratesAt_stops {i : Nat} (hi : i < ws.numConnections) : (s.ratesAt i).Stops F := by
  have hlength := h.connectionRates
  refine Outcome.need_stops ?_
  rw [Option.isSome_map, Stride.get?_isSome_iff]
  omega

include hp

private theorem connectionFluids_stops (hF : ∀ e, Fault.Computational e → F e) {cells : List (Cell α)}
    (hcells : p.item.Reaches F cells) (phases : PhaseSet) (pvt : PvtModel α) :
    (Well.connectionFluids p s cells phases pvt).Stops F := by
  have hwell := (Placed.mem_ofList _ hp).1
  refine (Outcome.need_stops (h.slot hwell).rates).bind fun rates _ => .mapM ?_
  rintro ⟨c, k⟩ hc
  obtain ⟨hk, hget⟩ := List.getElem?_eq_some_iff.1 (List.mem_zipIdx_iff_getElem?.1 hc)
  dsimp only at hk hget ⊢
  cases hcell : cells[c.cell]? with
  | none => exact .error (hcells c (hget ▸ List.getElem_mem hk) hcell _)
  | some cell =>
    refine Outcome.Stops.bind ?_ fun above _ => ?_
    · cases k with
      | zero => exact Outcome.need_stops (h.slot hwell).bhp
      | succ k => exact h.pressureAt_stops (Wells.first_add_lt hp (by omega))
    · exact (h.pressureAt_stops (Wells.first_add_lt hp hk)).bind fun here _ => Outcome.ofFluid_stops hF _

end FlowState.Fits

namespace ConnectionProperties

/-- Whether there are properties for a number of connections. -/
structure Covers (n : Nat) (props : ConnectionProperties α) : Prop where
  invB : props.invB.length = n
  rsMax : props.rsMax.isEmpty = false → props.rsMax.length = n
  rvMax : props.rvMax.isEmpty = false → props.rvMax.length = n
  surfaceDensity : props.surfaceDensity.length = n

variable {ws : Wells α} {s : FlowState α} {cells : List (Cell α)} {phases : PhaseSet} {pvt : PvtModel α}

theorem ofFlow_stops (hF : ∀ e, Fault.Computational e → F e) (h : s.Fits ws)
    (hcells : ∀ w ∈ ws.list, w.Reaches F cells) : (ofFlow ws s cells phases pvt).Stops F := by
  refine Outcome.Stops.bind (.mapM fun p hp => ?_) fun _ _ => .ok _
  have hwell := List.mem_of_getElem? (Placed.mem_ofList _ hp).1
  exact h.connectionFluids_stops hp hF (hcells p.item hwell) phases pvt

theorem covers_of_ofFlow {props : ConnectionProperties α} (h : ofFlow ws s cells phases pvt = .ok props) :
    props.Covers ws.numConnections := by
  obtain ⟨fluids, hfluids, h⟩ := Outcome.bind_ok.1 h
  cases h
  have hlength : fluids.flatten.length = ws.numConnections := by
    have hplaced := Placed.map_ofList (·.connections.length) (fun w : Well α => w.connections.length) ws.list
    rw [List.length_flatten, Wells.numConnections_eq_sum, ← hplaced, Outcome.map_of_mapM ?_ hfluids]
    · rfl
    intro p ds hds
    obtain ⟨rates, -, hds⟩ := Outcome.bind_ok.1 hds
    rw [← (Outcome.mapM_ok.1 hds).length_eq, List.length_zipIdx]
  have hratios (f : ConnectionFluid α → α) :
      (if phases.hasOilAndGas then fluids.flatten.map f else []).isEmpty = false →
        (if phases.hasOilAndGas then fluids.flatten.map f else []).length = ws.numConnections := by
    cases phases.hasOilAndGas with
    | false => exact nofun
    | true => exact fun _ => (List.length_map ..).trans hlength
  exact ⟨(List.length_map ..).trans hlength, hratios _, hratios _, (List.length_map ..).trans hlength⟩

private theorem Covers.density_stops {n i : Nat} {props : ConnectionProperties α} (h : props.Covers n) (hi : i < n)
    (phases : PhaseSet) (mix : PerPhase α) : (props.density phases mix i).Stops F := by
  have hratio {ratios : List α} (hr : ratios.isEmpty = false → ratios.length = n) :
      (ratioAt ratios i).Stops F := by
    unfold ratioAt
    cases he : ratios.isEmpty with
    | true => exact .ok _
    | false => exact Outcome.Stops.map (Outcome.getElem_stops ((hr he).symm ▸ hi))
  have hrest (rsMax rvMax : Option α) : Outcome.Stops F (show Outcome α α from do
      let invB ← Outcome.need props.invB[i]?
      let surfaceDensity ← Outcome.need props.surfaceDensity[i]?
      return mixDensity phases mix invB surfaceDensity rsMax rvMax) := by
    refine (Outcome.getElem_stops (h.invB.symm ▸ hi)).bind fun invB _ => ?_
    exact (Outcome.getElem_stops (h.surfaceDensity.symm ▸ hi)).bind fun surfaceDensity _ => .ok _
  refine .ite (fun _ => (hratio h.rsMax).bind fun rsMax _ => ?_) fun _ => ?_
  all_goals
    refine .ite (fun _ => (hratio h.rvMax).bind fun rvMax _ => ?_) fun _ => ?_
    · exact hrest _ _
    · exact hrest _ _

end ConnectionProperties

theorem length_upwardFlows (qs : List (PerPhase α)) : (upwardFlows qs).length = qs.length := by
  induction qs with
  | nil => rfl
  | cons q qs ih => rw [upwardFlows, List.length_cons, List.length_cons, ih]

private theorem length_columnHeads (gravity depth acc : α) (zs : List (α × α)) :
    (columnHeads gravity depth acc zs).length = zs.length := by
  induction zs generalizing depth acc with
  | nil => rfl
  | cons z zs ih => rw [columnHeads, List.length_cons, List.length_cons, ih]

/-- There is a density for each connection. -/
theorem Well.length_densities {s : FlowState α} {p : Placed (Well α)} {phases : PhaseSet}
    {props : ConnectionProperties α} {ds : List α} (h : Well.densities p s phases props = .ok ds) :
    ds.length = p.item.connections.length := by
  obtain ⟨rates, hrates, h⟩ := Outcome.bind_ok.1 h
  rw [← (Outcome.mapM_ok.1 h).length_eq, List.length_zipIdx, length_upwardFlows, ← (Outcome.mapM_ok.1 hrates).length_eq,
    List.length_zipIdx]

/-- There is a pressure difference for each connection. -/
theorem Well.length_heads (w : Well α) (gravity : α) {ds : List α} (h : ds.length = w.connections.length) :
    (w.heads gravity ds).length = w.connections.length := by
  rw [heads, length_columnHeads, List.length_zip, List.length_map, h, Nat.min_self]

theorem Well.densities_stops {ws : Wells α} {s : FlowState α} (h : s.Fits ws) {p : Placed (Well α)}
    (hp : p ∈ ws.placed) (phases : PhaseSet) {props : ConnectionProperties α}
    (hprops : props.Covers ws.numConnections) : (Well.densities p s phases props).Stops F := by
  refine Outcome.Stops.bind (.mapM ?_) fun rates hrates => .mapM ?_
  · rintro ⟨c, k⟩ hc
    have hk := (List.getElem?_eq_some_iff.1 (List.mem_zipIdx_iff_getElem?.1 hc)).1
    exact h.ratesAt_stops (Wells.first_add_lt hp hk)
  · rintro ⟨flow, k⟩ hflow
    have hk := (List.getElem?_eq_some_iff.1 (List.mem_zipIdx_iff_getElem?.1 hflow)).1
    have hlength := (Outcome.mapM_ok.1 hrates).length_eq
    rw [length_upwardFlows, ← hlength, List.length_zipIdx] at hk
    exact hprops.density_stops (Wells.first_add_lt hp hk) _ _

end BlackOilWells
