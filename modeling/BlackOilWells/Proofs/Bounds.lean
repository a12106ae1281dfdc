import BlackOilWells.Model.Potentials
import BlackOilWells.Proofs.Invariants
import BlackOilWells.Proofs.StateSizes

/-!
# Operations within bounds

A session is within bounds for given wells if its model has wells of their sizes and its flow state has the right size
for them (`Session.Bounded`).  Every operation on such a session leaves one, also where it stops, and stops for nothing
but errors that it reports.

Of the wells only the sizes matter: a group may change the targets of constraints, but it neither adds nor drops one.
-/

namespace BlackOilWells

open Attempt

variable {ω α γ : Type} [Scalar α]

namespace Model

/-! ### Models of wells of given sizes -/

/-- The numbers of connections and of constraints of each well, and the number of segments of its well bore. -/
def sizes (m : Model α) : List ((Nat × Nat) × Nat) :=
  m.units.map fun u => ((u.well.connections.length, u.well.controls.list.length), u.segments.length)

/-- Whether a model has wells of given sizes, each with a connection and with one segment for each connection, and lift
tables that can be read. -/
structure Covers (ws : Wells α) (m : Model α) : Prop where
  sizes : m.sizes = ws.sizes.map fun n => (n, n.1)
  connected : ∀ n ∈ ws.sizes, n.1 ≠ 0
  lift : m.setup.lift.Stops Fault.InRange

variable {ws : Wells α} {m m' : Model α}

omit [Scalar α] in
theorem getElem?_wells {w : Nat} {u : WellUnit α} (h : m.units[w]? = some u) : m.wells.list[w]? = some u.well := by
  rw [wells, List.getElem?_map, h, Option.map_some]

omit [Scalar α] in
/-- The wells stand in the order of the units. -/
theorem getElem?_wellsPlaced {w : Nat} {u : WellUnit α} (h : m.units[w]? = some u) :
    m.wells.placed[w]? = some ⟨w, Placed.offset (·.connections.length) m.wells.list w, u.well⟩ := by
  rw [Wells.placed, Placed.getElem?_ofList, getElem?_wells h, Option.map_some]

private theorem sizes_of_outline (h : m'.outline = m.outline) : m'.sizes = m.sizes := by
  have ho (m : Model α) : m.outline.sizes = m.sizes := by
    rw [sizes, sizes, outline, List.map_map]
    rfl
  rw [← ho m', h, ho m]

namespace Covers

variable (h : m.Covers ws)

include h

private theorem congr (hm : m'.sizes = m.sizes) (hs : m'.setup = m.setup) : m'.Covers ws :=
  ⟨hm.trans h.sizes, h.connected, hs ▸ h.lift⟩

theorem of_outline (ho : m'.outline = m.outline) : m'.Covers ws :=
  h.congr (sizes_of_outline ho) (congrArg Model.setup ho :)

theorem wells_sizes : m.wells.sizes = ws.sizes := by
  have hfst := congrArg (List.map Prod.fst) h.sizes
  rw [Model.sizes, List.map_map, List.map_map] at hfst
  rw [Wells.sizes, wells, List.map_map]
  exact hfst.trans (List.map_id _)

theorem length_units : m.units.length = ws.list.length := by
  have hlength := congrArg List.length h.sizes
  rwa [Model.sizes, List.length_map, List.length_map, Wells.sizes, List.length_map] at hlength

theorem fits_iff {s : FlowState α} : s.Fits m.wells ↔ s.Fits ws :=
  ⟨fun hs => hs.of_sizes h.wells_sizes.symm, fun hs => hs.of_sizes h.wells_sizes⟩

/-- What is zipped with the segments of a well has one member for each connection. -/
theorem length_segments {u : WellUnit α} (hu : u ∈ m.units) : u.segments.length = u.well.connections.length := by
  have hmem : ((u.well.connections.length, u.well.controls.list.length), u.segments.length) ∈ m.sizes :=
    List.mem_map_of_mem hu
  rw [h.sizes] at hmem
  obtain ⟨n, -, hn⟩ := List.mem_map.1 hmem
  obtain ⟨rfl, hlength⟩ := Prod.mk.inj hn
  exact hlength.symm

theorem connections_ne_nil {u : WellUnit α} (hu : u ∈ m.units) : u.well.connections ≠ [] := by
  have hmem : (u.well.connections.length, u.well.controls.list.length) ∈ ws.sizes := by
    rw [← h.wells_sizes, Wells.sizes, wells, List.map_map]
    exact List.mem_map_of_mem hu
  exact fun hn => h.connected _ hmem (by rw [hn]; rfl)

theorem setTarget {w i : Nat} {target : α} (hm : m.setTarget w i target = .ok m') : m'.Covers ws := by
  refine h.congr ?_ (setup_of_setTarget hm)
  obtain ⟨u, hu, hm⟩ := Outcome.bind_ok.1 hm
  obtain ⟨cs, hcs, hm⟩ := Outcome.bind_ok.1 hm
  cases hm
  have hlength : cs.list.length = u.well.controls.list.length := by
    unfold Controls.setTarget at hcs
    cases hc : u.well.controls.list[i]? with
    | none =>
      rw [hc] at hcs
      cases hcs
    | some c =>
      rw [hc] at hcs
      cases hcs
      exact List.length_set ..
  obtain ⟨hlt, rfl⟩ := List.getElem?_eq_some_iff.1 (getElem?_of_unit hu)
  have hlt' : w < m.sizes.length := by rwa [Model.sizes, List.length_map]
  have hself := List.set_getElem_self hlt'
  rw [Model.sizes, List.map_set, hlength]
  simp only [Model.sizes, List.getElem_map] at hself
  exact hself

/-- The wells may be replaced by others of the same sizes. -/
theorem map {f : WellUnit α → WellUnit α} (hwell : ∀ u, (f u).well = u.well)
    (hsegments : ∀ u ∈ m.units, (f u).segments.length = u.segments.length) :
    ({ m with units := m.units.map f } : Model α).Covers ws := by
  refine h.congr ?_ rfl
  rw [Model.sizes, Model.sizes, List.map_map]
  refine List.map_congr_left fun u hu => ?_
  rw [Function.comp_apply, hwell, hsegments u hu]

theorem setEfficiencies (factor : String → α) : (m.setEfficiencies factor).Covers ws := by
  refine h.map (f := fun u => u.setEfficiency (factor u.well.name)) (fun _ => rfl) fun u hu => ?_
  rw [WellUnit.setEfficiency, List.length_zipWith, h.length_segments hu, Nat.min_self]

theorem setStartFractions : m.setStartFractions.Covers ws := h.map (fun _ => rfl) fun _ _ => rfl

theorem setDensities {cells : List (Cell α)} {s : FlowState α} (hm : m.setDensities cells s = .ok m') :
    m'.Covers ws := by
  refine h.congr ?_ (setup_of_setDensities hm)
  obtain ⟨props, -, hm⟩ := Outcome.bind_ok.1 hm
  obtain ⟨densities, hd, hm⟩ := Outcome.bind_ok.1 hm
  cases hm
  have hlength : densities.length = m.units.length := by
    rw [← (Outcome.mapM_ok.1 hd).length_eq, Wells.placed, Placed.length_ofList, wells, List.length_map]
  refine List.ext_getElem? fun i => ?_
  rw [Model.sizes, Model.sizes, List.getElem?_map, List.getElem?_map, List.getElem?_zipWith]
  cases hu : m.units[i]? with
  | none => rfl
  | some u =>
  cases hds : densities[i]? with
  | none =>
    rw [List.getElem?_eq_none_iff] at hds
    obtain ⟨hlt, -⟩ := List.getElem?_eq_some_iff.1 hu
    omega
  | some ds =>
    have hlen : ds.length = u.well.connections.length :=
      Well.length_densities (Outcome.ok_of_getElem? hd (getElem?_wellsPlaced hu) hds)
    have hsegments := h.length_segments (List.mem_of_getElem? hu)
    have hheads := u.well.length_heads m.setup.settings.gravity hlen
    simp only [Option.map_some, WellUnit.setDensities, List.length_zipWith, List.length_zip, hheads, hlen, hsegments,
      Nat.min_self]

end Covers

/-! ### Operations on a flow state -/

variable (m : Model α) {s : FlowState α} {F : Fault α → Prop}

omit [Scalar α] in
theorem checkState_of_fits (hs : s.Fits m.wells) : m.checkState s = .ok ⟨⟩ := by
  have hbhp := hs.bhp
  rw [wells, List.length_map] at hbhp
  exact if_pos ⟨hbhp, hs.connectionPressure⟩

theorem setUnknowns_stops (hs : s.Fits m.wells) : (m.setUnknowns s).Stops F := by
  refine Outcome.Stops.bind (.mapM ?_) fun _ _ => .ok _
  rintro ⟨u, w⟩ hu
  have hslot := hs.slot (getElem?_wells (List.mem_zipIdx_iff_getElem?.1 hu))
  exact (Outcome.need_stops hslot.unknowns).bind fun _ _ => .ok _

omit [Scalar α] in
private theorem getInverse_inRange (s : WellSystem α) : s.getInverse.Stops Fault.InRange := by
  unfold WellSystem.getInverse
  cases s.inverse with
  | none => exact .error (Fault.inRange_error _)
  | some inv => exact .ok inv

private theorem wellUpdates_inRange : m.wellUpdates.Stops Fault.InRange :=
  .mapM fun u _ => (getInverse_inRange u.system).bind fun _ _ => .ok _

theorem recover_inRange (x : List (Vec3 α)) : (m.recover x).Stops Fault.InRange := by
  refine .mapM fun u _ => (getInverse_inRange u.system).bind fun inv _ => ?_
  refine Outcome.Stops.bind (.foldlM fun acc c => Outcome.Stops.bind ?_ fun _ _ => .ok _) fun _ _ => .ok _
  unfold WellSystem.entry
  cases x[c.cell]? with
  | none => exact .error (Fault.inRange_error _)
  | some v => exact .ok v

omit [Scalar α] in
private theorem countChange_keeps (ws : Wells α) : Keeps (FlowState.Fits ws) F FlowState.countChange :=
  .modify fun _ hs => { hs with }

omit [Scalar α] in
private theorem first_add_lt {p : Placed (WellUnit α)} (hp : p ∈ m.placed) {k : Nat}
    (hk : k < p.item.well.connections.length) :
    p.first + k < m.wells.numConnections := by
  rw [Wells.numConnections_eq_sum, wells, List.map_map]
  exact Placed.first_add_lt hp hk

theorem putPotentials_keeps (hl : ∀ u ∈ m.units, m.setup.lift.Serves Fault.InRange u.well) (cells : List (Cell α)) :
    Keeps (FlowState.Fits m.wells) Fault.InRange (m.putPotentials cells) := by
  refine .get_bind fun s hs => ?_
  refine Keeps.bind (.outcome (checkState_stops Fault.inRange_error _ _)) (fun _ => .forM fun p hp => ?_) s hs
  have hget := (Placed.mem_ofList _ hp).1
  have hl := hl p.item (List.mem_of_getElem? hget)
  have hcells := p.item.well.reaches_inRange cells
  have hslot {s : FlowState α} (hs : s.Fits m.wells) := hs.slot (getElem?_wells hget)
  refine .get_bind fun s hs => ?_
  refine Keeps.bind (.need fun hn => ?_) (fun rates => ?_) s hs
  · have hr := (hslot hs).rates
    rw [hn] at hr
    cases hr
  refine .outcome_bind (WellUnit.tightestLimit_inRange hl rates) fun limit _ => ?_
  refine .outcome_bind (WellUnit.admitsCrossFlow_stops hl hcells (hslot hs).currentControl_stops fun c hc =>
    Slot.mem_of_currentControl hc) fun crossFlow _ => .forM ?_
  rintro ⟨link, k⟩ hlink
  obtain ⟨hk, hat⟩ := List.getElem?_eq_some_iff.1 (List.mem_zipIdx_iff_getElem?.1 hlink)
  dsimp only at hk hat
  refine .outcome_bind (WellUnit.connectionFlux_stops Fault.inRange_of_computational hcells _ _ _
    (hat ▸ List.getElem_mem hk)) fun flux _ => .get_bind fun t ht => ?_
  have hlt := first_add_lt m hp (Nat.lt_of_lt_of_le hk (WellUnit.length_links_le p.item))
  have hlength := ht.potentials
  have hsome : (Stride.get? t.potentials (p.first + k)).isSome := by
    rw [Stride.get?_isSome_iff]
    omega
  obtain ⟨v, hv⟩ := Option.isSome_iff_exists.1 hsome
  rw [hv]
  exact ⟨{ ht with potentials := (Stride.length_set ..).trans hlength }, .ok _⟩

/-- The flows that an assembly has found are written to the connections of their wells. -/
private theorem putAllFlows_keeps {cells : List (Cell α)} {dt : α} {wells : List (WellUnit α × List (ConnectionFlow α))}
    (h : m.assembled cells dt s = .ok wells) : Keeps (FlowState.Fits m.wells) F (m.putAllFlows wells) := by
  refine .forM ?_
  rintro ⟨p, u', flows⟩ hp
  obtain ⟨i, hi⟩ := List.mem_iff_getElem?.1 hp
  rw [List.getElem?_zip_eq_some] at hi
  have hplaced := hi.1
  rw [placed, Placed.getElem?_ofList] at hplaced
  obtain ⟨u, hu, rfl⟩ := Option.map_eq_some_iff.1 hplaced
  have hlength := length_of_assembled h hu hi.2
  refine putFlows_keeps (fun hp hr ht => ?_) fun {t k} ht hk hout => ?_
  · exact { ht with
      connectionPressure := hp.trans ht.connectionPressure
      connectionRates := hr.trans ht.connectionRates }
  · have hlt := first_add_lt m (List.mem_of_getElem? hi.1) (Nat.lt_of_lt_of_le hk hlength)
    have hrates := ht.connectionRates
    dsimp only at hlt hout
    rw [ht.connectionPressure] at hout
    omega

variable (hF : ∀ e, Fault.Computational e → F e)

include hF

theorem setDensities_stops (hs : s.Fits m.wells) {cells : List (Cell α)}
    (hcells : ∀ u ∈ m.units, u.well.Reaches F cells) : (m.setDensities cells s).Stops F := by
  refine (ConnectionProperties.ofFlow_stops hF hs fun w hw => ?_).bind fun props hprops => ?_
  · obtain ⟨u, hu, rfl⟩ := List.mem_map.1 hw
    exact hcells u hu
  · refine Outcome.Stops.bind (.mapM fun p hp => ?_) fun _ _ => .ok _
    exact Well.densities_stops hs hp _ (ConnectionProperties.covers_of_ofFlow hprops)

theorem voidage_stops (hs : s.Fits m.wells) (hc : ∀ u ∈ m.units, u.well.connections ≠ []) {cells : List (Cell α)}
    (hcells : ∀ u ∈ m.units, u.well.Reaches F cells) (hconverter : m.setup.converter = none → ∀ e, F (.error e)) :
    (m.voidage cells s).Stops F := by
  unfold voidage
  cases hk : m.setup.converter with
  | none => exact .error (hconverter hk _)
  | some converter =>
    refine .mapM ?_
    rintro ⟨u, w⟩ hu
    have hget := List.mem_zipIdx_iff_getElem?.1 hu
    have hmem := List.mem_of_getElem? hget
    refine Outcome.Stops.bind (Outcome.need_stops ?_) fun top htop => ?_
    · exact List.isSome_head?.2 (hc u hmem)
    refine ((hcells u hmem).cellAt_stops (List.mem_of_head? (Outcome.need_ok.1 htop))).bind fun cell _ => ?_
    refine (Outcome.need_stops (hs.slot (getElem?_wells hget)).rates).bind fun rates _ => ?_
    exact (Outcome.ofFluid_stops hF _).bind fun _ _ => .ok _

variable (hl : ∀ u ∈ m.units, m.setup.lift.Serves F u.well)

include hl

theorem applyUpdates_keeps {updates : List (Vec3 α)} (hcount : updates.length ≠ m.units.length → ∀ e, F (.error e)) :
    Keeps (FlowState.Fits m.wells) F (m.applyUpdates updates) := by
  refine .get_bind fun s hs => ?_
  refine Keeps.bind (.outcome ?_) (fun _ => ?_) s hs
  · rw [checkState_of_fits m hs]
    exact .ok _
  refine Keeps.when (fun hne => .throw (hcount (bne_iff_ne.1 hne) _)) fun _ => ?_
  refine Keeps.bind (.forM ?_) fun _ => countChange_keeps _
  rintro ⟨⟨u, dx⟩, w⟩ hu
  have hget := List.mem_zipIdx_iff_getElem?.1 hu
  rw [List.getElem?_zip_eq_some] at hget
  refine FlowState.Fits.onSlot_keeps (getElem?_wells hget.1) ?_
  exact WellUnit.applyUpdate_keeps (Slot.closed_within hF _ _) (hl u (List.mem_of_getElem? hget.1)) dx

theorem moveToTarget_keeps {w : Nat} (hw : (m.unit w).Stops F) :
    Keeps (FlowState.Fits m.wells) F (m.moveToTarget w) := by
  refine .outcome_bind hw fun u hu => ?_
  have hget := getElem?_of_unit hu
  refine FlowState.Fits.onSlot_keeps (getElem?_wells hget) ?_
  exact WellUnit.moveToTarget_keeps (Slot.closed_within hF _ _) (hl u (List.mem_of_getElem? hget))

theorem assemble_keeps {cells : List (Cell α)} (hcells : ∀ u ∈ m.units, u.well.Reaches F cells) (dt : α) :
    Keeps (FlowState.Fits m.wells) F (m.assemble cells dt) := by
  intro s hs
  have hstops : (m.assembled cells dt s).Stops F := by
    refine .mapM ?_
    rintro ⟨u, w⟩ hu
    have hget := List.mem_zipIdx_iff_getElem?.1 hu
    have hmem := List.mem_of_getElem? hget
    exact WellUnit.assemble_stops hF (hl u hmem) (hcells u hmem) dt (hs.slot (getElem?_wells hget))
  rw [assemble_eq]
  cases hw : m.assembled cells dt s with
  | error e => exact ⟨hs, .error (hstops e hw)⟩
  | ok wells =>
    have hput := putAllFlows_keeps (F := F) m hw s hs
    dsimp only
    rcases hp : m.putAllFlows wells s with ⟨e | _, t⟩
    · rw [hp] at hput
      exact ⟨hput.1, .error (hput.2 e rfl)⟩
    · rw [hp] at hput
      exact ⟨hput.1, .ok _⟩

end Model

namespace Session

/-! ### Operations on a session -/

/-- Whether a session is at work on wells of given sizes, with a flow state of the right size for them. -/
structure Bounded (ws : Wells α) (s : Session α γ) : Prop where
  model : s.model.Covers ws
  flow : s.flow.Fits ws

variable {ws : Wells α} {F : Fault α → Prop}

theorem Bounded.fits {s : Session α γ} (h : s.Bounded ws) : s.flow.Fits s.model.wells := h.model.fits_iff.2 h.flow

theorem Bounded.serves {s : Session α γ} (h : s.Bounded ws) :
    ∀ u ∈ s.model.units, s.model.setup.lift.Serves Fault.InRange u.well := fun u _ => h.model.lift.serves_inRange u.well

/-- An operation on the flow state. -/
theorem Bounded.onFlow {β : Type} {s : Session α γ} {act : Attempt α (FlowState α) β} (h : s.Bounded ws)
    (hact : Keeps (FlowState.Fits s.model.wells) F act) :
    (onFlow act s).2.Bounded ws ∧ Outcome.Stops F (onFlow act s).1 := by
  obtain ⟨ht, hstops⟩ := hact s.flow (h.model.fits_iff.2 h.flow)
  exact ⟨⟨h.model, h.model.fits_iff.1 ht⟩, hstops⟩

private theorem Bounded.of_outline {s : Session α γ} {m : Model α} (hm : m.outline = s.model.outline)
    (h : s.Bounded ws) :
    Bounded ws { s with model := m } := ⟨h.model.of_outline hm, h.flow⟩

private theorem takeUnknowns_bounded : Keeps (Bounded ws) F (takeUnknowns : Step Id α γ Unit) :=
  takeUnknowns_keeps (fun s hs => s.model.setUnknowns_stops hs.fits) Bounded.of_outline

private theorem refreshDensities_bounded (cells : List (Cell α)) :
    Keeps (Bounded ws) Fault.InRange (refreshDensities cells : Step Id α γ Unit) := by
  refine refreshDensities_keeps (fun s hs => ?_) fun hm hs => ⟨hs.model.setDensities hm, hs.flow⟩
  exact s.model.setDensities_stops Fault.inRange_of_computational hs.fits fun u _ => u.well.reaches_inRange cells

private theorem assembleWells_bounded (cells : List (Cell α)) (dt : α) :
    Keeps (Bounded ws) Fault.InRange (assembleWells cells dt : Step Id α γ Unit) := by
  refine assembleWells_keeps (fun s hs => ?_) Bounded.of_outline
  obtain ⟨hf, hstops⟩ := s.model.assemble_keeps Fault.inRange_of_computational hs.serves
    (fun u _ => u.well.reaches_inRange cells) dt s.flow hs.fits
  exact ⟨⟨hs.model, hs.model.fits_iff.1 hf⟩, hstops⟩

theorem applyUpdates_bounded (updates : List (Vec3 α)) :
    Keeps (Bounded ws) Fault.InRange (applyUpdates updates : Step Id α γ Unit) :=
  .get_bind fun s hs => hs.onFlow
    (s.model.applyUpdates_keeps Fault.inRange_of_computational hs.serves fun _ => Fault.inRange_error)

theorem warnThreePhaseRates_bounded : Keeps (Bounded ws) F (warnThreePhaseRates : Step Id α γ Unit) := by
  refine .get_bind fun s hs => Keeps.forM ?_ s hs
  rintro ⟨u, w⟩ hu
  have hslot := hs.fits.slot (Model.getElem?_wells (List.mem_zipIdx_iff_getElem?.1 hu))
  refine .ite (fun _ => ?_) fun _ => .pure _
  refine Keeps.bind (.need fun hn => ?_) fun current => ?_
  · have hc := hslot.control
    rw [FlowState.slot, hn] at hc
    cases hc
  rcases u.well.controls.list[current]? with _ | ⟨kind, target, weights⟩
  · exact .pure _
  · cases kind
    case surfaceRate => exact .ite (fun _ => .modify fun _ ht => ⟨ht.model, ht.flow⟩) fun _ => .pure _
    all_goals exact .pure _

variable [GroupControl α γ]

private theorem switchable_bounded (ws : Wells α) (cells : List (Cell α)) :
    Switchable cells (Bounded (γ := γ) ws) (fun w i => i < w.controls.list.length) Fault.InRange where
  size {s} _ := Model.checkState_stops Fault.inRange_error s.model s.flow
  voidage {s} hs _ :=
    s.model.voidage_stops Fault.inRange_of_computational hs.fits (fun _ hu => hs.model.connections_ne_nil hu)
      (fun u _ => u.well.reaches_inRange cells) fun _ => Fault.inRange_error
  takeVoidage _ _ hs := ⟨hs.model, hs.flow⟩
  setIndividual _ _ hs := ⟨hs.model, hs.flow⟩
  distribute hs := ⟨hs.model, hs.flow⟩
  target {_ s t} _ _ hs :=
    takeTarget_keeps Fault.inRange_error (fun hm ht => ⟨ht.model.setTarget hm, ht.flow⟩) t s hs
  follow {_ _ i u} _ _ _ := Controls.get_stops Fault.inRange_error u.well.controls i
  get hc := Controls.lt_of_get hc
  next g hs hu := by
    have hslot := hs.fits.slot (Model.getElem?_wells hu)
    exact ⟨Well.nextControl_stops hslot g, fun _ _ h => Well.lt_of_nextControl hslot h⟩
  put hs hu hi := hs.onFlow (FlowState.Fits.putControl_keeps (Model.getElem?_wells hu) hi)

private theorem updateControls_bounded (cells : List (Cell α)) :
    Keeps (Bounded ws) Fault.InRange (updateControls cells : Step Id α γ Unit) := by
  intro s hs
  refine updateControls_keeps (switchable_bounded ws cells) (fun _ ht => ht) hs (fun w hw => ?_) fun ht =>
    ⟨ht.model, { ht.flow with }⟩
  have hw' : w < ws.list.length := hs.model.length_units ▸ hw
  refine followSwitch_keeps (fun hn => absurd hn (hs.flow.control_ne_none hw'))
    (fun t ht hn => absurd hn (ht.flow.control_ne_none hw'))
    (fun t _ => Model.unit_stops Fault.inRange_error t.model w)
    (fun _ u i _ _ _ => Controls.get_stops Fault.inRange_error u.well.controls i)
    (fun _ ht => ⟨ht.model, ht.flow⟩) fun t ht _ => ?_
  exact ht.onFlow (t.model.moveToTarget_keeps Fault.inRange_of_computational ht.serves
    (Model.unit_stops Fault.inRange_error t.model w))

theorem prepare_bounded (cells : List (Cell α)) (dt : α) (i : Nat) :
    Keeps (Bounded ws) Fault.InRange (prepare cells dt i : Step Id α γ Unit) := by
  refine fun s hs => prepare_keeps (fun _ ht => ht) i (fun _ => Fault.inRange_error _)
    (fun t _ => Model.checkState_stops Fault.inRange_error t.model t.flow)
    (fun t ht => ⟨ht.model.setEfficiencies _, ht.flow⟩) (fun t ht => updateControls_bounded cells t ht)
    takeUnknowns_bounded (refreshDensities_bounded cells) (fun t ht => ⟨ht.model.setStartFractions, ht.flow⟩)
    warnThreePhaseRates_bounded hs

/-- What a local solution is put together from stays within bounds. -/
theorem invariant_bounded (ws : Wells α) (cells : List (Cell α)) (dt : α) :
    Invariant cells dt (Bounded (γ := γ) ws) Fault.InRange where
  numerical _ := Fault.inRange_error _
  notices _ hs := ⟨hs.model, hs.flow⟩
  back hs ht := ⟨ht.model, hs.flow⟩
  countChange hs := ⟨hs.model, { hs.flow with }⟩
  assembleWells := assembleWells_bounded cells dt
  takeUnknowns := takeUnknowns_bounded
  updateControls := updateControls_bounded cells
  updates {s t} ns hs ht := by
    obtain ⟨hk, -⟩ := (assembleWells_bounded cells dt).of_eq hs ht
    exact ⟨t.model.wellUpdates_inRange, fun dxs _ => applyUpdates_bounded dxs _ ⟨hk.model, hk.flow⟩⟩

end Session

end BlackOilWells
