import BlackOilWells.Proofs.Runs

/-!
# Consistent sessions

While it works, an operation checks again and again that the parts of a session fit together: that a cell is there, that
a lift table exists, that a well has the control which its group assigns.  No such check fails in a consistent session
(`Session.Consistent`): its wells refer to nothing that the cells and the setup lack (`Setup.Supplies`), and its group
leads wells only on controls that they have (`VoidageGroup.Fits`).

The parts of an iteration keep a session consistent, and they stop only for what the numbers cause
(`Session.invariant_consistent`).  What a group changes of a well is the target of a constraint, and no check looks at
that; so consistency is stated for wells without their targets (`Well.untargeted`).
-/

namespace BlackOilWells

open Attempt

variable {α : Type} [Scalar α]

/-! ### Wells without their targets -/

/-- The well without the targets of its constraints. -/
def Well.untargeted (w : Well α) : Well α :=
  { w with controls := { w.controls with list := w.controls.list.map fun c => { c with target := 0 } } }

/-- The wells without the targets of their constraints. -/
def Wells.untargeted (ws : Wells α) : List (Well α) := ws.list.map .untargeted

namespace Well

variable {w w' : Well α} (h : w'.untargeted = w.untargeted)

include h

theorem name_of_untargeted : w'.name = w.name := (congrArg Well.name h :)

private theorem connections_of_untargeted : w'.connections = w.connections := (congrArg Well.connections h :)

private theorem length_of_untargeted : w'.controls.list.length = w.controls.list.length := by
  have hlength : w'.untargeted.controls.list.length = w.untargeted.controls.list.length := by rw [h]
  rwa [untargeted, untargeted, List.length_map, List.length_map] at hlength

/-- The same quantities are bounded. -/
theorem exists_control_of_untargeted {c : Control α} (hc : c ∈ w'.controls.list) :
    ∃ d ∈ w.controls.list, d.kind = c.kind ∧ d.weights = c.weights := by
  have hmem : { c with target := 0 } ∈ w'.untargeted.controls.list := List.mem_map_of_mem hc
  rw [h] at hmem
  obtain ⟨d, hd, heq⟩ := List.mem_map.1 hmem
  exact ⟨d, hd, (congrArg Control.kind heq :), (congrArg Control.weights heq :)⟩

end Well

theorem Wells.exists_of_untargeted {ws ws' : Wells α} (h : ws'.untargeted = ws.untargeted) {w' : Well α}
    (hw : w' ∈ ws'.list) : ∃ w ∈ ws.list, w'.untargeted = w.untargeted := by
  have hmem : w'.untargeted ∈ ws'.untargeted := List.mem_map_of_mem hw
  rw [h] at hmem
  obtain ⟨w, hw, heq⟩ := List.mem_map.1 hmem
  exact ⟨w, hw, heq.symm⟩

private theorem Controls.untargeted_of_setTarget {w : Well α} {cs : Controls α} {i : Nat} {target : α}
    (h : w.controls.setTarget i target = .ok cs) : Well.untargeted { w with controls := cs } = w.untargeted := by
  unfold setTarget at h
  cases hc : w.controls.list[i]? with
  | none =>
    rw [hc] at h
    cases h
  | some c =>
    rw [hc] at h
    cases h
    have hmap : (w.controls.list.map fun c => { c with target := 0 })[i]? = some { c with target := 0 } := by
      rw [List.getElem?_map, hc, Option.map_some]
    obtain ⟨hi, hget⟩ := List.getElem?_eq_some_iff.1 hmap
    simp only [Well.untargeted, List.map_set, ← hget, List.set_getElem_self]

private theorem WellUnit.wellUpdate_of_assemble {u u' : WellUnit α} {setup : Setup α} {cells : List (Cell α)} {dt : α}
    {s : Slot α} {flows : List (ConnectionFlow α)} (h : u.assemble setup cells dt s = .ok (u', flows)) :
    ∃ dx, u'.system.wellUpdate = .ok dx := by
  obtain ⟨control, -, h⟩ := Outcome.bind_ok.1 h
  obtain ⟨flows, -, h⟩ := Outcome.bind_ok.1 h
  obtain ⟨system, hs, h⟩ := Outcome.bind_ok.1 h
  cases h
  unfold WellSystem.eliminate at hs
  split at hs
  · cases hs
    exact ⟨_, rfl⟩
  · cases hs

namespace Model

variable {m m' : Model α}

theorem untargeted_of_setTarget {w i : Nat} {target : α} (h : m.setTarget w i target = .ok m') :
    m'.wells.untargeted = m.wells.untargeted := by
  obtain ⟨v, cs, hv, hcs, hlist⟩ := wells_of_setTarget h
  have hmap : m.wells.untargeted[w]? = some v.untargeted := by
    rw [Wells.untargeted, List.getElem?_map, hv, Option.map_some]
  obtain ⟨hw, hget⟩ := List.getElem?_eq_some_iff.1 hmap
  rw [Wells.untargeted, hlist, List.map_set, Controls.untargeted_of_setTarget hcs, ← hget]
  exact List.set_getElem_self hw

omit [Scalar α] in
private theorem setTarget_of_lt {w i : Nat} {u : WellUnit α} (hu : m.units[w]? = some u)
    (hi : i < u.well.controls.list.length)
    (target : α) : ∃ m', m.setTarget w i target = .ok m' := by
  obtain ⟨cs, hcs⟩ : ∃ cs, u.well.controls.setTarget i target = .ok cs := by
    rw [Controls.setTarget, List.getElem?_eq_getElem hi]
    exact ⟨_, rfl⟩
  exact ⟨_, Outcome.bind_ok.2 ⟨u, by rw [unit, hu], Outcome.bind_ok.2 ⟨cs, hcs, rfl⟩⟩⟩

omit [Scalar α] in
private theorem unit_of_lt {w : Nat} (hw : w < m.units.length) : ∃ u, m.unit w = .ok u :=
  ⟨m.units[w], by rw [unit, List.getElem?_eq_getElem hw]⟩

theorem wells_of_setEfficiencies (m : Model α) (factor : String → α) : (m.setEfficiencies factor).wells = m.wells := by
  rw [wells, wells, setEfficiencies, List.map_map]
  rfl

theorem wells_of_setStartFractions (m : Model α) : m.setStartFractions.wells = m.wells := by
  rw [wells, wells, setStartFractions, List.map_map]
  rfl

/-- The Newton steps of wells that have just been assembled are there. -/
theorem wellUpdates_of_assemble {cells : List (Cell α)} {dt : α} {s s' : FlowState α}
    (h : m.assemble cells dt s = (.ok m', s')) :
    ∃ dxs, m'.wellUpdates = .ok dxs ∧ dxs.length = m'.units.length := by
  obtain ⟨wells, hw, rfl, -⟩ := assemble_ok h
  have hstops : (⟨m.setup, wells.map (·.1)⟩ : Model α).wellUpdates.Stops fun _ => False := by
    refine .mapM fun u hu => ?_
    obtain ⟨⟨u, flows⟩, hx, rfl⟩ := List.mem_map.1 hu
    obtain ⟨p, -, hp⟩ := Outcome.exists_of_mem_ok hw hx
    obtain ⟨dx, hdx⟩ := WellUnit.wellUpdate_of_assemble hp
    rw [hdx]
    exact .ok dx
  cases hdxs : (⟨m.setup, wells.map (·.1)⟩ : Model α).wellUpdates with
  | error e => exact (hstops e hdxs).elim
  | ok dxs => exact ⟨dxs, rfl, (Outcome.mapM_ok.1 hdxs).length_eq.symm⟩

end Model

/-! ### What wells refer to -/

/-- Whether given cells and a setup have all that given wells refer to: the cells of their connections and the lift
tables of their constraints. -/
structure Setup.Supplies (cells : List (Cell α)) (ws : Wells α) (setup : Setup α) : Prop where
  cell : ∀ w ∈ ws.list, ∀ c ∈ w.connections, c.cell < cells.length
  table : ∀ w ∈ ws.list, ∀ c ∈ w.controls.list, ∀ id x, c.kind = .thp id x → setup.lift.contains id = true
  read : setup.lift.Stops Fault.Computational

omit [Scalar α] in
theorem Well.reaches_of_lt {F : Fault α → Prop} {cells : List (Cell α)} {w : Well α}
    (h : ∀ c ∈ w.connections, c.cell < cells.length) : w.Reaches F cells := by
  intro c hc hcell
  rw [List.getElem?_eq_getElem (h c hc)] at hcell
  cases hcell

/-- Whether there is a well of a given name, and every such well has a control of a given index. -/
structure Wells.HasControl (name : String) (i : Nat) (ws : Wells α) : Prop where
  exists_well : ∃ w ∈ ws.list, w.name = name
  lt_length : ∀ w ∈ ws.list, w.name = name → i < w.controls.list.length

private theorem Wells.HasControl.of_untargeted {name : String} {i : Nat} {ws ws' : Wells α} (h : ws.HasControl name i)
    (hs : ws'.untargeted = ws.untargeted) : ws'.HasControl name i where
  exists_well := by
    obtain ⟨w, hw, hname⟩ := h.exists_well
    obtain ⟨w', hw', heq⟩ := exists_of_untargeted hs.symm hw
    exact ⟨w', hw', (Well.name_of_untargeted heq).symm.trans hname⟩
  lt_length w' hw' hname := by
    obtain ⟨w, hw, heq⟩ := exists_of_untargeted hs hw'
    rw [Well.length_of_untargeted heq]
    exact h.lt_length w hw ((Well.name_of_untargeted heq).symm.trans hname)

omit [Scalar α] in
theorem Wells.exists_of_indexOf? {ws : Wells α} {name : String} {w : Nat} (h : ws.indexOf? name = some w) :
    ∃ v, ws.list[w]? = some v ∧ v.name = name := by
  obtain ⟨hw, hname, -⟩ := List.findIdx?_eq_some_iff_getElem.1 h
  exact ⟨_, List.getElem?_eq_getElem hw, eq_of_beq hname⟩

omit [Scalar α] in
private theorem LiftTables.get_of_contains {ts : LiftTables α} {id : Nat} (h : ts.contains id = true) :
    ∃ t, ts.get id = .ok t := by
  have hsome : (ts.list.find? (·.id == id)).isSome := by rwa [List.find?_isSome, ← List.any_eq_true]
  obtain ⟨t, ht⟩ := Option.isSome_iff_exists.1 hsome
  exact ⟨t, by rw [get, ht]⟩

/-! ### Groups -/

/-- Whether a group leads given wells only on controls that they have. -/
def VoidageGroup.Fits (ws : Wells α) (g : VoidageGroup α) : Prop :=
  ∀ m ∈ g.members, ∀ i, m.groupControl = some i → ws.HasControl m.well i

namespace VoidageGroup

omit [Scalar α] in
private theorem exists_of_mem_setFlag {name : String} {b : Bool} {ms : List (GroupMember α)} {m : GroupMember α}
    (h : m ∈ setFlag name b ms) : ∃ m₀ ∈ ms, m.well = m₀.well ∧ m.groupControl = m₀.groupControl := by
  induction ms with
  | nil => exact absurd h List.not_mem_nil
  | cons m₁ ms ih =>
    unfold setFlag at h
    split at h
    · rcases List.mem_cons.1 h with rfl | h
      · exact ⟨m₁, List.mem_cons_self .., rfl, rfl⟩
      · exact ⟨m, List.mem_cons_of_mem _ h, rfl, rfl⟩
    · rcases List.mem_cons.1 h with rfl | h
      · exact ⟨m, List.mem_cons_self .., rfl, rfl⟩
      · obtain ⟨m₀, hm₀, hm⟩ := ih h
        exact ⟨m₀, List.mem_cons_of_mem _ hm₀, hm⟩

namespace Fits

variable {ws : Wells α} {g : VoidageGroup α} (h : g.Fits ws)

include h

private theorem takeVoidage (voidage : List α) (coefficients : List (PerPhase α)) :
    (g.takeVoidage voidage coefficients).Fits ws := by
  intro m hm i hi
  obtain ⟨m₀, hm₀, rfl⟩ := List.mem_map.1 hm
  split at hi
  · rw [if_pos ‹_›]
    exact h m₀ hm₀ i hi
  · rw [if_neg ‹_›]
    exact h m₀ hm₀ i hi

private theorem setIndividual (name : String) (b : Bool) : (GroupControl.setIndividual g name b).Fits ws := by
  intro m hm i hi
  obtain ⟨m₀, hm₀, hwell, hcontrol⟩ := exists_of_mem_setFlag hm
  exact hwell ▸ h m₀ hm₀ i (hcontrol ▸ hi)

private theorem hasControl_of_controlIndex {name : String} {i : Nat} (hi : GroupControl.controlIndex g name = some i) :
    ws.HasControl name i := by
  obtain ⟨m, hm, hcontrol⟩ := Option.bind_eq_some_iff.1 hi
  have hname : m.well = name := eq_of_beq (List.find?_some hm :)
  exact hname ▸ h m (List.mem_of_find?_eq_some hm) i hcontrol

private theorem hasControl_of_target {t : AssignedTarget α} (ht : t ∈ g.targets) : ws.HasControl t.well t.control := by
  unfold targets at ht
  dsimp only at ht
  split at ht
  · exact absurd ht List.not_mem_nil
  · obtain ⟨m, hm, ht⟩ := List.mem_filterMap.1 ht
    obtain ⟨i, hcontrol, ht⟩ := Option.bind_eq_some_iff.1 ht
    dsimp only at ht
    split at ht
    · cases ht
    · cases ht
      exact h m (List.mem_of_mem_filter hm) i hcontrol

end Fits

end VoidageGroup

namespace Session

/-! ### Consistent sessions -/

/-- Whether a session is at work on given wells with a given setup, apart from the targets of the wells, and whether it
has what its group asks for. -/
structure Consistent (setup : Setup α) (ws : Wells α) (s : Session α (Option (VoidageGroup α))) : Prop where
  bounded : s.Bounded ws
  setup_eq : s.model.setup = setup
  untargeted_eq : s.model.wells.untargeted = ws.untargeted
  group : ∀ g ∈ s.groups, g.Fits ws
  converter : s.groups ≠ none → setup.converter ≠ none

namespace Consistent

variable {setup : Setup α} {ws : Wells α} {s : Session α (Option (VoidageGroup α))} (h : s.Consistent setup ws)
  {F : Fault α → Prop}

include h

private theorem notices (ns : List (Notice α)) : Consistent setup ws { s with notices := ns } :=
  ⟨⟨h.bounded.model, h.bounded.flow⟩, h.setup_eq, h.untargeted_eq, h.group, h.converter⟩

/-- Of the flow state only the size matters. -/
theorem flow {f : FlowState α} (hf : f.Fits ws) : Consistent setup ws { s with flow := f } :=
  ⟨⟨h.bounded.model, hf⟩, h.setup_eq, h.untargeted_eq, h.group, h.converter⟩

/-- Of the model the sizes, the setup and the wells matter. -/
theorem model {m : Model α} (hb : m.Covers ws) (hs : m.setup = s.model.setup)
    (hw : m.wells.untargeted = s.model.wells.untargeted) : Consistent setup ws { s with model := m } :=
  ⟨⟨hb, h.bounded.flow⟩, hs.trans h.setup_eq, hw.trans h.untargeted_eq, h.group, h.converter⟩

private theorem of_outline {m : Model α} (hm : m.outline = s.model.outline) :
    Consistent setup ws { s with model := m } :=
  h.model (h.bounded.model.of_outline hm) (congrArg Model.setup hm :)
    (congrArg Wells.untargeted (Model.wells_of_outline hm))

private theorem setGroup {g : VoidageGroup α → VoidageGroup α} (hg : ∀ g₀ ∈ s.groups, (g g₀).Fits ws) :
    Consistent setup ws { s with groups := s.groups.map g } := by
  refine ⟨⟨h.bounded.model, h.bounded.flow⟩, h.setup_eq, h.untargeted_eq, fun g' hg' => ?_, fun hn => ?_⟩
  · obtain ⟨g₀, hg₀, rfl⟩ := Option.map_eq_some_iff.1 hg'
    exact hg g₀ hg₀
  · exact h.converter fun hnone => hn (by rw [hnone]; rfl)

/-- An operation on the flow state. -/
theorem onFlow {β : Type} {act : Attempt α (FlowState α) β} (hact : Keeps (FlowState.Fits s.model.wells) F act) :
    (Session.onFlow act s).2.Consistent setup ws ∧ Outcome.Stops F (Session.onFlow act s).1 := by
  obtain ⟨hb, hstops⟩ := h.bounded.onFlow hact
  exact ⟨h.flow hb.flow, hstops⟩

/-! Everything that a well looks up is there. -/

private theorem hasControl {name : String} {i : Nat} (hi : ws.HasControl name i) : s.model.wells.HasControl name i :=
  hi.of_untargeted h.untargeted_eq

omit [Scalar α] h in
private theorem mem_wells {m : Model α} {u : WellUnit α} (hu : u ∈ m.units) :
    u.well ∈ m.wells.list := List.mem_map_of_mem hu

variable {cells : List (Cell α)} (hsupply : setup.Supplies cells ws)

include hsupply

private theorem reaches {u : WellUnit α} (hu : u ∈ s.model.units) : u.well.Reaches F cells := by
  obtain ⟨w, hw, heq⟩ := Wells.exists_of_untargeted h.untargeted_eq (mem_wells hu)
  exact Well.reaches_of_lt fun c hc => hsupply.cell w hw c (Well.connections_of_untargeted heq ▸ hc)

private theorem serves {u : WellUnit α} (hu : u ∈ s.model.units) :
    s.model.setup.lift.Serves Fault.Computational u.well := by
  rw [h.setup_eq]
  refine ⟨fun c hc id x hk => ?_, hsupply.read⟩
  obtain ⟨w, hw, heq⟩ := Wells.exists_of_untargeted h.untargeted_eq (mem_wells hu)
  obtain ⟨d, hd, hkind, -⟩ := Well.exists_control_of_untargeted heq hc
  obtain ⟨t, ht⟩ := LiftTables.get_of_contains (hsupply.table w hw d hd id x (hkind.trans hk))
  rw [ht]
  exact .ok t

end Consistent

/-! ### The parts of an iteration -/

variable {setup : Setup α} {ws : Wells α} {F : Fault α → Prop} {cells : List (Cell α)}

private theorem takeUnknowns_consistent : Keeps (Consistent setup ws) F takeUnknowns :=
  takeUnknowns_keeps (fun s hs => s.model.setUnknowns_stops hs.bounded.fits) fun hm hs => hs.of_outline hm

private theorem warnThreePhaseRates_consistent : Keeps (Consistent setup ws) F warnThreePhaseRates := fun s hs =>
  ⟨warnThreePhaseRates_maintains (fun ns ht => ht.notices ns) s hs, (warnThreePhaseRates_bounded s hs.bounded).2⟩

/-- Every target of a group is for a well with the control in question. -/
private theorem takeTarget_consistent {t : AssignedTarget α} (ht : ws.HasControl t.well t.control) :
    Keeps (Consistent setup ws) F (takeTarget t) := by
  refine .get_bind fun s hs => ?_
  obtain ⟨⟨v, hv, hname⟩, hlt⟩ := hs.hasControl ht
  have hsome : (s.model.wells.indexOf? t.well).isSome :=
    List.findIdx?_isSome ▸ List.any_eq_true.2 ⟨v, hv, beq_iff_eq.2 hname⟩
  obtain ⟨w, hw⟩ := Option.isSome_iff_exists.1 hsome
  obtain ⟨v', hv', hname'⟩ := Wells.exists_of_indexOf? hw
  rw [Model.wells, List.getElem?_map] at hv'
  obtain ⟨u, hu, rfl⟩ := Option.map_eq_some_iff.1 hv'
  have hcontrol := hlt u.well (Consistent.mem_wells (List.mem_of_getElem? hu)) hname'
  obtain ⟨m, hm⟩ := Model.setTarget_of_lt hu hcontrol t.target
  rw [hw]
  dsimp only
  rw [run_outcome_bind, hm]
  exact ⟨hs.model (hs.bounded.model.setTarget hm) (Model.setup_of_setTarget hm) (Model.untargeted_of_setTarget hm),
    .ok _⟩

section Supplied

variable (hsupply : setup.Supplies cells ws)

include hsupply

private theorem refreshDensities_consistent :
    Keeps (Consistent setup ws) Fault.Computational (refreshDensities cells) := by
  refine refreshDensities_keeps (fun s hs => ?_) fun hm hs => ?_
  · exact s.model.setDensities_stops (fun _ h => h) hs.bounded.fits fun _ hu => hs.reaches hsupply hu
  · exact hs.model (hs.bounded.model.setDensities hm) (Model.setup_of_setDensities hm)
      (congrArg Wells.untargeted (Model.wells_of_setDensities hm))

private theorem assembleWells_consistent (dt : α) :
    Keeps (Consistent setup ws) Fault.Computational (assembleWells cells dt) := by
  refine assembleWells_keeps (fun s hs => ?_) fun hm hs => hs.of_outline hm
  obtain ⟨hf, hstops⟩ := s.model.assemble_keeps (fun _ h => h) (fun _ hu => hs.serves hsupply hu)
    (fun _ hu => hs.reaches hsupply hu) dt s.flow hs.bounded.fits
  exact ⟨hs.flow (hs.bounded.model.fits_iff.1 hf), hstops⟩

private theorem applyUpdates_consistent {s : Session α (Option (VoidageGroup α))} (hs : s.Consistent setup ws)
    {updates : List (Vec3 α)} (hn : updates.length = s.model.units.length) :
    Kept (Consistent setup ws) Fault.Computational (applyUpdates updates s).1 (applyUpdates updates s).2 := by
  have hflow := hs.onFlow
    (s.model.applyUpdates_keeps (fun _ h => h) (fun _ hu => hs.serves hsupply hu) fun hne => absurd hn hne)
  exact hflow

/-! ### Switching -/

private theorem switchable_consistent :
    Switchable cells (Consistent setup ws) (fun w i => i < w.controls.list.length) Fault.Computational where
  size {s} hs := by
    rw [Model.checkState_of_fits _ hs.bounded.fits]
    exact .ok _
  voidage {s} hs ha := by
    refine s.model.voidage_stops (fun _ h => h) hs.bounded.fits (fun _ hu => hs.bounded.model.connections_ne_nil hu)
      (fun _ hu => hs.reaches hsupply hu) fun hn => ?_
    rw [hs.setup_eq] at hn
    refine absurd hn (hs.converter fun hnone => ?_)
    rw [hnone] at ha
    cases ha
  takeVoidage v c hs := hs.setGroup fun g hg => (hs.group g hg).takeVoidage v c
  setIndividual name b hs := hs.setGroup fun g hg => (hs.group g hg).setIndividual name b
  distribute {s} hs := by
    have hgroups : (GroupControl.distribute s.groups s.flow.rates).2 = s.groups := by cases s.groups <;> rfl
    rw [hgroups]
    exact hs
  target {s₀ s t} hs₀ ht hs := by
    refine takeTarget_consistent ?_ s hs
    cases hg : s₀.groups with
    | none =>
      rw [hg] at ht
      exact absurd ht List.not_mem_nil
    | some g =>
      rw [hg] at ht
      exact (hs₀.group g hg).hasControl_of_target ht
  follow {s w i u} hs hu hi := by
    obtain ⟨g, hg, hi⟩ := Option.bind_eq_some_iff.1 hi
    have hlt := (hs.hasControl ((hs.group g hg).hasControl_of_controlIndex hi)).lt_length u.well
      (Consistent.mem_wells (List.mem_of_getElem? hu)) rfl
    rw [Controls.get_of_lt hlt]
    exact .ok _
  get hc := Controls.lt_of_get hc
  next {s w u} g hs hu := by
    have hslot := hs.bounded.fits.slot (Model.getElem?_wells hu)
    exact ⟨Well.nextControl_stops hslot g, fun _ _ h => Well.lt_of_nextControl hslot h⟩
  put hs hu hi := hs.onFlow (FlowState.Fits.putControl_keeps (Model.getElem?_wells hu) hi)

private theorem updateControls_consistent : Keeps (Consistent setup ws) Fault.Computational (updateControls cells) := by
  intro s hs
  refine updateControls_keeps (switchable_consistent hsupply) (fun _ ht => ht) hs (fun w hw => ?_) fun ht =>
    ht.flow { ht.bounded.flow with }
  -- a well keeps the number of its controls, so that it has its old and its new control
  have hget {t : Session α (Option (VoidageGroup α))} {f : FlowState α} {u : WellUnit α} {i : Nat}
      (ht : t.Consistent setup ws) (hf : f.Fits ws) (hu : t.model.unit w = .ok u) (hi : f.control[w]? = some i) :
      (u.well.controls.get i).Stops Fault.Computational := by
    have hcurrent := (ht.bounded.model.fits_iff.2 hf).current w u.well i
      (Model.getElem?_wells (Model.getElem?_of_unit hu)) hi
    rw [Controls.get_of_lt hcurrent]
    exact .ok _
  rw [hs.bounded.model.length_units] at hw
  have hunit {t : Session α (Option (VoidageGroup α))} (ht : t.Consistent setup ws) :
      (t.model.unit w).Stops Fault.Computational := by
    obtain ⟨u, hu⟩ := Model.unit_of_lt (ht.bounded.model.length_units ▸ hw)
    rw [hu]
    exact .ok u
  refine followSwitch_keeps (fun hn => absurd hn (hs.bounded.flow.control_ne_none hw))
    (fun t ht hn => absurd hn (ht.bounded.flow.control_ne_none hw)) (fun t ht => hunit ht)
    (fun t u i ht hu hi => ?_) (fun ns ht => ht.notices ns) fun t ht _ => ?_
  · exact hi.elim (hget ht hs.bounded.flow hu) (hget ht ht.bounded.flow hu)
  · exact ht.onFlow (t.model.moveToTarget_keeps (fun _ h => h) (fun _ hu => ht.serves hsupply hu) (hunit ht))

theorem prepare_consistent {dt : α} (hfinite : Scalar.isFinite dt = true) (hdt : 0 < dt) (i : Nat) :
    Keeps (Consistent setup ws) Fault.Computational (prepare cells dt i) := by
  refine fun s hs => prepare_keeps (fun _ ht => ht) i (fun hn => absurd ⟨hfinite, hdt⟩ hn) (fun t ht => ?_)
    (fun t ht => ?_) (fun t ht => updateControls_consistent hsupply t ht) takeUnknowns_consistent
    (refreshDensities_consistent hsupply) (fun t ht => ?_) warnThreePhaseRates_consistent hs
  · rw [Model.checkState_of_fits _ ht.bounded.fits]
    exact .ok _
  · have hwells := t.model.wells_of_setEfficiencies (GroupControl.efficiency t.groups)
    exact ht.model (ht.bounded.model.setEfficiencies _) rfl (congrArg Wells.untargeted hwells)
  · have hwells := t.model.wells_of_setStartFractions
    exact ht.model ht.bounded.model.setStartFractions rfl (congrArg Wells.untargeted hwells)

/-- What an iteration is put together from keeps a session consistent, and stops only for what the numbers cause. -/
theorem invariant_consistent (dt : α) : Invariant cells dt (Consistent setup ws) Fault.Computational where
  numerical _ := trivial
  notices ns hs := hs.notices ns
  back hs ht := ht.flow hs.bounded.flow
  countChange hs := hs.flow { hs.bounded.flow with }
  assembleWells := assembleWells_consistent hsupply dt
  takeUnknowns := takeUnknowns_consistent
  updateControls := updateControls_consistent hsupply
  updates {s t} ns hs ht := by
    obtain ⟨hk, -⟩ := (assembleWells_consistent hsupply dt).of_eq hs ht
    obtain ⟨m, f, hm, rfl⟩ := assembleWells_ok.1 ht
    obtain ⟨dxs, hdxs, hlength⟩ := Model.wellUpdates_of_assemble hm
    refine ⟨hdxs ▸ .ok dxs, fun dxs' h => ?_⟩
    exact applyUpdates_consistent hsupply (hk.notices ns) (Except.ok.inj (hdxs.symm.trans h) ▸ hlength)

end Supplied

end Session

end BlackOilWells
