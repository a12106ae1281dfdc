import BlackOilWells.Proofs.AnalyticFluid
import BlackOilWells.Proofs.Elimination
import BlackOilWells.Model.Assembly

/-!
# The Jacobian of the well equations

The residual of a well, and what its connections add to their cells, are functions of the unknowns of all cells and of
the well.  Wherever no test in the closure relations is at a tie, their derivatives are the blocks that the assembly
gives (`WellUnit.assemble_jacobian`): the couplings and the Jacobian for the residual, the couplings and the Jacobians
of the sources for the additions to the cells.  A cell that several connections share collects the derivatives of all of
them.
-/

namespace BlackOilWells

open Filter Topology

variable {n : Nat}

/-! ### The entries of the equations -/

/-- The entry of a vector of equations. -/
def Vec3.ofPhase {β : Type} (v : Vec3 β) (p : Phase) : β := (PerPhase.ofVec v).get p

theorem Vec3.ofPhase_add {β : Type} [Add β] (v w : Vec3 β) (p : Phase) :
    (v + w).ofPhase p = v.ofPhase p + w.ofPhase p := by
  cases p <;> rfl

theorem Vec3.ofPhase_sub {β : Type} [Sub β] (v w : Vec3 β) (p : Phase) :
    (v - w).ofPhase p = v.ofPhase p - w.ofPhase p := by
  cases p <;> rfl

theorem Vec3.ofPhase_zero {β : Type} [Zero β] (p : Phase) : (0 : Vec3 β).ofPhase p = 0 := by cases p <;> rfl

private theorem Vec3.ofPhase_foldl_sub {β ι : Type} [AddCommGroup β] (f : ι → Vec3 β) (l : List ι) (v : Vec3 β)
    (p : Phase) :
    (l.foldl (fun v i => v - f i) v).ofPhase p = v.ofPhase p - (l.map fun i => (f i).ofPhase p).sum := by
  induction l generalizing v with
  | nil => rw [List.foldl_nil, List.map_nil, List.sum_nil, sub_zero]
  | cons i l ih => rw [List.foldl_cons, ih, Vec3.ofPhase_sub, List.map_cons, List.sum_cons, sub_sub]

namespace PerPhase

variable {α : Type} (q : PerPhase (WellDual α)) (p : Phase)

private theorem ofPhase_values : q.values.ofPhase p = (q.get p).value := by cases p <;> rfl

theorem ofPhase_cellRows : q.cellRows.ofPhase p = (q.get p).byCell := by cases p <;> rfl

private theorem ofPhase_wellRows : q.wellRows.ofPhase p = (q.get p).byWell := by cases p <;> rfl

end PerPhase

private theorem ofPhase_pinAbsent {α : Type} [Scalar α] {phases : PhaseSet} {p : Phase} (h : phases.isActive p = true)
    (d : Block α) : (pinAbsent phases d).ofPhase p = d.ofPhase p := by
  cases p with
  | water => exact if_pos h
  | oil => rfl
  | gas => exact if_pos h

theorem pinAbsent_water {α : Type} [Scalar α] {phases : PhaseSet} (h : phases.water = false) {d : Block α}
    (hd : d.ofPhase .water = 0) : (pinAbsent phases d).ofPhase .water = ⟨0, 1, 0⟩ := by
  change (if phases.water then d.ofPhase .water else { d.ofPhase .water with y := 1 }) = _
  rw [h, hd]
  rfl

theorem pinAbsent_gas {α : Type} [Scalar α] {phases : PhaseSet} (h : phases.gas = false) {d : Block α}
    (hd : d.ofPhase .gas = 0) : (pinAbsent phases d).ofPhase .gas = ⟨0, 0, 1⟩ := by
  change (if phases.gas then d.ofPhase .gas else { d.ofPhase .gas with z := 1 }) = _
  rw [h, hd]
  rfl

namespace WellUnit

/-! ### The equations before elimination -/

section

variable {α : Type} [Scalar α]

/-- The linear system of a well before elimination, with the additions to the reservoir equations. -/
def equations (u : WellUnit α) (setup : Setup α) (cells : List (Cell α)) (dt : α) (s : Slot α) :
    Outcome α (WellSystem α × List (Source α)) := do
  let control ← s.currentControl u.well
  let flows ← u.connectionFlows setup cells s control
  return (u.linearSystem setup control dt flows, flows.map (·.source setup.phases))

/-- An assembly stores the equations, and the inverse of the Jacobian besides. -/
theorem equations_of_assemble {u u' : WellUnit α} {setup : Setup α} {cells : List (Cell α)} {dt : α} {s : Slot α}
    {flows : List (ConnectionFlow α)} (h : u.assemble setup cells dt s = .ok (u', flows)) :
    u.equations setup cells dt s = .ok ({ u'.system with inverse := none }, u'.sources) := by
  obtain ⟨control, hc, h⟩ := Outcome.bind_ok.1 h
  obtain ⟨flows, hf, h⟩ := Outcome.bind_ok.1 h
  obtain ⟨system, hs, h⟩ := Outcome.bind_ok.1 h
  refine Outcome.bind_ok.2 ⟨control, hc, Outcome.bind_ok.2 ⟨flows, hf, ?_⟩⟩
  cases h
  unfold WellSystem.eliminate at hs
  split at hs
  · cases hs
    rfl
  · cases hs

end

/-- Whether the blocks of the equations at a point are their derivatives there: the blocks to the well and the Jacobian
those of the residual of the well, the blocks to the reservoir and the Jacobian of a source those of what its connection
adds to its cell.  The row of an absent phase holds a one at the fraction of the phase instead. -/
structure HasJacobian (phases : PhaseSet) (eqs : Point n → WellSystem ℝ × List (Source ℝ)) (x : Point n) : Prop where
  /-- The residual of the well. -/
  residual : ∀ p, HasFDerivAt (fun q => (eqs q).1.residual.ofPhase p)
    (((eqs x).1.couplings.map fun c => (c.toWell.ofPhase p).form.comp (cellPart n c.cell)).sum +
      if phases.isActive p then ((eqs x).1.jacobian.ofPhase p).form.comp (wellPart n) else 0) x
  /-- The row of absent water. -/
  noWater : phases.water = false → (eqs x).1.jacobian.ofPhase .water = ⟨0, 1, 0⟩
  /-- The row of absent gas. -/
  noGas : phases.gas = false → (eqs x).1.jacobian.ofPhase .gas = ⟨0, 0, 1⟩
  /-- Couplings and sources are those of the same connections. -/
  cells : (eqs x).1.couplings.map (·.cell) = (eqs x).2.map (·.cell)
  /-- What a connection adds to its cell. -/
  source : ∀ (k : Nat) coupling source, (eqs x).1.couplings[k]? = some coupling → (eqs x).2[k]? = some source → ∀ p,
    ∃ r : Point n → ℝ, (∀ᶠ q in 𝓝 x, (eqs q).2[k]?.map (·.residual.ofPhase p) = some (r q)) ∧
      HasFDerivAt r ((source.jacobian.ofPhase p).form.comp (cellPart n source.cell) +
        (coupling.toReservoir.ofPhase p).form.comp (wellPart n)) x

variable {u : WellUnit ℝ} {setup : Setup ℝ} {state : Fin n → (Fin 3 → ℝ) → Cell ℝ} {x : Point n} {control : Control ℝ}

/-- An assembly succeeds if the flows exist and the Jacobian has an inverse. -/
theorem assemble_of_det_ne_zero {cells : List (Cell ℝ)} {dt : ℝ} {s : Slot ℝ} {flows : List (ConnectionFlow ℝ)}
    (hc : s.currentControl u.well = .ok control) (hf : u.connectionFlows setup cells s control = .ok flows)
    (hd : (u.linearSystem setup control dt flows).jacobian.det ≠ 0) :
    ∃ u', u.assemble setup cells dt s = .ok (u', flows) := by
  obtain ⟨inv, hinv⟩ := Option.ne_none_iff_exists'.1 (mt Block.inverse?_eq_none_iff.1 hd)
  have he : (u.linearSystem setup control dt flows).eliminate (some u.well.name) =
      .ok { u.linearSystem setup control dt flows with inverse := some inv } := by
    rw [WellSystem.eliminate, WellSystem.invert_ok.2 hinv]
  unfold assemble
  rw [hc]
  change ∃ u', (u.connectionFlows setup cells s control >>= _) = _
  rw [hf]
  change ∃ u', ((u.linearSystem setup control dt flows).eliminate _ >>= _) = _
  rw [he]
  exact ⟨_, rfl⟩

/-! ### The system of given flows -/

section

variable {K : Type} [Field K] [LinearOrder K] (u : WellUnit K) (setup : Setup K) (control : Control K) (dt : K)

private theorem ofPhase_residual (flows : List (ConnectionFlow K)) (p : Phase) :
    (u.linearSystem setup control dt flows).residual.ofPhase p =
      ((u.balance setup control dt).get p).value - (flows.map fun f => (f.flux.get p).value).sum := by
  unfold linearSystem
  rw [Vec3.ofPhase_add, Vec3.ofPhase_foldl_sub, Vec3.ofPhase_zero, PerPhase.ofPhase_values, zero_sub, neg_add_eq_sub]
  simp only [PerPhase.ofPhase_values]

/-- The rows of the Jacobian before absent phases are pinned. -/
theorem jacobian_rows (flows : List (ConnectionFlow K)) :
    ∃ d, (u.linearSystem setup control dt flows).jacobian = pinAbsent setup.phases d ∧ ∀ p,
      d.ofPhase p = ((u.balance setup control dt).get p).byWell - (flows.map fun f => (f.flux.get p).byWell).sum := by
  refine ⟨_, rfl, fun p => ?_⟩
  rw [Vec3.ofPhase_add, Vec3.ofPhase_foldl_sub, Vec3.ofPhase_zero, PerPhase.ofPhase_wellRows, zero_sub,
    neg_add_eq_sub]
  simp only [PerPhase.ofPhase_wellRows]

variable {setup} {p : Phase} (hp : setup.phases.isActive p = false)

include hp

/-- An absent phase is not stored. -/
private theorem balance_absent : (u.balance setup control dt).get p = 0 := by
  rw [balance, PhaseSet.get_select_absent hp, PerPhase.get_replicate]

/-- Nothing of an absent phase is in the rows of the Jacobian, if it does not flow either. -/
theorem row_absent {flows : List (ConnectionFlow K)} (hf : ∀ f ∈ flows, f.flux.get p = 0) :
    ((u.balance setup control dt).get p).byWell - (flows.map fun f => (f.flux.get p).byWell).sum = 0 := by
  have hflux : (flows.map fun f => (f.flux.get p).byWell).sum = 0 := by
    refine List.sum_eq_zero fun row hrow => ?_
    obtain ⟨f, hmem, rfl⟩ := List.mem_map.1 hrow
    rw [hf f hmem, byWell_zero]
  rw [hflux, u.balance_absent control dt hp, byWell_zero, sub_zero]

/-- The residual of an absent phase, if it does not flow, is zero. -/
theorem residual_absent {flows : List (ConnectionFlow K)} (hf : ∀ f ∈ flows, f.flux.get p = 0) :
    (u.linearSystem setup control dt flows).residual.ofPhase p = 0 := by
  have hflux : (flows.map fun f => (f.flux.get p).value).sum = 0 := by
    refine List.sum_eq_zero fun x hx => ?_
    obtain ⟨f, hmem, rfl⟩ := List.mem_map.1 hx
    rw [hf f hmem]
    rfl
  rw [ofPhase_residual, hflux, u.balance_absent control dt hp, sub_zero]
  rfl

end

private theorem balance_tracks (h : ∀ p, setup.phases.isActive p = true → u.well.isInjector = false →
      control.kind = .surfaceRate → (u.withUnknowns x.2).OffGuard setup.phases control p) (dt : ℝ) :
    TracksAll (frame 0 (wellPart n)) (fun q => (u.withUnknowns q.2).balance setup control dt) x := by
  refine .select_ofFn _ fun p hp => ?_
  have hf := u.fraction_tracks (a := 0) (b := wellPart n) (x := x) setup.phases p
  have hr := u.surfaceRate_tracks (a := 0) (b := wellPart n) (x := x) setup.phases control p (h p hp)
  exact ((hf.sub_scalar (u.startFractions.get p)).mul_scalar (setup.settings.storageVolume / dt)).add hr

/-- What a connection adds to its cell has the Jacobian of the source and the block to the reservoir as derivatives. -/
private theorem source_hasFDerivAt {a b : Point n →L[ℝ] Fin 3 → ℝ} {F : Point n → PerPhase (WellDual ℝ)}
    (hF : TracksAll (frame a b) F x) (s : Slot ℝ) (link : Connection ℝ × Segment ℝ) (phases : PhaseSet) (p : Phase) :
    HasFDerivAt (fun q => ((flowAt s link (F q)).source phases).residual.ofPhase p)
      ((((flowAt s link (F x)).source phases).jacobian.ofPhase p).form.comp a +
        (((flowAt s link (F x)).coupling phases).toReservoir.ofPhase p).form.comp b) x := by
  have he : TracksAll (frame a b) (fun q => (flowAt s link (F q)).effective phases) x := by
    refine TracksAll.select _ fun p _ => ?_
    simp only [PerPhase.get_map]
    exact (hF p).mul_scalar link.2.efficiency
  have hr := HasFDerivAt.const_sub (he p) 0
  rw [slope_frame] at hr
  simp only [ConnectionFlow.source, ConnectionFlow.coupling, Vec3.ofPhase_sub, Vec3.ofPhase_zero,
    PerPhase.ofPhase_values, PerPhase.ofPhase_cellRows, PerPhase.ofPhase_wellRows]
  simp only [zero_sub, Vec3.form_neg, ContinuousLinearMap.neg_comp, ← neg_add] at hr ⊢
  exact hr

/-- The equations at nearby unknowns, with the rates through the connections as functions of the unknowns. -/
noncomputable def equationsAt (u : WellUnit ℝ) (setup : Setup ℝ) (control : Control ℝ) (dt : ℝ) (s : Slot ℝ)
    (F : Connection ℝ × Segment ℝ → Point n → PerPhase (WellDual ℝ)) (q : Point n) : WellSystem ℝ × List (Source ℝ) :=
  let flows := u.links.map fun link => flowAt s link (F link q)
  ((u.withUnknowns q.2).linearSystem setup control dt flows, flows.map (·.source setup.phases))

section

variable {dt : ℝ} {s : Slot ℝ} {F : Connection ℝ × Segment ℝ → Point n → PerPhase (WellDual ℝ)}

private theorem toWell_sum (p : Phase) :
    ((u.equationsAt setup control dt s F x).1.couplings.map fun c =>
        (c.toWell.ofPhase p).form.comp (cellPart n c.cell)).sum =
      (u.links.map fun link => (0 - ((F link x).get p).byCell).form.comp (cellPart n link.1.cell)).sum := by
  simp only [equationsAt, linearSystem, List.map_map]
  refine congrArg List.sum (List.map_congr_left fun link _ => ?_)
  simp only [Function.comp_apply, ConnectionFlow.coupling, flowAt, Vec3.ofPhase_sub, Vec3.ofPhase_zero,
    PerPhase.ofPhase_cellRows]

private theorem equationsAt_residual
    (hrate : ∀ p, setup.phases.isActive p = true → u.well.isInjector = false →
      control.kind = .surfaceRate → (u.withUnknowns x.2).OffGuard setup.phases control p)
    (hF : ∀ link ∈ u.links, TracksAll (frame (cellPart n link.1.cell) (wellPart n)) (F link) x) (p : Phase) :
    HasFDerivAt (fun q => (u.equationsAt setup control dt s F q).1.residual.ofPhase p)
      (((u.equationsAt setup control dt s F x).1.couplings.map fun c =>
          (c.toWell.ofPhase p).form.comp (cellPart n c.cell)).sum +
        ((((u.withUnknowns x.2).balance setup control dt).get p).byWell -
          (u.links.map fun link => ((F link x).get p).byWell).sum).form.comp (wellPart n)) x := by
  have hr := HasFDerivAt.sub (balance_tracks hrate dt p) (Tracks.sum_value fun link hlink => hF link hlink p)
  rw [slope_sub_sum] at hr
  rw [toWell_sum]
  refine hr.congr_of_eventuallyEq (.of_forall fun q => ?_)
  simp only [equationsAt, ofPhase_residual, List.map_map]
  rfl

private theorem equationsAt_hasJacobian
    (hrate : ∀ p, setup.phases.isActive p = true → u.well.isInjector = false →
      control.kind = .surfaceRate → (u.withUnknowns x.2).OffGuard setup.phases control p)
    (hF : ∀ link ∈ u.links, TracksAll (frame (cellPart n link.1.cell) (wellPart n)) (F link) x)
    (h0 : ∀ link ∈ u.links, ∀ p, setup.phases.isActive p = false → (F link x).get p = 0) :
    HasJacobian setup.phases (u.equationsAt setup control dt s F) x := by
  obtain ⟨d, hj, hd⟩ := (u.withUnknowns x.2).jacobian_rows setup control dt
    (u.links.map fun link => flowAt s link (F link x))
  replace hj : (u.equationsAt setup control dt s F x).1.jacobian = pinAbsent setup.phases d := hj
  have hrow {p : Phase} (hp : setup.phases.isActive p = false) : d.ofPhase p = 0 := by
    rw [hd]
    refine (u.withUnknowns x.2).row_absent control dt hp fun f hf => ?_
    obtain ⟨link, hlink, rfl⟩ := List.mem_map.1 hf
    exact h0 link hlink p hp
  simp only [List.map_map] at hd
  have hjac (p : Phase) : (if setup.phases.isActive p then
      ((u.equationsAt setup control dt s F x).1.jacobian.ofPhase p).form.comp (wellPart n) else 0) =
      (d.ofPhase p).form.comp (wellPart n) := by
    cases hp : setup.phases.isActive p with
    | false => rw [if_neg Bool.false_ne_true, hrow hp, Vec3.form_zero, ContinuousLinearMap.zero_comp]
    | true => rw [if_pos rfl, hj, ofPhase_pinAbsent hp]
  refine ⟨fun p => ?_, fun hw => ?_, fun hg => ?_, ?_, fun k coupling source hc hs p => ?_⟩
  · rw [hjac, hd]
    exact equationsAt_residual hrate hF p
  · rw [hj]
    exact pinAbsent_water hw (hrow hw)
  · rw [hj]
    exact pinAbsent_gas hg (hrow hg)
  · simp only [equationsAt, linearSystem, List.map_map]
    rfl
  · simp only [equationsAt, linearSystem, List.map_map, List.getElem?_map, Option.map_eq_some_iff] at hc hs
    obtain ⟨link, hl, rfl⟩ := hc
    obtain ⟨link', hl', rfl⟩ := hs
    obtain rfl : link = link' := Option.some.inj (hl.symm.trans hl')
    have hx := hF link (List.mem_of_getElem? hl)
    refine ⟨_, .of_forall fun q => ?_, source_hasFDerivAt hx s link setup.phases p⟩
    simp only [equationsAt, List.map_map, List.getElem?_map, hl, Option.map_some, Function.comp_apply]

end

/-- An assembly that succeeds at a point without ties gives the Jacobian of the well equations: the equations exist at
all nearby unknowns, and the blocks of the system and of the sources are their derivatives. -/
theorem assemble_jacobian (u : WellUnit ℝ) (setup : Setup ℝ) (state : Fin n → (Fin 3 → ℝ) → Cell ℝ)
    (y : Fin n → Fin 3 → ℝ) (z : Fin 3 → ℝ) (dt : ℝ) (s : Slot ℝ) {control : Control ℝ} {u' : WellUnit ℝ}
    {flows : List (ConnectionFlow ℝ)} (hstate : ∀ i, CellTracks (state i) (y i))
    (hcontrol : s.currentControl u.well = .ok control)
    (hties : (u.withUnknowns z).OffTies setup (cellsAt state y) control)
    (h : (u.withUnknowns z).assemble setup (cellsAt state y) dt s = .ok (u', flows)) :
    ∃ eqs : Point n → WellSystem ℝ × List (Source ℝ),
      (∀ᶠ q in 𝓝 (y, z), (u.withUnknowns q.2).equations setup (cellsAt state q.1) dt s = .ok (eqs q)) ∧
      eqs (y, z) = ({ u'.system with inverse := none }, u'.sources) ∧ HasJacobian setup.phases eqs (y, z) := by
  have hx := equations_of_assemble h
  obtain ⟨control', hc', hx'⟩ := Outcome.bind_ok.1 hx
  obtain rfl : control = control' := Except.ok.inj (hcontrol.symm.trans hc')
  obtain ⟨flows', hf, -⟩ := Outcome.bind_ok.1 hx'
  obtain ⟨F, hF, hFt⟩ := eventually_connectionFlows (x := (y, z)) hstate hties hf
  have heqs : ∀ᶠ q in 𝓝 (y, z), (u.withUnknowns q.2).equations setup (cellsAt state q.1) dt s =
      .ok (u.equationsAt setup control dt s F q) := by
    filter_upwards [hF] with q hq
    exact Outcome.bind_ok.2 ⟨control, hcontrol, Outcome.bind_ok.2 ⟨_, hq, rfl⟩⟩
  exact ⟨u.equationsAt setup control dt s F, heqs, Except.ok.inj (heqs.self_of_nhds.symm.trans hx),
    equationsAt_hasJacobian hties.rate (fun link hlink => (hFt link hlink).1) fun link hlink => (hFt link hlink).2⟩

/-! ### An injector of water -/

/-- A cell with oil and water and with the pressure as its first unknown. -/
noncomputable def waterCell (_ : Fin 1) (y : Fin 3 → ℝ) : Cell ℝ :=
  { Cell.still (.seed (y 0) 0) 300 with mobility := ⟨.const 1, .const 1, .const 0⟩ }

/-- Oil and water with the analytic fluid. -/
noncomputable def oilWater : Setup ℝ where
  phases := .oilWater
  settings := { Settings.standard with storageVolume := 1 }
  pvt := FluidRegions.model ⟨[.standard]⟩
  lift := ⟨[]⟩
  converter := none

/-- An injector of water on a bottom-hole pressure. -/
noncomputable def waterInjector : WellUnit ℝ :=
  .create (.injector "I" 0 .water [⟨0, 1, 0, 1⟩] ⟨[⟨.bhp, 200, .replicate 0⟩], 0⟩)

/-- The pressure it is on. -/
noncomputable def injectorControl : Control ℝ := ⟨.bhp, 200, .replicate 0⟩

/-- What a state holds for it. -/
noncomputable def injectorSlot : Slot ℝ := ⟨some 200, some 0, none, none, some 0⟩

/-- Its only connection. -/
noncomputable def injectorLink : Connection ℝ × Segment ℝ := (⟨0, 1, 0, 1⟩, ⟨0, 0, 1⟩)

/-- The unknowns of the cell. -/
def cellUnknowns (_ : Fin 1) : Fin 3 → ℝ := ![100, 0, 0]

/-- The unknowns of the injector: equal parts of water and oil. -/
noncomputable def wellUnknowns : Fin 3 → ℝ := ![0, 1 / 2, 0]

/-- What the flow of the injector depends on. -/
noncomputable def injectorInput : ConnectionInput ℝ :=
  (waterInjector.withUnknowns wellUnknowns).connectionInput oilWater true (.const 200) injectorLink
    (waterCell 0 (cellUnknowns 0))

/-- The volume of the injected stream. -/
noncomputable def injectorVolume : WellDual ℝ :=
  0 + injectorInput.mix.water / .ofCell (.const 1) + injectorInput.mix.oil / .ofCell (.const 1)

/-- The rate of the injected stream. -/
noncomputable def injectorRate : WellDual ℝ :=
  (0 + .ofCell (.const 1) + .ofCell (.const 1)) * injectorInput.drawdown * (-1 : ℝ) / injectorVolume

/-- The rates into the cell. -/
noncomputable def injectorFlux : PerPhase (WellDual ℝ) :=
  ⟨injectorInput.mix.water * injectorRate, injectorInput.mix.oil * injectorRate, 0⟩

private theorem waterCell_tracks (i : Fin 1) (y : Fin 3 → ℝ) : CellTracks (waterCell i) y :=
  ⟨.seed 0 (hasFDerivAt_apply 0 y), .mk (.const 1) (.const 1) (.const 1), .mk (.const 1) (.const 1) (.const 0),
    .const 0, .const 0, fun _ => rfl, fun _ => rfl⟩

private theorem injector_drawdown : injectorInput.drawdown.value = -100 ∧ injectorInput.drawdown.byWell = 0 := by
  have hw : injectorInput.drawdown.byWell =
      WellDual.byWell (.ofCell (waterCell 0 (cellUnknowns 0)).pressure) - WellDual.byWell (.const 200) := byWell_sub _ _
  constructor
  · change (100 : ℝ) - (200 + 0) = -100
    norm_num
  · rw [hw, byWell_ofCell, byWell_const, sub_zero]

private theorem injector_water : injectorInput.mix.water.byWell = ⟨0, 1, 0⟩ := by
  change (WellDual.seedWell (1 / 2 : ℝ) 1).byWell = _
  ext <;> simp [WellDual.byWell, WellDual.seedWell, Dual.partials_seed]

private theorem injector_oil : injectorInput.mix.oil.byWell = ⟨0, -1, 0⟩ := by
  have hw : injectorInput.mix.oil.byWell = WellDual.byWell (.const 1) - injectorInput.mix.water.byWell :=
    byWell_sub _ _
  rw [hw, byWell_const, injector_water]
  ext <;> simp

private theorem injector_volume : injectorVolume.value = 1 ∧ injectorVolume.byWell = 0 := by
  constructor
  · change (0 : ℝ) + 1 / 2 * (1 / 1) + (1 - 1 / 2) * (1 / 1) = 1
    norm_num
  · rw [injectorVolume]
    simp only [byWell_add, byWell_div, byWell_zero, byWell_ofCell, injector_water, injector_oil, Vec3.zero_scale, zero_add,
      sub_zero]
    ext <;> simp [Vec3.scale, Vec3.map]

private theorem injector_rate : injectorRate.value = 200 ∧ injectorRate.byWell = 0 := by
  have hs (d : WellDual ℝ) : WellDual.byWell (d * (-1 : ℝ)) = d.byWell.scale (-1) := byWell_chain d _ _
  constructor
  · change ((0 + 1 + 1) * injectorInput.drawdown.value * -1 * (1 / injectorVolume.value) : ℝ) = 200
    rw [injector_drawdown.1, injector_volume.1]
    norm_num
  · rw [injectorRate]
    simp only [byWell_div, hs, byWell_mul, byWell_add, byWell_zero, byWell_ofCell, injector_drawdown.2,
      injector_volume.2, Vec3.zero_scale, add_zero, sub_zero]

private theorem injector_streamVolume :
    injectorInput.streamVolume? oilWater.phases oilWater.pvt = .ok (some injectorVolume) := rfl

private theorem injector_flux : injectorInput.flux oilWater.phases oilWater.pvt = .ok injectorFlux := by
  have hd : ¬0 < injectorInput.drawdown.value := by
    rw [injector_drawdown.1]
    norm_num
  have hv : ¬|injectorVolume.value| < 1e-12 := by
    rw [injector_volume.1]
    norm_num
  rw [ConnectionInput.flux, if_neg hd]
  change injectorInput.outflow oilWater.phases oilWater.pvt = _
  unfold ConnectionInput.outflow
  rw [injector_streamVolume]
  exact (if_neg hv).trans (if_pos (List.all_eq_true.2 fun d _ => d.isFinite_exact))

private theorem waterInjector_links {link : Connection ℝ × Segment ℝ} (h : link ∈ waterInjector.links) :
    link = injectorLink := List.mem_singleton.1 h

private theorem waterInjector_cell : cellAt (cellsAt waterCell cellUnknowns) injectorLink.1.cell =
    .ok (waterCell 0 (cellUnknowns 0)) :=
  cellAt_of_val (i := 0) rfl waterCell cellUnknowns

private theorem waterInjector_offTies :
    (waterInjector.withUnknowns wellUnknowns).OffTies oilWater (cellsAt waterCell cellUnknowns) injectorControl := by
  refine offTies_of_offCaps (f := ⟨[.standard]⟩) rfl nofun nofun fun link hlink cell bhp crossFlow hcell hb hc => ?_
  obtain rfl := waterInjector_links hlink
  cases Except.ok.inj (waterInjector_cell.symm.trans hcell)
  cases hb
  cases hc
  change injectorInput.OffCaps oilWater.phases ⟨[.standard]⟩
  refine ⟨?_, fun _ _ => ⟨fun p _ => ?_, fun v hv => ?_, nofun⟩⟩
  · rw [injector_drawdown.1]
    norm_num
  · cases p <;> exact one_ne_zero
  · obtain rfl := Option.some.inj (Except.ok.inj (injector_streamVolume.symm.trans hv))
    rw [injector_volume.1]
    norm_num

private theorem waterInjector_flows :
    (waterInjector.withUnknowns wellUnknowns).connectionFlows oilWater (cellsAt waterCell cellUnknowns) injectorSlot
      injectorControl = .ok [flowAt injectorSlot injectorLink injectorFlux] := by
  refine Outcome.bind_ok.2 ⟨_, rfl, Outcome.bind_ok.2 ⟨true, rfl, ?_⟩⟩
  refine Outcome.mapM_map (g := fun link => flowAt injectorSlot link injectorFlux) fun link hlink => ?_
  obtain rfl := waterInjector_links hlink
  exact Outcome.bind_ok.2 ⟨_, Outcome.bind_ok.2 ⟨_, waterInjector_cell, injector_flux⟩, rfl⟩

private theorem waterInjector_waterRate :
    (waterInjector.withUnknowns wellUnknowns).surfaceRate oilWater.phases injectorControl .water = .seedWell 0 0 := by
  have h : ¬decide ((1 : ℝ) = 0) = true := by simp
  exact if_neg h

private theorem waterInjector_oilRate :
    (waterInjector.withUnknowns wellUnknowns).surfaceRate oilWater.phases injectorControl .oil = 0 := by
  have h : decide ((0 : ℝ) = 0) = true := by simp
  exact if_pos h

/-- A part of the stream in storage, added to a rate. -/
private theorem byWell_balance (d r : WellDual ℝ) :
    WellDual.byWell ((d - (0 : ℝ)) * ((1 : ℝ) / 1) + r) = d.byWell.scale (1 / 1) + r.byWell := by
  have hs : WellDual.byWell ((d - (0 : ℝ)) * ((1 : ℝ) / 1)) = d.byWell.scale (1 / 1) := byWell_chain _ _ _
  rw [byWell_add, hs]

private theorem waterInjector_det :
    ((waterInjector.withUnknowns wellUnknowns).linearSystem oilWater injectorControl 1
      [flowAt injectorSlot injectorLink injectorFlux]).jacobian.det ≠ 0 := by
  obtain ⟨d, hd, hrows⟩ := (waterInjector.withUnknowns wellUnknowns).jacobian_rows oilWater injectorControl 1
    [flowAt injectorSlot injectorLink injectorFlux]
  have hlead : WellDual.byWell (.seedWell (0 : ℝ) 0) = ⟨1, 0, 0⟩ := by
    ext <;> simp [WellDual.byWell, WellDual.seedWell, Dual.partials_seed]
  have hx : d.x = ⟨1, -199, 0⟩ := by
    refine (hrows .water).trans ?_
    change WellDual.byWell ((injectorInput.mix.water - (0 : ℝ)) * ((1 : ℝ) / 1) + _) -
      (WellDual.byWell (injectorInput.mix.water * injectorRate) + 0) = _
    rw [byWell_balance, waterInjector_waterRate, hlead, byWell_mul, injector_rate.1, injector_rate.2, injector_water]
    ext <;> simp [Vec3.scale, Vec3.map]
    norm_num
  have hy : d.y = ⟨0, 199, 0⟩ := by
    refine (hrows .oil).trans ?_
    change WellDual.byWell ((injectorInput.mix.oil - (0 : ℝ)) * ((1 : ℝ) / 1) + _) -
      (WellDual.byWell (injectorInput.mix.oil * injectorRate) + 0) = _
    rw [byWell_balance, waterInjector_oilRate, byWell_zero, byWell_mul, injector_rate.1, injector_rate.2, injector_oil]
    ext <;> simp [Vec3.scale, Vec3.map]
    norm_num
  have hz : d.z = 0 := by
    refine (hrows .gas).trans ?_
    change WellDual.byWell 0 - (WellDual.byWell 0 + 0) = 0
    rw [byWell_zero, add_zero, sub_zero]
  rw [hd, pinAbsent, hx, hy, hz]
  simp [Block.det, oilWater, PhaseSet.oilWater]

/-- Water that is injected into oil and water: the assembly succeeds, and there is no tie. -/
theorem assemble_jacobian_waterInjector :
    injectorSlot.currentControl waterInjector.well = .ok injectorControl ∧
    ∃ u' flows, (waterInjector.withUnknowns wellUnknowns).assemble oilWater (cellsAt waterCell cellUnknowns) 1
      injectorSlot = .ok (u', flows) ∧
    ∃ eqs : Point 1 → WellSystem ℝ × List (Source ℝ),
      (∀ᶠ q in 𝓝 (cellUnknowns, wellUnknowns),
        (waterInjector.withUnknowns q.2).equations oilWater (cellsAt waterCell q.1) 1 injectorSlot = .ok (eqs q)) ∧
      eqs (cellUnknowns, wellUnknowns) = ({ u'.system with inverse := none }, u'.sources) ∧
      HasJacobian .oilWater eqs (cellUnknowns, wellUnknowns) := by
  have hc : injectorSlot.currentControl waterInjector.well = .ok injectorControl := rfl
  obtain ⟨u', h⟩ := assemble_of_det_ne_zero (u := waterInjector.withUnknowns wellUnknowns) hc waterInjector_flows
    waterInjector_det
  exact ⟨hc, u', _, h, assemble_jacobian waterInjector oilWater waterCell cellUnknowns wellUnknowns 1 injectorSlot
    (fun i => waterCell_tracks i _) hc waterInjector_offTies h⟩

end WellUnit

end BlackOilWells
