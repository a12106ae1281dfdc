import BlackOilWells.Proofs.Targets
import BlackOilWells.Proofs.TubingHead

/-!
# Steps of zero

What a Newton step leaves, it derives from the unknowns that it leaves: the fractions are closed, the bottom-hole
pressure under rate control is not below the least one, and rates and pressures belong to the unknowns and the current
control (`Session.inStep_of_updates`).  So a step of zero after it finds everything in place
(`WellUnit.applyUpdate_zero`), and steps of zero for all wells succeed and change nothing but the count of changes
(`Session.zeroSteps_of_updates`).
-/

namespace BlackOilWells

open Attempt

variable {γ K : Type} [Field K] [LinearOrder K]

/-! ### Fractions that are closed -/

theorem dropNegative_of_nonneg {f : PerPhase K} {p : Phase} (h : 0 ≤ f.get p) : dropNegative f p = f :=
  if_neg (not_lt.2 h)

namespace PerPhase.IsMix

variable {phases : PhaseSet} {f : PerPhase K}

private theorem ite_water (h : f.IsMix phases) : (if phases.water then f.water else 0) = f.water := by
  by_cases hp : phases.water = true
  · exact if_pos hp
  · rw [if_neg hp]
    exact (h.absent .water nofun (Bool.eq_false_iff.2 hp)).symm

private theorem ite_gas (h : f.IsMix phases) : (if phases.gas then f.gas else 0) = f.gas := by
  by_cases hp : phases.gas = true
  · exact if_pos hp
  · rw [if_neg hp]
    exact (h.absent .gas nofun (Bool.eq_false_iff.2 hp)).symm

/-- Closed fractions are left as they are. -/
theorem closeFractions (h : f.IsMix phases) : closeFractions phases f.water f.gas = f := by
  have hoil : 1 - f.water - f.gas = f.oil := by linear_combination -h.sum
  rw [BlackOilWells.closeFractions, h.ite_water, h.ite_gas, hoil]
  change dropNegative (dropNegative (dropNegative f .water) .gas) .oil = f
  rw [dropNegative_of_nonneg (h.nonneg .water), dropNegative_of_nonneg (h.nonneg .gas),
    dropNegative_of_nonneg (h.nonneg .oil)]

end PerPhase.IsMix

/-! ### The step of one well -/

private theorem Scalar.boundedStep_zero [IsStrictOrderedRing K] {most : K} (h : 0 ≤ most) : boundedStep 0 most = 0 := by
  rw [boundedStep, Scalar.min_exact]
  change stepSign 0 * Min.min |0| most = 0
  rw [abs_zero, min_eq_left h, mul_zero]

namespace WellUnit

variable {u : WellUnit K} {setup : Setup K} {c : Control K} {x : Unknowns K} {s t : Slot K}

theorem stepFractions_zero [IsStrictOrderedRing K] (hlimit : 0 ≤ setup.settings.maxFractionChange)
    (h : x.fractions.IsMix setup.phases) : stepFractions setup x 0 = x.fractions := by
  have hstay (y : K) : y - Scalar.boundedStep 0 setup.settings.maxFractionChange = y := by
    rw [Scalar.boundedStep_zero hlimit, sub_zero]
  rw [stepFractions]
  dsimp only [Vec3.zero_y, Vec3.zero_z]
  rw [hstay, hstay]
  change closeFractions setup.phases (if setup.phases.water then x.fractions.water else 0)
    (if setup.phases.gas then x.fractions.gas else 0) = _
  rw [h.ite_water, h.ite_gas]
  exact h.closeFractions

private theorem stepLead_zero [IsStrictOrderedRing K] (hlimit : 0 ≤ setup.settings.maxBhpChange)
    (h : c.kind.isPressure = false → setup.settings.minBhp ≤ x.lead) : stepLead setup c x 0 = x.lead := by
  by_cases hk : c.kind.isPressure = true
  · rw [stepLead, if_pos hk]
    exact sub_zero _
  · have hrate := Bool.eq_false_iff.2 hk
    rw [stepLead_of_rate hrate, Vec3.zero_x, Scalar.boundedStep_zero (mul_nonneg (abs_nonneg _) hlimit), sub_zero]
    exact max_eq_left (h hrate)

private theorem ratesOf_again (w : Well K) (phases : PhaseSet) (c : Control K) (lead : K) (scaled rates : PerPhase K) :
    ratesOf w phases c lead scaled (ratesOf w phases c lead scaled rates) = ratesOf w phases c lead scaled rates := by
  have hselect (q r : PerPhase K) : phases.select q (phases.select q r) = phases.select q r := by
    refine PerPhase.ext_get fun p => ?_
    by_cases hp : phases.isActive p = true
    · rw [PhaseSet.get_select hp, PhaseSet.get_select hp]
    · rw [PhaseSet.get_select_absent (Bool.eq_false_iff.2 hp)]
  unfold ratesOf
  cases c.kind with
  | surfaceRate =>
    dsimp only
    split
    · rfl
    · split
      · rfl
      · exact hselect _ _
  | _ => exact hselect _ _

/-- Keeping the tubing-head pressure in step twice is keeping it in step once. -/
private theorem updateThp_again (h : u.updateThp setup c s = (.ok ⟨⟩, t)) : u.updateThp setup c t = (.ok ⟨⟩, t) := by
  unfold updateThp at h ⊢
  cases hk : c.kind with
  | thp table lift =>
    rw [hk] at h
    obtain ⟨-, rfl⟩ := Slot.putThp_ok.1 h
    exact Slot.putThp_ok.2 ⟨rfl, rfl⟩
  | _ =>
    rw [hk] at h
    dsimp only at h ⊢
    cases hlift : u.well.controls.firstLift? with
    | none => rfl
    | some tl =>
      rw [hlift] at h
      dsimp only at h ⊢
      rw [run_get_bind] at h ⊢
      obtain ⟨rates, hrates, h⟩ := need_bind_ok.1 h
      obtain ⟨bhp, hbhp, h⟩ := need_bind_ok.1 h
      obtain ⟨thp, hthp, h⟩ := outcome_bind_ok.1 h
      obtain ⟨-, rfl⟩ := Slot.putThp_ok.1 h
      refine need_bind_ok.2 ⟨rates, hrates, need_bind_ok.2 ⟨bhp, hbhp, ?_⟩⟩
      exact outcome_bind_ok.2 ⟨thp, hthp, Slot.putThp_ok.2 ⟨rfl, rfl⟩⟩

section Exact

variable [IsStrictOrderedRing K] {dx : Vec3 K}

/-- The unknowns after a step are kept by a step of zero. -/
private theorem steppedUnknowns_zero (c : Control K) (old : Unknowns K) (dx : Vec3 K)
    (hfraction : 0 ≤ setup.settings.maxFractionChange) (hbhp : 0 ≤ setup.settings.maxBhpChange) :
    stepLead setup c (steppedUnknowns setup c old dx) 0 = stepLead setup c old dx ∧
      stepFractions setup (steppedUnknowns setup c old dx) 0 = stepFractions setup old dx := by
  have hfractions := fractions_steppedUnknowns setup c old dx
  have hmix : (stepFractions setup old dx).IsMix setup.phases := closeFractions_isMix ..
  constructor
  · exact stepLead_zero hbhp minBhp_le_stepLead
  · rw [← hfractions] at hmix
    rw [stepFractions_zero hfraction hmix, hfractions]

/-- So are the rates and the bottom-hole pressure, which are written again. -/
private theorem Writes.zero (hfraction : 0 ≤ setup.settings.maxFractionChange) (hbhp : 0 ≤ setup.settings.maxBhpChange)
    (h : u.Writes setup dx c s t) : u.Writes setup 0 c t t := by
  obtain ⟨old, rates, bhp, -, -, -, hpressure, rfl⟩ := h
  obtain ⟨hlead, hfractions⟩ := steppedUnknowns_zero c old dx hfraction hbhp
  have hrates : u.steppedRates setup c (steppedUnknowns setup c old dx) 0 (u.steppedRates setup c old dx rates) =
      u.steppedRates setup c old dx rates := by
    rw [steppedRates, hlead, hfractions]
    exact ratesOf_again ..
  have hunknowns : steppedUnknowns setup c (steppedUnknowns setup c old dx) 0 = steppedUnknowns setup c old dx := by
    rw [steppedUnknowns, hlead, hfractions]
    rfl
  refine ⟨_, _, bhp, rfl, rfl, rfl, ?_, ?_⟩
  · rw [hlead, hrates]
    exact hpressure
  · rw [hrates, hunknowns]

/-- A step of zero keeps what a Newton step has left. -/
theorem applyUpdate_zero (hfraction : 0 ≤ setup.settings.maxFractionChange) (hbhp : 0 ≤ setup.settings.maxBhpChange)
    (h : u.applyUpdate setup dx s = (.ok ⟨⟩, t)) : u.applyUpdate setup 0 t = (.ok ⟨⟩, t) := by
  obtain ⟨c, x, hc, hwrites, hthp⟩ := applyUpdate_ok h
  have hcontrol : t.currentControl u.well = .ok c := by
    rw [updateThp_frame hthp]
    obtain ⟨old, rates, bhp, -, -, -, -, rfl⟩ := hwrites
    exact hc
  have hagain : u.Writes setup 0 c t t := by
    obtain ⟨old, rates, bhp, hold, hrates, hplace, hpressure, hx⟩ := hwrites.zero hfraction hbhp
    rw [updateThp_frame hthp]
    exact ⟨old, rates, bhp, hold, hrates, hplace, hpressure, congrArg (fun y : Slot K => { y with thp := t.thp }) hx⟩
  rw [applyUpdate_eq rfl hcontrol hagain]
  exact updateThp_again hthp

end Exact

end WellUnit

/-! ### Rates and pressures of the unknowns -/

namespace WellUnit

variable {u : WellUnit K} {setup : Setup K} {s t : Slot K}

/-- Whether rates and pressures in the slot of a well are those of its unknowns and the current control.  A rate that
these do not determine, such as that of an absent phase, may be any. -/
def InStep (u : WellUnit K) (setup : Setup K) (s : Slot K) : Prop :=
  ∃ c x rates bhp, s.currentControl u.well = .ok c ∧ s.unknowns = some x ∧ s.rates = some rates ∧ s.bhp = some bhp ∧
    ratesOf u.well setup.phases c x.lead (unscaled setup.phases c x.fractions) rates = rates ∧
    u.bhpOf setup c x.lead rates = .ok bhp ∧ u.HeadInStep setup s

theorem inStep_of_applyUpdate [IsStrictOrderedRing K] {dx : Vec3 K} (h : u.applyUpdate setup dx s = (.ok ⟨⟩, t)) :
    u.InStep setup t := by
  have hhead := headInStep_of_applyUpdate h
  obtain ⟨c, x, hc, ⟨old, rates, bhp, -, -, -, hbhp, rfl⟩, hthp⟩ := applyUpdate_ok h
  have hrates : ratesOf u.well setup.phases c (steppedUnknowns setup c old dx).lead
      (unscaled setup.phases c (steppedUnknowns setup c old dx).fractions) (u.steppedRates setup c old dx rates) =
        u.steppedRates setup c old dx rates := by
    rw [fractions_steppedUnknowns]
    exact ratesOf_again ..
  rw [updateThp_frame hthp] at hhead ⊢
  exact ⟨c, _, _, bhp, hc, rfl, rfl, rfl, hrates, hbhp, hhead⟩

end WellUnit

/-! ### The steps of all wells -/

section Steps

variable [IsStrictOrderedRing K]

/-- Steps of zero after Newton steps only count another change. -/
theorem Model.applyUpdates_zero {m : Model K} {updates : List (Vec3 K)} {f f' : FlowState K}
    (hfraction : 0 ≤ m.setup.settings.maxFractionChange) (hbhp : 0 ≤ m.setup.settings.maxBhpChange)
    (h : m.applyUpdates updates f = (.ok ⟨⟩, f')) :
    m.applyUpdates (List.replicate m.units.length 0) f' = (.ok ⟨⟩, { f' with revision := f'.revision + 1 }) := by
  obtain ⟨hcheck, -, g, hg, rfl⟩ := applyUpdates_ok h
  have hsize : m.checkState { g with revision := g.revision + 1 } = .ok ⟨⟩ := by
    rw [← hcheck, checkState, checkState]
    dsimp only
    rw [hg.moves.length_bhp, hg.moves.connectionPressure]
  have hsteps : ((m.units.zip (List.replicate m.units.length (0 : Vec3 K))).zipIdx.forM
      fun p => FlowState.onSlot p.2 (p.1.1.applyUpdate m.setup p.1.2)) { g with revision := g.revision + 1 } =
        (.ok ⟨⟩, { g with revision := g.revision + 1 }) := by
    refine forM_unchanged fun p hp => ?_
    obtain ⟨⟨u, dx⟩, w⟩ := p
    obtain ⟨hu, hdx⟩ := List.getElem?_zip_eq_some.1 (List.mem_zipIdx_iff_getElem?.1 hp)
    obtain rfl : dx = 0 := List.eq_of_mem_replicate (List.mem_of_getElem? hdx)
    obtain ⟨dx, -, hstep⟩ := applyUpdates_slot h hu
    rw [FlowState.run_onSlot, WellUnit.applyUpdate_zero hfraction hbhp hstep]
    exact Prod.ext rfl (FlowState.putSlot_slot _ w)
  unfold applyUpdates
  rw [run_get_bind, run_outcome_bind, hsize]
  dsimp only
  rw [List.length_replicate, if_neg (by simp)]
  exact bind_of_ok hsteps

namespace Session

/-- Newton steps that succeed leave the rates and pressures of all wells in step with their unknowns and controls. -/
theorem inStep_of_updates {updates : List (Vec3 K)} {s t : Session K γ} (h : applyUpdates updates s = (.ok ⟨⟩, t)) :
    ∀ (w : Nat) u, t.model.units[w]? = some u → u.InStep t.model.setup (t.flow.slot w) := by
  obtain ⟨f, hf, rfl⟩ := applyUpdates_ok.1 h
  intro w u hu
  obtain ⟨dx, -, hstep⟩ := Model.applyUpdates_slot hf hu
  exact WellUnit.inStep_of_applyUpdate hstep

/-- After Newton steps that succeed, steps of zero succeed and change nothing but the count of changes. -/
theorem zeroSteps_of_updates {updates : List (Vec3 K)} {s t : Session K γ}
    (hfraction : 0 ≤ s.model.setup.settings.maxFractionChange) (hbhp : 0 ≤ s.model.setup.settings.maxBhpChange)
    (h : applyUpdates updates s = (.ok ⟨⟩, t)) : applyUpdates (List.replicate t.model.units.length 0) t =
      (.ok ⟨⟩, { t with flow := { t.flow with revision := t.flow.revision + 1 } }) := by
  obtain ⟨f, hf, rfl⟩ := applyUpdates_ok.1 h
  exact applyUpdates_ok.2 ⟨_, Model.applyUpdates_zero hfraction hbhp hf, rfl⟩

end Session

end Steps

/-- The steps have moved the wells, and steps of zero move them no further. -/
theorem Session.zeroSteps_of_updates_sixWells : ∃ t, applyUpdates sixSteps sixWells = (.ok ⟨⟩, t) ∧
    0 ≤ sixWells.model.setup.settings.maxFractionChange ∧ 0 ≤ sixWells.model.setup.settings.maxBhpChange ∧
    t.flow.rates ≠ sixWells.flow.rates ∧ t.flow.revision = 1 ∧ t.model.units.length = 6 ∧
    applyUpdates (List.replicate t.model.units.length 0) t =
      (.ok ⟨⟩, { t with flow := { t.flow with revision := t.flow.revision + 1 } }) := by
  have hrun : (applyUpdates sixSteps sixWells).1.toOption = some ⟨⟩ := by decide +kernel
  have hfraction : 0 ≤ sixWells.model.setup.settings.maxFractionChange := by decide +kernel
  have hbhp : 0 ≤ sixWells.model.setup.settings.maxBhpChange := by decide +kernel
  exact ⟨_, run_ok_of_toOption hrun, hfraction, hbhp, by decide +kernel, by decide +kernel, by decide +kernel,
    zeroSteps_of_updates hfraction hbhp (run_ok_of_toOption hrun)⟩

end BlackOilWells
