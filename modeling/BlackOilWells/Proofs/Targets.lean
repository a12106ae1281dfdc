import Mathlib.Tactic.NormNum
import BlackOilWells.Proofs.Fractions
import BlackOilWells.Proofs.NewtonSteps
import BlackOilWells.Proofs.Runs

/-!
# Wells on their targets

A Newton step moves the unknowns of a well within bounds and derives pressures and rates from them.  Whatever the step
is, the well is on the target of its current control afterwards (`WellUnit.OnTarget`): a pressure control gives the
pressures, a surface rate control scales the stream to the target, and a reservoir rate control takes the target times
fractions that sum to one.  Under rate control the bottom-hole pressure is the leading unknown, whose step is bounded.

`Session.onTarget_of_updates` says this of all wells after Newton steps that succeed.
-/

namespace BlackOilWells

open Attempt

variable {γ K : Type} [Field K] [LinearOrder K]

/-! ### Sums over the active phases -/

namespace PhaseSet

variable {phases : PhaseSet} {q r : PerPhase K}

theorem sum_congr (h : ∀ p, phases.isActive p = true → q.get p = r.get p) : phases.sum q = phases.sum r :=
  congrArg Scalar.sum (List.map_congr_left fun p hp => h p (isActive_of_mem hp))

theorem sum_map_mul (phases : PhaseSet) (q : PerPhase K) (a : K) : phases.sum (q.map (· * a)) = phases.sum q * a := by
  rw [sum, sum, Scalar.sum_exact, Scalar.sum_exact, ← List.sum_map_mul_right]
  exact congrArg List.sum (List.map_congr_left fun p _ => PerPhase.get_map _ q p)

theorem sum_of_absent (h : ∀ p, phases.isActive p = false → q.get p = 0) :
    phases.sum q = q.water + q.oil + q.gas := by
  have hfilter (l : List Phase) : ((l.filter phases.isActive).map q.get).sum = (l.map q.get).sum := by
    induction l with
    | nil => rfl
    | cons p l ih =>
      rw [List.filter_cons, List.map_cons, List.sum_cons]
      by_cases hp : phases.isActive p = true
      · rw [if_pos hp, List.map_cons, List.sum_cons, ih]
      · rw [if_neg hp, ih, h p (Bool.eq_false_iff.2 hp), zero_add]
  rw [sum, Scalar.sum_exact, active, hfilter]
  change List.sum [q.water, q.oil, q.gas] = _
  rw [List.sum_cons, List.sum_cons, List.sum_singleton, add_assoc]

/-- The active phases of a mix are all of it where oil is active. -/
private theorem sum_of_isMix [IsStrictOrderedRing K] (h : q.IsMix phases) (hoil : phases.oil = true) :
    phases.sum q = 1 := by
  have habsent (p : Phase) (hp : phases.isActive p = false) : q.get p = 0 := by
    refine h.absent p ?_ hp
    rintro rfl
    exact absurd hoil (Bool.eq_false_iff.1 hp)
  rw [sum_of_absent habsent, h.sum]

end PhaseSet

theorem Unknowns.fractions_of_isMix {phases : PhaseSet} {f : PerPhase K} (h : f.IsMix phases) (lead : K) :
    (Unknowns.mk lead f.water f.gas).fractions = f := by
  have hoil : 1 - f.water - f.gas = f.oil := by linear_combination -h.sum
  rw [fractions]
  dsimp only
  rw [hoil]

/-- The weighted rate of the active phases. -/
def Control.activeRate (c : Control K) (phases : PhaseSet) (rates : PerPhase K) : K :=
  phases.sum (.zipWith (· * ·) c.weights rates)

/-! ### The leading unknown -/

section Lead

variable {setup : Setup K} {c : Control K} {old : Unknowns K} {dx : Vec3 K}

theorem Scalar.abs_boundedStep_le [IsStrictOrderedRing K] (d : K) {most : K} (h : 0 ≤ most) :
    |boundedStep d most| ≤ most := by
  have hsize : 0 ≤ Min.min |d| most := le_min (abs_nonneg d) h
  have hsign : |(stepSign d : K)| = 1 := by
    unfold stepSign
    split
    · exact abs_one
    · rw [abs_neg, abs_one]
  rw [boundedStep, Scalar.min_exact, abs_mul, hsign, one_mul]
  change |Min.min |d| most| ≤ most
  rw [abs_of_nonneg hsize]
  exact min_le_right _ _

namespace WellUnit

theorem stepLead_of_rate (hk : c.kind.isPressure = false) : stepLead setup c old dx =
    Max.max (old.lead - Scalar.boundedStep dx.x (|old.lead| * setup.settings.maxBhpChange)) setup.settings.minBhp := by
  rw [stepLead, if_neg (Bool.eq_false_iff.1 hk), Scalar.max_exact]
  rfl

theorem minBhp_le_stepLead (hk : c.kind.isPressure = false) :
    setup.settings.minBhp ≤ stepLead setup c old dx := by
  rw [stepLead_of_rate hk]
  exact le_max_right _ _

/-- The least pressure cuts a step down only, unless the pressure was below it already. -/
private theorem abs_stepLead_sub_le [IsStrictOrderedRing K] (hk : c.kind.isPressure = false)
    (hbound : 0 ≤ setup.settings.maxBhpChange) (hold : setup.settings.minBhp ≤ old.lead) :
    |stepLead setup c old dx - old.lead| ≤ setup.settings.maxBhpChange * |old.lead| := by
  have hmost : 0 ≤ |old.lead| * setup.settings.maxBhpChange := mul_nonneg (abs_nonneg _) hbound
  have hstep := abs_le.1 (Scalar.abs_boundedStep_le dx.x hmost)
  rw [stepLead_of_rate hk, mul_comm setup.settings.maxBhpChange, abs_le]
  rcases le_total setup.settings.minBhp
    (old.lead - Scalar.boundedStep dx.x (|old.lead| * setup.settings.maxBhpChange)) with h | h
  · rw [max_eq_left h]
    constructor <;> linarith
  · rw [max_eq_right h]
    constructor <;> linarith

end WellUnit

end Lead

/-! ### Rates -/

namespace WellUnit

variable {u : WellUnit K} {setup : Setup K} {phases : PhaseSet} {c : Control K} {lead : K} {scaled rates : PerPhase K}

theorem ratesOf_surfaceRate (hu : u.well.isInjector = false) (hk : c.kind = .surfaceRate)
    (h : c.activeRate phases scaled ≠ 0) : ratesOf u.well phases c lead scaled rates =
      phases.select (scaled.map fun f => f * c.target / c.activeRate phases scaled) rates := by
  have htotal : ¬(phases.sum (.zipWith (· * ·) c.weights scaled) == 0) = true := by
    rw [beq_iff_eq]
    exact h
  unfold ratesOf
  rw [hk]
  dsimp only
  rw [if_neg (Bool.eq_false_iff.1 hu), if_neg htotal]
  rfl

theorem ratesOf_reservoirRate (hk : c.kind = .reservoirRate) : ratesOf u.well phases c lead scaled rates =
    phases.select (scaled.map (· * c.target)) rates := by
  unfold ratesOf
  rw [hk]

/-- Under a surface rate control of a producer the stream is scaled to the target. -/
private theorem activeRate_of_surfaceRate (hu : u.well.isInjector = false) (hk : c.kind = .surfaceRate)
    (h : c.activeRate phases scaled ≠ 0) :
    c.activeRate phases (ratesOf u.well phases c lead scaled rates) = c.target := by
  have hterms : c.activeRate phases (ratesOf u.well phases c lead scaled rates) =
      phases.sum ((PerPhase.zipWith (· * ·) c.weights scaled).map (· * (c.target / c.activeRate phases scaled))) := by
    rw [ratesOf_surfaceRate hu hk h]
    refine PhaseSet.sum_congr fun p hp => ?_
    rw [PerPhase.get_zipWith, PhaseSet.get_select hp, PerPhase.get_map, PerPhase.get_map, PerPhase.get_zipWith,
      mul_div_assoc, mul_assoc]
  rw [hterms, PhaseSet.sum_map_mul]
  exact mul_div_cancel₀ _ h

/-- Under a reservoir rate control the stream flows at the target. -/
private theorem activeRate_of_reservoirRate (hk : c.kind = .reservoirRate) :
    c.activeRate phases (ratesOf u.well phases c lead scaled rates) = c.activeRate phases scaled * c.target := by
  rw [ratesOf_reservoirRate hk, Control.activeRate, Control.activeRate, ← PhaseSet.sum_map_mul]
  refine PhaseSet.sum_congr fun p hp => ?_
  rw [PerPhase.get_zipWith, PhaseSet.get_select hp, PerPhase.get_map, PerPhase.get_map, PerPhase.get_zipWith, mul_assoc]

/-- The coefficients of a reservoir rate control undo the scaling by them. -/
private theorem activeRate_unscaled (hk : c.kind = .reservoirRate) (f : PerPhase K)
    (hweights : ∀ p, phases.isActive p = true → c.weights.get p ≠ 0) :
    c.activeRate phases (unscaled phases c f) = phases.sum f := by
  have hscale : c.fractionScale = c.weights := by rw [Control.fractionScale, hk]
  refine PhaseSet.sum_congr fun p hp => ?_
  have hne : ¬(c.weights.get p == 0) = true := by
    rw [beq_iff_eq]
    exact hweights p hp
  rw [PerPhase.get_zipWith, unscaled, hscale, PhaseSet.get_select hp, PerPhase.get_zipWith, if_neg hne]
  exact mul_div_cancel₀ _ (hweights p hp)

end WellUnit

/-! ### Wells on their targets -/

namespace WellUnit

/-- Whether pressures and rates of a well, after a step from old unknowns to new ones, are on the target of a
control. -/
structure OnTarget (u : WellUnit K) (setup : Setup K) (c : Control K) (old new : Unknowns K) (bhp : K) (thp : Option K)
    (rates : PerPhase K) : Prop where
  bhp_eq : c.kind = .bhp → bhp = c.target
  /-- The bottom-hole pressure is the one that goes with the target at the rates. -/
  thp_eq : ∀ table lift, c.kind = .thp table lift → thp = some c.target ∧
    ∃ p, u.bhpOfThp setup table (rates.map .const) c.target = .ok p ∧ bhp = p.value
  injected : c.kind = .surfaceRate → u.well.isInjector = true → rates = u.well.composition.map (· * c.target)
  produced : c.kind = .surfaceRate → u.well.isProducer = true →
    c.activeRate setup.phases (unscaled setup.phases c new.fractions) ≠ 0 → c.activeRate setup.phases rates = c.target
  /-- The fractions of the active phases sum to one, since the wells of a model have oil (`Wells.create`). -/
  reservoir : c.kind = .reservoirRate → (∀ p, setup.phases.isActive p = true → 0 < c.weights.get p) →
    c.activeRate setup.phases rates = setup.phases.sum new.fractions * c.target ∧
      (setup.phases.oil = true → c.activeRate setup.phases rates = c.target)
  lead_eq : c.kind.isPressure = false → bhp = new.lead ∧ setup.settings.minBhp ≤ bhp
  bounded : c.kind.isPressure = false → setup.settings.minBhp ≤ old.lead →
    |bhp - old.lead| ≤ setup.settings.maxBhpChange * |old.lead|

variable [IsStrictOrderedRing K] {u : WellUnit K} {setup : Setup K} {c : Control K} {old : Unknowns K} {dx : Vec3 K}
  {s t : Slot K}

theorem fractions_steppedUnknowns (setup : Setup K) (c : Control K) (old : Unknowns K) (dx : Vec3 K) :
    (steppedUnknowns setup c old dx).fractions = stepFractions setup old dx :=
  Unknowns.fractions_of_isMix (closeFractions_isMix setup.phases _ _) _

/-- The rates and the bottom-hole pressure that a step leaves are on the target. -/
private theorem onTarget_of_step {rates : PerPhase K} {bhp : K} {thp : Option K}
    (hlimit : 0 ≤ setup.settings.maxBhpChange)
    (hbhp : u.bhpOf setup c (stepLead setup c old dx) (u.steppedRates setup c old dx rates) = .ok bhp)
    (hthp : ∀ table lift, c.kind = .thp table lift → thp = some c.target) :
    u.OnTarget setup c old (steppedUnknowns setup c old dx) bhp thp (u.steppedRates setup c old dx rates) := by
  have hfractions := fractions_steppedUnknowns setup c old dx
  have hmix : (stepFractions setup old dx).IsMix setup.phases := closeFractions_isMix ..
  have hlead (hk : c.kind.isPressure = false) : bhp = stepLead setup c old dx := by
    unfold bhpOf at hbhp
    cases hkind : c.kind with
    | surfaceRate | reservoirRate =>
      rw [hkind] at hbhp
      exact (Except.ok.inj hbhp).symm
    | bhp | thp =>
      rw [hkind] at hk
      cases hk
  refine ⟨fun hk => ?pressure, fun table lift hk => ⟨hthp table lift hk, ?head⟩, fun hk hu => ?injected,
    fun hk hu h => ?produced, fun hk hweights => ?reservoir, fun hk => ?lead, fun hk hold => ?bounded⟩
  case pressure =>
    rw [bhpOf, hk] at hbhp
    exact (Except.ok.inj hbhp).symm
  case head =>
    rw [bhpOf, hk] at hbhp
    obtain ⟨p, hp, h⟩ := Outcome.bind_ok.1 hbhp
    exact ⟨p, hp, (Except.ok.inj h).symm⟩
  case injected =>
    rw [steppedRates, ratesOf, hk]
    exact if_pos hu
  case produced =>
    rw [hfractions] at h
    exact activeRate_of_surfaceRate (Well.isInjector_of_isProducer hu) hk h
  case reservoir =>
    have hrate : c.activeRate setup.phases (u.steppedRates setup c old dx rates) =
        setup.phases.sum (stepFractions setup old dx) * c.target := by
      rw [steppedRates, activeRate_of_reservoirRate hk, activeRate_unscaled hk _ fun p hp => (hweights p hp).ne']
    rw [hfractions]
    refine ⟨hrate, fun hoil => ?_⟩
    rw [hrate, PhaseSet.sum_of_isMix hmix hoil, one_mul]
  case lead => exact ⟨hlead hk, (hlead hk).symm ▸ minBhp_le_stepLead hk⟩
  case bounded =>
    rw [hlead hk]
    exact abs_stepLead_sub_le hk hlimit hold

private theorem onTarget_of_applyUpdate (hlimit : 0 ≤ setup.settings.maxBhpChange)
    (h : u.applyUpdate setup dx s = (.ok ⟨⟩, t)) :
    ∃ c old new bhp rates, t.currentControl u.well = .ok c ∧ s.unknowns = some old ∧ t.unknowns = some new ∧
      t.bhp = some bhp ∧ t.rates = some rates ∧ u.OnTarget setup c old new bhp t.thp rates := by
  obtain ⟨c, x, hc, ⟨old, rates, bhp, hold, -, -, hbhp, rfl⟩, hrun⟩ := applyUpdate_ok h
  have hthp (table lift) (hk : c.kind = .thp table lift) : t.thp = some c.target := by
    rw [updateThp, hk] at hrun
    obtain ⟨-, rfl⟩ := Slot.putThp_ok.1 hrun
    rfl
  have ht := updateThp_frame hrun
  refine ⟨c, old, _, bhp, _, ?_, hold, ?_, ?_, ?_, onTarget_of_step hlimit hbhp hthp⟩
  · rw [ht]
    exact hc
  all_goals rw [ht]

end WellUnit

namespace Session

/-- After Newton steps that succeed every well is on the target of its current control. -/
theorem onTarget_of_updates [IsStrictOrderedRing K] {updates : List (Vec3 K)} {s t : Session K γ}
    (hlimit : 0 ≤ s.model.setup.settings.maxBhpChange) (h : applyUpdates updates s = (.ok ⟨⟩, t)) :
    ∀ (w : Nat) u, s.model.units[w]? = some u → ∃ c old new bhp rates,
      (t.flow.slot w).currentControl u.well = .ok c ∧ (s.flow.slot w).unknowns = some old ∧
      (t.flow.slot w).unknowns = some new ∧ (t.flow.slot w).bhp = some bhp ∧ (t.flow.slot w).rates = some rates ∧
      u.OnTarget s.model.setup c old new bhp (t.flow.slot w).thp rates := by
  obtain ⟨f, hf, rfl⟩ := applyUpdates_ok.1 h
  intro w u hu
  obtain ⟨dx, -, hstep⟩ := Model.applyUpdates_slot hf hu
  exact WellUnit.onTarget_of_applyUpdate hlimit hstep

/-! ### Producers and injectors on each kind of control -/

/-- Six wells through which oil and water flow: producers on a bottom-hole pressure, a tubing-head pressure, a surface
rate and a reservoir rate, and injectors of water on the two rates.  The first producer has a limit to its tubing-head
pressure as well. -/
def sixWells : Session ℚ (Option (VoidageGroup ℚ)) where
  model :=
    { setup := { liftedSetup with phases := .oilWater, settings := { liftedSetup.settings with minBhp := 40 } }
      units := [
        .create (.producer "P1" 0 [⟨0, 2, 0, 1⟩] ⟨[⟨.bhp, 90, .replicate 0⟩, ⟨.thp 1 0, 15, .replicate 0⟩], 0⟩),
        .create (.producer "P2" 0 [⟨0, 2, 0, 1⟩] ⟨[⟨.thp 1 0, 15, .replicate 0⟩], 0⟩),
        .create (.producer "P3" 0 [⟨0, 2, 0, 1⟩] ⟨[⟨.surfaceRate, -6, ⟨1, 3, 0⟩⟩], 0⟩),
        .create (.producer "P4" 0 [⟨0, 2, 0, 1⟩] ⟨[⟨.reservoirRate, -6, ⟨1, 2, 0⟩⟩], 0⟩),
        .create (.injector "I1" 0 .water [⟨0, 2, 0, 1⟩] ⟨[⟨.surfaceRate, 4, ⟨1, 0, 0⟩⟩], 0⟩),
        .create (.injector "I2" 0 .water [⟨0, 2, 0, 1⟩] ⟨[⟨.reservoirRate, 4, ⟨2, 1, 0⟩⟩], 0⟩)] }
  flow := ⟨.replicate 6 80, .replicate 6 0, .replicate 18 0,
    [-1, 1 / 2, 0, -2, 1 / 2, 0, 80, 1 / 2, 0, 80, 1 / 2, 0, 80, 1, 0, 80, 1, 0],
    .replicate 6 0, .replicate 6 80, .replicate 18 0, .replicate 18 0, 0⟩
  groups := none
  notices := []

/-- A step for each of the wells. -/
def sixSteps : List (Vec3 ℚ) := [⟨1, 1 / 10, 0⟩, ⟨8, 1, 0⟩, ⟨100, 1 / 4, 0⟩, ⟨-10, -1, 0⟩, ⟨10, 0, 0⟩, ⟨30, -1, 0⟩]

/-- The rates of oil and water meet -6 with the weights 1 and 3 and with the coefficients 1 and 2, and the injected water
meets 4 with the coefficient 2.  The step of the third bottom-hole pressure is cut off at the least one. -/
theorem onTarget_of_updates_sixWells : ∃ t, applyUpdates sixSteps sixWells = (.ok ⟨⟩, t) ∧
    0 ≤ sixWells.model.setup.settings.maxBhpChange ∧ t.flow.bhp = [90, 282 / 5, 40, 90, 70, 50] ∧
    t.flow.thp = [1244 / 25, 15, 0, 0, 0, 0] ∧ t.flow.rates =
      [-4 / 5, -6 / 5, 0, -3, -7, 0, -3 / 4, -7 / 4, 0, -21 / 5, -9 / 10, 0, 4, 0, 0, 2, 0, 0] ∧
    ∀ (w : Nat) u, sixWells.model.units[w]? = some u → ∃ c old new bhp rates,
      (t.flow.slot w).currentControl u.well = .ok c ∧ (sixWells.flow.slot w).unknowns = some old ∧
      (t.flow.slot w).unknowns = some new ∧ (t.flow.slot w).bhp = some bhp ∧ (t.flow.slot w).rates = some rates ∧
      u.OnTarget sixWells.model.setup c old new bhp (t.flow.slot w).thp rates := by
  have hrun : (applyUpdates sixSteps sixWells).1.toOption = some ⟨⟩ := by decide +kernel
  have hlimit : 0 ≤ sixWells.model.setup.settings.maxBhpChange := by decide +kernel
  exact ⟨_, run_ok_of_toOption hrun, hlimit, by decide +kernel, by decide +kernel, by decide +kernel,
    onTarget_of_updates hlimit (run_ok_of_toOption hrun)⟩

end Session

end BlackOilWells
