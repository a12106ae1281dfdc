import Mathlib.Algebra.Order.Field.Basic
import BlackOilWells.Proofs.ReservoirVolume
import BlackOilWells.Model.Switching
import BlackOilWells.Proofs.Rollback

/-!
# Voidage coefficients and volumes

The voidage coefficients of a fluid model invert the exchange of dissolved gas and vaporized oil at the ratios of the
rates themselves.  Weighted with them, the rates are a volume in the reservoir at these ratios
(`RegionConverter.sum_coefficients`).  A single coefficient can be negative, but the free phases of rates of one sign
have that sign too, and so has the volume: a producer without injection has no negative voidage.

The coefficients depend on the ratio of the rates only.  `RegionConverter.volume_of_coefficients` puts this together.
-/

namespace BlackOilWells

variable {K : Type} [Field K] [LinearOrder K]

/-! ### Ratios of rates -/

/-- The ratio of two rates, at most the ratio at saturation; zero without the second rate. -/
def rateRatio (part whole sat : K) : K := if whole = 0 then 0 else min (part / whole) sat

private theorem rateRatio_mul (part whole sat : K) {a : K} (ha : a ≠ 0) :
    rateRatio (part * a) (whole * a) sat = rateRatio part whole sat := by
  unfold rateRatio
  by_cases hw : whole = 0
  · rw [if_pos hw, if_pos (by rw [hw, zero_mul])]
  · rw [if_neg hw, if_neg (mul_ne_zero hw ha), mul_div_mul_right part whole ha]

private theorem cappedRatio_eq {part whole sat : K} (hw : 0 ≤ whole) :
    RegionConverter.cappedRatio part whole sat = rateRatio part whole sat := by
  unfold RegionConverter.cappedRatio rateRatio
  rw [Scalar.min_exact]
  by_cases h : whole = 0
  · rw [if_pos h, h]
    exact if_neg (lt_irrefl 0)
  · rw [if_neg h]
    exact if_pos (lt_of_le_of_ne hw (Ne.symm h))

private theorem saturatedRatio_eq {part whole sat : K} (hw : 0 ≤ whole) (hs : 0 ≤ sat) :
    saturatedRatio part whole sat = rateRatio part whole sat := by
  unfold saturatedRatio rateRatio
  by_cases h : whole = 0
  · rw [if_pos h, h, if_neg (lt_irrefl 0), min_eq_left hs]
  · rw [if_neg h, if_pos (lt_of_le_of_ne hw (Ne.symm h))]

/-! ### Coefficients -/

namespace PhaseSet

/-- The coefficients that turn surface rates into the volume of their free phases. -/
def volumeCoefficients (phases : PhaseSet) (invB : PerPhase K) (rs rv : K) : PerPhase K :=
  if phases.hasOilAndGas then
    ⟨1 / invB.water, (1 / invB.oil - rs / invB.gas) / (1 - rs * rv), (1 / invB.gas - rv / invB.oil) / (1 - rs * rv)⟩
  else invB.map (1 / ·)

private theorem sum_of_hasOilAndGas {phases : PhaseSet} (hog : phases.hasOilAndGas = true) (q : PerPhase K) :
    phases.sum q = (if phases.water then q.water else 0) + q.oil + q.gas := by
  obtain ⟨ho, hg⟩ := Bool.and_eq_true_iff.1 hog
  have habsent (p : Phase) (hp : phases.isActive p = false) : (phases.select q (.replicate 0)).get p = 0 := by
    rw [get_select_absent hp, PerPhase.get_replicate]
  have hoil : (phases.select q (.replicate 0)).oil = q.oil := get_select (p := .oil) ho q _
  have hgas : (phases.select q (.replicate 0)).gas = q.gas := get_select (p := .gas) hg q _
  calc phases.sum q
    _ = phases.sum (phases.select q (.replicate 0)) := sum_congr fun p hp => (get_select hp q _).symm
    _ = (if phases.water then q.water else 0) + q.oil + q.gas := by
      rw [sum_of_absent habsent, hoil, hgas]
      rfl

/-- The rates weighted with the coefficients are the volume. -/
private theorem sum_volumeCoefficients (phases : PhaseSet) (invB : PerPhase K) (rs rv : K) (q : PerPhase K) :
    phases.sum (.zipWith (· * ·) (phases.volumeCoefficients invB rs rv) q) = phases.reservoirVolume invB rs rv q := by
  unfold reservoirVolume volumeCoefficients freeRates
  by_cases hog : phases.hasOilAndGas = true
  · rw [if_pos hog, if_pos hog, sum_of_hasOilAndGas hog, sum_of_hasOilAndGas hog]
    simp only [PerPhase.zipWith, one_div_mul_eq_div]
    ring
  · rw [if_neg hog, if_neg hog]
    refine sum_congr fun p _ => ?_
    rw [PerPhase.get_zipWith, PerPhase.get_zipWith, PerPhase.get_map, one_div_mul_eq_div]

end PhaseSet

namespace RegionConverter

variable {c : RegionConverter K} {q k : PerPhase K} {region : Nat}

/-- Whether volume factors and ratios are those of the fluid in a region, at its pressure `p` and at surface rates. -/
structure FluidAt (c : RegionConverter K) (q : PerPhase K) (region : Nat) (p : K) (invB : PerPhase K) (rs rv : K) :
    Prop where
  pressure : c.pressures[region]? = some p
  water : c.phases.water = true → ∃ b,
    c.pvt.inverseFvf .water region c.temperature (.const p) none = .ok b ∧ b.value = invB.water
  alone : c.phases.hasOilAndGas = false → ∀ phase, phase ≠ .water → c.phases.isActive phase = true → ∃ b,
    c.pvt.inverseFvf phase region c.temperature (.const p) (some (.const 0)) = .ok b ∧ b.value = invB.get phase
  ratios : c.phases.hasOilAndGas = true → ∃ rsSat rvSat,
    c.pvt.dissolvedGas region c.temperature (.const p) = .ok rsSat ∧
    c.pvt.vaporizedOil region c.temperature (.const p) = .ok rvSat ∧
    rs = rateRatio q.gas q.oil rsSat.value ∧ rv = rateRatio q.oil q.gas rvSat.value
  oil : c.phases.hasOilAndGas = true → ∃ b,
    c.pvt.inverseFvf .oil region c.temperature (.const p) (some (.const rs)) = .ok b ∧ b.value = invB.oil
  gas : c.phases.hasOilAndGas = true → ∃ b,
    c.pvt.inverseFvf .gas region c.temperature (.const p) (some (.const rv)) = .ok b ∧ b.value = invB.gas

/-- Whether oil and gas do not flow in opposite directions. -/
def OneSign (q : PerPhase K) : Prop := (0 ≤ q.oil ∧ 0 ≤ q.gas) ∨ (q.oil ≤ 0 ∧ q.gas ≤ 0)

variable [IsStrictOrderedRing K]

/-- The capped ratios of the magnitudes are those of the rates. -/
private theorem OneSign.cappedRatio_abs (h : OneSign q) (sat : K) :
    cappedRatio |q.gas| |q.oil| sat = rateRatio q.gas q.oil sat ∧
      cappedRatio |q.oil| |q.gas| sat = rateRatio q.oil q.gas sat := by
  have hsign : ∃ a : K, a ≠ 0 ∧ |q.oil| = q.oil * a ∧ |q.gas| = q.gas * a := by
    rcases h with ⟨hoil, hgas⟩ | ⟨hoil, hgas⟩
    · exact ⟨1, one_ne_zero, by rw [abs_of_nonneg hoil, mul_one], by rw [abs_of_nonneg hgas, mul_one]⟩
    · refine ⟨-1, neg_ne_zero.2 one_ne_zero, ?_, ?_⟩
      · rw [abs_of_nonpos hoil, mul_neg_one]
      · rw [abs_of_nonpos hgas, mul_neg_one]
  obtain ⟨a, ha, hoil, hgas⟩ := hsign
  rw [cappedRatio_eq (abs_nonneg _), cappedRatio_eq (abs_nonneg _), hoil, hgas]
  exact ⟨rateRatio_mul _ _ _ ha, rateRatio_mul _ _ _ ha⟩

omit [IsStrictOrderedRing K] in
private theorem deadCoefficient_ok {p : WellDual K} {phase : Phase} {x : K}
    (h : c.deadCoefficient region p phase = .ok x) :
    (c.phases.isActive phase = true → ∃ b, c.pvt.inverseFvf phase region c.temperature p (some (.const 0)) = .ok b ∧
      x = 1 / b.value) ∧ (c.phases.isActive phase = false → x = 0) := by
  unfold deadCoefficient at h
  cases ha : c.phases.isActive phase with
  | false =>
    rw [ha] at h
    cases h
    exact ⟨nofun, fun _ => rfl⟩
  | true =>
    rw [ha] at h
    obtain ⟨b, hb, h⟩ := Outcome.bind_ok.1 h
    cases h
    exact ⟨fun _ => ⟨b, hb, rfl⟩, nofun⟩

private theorem liveCoefficients_ok {p : WellDual K} {x : K × K} (hq : OneSign q)
    (h : c.liveCoefficients region p q = .ok x) :
    ∃ rsSat rvSat bo bg, c.pvt.dissolvedGas region c.temperature p = .ok rsSat ∧
      c.pvt.vaporizedOil region c.temperature p = .ok rvSat ∧
      c.pvt.inverseFvf .oil region c.temperature p (some (.const (rateRatio q.gas q.oil rsSat.value))) = .ok bo ∧
      c.pvt.inverseFvf .gas region c.temperature p (some (.const (rateRatio q.oil q.gas rvSat.value))) = .ok bg ∧
      rateRatio q.gas q.oil rsSat.value * rateRatio q.oil q.gas rvSat.value ≠ 1 ∧
      x = ((1 / bo.value - rateRatio q.gas q.oil rsSat.value / bg.value) /
          (1 - rateRatio q.gas q.oil rsSat.value * rateRatio q.oil q.gas rvSat.value),
        (1 / bg.value - rateRatio q.oil q.gas rvSat.value / bo.value) /
          (1 - rateRatio q.gas q.oil rsSat.value * rateRatio q.oil q.gas rvSat.value)) := by
  obtain ⟨rsSat, hrs, h⟩ := Outcome.bind_ok.1 h
  obtain ⟨rvSat, hrv, h⟩ := Outcome.bind_ok.1 h
  have hgas := (hq.cappedRatio_abs rsSat.value).1
  have hoil := (hq.cappedRatio_abs rvSat.value).2
  dsimp only at h
  change cappedRatio (Scalar.abs q.gas) (Scalar.abs q.oil) rsSat.value = _ at hgas
  change cappedRatio (Scalar.abs q.oil) (Scalar.abs q.gas) rvSat.value = _ at hoil
  rw [hgas, hoil] at h
  obtain ⟨bo, hbo, h⟩ := Outcome.bind_ok.1 h
  obtain ⟨bg, hbg, h⟩ := Outcome.bind_ok.1 h
  refine ⟨rsSat, rvSat, bo, bg, hrs, hrv, hbo, hbg, ?_⟩
  split at h
  case isTrue => cases h
  case isFalse hguard =>
    cases h
    exact ⟨(sub_ne_zero.1 (ne_zero_of_not_small (by norm_num) hguard)).symm, rfl⟩

omit [IsStrictOrderedRing K] in
private theorem coefficients_parts (h : c.coefficients q region = .ok k) : ∃ p, c.pressures[region]? = some p ∧
    (c.phases.water = true → ∃ b, c.pvt.inverseFvf .water region c.temperature (.const p) none = .ok b ∧
      k.water = 1 / b.value) ∧ (c.phases.water = false → k.water = 0) ∧
    (c.phases.hasOilAndGas = true → c.liveCoefficients region (.const p) q = .ok (k.oil, k.gas)) ∧
    (c.phases.hasOilAndGas = false → c.deadCoefficient region (.const p) .oil = .ok k.oil ∧
      c.deadCoefficient region (.const p) .gas = .ok k.gas) := by
  unfold coefficients at h
  cases hp : c.pressures[region]? with
  | none =>
    rw [hp] at h
    cases h
  | some p =>
    rw [hp] at h
    obtain ⟨_, hpure, h⟩ := Outcome.bind_ok.1 h
    cases hpure
    -- the coefficient of water comes first, whether the phase is active or not
    have hwater : ∃ water, (c.phases.water = true → ∃ b,
          c.pvt.inverseFvf .water region c.temperature (.const p) none = .ok b ∧ water = 1 / b.value) ∧
        (c.phases.water = false → water = 0) ∧
        (if c.phases.hasOilAndGas then do
          let live ← c.liveCoefficients region (.const p) q
          return ⟨water, live.1, live.2⟩
        else do
          let oil ← c.deadCoefficient region (.const p) .oil
          let gas ← c.deadCoefficient region (.const p) .gas
          return ⟨water, oil, gas⟩) = (.ok k : Except FluidError (PerPhase K)) := by
      cases hw : c.phases.water with
      | false =>
        rw [hw] at h
        exact ⟨0, nofun, fun _ => rfl, h⟩
      | true =>
        rw [hw] at h
        obtain ⟨b, hb, h⟩ := Outcome.bind_ok.1 h
        exact ⟨_, fun _ => ⟨b, hb, rfl⟩, nofun, h⟩
    obtain ⟨water, hpresent, habsent, h⟩ := hwater
    by_cases hog : c.phases.hasOilAndGas = true
    · rw [if_pos hog] at h
      obtain ⟨live, hlive, h⟩ := Outcome.bind_ok.1 h
      cases h
      exact ⟨p, rfl, hpresent, habsent, fun _ => hlive, fun hnot => absurd hog (Bool.eq_false_iff.1 hnot)⟩
    · rw [if_neg hog] at h
      obtain ⟨oil, hoil, h⟩ := Outcome.bind_ok.1 h
      obtain ⟨gas, hgas, h⟩ := Outcome.bind_ok.1 h
      cases h
      exact ⟨p, rfl, hpresent, habsent, fun h => absurd h hog, fun _ => ⟨hoil, hgas⟩⟩

omit [IsStrictOrderedRing K] in
/-- With a single hydrocarbon phase the coefficients are the volumes of the phases without the other one in them. -/
private theorem coefficients_alone (hog : c.phases.hasOilAndGas = false) (h : c.coefficients q region = .ok k) :
    ∃ p, c.FluidAt q region p (k.map (1 / ·)) 0 0 ∧
      k = c.phases.select (c.phases.volumeCoefficients (k.map (1 / ·)) 0 0) (.replicate 0) := by
  obtain ⟨p, hp, hwater, hwater0, -, hdead⟩ := coefficients_parts h
  obtain ⟨hoil, hoil0⟩ := deadCoefficient_ok (hdead hog).1
  obtain ⟨hgas, hgas0⟩ := deadCoefficient_ok (hdead hog).2
  have hnot : ¬c.phases.hasOilAndGas = true := Bool.eq_false_iff.1 hog
  refine ⟨p, ⟨hp, fun hw => ?_, fun _ phase hphase hactive => ?_, fun h => absurd h hnot, fun h => absurd h hnot,
    fun h => absurd h hnot⟩, PerPhase.ext_get fun phase => ?_⟩
  · obtain ⟨b, hb, hk⟩ := hwater hw
    refine ⟨b, hb, ?_⟩
    change b.value = 1 / k.water
    rw [hk, one_div_one_div]
  · have hvalue : ∃ b, c.pvt.inverseFvf phase region c.temperature (.const p) (some (.const 0)) = .ok b ∧
        k.get phase = 1 / b.value := by
      cases phase with
      | water => exact absurd rfl hphase
      | oil => exact hoil hactive
      | gas => exact hgas hactive
    obtain ⟨b, hb, hk⟩ := hvalue
    exact ⟨b, hb, by rw [PerPhase.get_map, hk, one_div_one_div]⟩
  · cases hactive : c.phases.isActive phase with
    | true =>
      rw [PhaseSet.get_select hactive, PhaseSet.volumeCoefficients, if_neg hnot, PerPhase.get_map, PerPhase.get_map,
        one_div_one_div]
    | false =>
      rw [PhaseSet.get_select_absent hactive, PerPhase.get_replicate]
      cases phase with
      | water => exact hwater0 hactive
      | oil => exact hoil0 hactive
      | gas => exact hgas0 hactive

private theorem coefficients_ok (hq : OneSign q) (h : c.coefficients q region = .ok k) :
    ∃ p invB rs rv, c.FluidAt q region p invB rs rv ∧ (c.phases.hasOilAndGas = true → rs * rv ≠ 1) ∧
      k = c.phases.select (c.phases.volumeCoefficients invB rs rv) (.replicate 0) := by
  cases hog : c.phases.hasOilAndGas with
  | false =>
    obtain ⟨p, hfluid, hk⟩ := coefficients_alone hog h
    exact ⟨p, _, 0, 0, hfluid, nofun, hk⟩
  | true =>
    obtain ⟨ho, hg⟩ := Bool.and_eq_true_iff.1 hog
    obtain ⟨p, hp, hwater, hwater0, hlive, -⟩ := coefficients_parts h
    obtain ⟨rsSat, rvSat, bo, bg, hrs, hrv, hbo, hbg, hratios, hx⟩ := liveCoefficients_ok hq (hlive hog)
    obtain ⟨hoil, hgas⟩ := Prod.mk.inj hx
    refine ⟨p, ⟨1 / k.water, bo.value, bg.value⟩, _, _, ⟨hp, fun hw => ?_, fun hnot => ?_,
      fun _ => ⟨rsSat, rvSat, hrs, hrv, rfl, rfl⟩, fun _ => ⟨bo, hbo, rfl⟩, fun _ => ⟨bg, hbg, rfl⟩⟩,
      fun _ => hratios, ?_⟩
    · obtain ⟨b, hb, hk⟩ := hwater hw
      exact ⟨b, hb, by rw [hk, one_div_one_div]⟩
    · exact absurd hog (Bool.eq_false_iff.1 hnot)
    · rw [PhaseSet.volumeCoefficients, if_pos hog]
      refine PerPhase.ext_get fun phase => ?_
      cases phase with
      | oil =>
        rw [PhaseSet.get_select (p := .oil) ho]
        exact hoil
      | gas =>
        rw [PhaseSet.get_select (p := .gas) hg]
        exact hgas
      | water =>
        cases hw : c.phases.water with
        | true =>
          rw [PhaseSet.get_select (p := .water) hw]
          exact (one_div_one_div k.water).symm
        | false =>
          rw [PhaseSet.get_select_absent (p := .water) hw, PerPhase.get_replicate]
          exact hwater0 hw

/-! ### The volume of the rates -/

variable {p rs rv : K} {invB : PerPhase K}

omit [IsStrictOrderedRing K] in
/-- The fluid is the same at proportional rates. -/
private theorem FluidAt.scale (h : c.FluidAt q region p invB rs rv) {a : K} (ha : a ≠ 0) :
    c.FluidAt (q.map (· * a)) region p invB rs rv := by
  refine ⟨h.pressure, h.water, h.alone, fun hog => ?_, h.oil, h.gas⟩
  obtain ⟨rsSat, rvSat, hrsSat, hrvSat, hrs, hrv⟩ := h.ratios hog
  refine ⟨rsSat, rvSat, hrsSat, hrvSat, ?_, ?_⟩
  · exact hrs.trans (rateRatio_mul q.gas q.oil rsSat.value ha).symm
  · exact hrv.trans (rateRatio_mul q.oil q.gas rvSat.value ha).symm

omit [IsStrictOrderedRing K] in
private theorem FluidAt.invB_pos (h : c.FluidAt q region p invB rs rv) (hpvt : c.pvt.IsPhysical) {phase : Phase}
    (hp : c.phases.isActive phase = true) : 0 < invB.get phase := by
  have hfactor : ∃ ratio b, c.pvt.inverseFvf phase region c.temperature (.const p) ratio = .ok b ∧
      b.value = invB.get phase := by
    cases hog : c.phases.hasOilAndGas with
    | false =>
      by_cases hw : phase = .water
      · obtain rfl := hw
        exact ⟨_, h.water hp⟩
      · exact ⟨_, h.alone hog phase hw hp⟩
    | true =>
      cases phase with
      | water => exact ⟨_, h.water hp⟩
      | oil => exact ⟨_, h.oil hog⟩
      | gas => exact ⟨_, h.gas hog⟩
  obtain ⟨ratio, b, hb, hvalue⟩ := hfactor
  rw [← hvalue]
  exact hpvt.inverseFvf _ _ _ _ _ _ hb

private theorem FluidAt.carries (h : c.FluidAt q region p invB rs rv) (hpvt : c.pvt.IsPhysical) (hoil : 0 ≤ q.oil)
    (hgas : 0 ≤ q.gas) : c.phases.Carries rs rv q := by
  by_cases hog : c.phases.hasOilAndGas = true
  · obtain ⟨rsSat, rvSat, hrsSat, hrvSat, rfl, rfl⟩ := h.ratios hog
    have hs : 0 ≤ rsSat.value := hpvt.dissolvedGas _ _ _ _ hrsSat
    have ht : 0 ≤ rvSat.value := hpvt.vaporizedOil _ _ _ _ hrvSat
    rw [← saturatedRatio_eq hoil hs, ← saturatedRatio_eq hgas ht]
    exact PhaseSet.carries_saturatedRatio (fun _ => hoil) (fun _ => hgas) hs ht
  · exact ⟨fun h => absurd h hog, fun h => absurd h hog, fun h => absurd h hog⟩

/-- The volume of a free hydrocarbon phase has the sign of the rates. -/
private theorem FluidAt.term_nonneg (h : c.FluidAt q region p invB rs rv) (hpvt : c.pvt.IsPhysical) (hoil : 0 ≤ q.oil)
    (hgas : 0 ≤ q.gas) {phase : Phase} (hw : phase ≠ .water) (hp : c.phases.isActive phase = true) :
    0 ≤ (c.phases.freeRates rs rv q).get phase / invB.get phase := by
  have hrate : 0 ≤ q.get phase := by
    cases phase with
    | water => exact absurd rfl hw
    | oil => exact hoil
    | gas => exact hgas
  exact div_nonneg (PhaseSet.freeRates_nonneg (h.carries hpvt hoil hgas) hrate) (h.invB_pos hpvt hp).le

private theorem FluidAt.term_nonpos (h : c.FluidAt q region p invB rs rv) (hpvt : c.pvt.IsPhysical) (hoil : q.oil ≤ 0)
    (hgas : q.gas ≤ 0) {phase : Phase} (hw : phase ≠ .water) (hp : c.phases.isActive phase = true) :
    (c.phases.freeRates rs rv q).get phase / invB.get phase ≤ 0 := by
  have hopposite := (h.scale (neg_ne_zero.2 one_ne_zero)).term_nonneg hpvt
    (mul_nonneg_of_nonpos_of_nonpos hoil (neg_nonpos.2 zero_le_one))
    (mul_nonneg_of_nonpos_of_nonpos hgas (neg_nonpos.2 zero_le_one)) hw hp
  rw [PhaseSet.freeRates_scale, PerPhase.get_map, mul_neg_one, neg_div] at hopposite
  exact neg_nonneg.1 hopposite

private theorem FluidAt.volume_nonpos (h : c.FluidAt q region p invB rs rv) (hpvt : c.pvt.IsPhysical)
    (hq : ∀ phase, q.get phase ≤ 0) : c.phases.reservoirVolume invB rs rv q ≤ 0 := by
  have hopposite (phase : Phase) : 0 ≤ (q.map (· * -1)).get phase := by
    rw [PerPhase.get_map, mul_neg_one]
    exact neg_nonneg.2 (hq phase)
  have hcarries := (h.scale (neg_ne_zero.2 one_ne_zero)).carries hpvt (hopposite .oil) (hopposite .gas)
  have hvolume := PhaseSet.reservoirVolume_nonneg hcarries (fun phase hp => (h.invB_pos hpvt hp).le) fun phase _ =>
    hopposite phase
  rw [PhaseSet.reservoirVolume_scale, mul_neg_one] at hvolume
  exact neg_nonneg.1 hvolume

/-- The rates weighted with the coefficients are the volume of the rates. -/
theorem sum_coefficients (hq : OneSign q) (h : c.coefficients q region = .ok k) :
    ∃ p invB rs rv, c.FluidAt q region p invB rs rv ∧ (c.phases.hasOilAndGas = true → rs * rv ≠ 1) ∧
      c.phases.sum (.zipWith (· * ·) k q) = c.phases.reservoirVolume invB rs rv q := by
  obtain ⟨p, invB, rs, rv, hfluid, hratios, rfl⟩ := coefficients_ok hq h
  refine ⟨p, invB, rs, rv, hfluid, hratios, ?_⟩
  rw [← PhaseSet.sum_volumeCoefficients]
  refine PhaseSet.sum_congr fun phase hp => ?_
  rw [PerPhase.get_zipWith, PerPhase.get_zipWith, PhaseSet.get_select hp]

/-- Absent phases have no part in a voidage. -/
private theorem weightedSum_coefficients (hq : OneSign q) (h : c.coefficients q region = .ok k) :
    q.weightedSum k = c.phases.sum (.zipWith (· * ·) k q) := by
  obtain ⟨p, invB, rs, rv, -, -, rfl⟩ := coefficients_ok hq h
  rw [PhaseSet.sum_of_absent, PerPhase.weightedSum_exact]
  · rw [mul_comm q.water, mul_comm q.oil, mul_comm q.gas]
    rfl
  · intro phase hp
    rw [PerPhase.get_zipWith, PhaseSet.get_select_absent hp, PerPhase.get_replicate, zero_mul]

/-- Coefficients do not change with the scale of the rates. -/
theorem coefficients_scale (c : RegionConverter K) (q : PerPhase K) (region : Nat) {a : K} (ha : a ≠ 0) :
    c.coefficients (q.map (· * a)) region = c.coefficients q region := by
  have hratio (part whole sat : K) : cappedRatio |part * a| |whole * a| sat = cappedRatio |part| |whole| sat := by
    rw [cappedRatio_eq (abs_nonneg _), cappedRatio_eq (abs_nonneg _), abs_mul, abs_mul,
      rateRatio_mul _ _ _ (abs_ne_zero.2 ha)]
  have hlive (p : WellDual K) : c.liveCoefficients region p (q.map (· * a)) = c.liveCoefficients region p q := by
    have hgas : cappedRatio (Scalar.abs (q.map (· * a)).gas) (Scalar.abs (q.map (· * a)).oil) =
        cappedRatio (Scalar.abs q.gas) (Scalar.abs q.oil) := funext (hratio q.gas q.oil)
    have hoil : cappedRatio (Scalar.abs (q.map (· * a)).oil) (Scalar.abs (q.map (· * a)).gas) =
        cappedRatio (Scalar.abs q.oil) (Scalar.abs q.gas) := funext (hratio q.oil q.gas)
    unfold liveCoefficients
    dsimp only
    rw [hgas, hoil]
  unfold coefficients
  simp only [hlive]

/-- The voidage that a well reports at rates of one sign is the volume of what it produces. -/
theorem wellVoidage_nonneg (hpvt : c.pvt.IsPhysical) {cells : List (Cell K)} {f : FlowState K} {w : Well K} {i : Nat}
    {v : K × PerPhase K} (h : Model.wellVoidage c.converter cells f w i = .ok v) (hrates : ∀ q,
      (f.slot i).rates = some q → w.isProducer = true → ∀ phase, q.get phase ≤ 0) : 0 ≤ v.1 := by
  obtain ⟨top, -, h⟩ := Outcome.bind_ok.1 h
  obtain ⟨cell, -, h⟩ := Outcome.bind_ok.1 h
  obtain ⟨q, hq, h⟩ := Outcome.bind_ok.1 h
  obtain ⟨k, hk, h⟩ := Outcome.bind_ok.1 h
  cases h
  by_cases hw : w.isProducer = true
  · have hneg := hrates q (Outcome.need_ok.1 hq) hw
    have hone : OneSign q := .inr ⟨hneg .oil, hneg .gas⟩
    have hk := Outcome.ofFluid_ok.1 hk
    obtain ⟨p, invB, rs, rv, hfluid, -, hvolume⟩ := sum_coefficients hone hk
    have hsum : q.weightedSum k ≤ 0 := by
      rw [weightedSum_coefficients hone hk, hvolume]
      exact hfluid.volume_nonpos hpvt hneg
    dsimp only
    rw [if_pos hw]
    exact neg_nonneg.2 hsum
  · dsimp only
    rw [if_neg hw]

/-- The coefficients give the volume of rates whose oil and gas have one sign, with each hydrocarbon of that sign; so
producers that do not inject report no negative voidage.  Proportional rates have the same coefficients. -/
theorem volume_of_coefficients (c : RegionConverter K) (hpvt : c.pvt.IsPhysical) :
    (∀ q region k, OneSign q → c.coefficients q region = .ok k →
      ∃ p invB rs rv, c.FluidAt q region p invB rs rv ∧ (c.phases.hasOilAndGas = true → rs * rv ≠ 1) ∧
        c.phases.sum (.zipWith (· * ·) k q) = c.phases.reservoirVolume invB rs rv q ∧
        ∀ phase, phase ≠ .water → c.phases.isActive phase = true →
          (0 ≤ q.oil → 0 ≤ q.gas → 0 ≤ (c.phases.freeRates rs rv q).get phase / invB.get phase) ∧
          (q.oil ≤ 0 → q.gas ≤ 0 → (c.phases.freeRates rs rv q).get phase / invB.get phase ≤ 0)) ∧
    (∀ (m : Model K) cells f voidage, m.setup.converter = some c.converter → m.voidage cells f = .ok voidage →
      ∀ (i : Nat) u v, m.units[i]? = some u → voidage[i]? = some v → u.well.isProducer = true →
        (∀ q, (f.slot i).rates = some q → ∀ phase, q.get phase ≤ 0) → 0 ≤ v.1) ∧
    ∀ q region a, a ≠ 0 → c.coefficients (q.map (· * a)) region = c.coefficients q region := by
  refine ⟨fun q region k hq h => ?_, fun m cells f voidage hc h i u v hu hv hw hrates => ?_, fun q region a ha => ?_⟩
  · obtain ⟨p, invB, rs, rv, hfluid, hratios, hvolume⟩ := sum_coefficients hq h
    refine ⟨p, invB, rs, rv, hfluid, hratios, hvolume, fun phase hw hp => ⟨fun hoil hgas => ?_, fun hoil hgas => ?_⟩⟩
    · exact hfluid.term_nonneg hpvt hoil hgas hw hp
    · exact hfluid.term_nonpos hpvt hoil hgas hw hp
  · unfold Model.voidage at h
    rw [hc] at h
    have hplace : m.units.zipIdx[i]? = some (u, i) := by
      rw [List.getElem?_zipIdx, hu, Option.map_some, Nat.zero_add]
    have hwell := Outcome.ok_of_getElem? h hplace hv
    exact wellVoidage_nonneg hpvt hwell fun q hq _ => hrates q hq
  · exact c.coefficients_scale q region ha

/-- An oil that dissolves much gas and swells little. -/
def gassyRegion : FluidRegion ℚ :=
  { FluidRegion.standard with rsSlope := 2e-5, rsMax := 400, oilSwelling := 1e-3 }

/-- Coefficients of this fluid at one pressure. -/
def gassyConverter : RegionConverter ℚ := ⟨(FluidRegions.mk [gassyRegion]).model, .threePhase, [2e7], 350⟩

/-- Production with more gas than the oil dissolves and more oil than the gas vaporizes. -/
def liveProduction : PerPhase ℚ := ⟨-10, -2, -1600⟩

/-- Two wells of which the first has the production, with these coefficients. -/
def producingPair : Model ℚ :=
  { Session.replacingPair.model with
    setup := { Session.replacingPair.model.setup with converter := some gassyConverter.converter } }

/-- The flow state of the two wells. -/
def producingFlow : FlowState ℚ :=
  { Session.replacingPair.flow with rates := liveProduction.toList ++ [0, 0, 0] }

/-- The coefficient of oil is negative.  The volume of what is produced is that at ratios that are both at saturation,
and neither phase nor the well has a negative part in the voidage; twice the production has the same coefficients. -/
theorem volume_of_coefficients_liveProduction : ∃ k p invB,
    gassyConverter.coefficients liveProduction 0 = .ok k ∧ k.oil < 0 ∧
    gassyConverter.FluidAt liveProduction 0 p invB 400 (1 / 5000) ∧
    gassyConverter.phases.sum (.zipWith (· * ·) k liveProduction) =
      gassyConverter.phases.reservoirVolume invB 400 (1 / 5000) liveProduction ∧
    (gassyConverter.phases.freeRates 400 (1 / 5000) liveProduction).oil / invB.oil ≤ 0 ∧
    (∃ voidage, producingPair.voidage Session.pairCell producingFlow = .ok voidage ∧
      ∀ v, voidage[0]? = some v → 0 ≤ v.1) ∧
    gassyConverter.coefficients (liveProduction.map (· * 2)) 0 = .ok k := by
  have hpvt : gassyConverter.pvt.IsPhysical := by
    refine FluidRegions.model_isPhysical fun r hr => ?_
    rw [List.mem_singleton.1 hr]
    decide +kernel
  have hproduction (phase : Phase) : liveProduction.get phase ≤ 0 := by
    cases phase <;> decide +kernel
  have hsome : ((gassyConverter.coefficients liveProduction 0).toOption.map fun k => decide (k.oil < 0)) = some true :=
    by decide +kernel
  obtain ⟨k, hk, hoil⟩ := Option.map_eq_some_iff.1 hsome
  have hrun := Outcome.ok_of_toOption hk
  have hwells : (producingPair.voidage Session.pairCell producingFlow).toOption.isSome = true := by decide +kernel
  obtain ⟨voidage, hvoidage⟩ := Option.isSome_iff_exists.1 hwells
  have hwellRates : (producingFlow.slot 0).rates = some liveProduction := by decide +kernel
  obtain ⟨hvolume, hwell, hscale⟩ := gassyConverter.volume_of_coefficients hpvt
  obtain ⟨p, invB, rs, rv, hfluid, -, hsum, hsign⟩ := hvolume _ _ _ (.inr ⟨hproduction .oil, hproduction .gas⟩) hrun
  have hratios : rs = 400 ∧ rv = 1 / 5000 := by
    obtain ⟨rsSat, rvSat, hrsSat, hrvSat, hrs, hrv⟩ := hfluid.ratios rfl
    obtain rfl := Option.some.inj hfluid.pressure
    have hdissolved : (gassyConverter.pvt.dissolvedGas 0 350 (.const 2e7)).toOption.map (·.value) = some 400 := by
      decide +kernel
    have hvaporized : (gassyConverter.pvt.vaporizedOil 0 350 (.const 2e7)).toOption.map (·.value) = some (1 / 5000) :=
      by decide +kernel
    have hrsValue : rsSat.value = 400 :=
      Option.some.inj ((congrArg (·.toOption.map (·.value)) hrsSat).symm.trans hdissolved)
    have hrvValue : rvSat.value = 1 / 5000 :=
      Option.some.inj ((congrArg (·.toOption.map (·.value)) hrvSat).symm.trans hvaporized)
    rw [hrs, hrv, hrsValue, hrvValue]
    decide +kernel
  obtain ⟨rfl, rfl⟩ := hratios
  have hreported := Outcome.ok_of_toOption hvoidage
  refine ⟨k, p, invB, hrun, of_decide_eq_true hoil, hfluid, hsum, ?_, ⟨voidage, hreported, ?_⟩, ?_⟩
  · exact (hsign .oil (by decide) rfl).2 (hproduction .oil) (hproduction .gas)
  · intro v hv
    refine hwell _ _ _ _ rfl hreported 0 _ v rfl hv rfl fun q hq => ?_
    obtain rfl := Option.some.inj (hwellRates.symm.trans hq)
    exact hproduction
  · exact (hscale _ _ 2 two_ne_zero).trans hrun

end RegionConverter

end BlackOilWells
