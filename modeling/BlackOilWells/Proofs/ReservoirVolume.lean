import Mathlib.Algebra.Order.BigOperators.Group.List
import BlackOilWells.Proofs.Targets

/-!
# The reservoir volume of a flow

Surface rates of oil and gas stand for free phases of which each carries a part of the other one.  At given ratios of
dissolved gas and vaporized oil the free phases are found by inverting that exchange (`PhaseSet.freeRates`), and with
the volume factors they have a volume in the reservoir (`PhaseSet.reservoirVolume`).

A flow through a connection is computed in two ways.  Into the well the free phases of the cell flow at their own
mobilities and take along what is dissolved in them; out of the well the stream flows at the total mobility, by its own
volume.  Both move the volume that the drawdown drives through the total mobility (`reservoirVolume_of_flux`), at the
ratios of the cell and at the capped ratios of the stream.
-/

namespace BlackOilWells

variable {K : Type} [Field K] [LinearOrder K]

/-! ### Volumes of surface rates -/

namespace PhaseSet

private theorem value_total (phases : PhaseSet) (q : PerPhase (WellDual K)) :
    (phases.total q).value = phases.sum (q.map (·.value)) := by
  have hget : (q.map (·.value)).get = fun p => (q.get p).value := funext (PerPhase.get_map _ q)
  rw [total, Dual.value_foldl_add, sum, Scalar.sum_exact, hget]
  exact zero_add _

/-- The free phases in surface rates.  Oil and gas carry each other at a ratio of dissolved gas and a ratio of vaporized
oil, if both are active. -/
def freeRates (phases : PhaseSet) (rs rv : K) (q : PerPhase K) : PerPhase K :=
  if phases.hasOilAndGas then
    ⟨q.water, (q.oil - rv * q.gas) / (1 - rs * rv), (q.gas - rs * q.oil) / (1 - rs * rv)⟩
  else q

/-- The surface rates of free phases with what they carry. -/
def surfaceRates (phases : PhaseSet) (rs rv : K) (q : PerPhase K) : PerPhase K :=
  if phases.hasOilAndGas then ⟨q.water, q.oil + rv * q.gas, q.gas + rs * q.oil⟩ else q

/-- The volume in the reservoir of surface rates, at given inverse volume factors and ratios. -/
def reservoirVolume (phases : PhaseSet) (invB : PerPhase K) (rs rv : K) (q : PerPhase K) : K :=
  phases.sum (.zipWith (· / ·) (phases.freeRates rs rv q) invB)

variable {phases : PhaseSet} {invB : PerPhase K} {rs rv : K}

private theorem freeRates_surfaceRates (h : phases.hasOilAndGas = true → rs * rv ≠ 1) (q : PerPhase K) :
    phases.freeRates rs rv (phases.surfaceRates rs rv q) = q := by
  unfold freeRates surfaceRates
  by_cases hog : phases.hasOilAndGas = true
  · have hd : 1 - rs * rv ≠ 0 := sub_ne_zero.2 (h hog).symm
    have hoil : (q.oil + rv * q.gas - rv * (q.gas + rs * q.oil)) / (1 - rs * rv) = q.oil := by
      rw [div_eq_iff hd]
      ring
    have hgas : (q.gas + rs * q.oil - rs * (q.oil + rv * q.gas)) / (1 - rs * rv) = q.gas := by
      rw [div_eq_iff hd]
      ring
    rw [if_pos hog, if_pos hog]
    dsimp only
    rw [hoil, hgas]
  · rw [if_neg hog, if_neg hog]

theorem freeRates_scale (phases : PhaseSet) (rs rv : K) (q : PerPhase K) (a : K) :
    phases.freeRates rs rv (q.map (· * a)) = (phases.freeRates rs rv q).map (· * a) := by
  unfold freeRates
  split
  · simp only [PerPhase.map, PerPhase.mk.injEq, true_and]
    constructor <;> ring
  · rfl

theorem reservoirVolume_scale (phases : PhaseSet) (invB : PerPhase K) (rs rv : K) (q : PerPhase K) (a : K) :
    phases.reservoirVolume invB rs rv (q.map (· * a)) = phases.reservoirVolume invB rs rv q * a := by
  rw [reservoirVolume, reservoirVolume, ← sum_map_mul, freeRates_scale]
  refine sum_congr fun p _ => ?_
  simp only [PerPhase.get_zipWith, PerPhase.get_map]
  exact mul_div_right_comm _ _ _

/-- The volume depends on the rates of the active phases only. -/
private theorem reservoirVolume_congr {q r : PerPhase K} (h : ∀ p, phases.isActive p = true → q.get p = r.get p) :
    phases.reservoirVolume invB rs rv q = phases.reservoirVolume invB rs rv r := by
  refine sum_congr fun p hp => ?_
  have hfree : (phases.freeRates rs rv q).get p = (phases.freeRates rs rv r).get p := by
    unfold freeRates
    split
    case isFalse => exact h p hp
    case isTrue hog =>
      obtain ⟨ho, hg⟩ := Bool.and_eq_true_iff.1 hog
      have hoil : q.oil = r.oil := h .oil ho
      have hgas : q.gas = r.gas := h .gas hg
      cases p with
      | water => exact h .water hp
      | oil =>
        change (q.oil - rv * q.gas) / (1 - rs * rv) = _
        rw [hoil, hgas]
        rfl
      | gas =>
        change (q.gas - rs * q.oil) / (1 - rs * rv) = _
        rw [hoil, hgas]
        rfl
  rw [PerPhase.get_zipWith, PerPhase.get_zipWith, hfree]

/-! ### Rates of one sign -/

/-- Whether surface rates suffice for what their free phases carry at given ratios. -/
structure Carries (phases : PhaseSet) (rs rv : K) (q : PerPhase K) : Prop where
  gas : phases.hasOilAndGas = true → rs * q.oil ≤ q.gas
  oil : phases.hasOilAndGas = true → rv * q.gas ≤ q.oil
  exchange : phases.hasOilAndGas = true → rs * rv ≤ 1

variable [IsStrictOrderedRing K] {q : PerPhase K}

theorem freeRates_nonneg (h : phases.Carries rs rv q) {p : Phase} (hq : 0 ≤ q.get p) :
    0 ≤ (phases.freeRates rs rv q).get p := by
  unfold freeRates
  by_cases hog : phases.hasOilAndGas = true
  · have hd : 0 ≤ 1 - rs * rv := sub_nonneg.2 (h.exchange hog)
    rw [if_pos hog]
    cases p with
    | water => exact hq
    | oil => exact div_nonneg (sub_nonneg.2 (h.oil hog)) hd
    | gas => exact div_nonneg (sub_nonneg.2 (h.gas hog)) hd
  · rw [if_neg hog]
    exact hq

theorem surfaceRates_nonpos (hrs : phases.hasOilAndGas = true → 0 ≤ rs) (hrv : phases.hasOilAndGas = true → 0 ≤ rv)
    (hq : ∀ p, phases.isActive p = true → q.get p ≤ 0) {p : Phase} (hp : phases.isActive p = true) :
    (phases.surfaceRates rs rv q).get p ≤ 0 := by
  unfold surfaceRates
  by_cases hog : phases.hasOilAndGas = true
  · obtain ⟨ho, hg⟩ := Bool.and_eq_true_iff.1 hog
    have hoil : q.oil ≤ 0 := hq .oil ho
    have hgas : q.gas ≤ 0 := hq .gas hg
    rw [if_pos hog]
    cases p with
    | water => exact hq .water hp
    | oil => exact add_nonpos hoil (mul_nonpos_of_nonneg_of_nonpos (hrv hog) hgas)
    | gas => exact add_nonpos hgas (mul_nonpos_of_nonneg_of_nonpos (hrs hog) hoil)
  · rw [if_neg hog]
    exact hq p hp

theorem sum_nonneg (hq : ∀ p, phases.isActive p = true → 0 ≤ q.get p) : 0 ≤ phases.sum q := by
  rw [sum, Scalar.sum_exact]
  exact List.sum_nonneg (List.forall_mem_map.2 fun p hp => hq p (isActive_of_mem hp))

theorem reservoirVolume_nonneg (h : phases.Carries rs rv q) (hb : ∀ p, phases.isActive p = true → 0 ≤ invB.get p)
    (hq : ∀ p, phases.isActive p = true → 0 ≤ q.get p) : 0 ≤ phases.reservoirVolume invB rs rv q := by
  refine sum_nonneg fun p hp => ?_
  rw [PerPhase.get_zipWith]
  exact div_nonneg (freeRates_nonneg h (hq p hp)) (hb p hp)

end PhaseSet

/-! ### Ratios at saturation -/

/-- The ratio of two parts of a stream, at most the ratio at saturation; zero without the second part. -/
def saturatedRatio (part whole sat : K) : K := min (if 0 < whole then part / whole else 0) sat

section

variable {a b s t : K}

theorem saturatedRatio_of_not_pos (hb : ¬0 < b) (hs : 0 ≤ s) : saturatedRatio a b s = 0 := by
  rw [saturatedRatio, if_neg hb, min_eq_left hs]

variable [IsStrictOrderedRing K]

theorem saturatedRatio_nonneg (ha : 0 ≤ a) (hs : 0 ≤ s) : 0 ≤ saturatedRatio a b s := by
  refine le_min ?_ hs
  split
  case isTrue hb => exact div_nonneg ha hb.le
  case isFalse => exact le_refl 0

theorem saturatedRatio_mul_le (ha : 0 ≤ a) (hb : 0 ≤ b) : saturatedRatio a b s * b ≤ a := by
  rcases hb.eq_or_lt with rfl | hb
  · rw [mul_zero]
    exact ha
  · have hratio : saturatedRatio a b s ≤ a / b := by
      rw [saturatedRatio, if_pos hb]
      exact min_le_left _ _
    exact (le_div_iff₀ hb).1 hratio

/-- The ratios in which two parts carry each other do not exceed one together. -/
private theorem saturatedRatio_mul_saturatedRatio_le_one (ha : 0 ≤ a) (hb : 0 ≤ b) (hs : 0 ≤ s) (ht : 0 ≤ t) :
    saturatedRatio a b s * saturatedRatio b a t ≤ 1 := by
  by_cases hb' : 0 < b
  · have hle : saturatedRatio a b s * saturatedRatio b a t * b ≤ 1 * b := by
      calc saturatedRatio a b s * saturatedRatio b a t * b = saturatedRatio a b s * b * saturatedRatio b a t := by ring
        _ ≤ a * saturatedRatio b a t :=
          mul_le_mul_of_nonneg_right (saturatedRatio_mul_le ha hb) (saturatedRatio_nonneg hb ht)
        _ = saturatedRatio b a t * a := mul_comm _ _
        _ ≤ b := saturatedRatio_mul_le hb ha
        _ = 1 * b := (one_mul b).symm
    exact le_of_mul_le_mul_right hle hb'
  · rw [saturatedRatio_of_not_pos hb' hs, zero_mul]
    exact zero_le_one

/-- Rates suffice for what they carry at their own ratios. -/
theorem PhaseSet.carries_saturatedRatio {phases : PhaseSet} {q : PerPhase K} (hoil : phases.oil = true → 0 ≤ q.oil)
    (hgas : phases.gas = true → 0 ≤ q.gas) (hs : 0 ≤ s) (ht : 0 ≤ t) :
    phases.Carries (saturatedRatio q.gas q.oil s) (saturatedRatio q.oil q.gas t) q := by
  have hparts (hog : phases.hasOilAndGas = true) : 0 ≤ q.oil ∧ 0 ≤ q.gas := by
    obtain ⟨ho, hg⟩ := Bool.and_eq_true_iff.1 hog
    exact ⟨hoil ho, hgas hg⟩
  constructor
  · intro hog
    obtain ⟨hoil, hgas⟩ := hparts hog
    exact saturatedRatio_mul_le hgas hoil
  · intro hog
    obtain ⟨hoil, hgas⟩ := hparts hog
    exact saturatedRatio_mul_le hoil hgas
  · intro hog
    obtain ⟨hoil, hgas⟩ := hparts hog
    exact saturatedRatio_mul_saturatedRatio_le_one hgas hoil hs ht

end

/-- A value that a guard has let pass is no zero. -/
theorem ne_zero_of_not_small [IsStrictOrderedRing K] {x ε : K} (hε : 0 < ε) (h : ¬|x| < ε) : x ≠ 0 := by
  rintro rfl
  rw [abs_zero] at h
  exact h hε

/-! ### Fluids -/

/-- Whether the volume factors that a fluid model gives are positive and its saturated ratios are not negative. -/
structure PvtModel.IsPhysical (pvt : PvtModel K) : Prop where
  inverseFvf : ∀ phase region t p ratio b, pvt.inverseFvf phase region t p ratio = .ok b → 0 < b.value
  dissolvedGas : ∀ region t p sat, pvt.dissolvedGas region t p = .ok sat → 0 ≤ sat.value
  vaporizedOil : ∀ region t p sat, pvt.vaporizedOil region t p = .ok sat → 0 ≤ sat.value

namespace FluidRegions

variable {f : FluidRegions K} {i : Nat} {t : K} {p b : WellDual K}

omit [Field K] [LinearOrder K] in
private theorem mem_of_region {r : FluidRegion K} (h : f.region i = .ok r) : r ∈ f.regions := by
  unfold region at h
  cases hi : f.regions[i]? with
  | none =>
    rw [hi] at h
    cases h
  | some r' =>
    rw [hi] at h
    cases h
    exact List.mem_of_getElem? hi

private theorem pos_of_checkPressure {x : Unit} (h : checkPressure p = .ok x) : 0 < p.value := by
  unfold checkPressure at h
  split at h
  case isTrue hp => exact hp.2
  case isFalse => cases h

private theorem saturated_nonneg [IsStrictOrderedRing K] {slope most : K} (hp : 0 < p.value) (hslope : 0 ≤ slope)
    (hmost : 0 ≤ most) : 0 ≤ ((p * slope).min (.const most)).value := by
  unfold Dual.min
  split
  · exact hmost
  · exact mul_nonneg hp.le hslope

/-- A volume factor is checked last. -/
theorem inverseFvf_pos {phase : Phase} {ratio : Option (WellDual K)} (h : f.inverseFvf phase i t p ratio = .ok b) :
    0 < b.value := by
  have hchecked {d : WellDual K} (hb : (if Scalar.isFinite d.value ∧ 0 < d.value then pure d
      else throw (.nonPhysical "inverse formation volume factor") : Except FluidError (WellDual K)) = .ok b) :
      0 < b.value := by
    split at hb
    case isTrue hpos =>
      cases hb
      exact hpos.2
    case isFalse => cases hb
  obtain ⟨_, -, h⟩ := Outcome.bind_ok.1 h
  obtain ⟨r, -, h⟩ := Outcome.bind_ok.1 h
  cases phase with
  | water => exact hchecked h
  | oil =>
    cases ratio with
    | some rs => exact hchecked h
    | none =>
      obtain ⟨rs, -, h⟩ := Outcome.bind_ok.1 h
      exact hchecked h
  | gas =>
    cases ratio with
    | some rv => exact hchecked h
    | none =>
      obtain ⟨rv, -, h⟩ := Outcome.bind_ok.1 h
      exact hchecked h

/-- The analytic model is physical unless it has negative slopes or caps. -/
theorem model_isPhysical [IsStrictOrderedRing K]
    (h : ∀ r ∈ f.regions, 0 ≤ r.rsSlope ∧ 0 ≤ r.rsMax ∧ 0 ≤ r.rvSlope ∧ 0 ≤ r.rvMax) : f.model.IsPhysical := by
  refine ⟨fun _ _ _ _ _ _ hb => inverseFvf_pos hb, fun i t p sat hs => ?_, fun i t p sat hs => ?_⟩
  · obtain ⟨_, hp, hs⟩ := Outcome.bind_ok.1 hs
    obtain ⟨r, hr, hs⟩ := Outcome.bind_ok.1 hs
    cases hs
    obtain ⟨hslope, hmost, -, -⟩ := h r (mem_of_region hr)
    exact saturated_nonneg (pos_of_checkPressure hp) hslope hmost
  · obtain ⟨_, hp, hs⟩ := Outcome.bind_ok.1 hs
    obtain ⟨r, hr, hs⟩ := Outcome.bind_ok.1 hs
    cases hs
    obtain ⟨-, -, hslope, hmost⟩ := h r (mem_of_region hr)
    exact saturated_nonneg (pos_of_checkPressure hp) hslope hmost

end FluidRegions

namespace ConnectionInput

/-! ### Directions -/

section

variable {α : Type} [Scalar α] {c : ConnectionInput α}

/-- Whether the flow through a connection is against the type of the well, which does not admit that. -/
def Suppressed (c : ConnectionInput α) : Prop :=
  c.crossFlow = false ∧ (0 < c.drawdown.value ∧ c.type = .injector ∨ ¬0 < c.drawdown.value ∧ c.type = .producer)

theorem flux_of_suppressed (h : c.Suppressed) (phases : PhaseSet) (pvt : PvtModel α) :
    c.flux phases pvt = .ok (.replicate 0) := by
  obtain ⟨hclosed, ⟨hd, htype⟩ | ⟨hd, htype⟩⟩ := h
  · rw [flux, if_pos hd, hclosed, htype]
    rfl
  · rw [flux, if_neg hd, hclosed, htype]
    rfl

theorem flux_of_inward (h : ¬c.Suppressed) (hd : 0 < c.drawdown.value) (phases : PhaseSet) (pvt : PvtModel α) :
    c.flux phases pvt = .ok (c.inflow phases) := by
  have hopen : ¬(!c.crossFlow && c.type = .injector) = true := by
    intro hs
    obtain ⟨hclosed, htype⟩ := Bool.and_eq_true_iff.1 hs
    exact h ⟨by simpa using hclosed, .inl ⟨hd, of_decide_eq_true htype⟩⟩
  rw [flux, if_pos hd, if_neg hopen]

theorem flux_of_outward (h : ¬c.Suppressed) (hd : ¬0 < c.drawdown.value) (phases : PhaseSet) (pvt : PvtModel α) :
    c.flux phases pvt = c.outflow phases pvt := by
  have hopen : ¬(!c.crossFlow && c.type = .producer) = true := by
    intro hs
    obtain ⟨hclosed, htype⟩ := Bool.and_eq_true_iff.1 hs
    exact h ⟨by simpa using hclosed, .inr ⟨hd, of_decide_eq_true htype⟩⟩
  rw [flux, if_neg hd, if_neg hopen]

end

variable {c : ConnectionInput K} {phases : PhaseSet} {pvt : PvtModel K} {q : PerPhase (WellDual K)}

/-- The rate at reservoir conditions that the drawdown drives through the total mobility. -/
def reservoirRate (c : ConnectionInput K) (phases : PhaseSet) : K :=
  -c.transmissibility * phases.sum (c.cell.mobility.map (·.value)) * c.drawdown.value

/-- The volume in the reservoir of surface rates through the connection, at given ratios. -/
def volume (c : ConnectionInput K) (phases : PhaseSet) (rs rv : K) (q : PerPhase K) : K :=
  phases.reservoirVolume (c.cell.invB.map (·.value)) rs rv q

theorem invB_value (c : ConnectionInput K) (p : Phase) : (c.invB.get p).value = (c.cell.invB.get p).value := by
  rw [invB, PerPhase.get_map]
  rfl

theorem mobility_value (c : ConnectionInput K) (p : Phase) :
    (c.mobility.get p).value = (c.cell.mobility.get p).value := by
  rw [mobility, PerPhase.get_map]
  rfl

private theorem value_reservoirRate (c : ConnectionInput K) (phases : PhaseSet) :
    (phases.total c.mobility * c.drawdown * -c.transmissibility).value = c.reservoirRate phases := by
  have htotal : (phases.total c.mobility).value = phases.sum (c.cell.mobility.map (·.value)) := by
    rw [PhaseSet.value_total]
    refine PhaseSet.sum_congr fun p _ => ?_
    rw [PerPhase.get_map, PerPhase.get_map, mobility_value]
  change (phases.total c.mobility).value * c.drawdown.value * -c.transmissibility = _
  rw [htotal, reservoirRate]
  ring

/-! ### Flow into the well -/

theorem inflow_value {p : Phase} (hp : phases.isActive p = true) :
    ((c.inflow phases).get p).value =
      (phases.surfaceRates c.cell.rs.value c.cell.rv.value (.ofFn fun r => (c.freeInflow r).value)).get p := by
  have hfree {r : Phase} (hr : phases.isActive r = true) :
      (phases.select (.ofFn c.freeInflow) (.replicate 0)).get r = c.freeInflow r := by
    rw [PhaseSet.get_select hr, PerPhase.get_ofFn]
  unfold inflow PhaseSet.surfaceRates
  by_cases hog : phases.hasOilAndGas = true
  · obtain ⟨ho, hg⟩ := Bool.and_eq_true_iff.1 hog
    have hoil : (phases.select (.ofFn c.freeInflow) (.replicate 0)).oil = c.freeInflow .oil := hfree (r := .oil) ho
    have hgas : (phases.select (.ofFn c.freeInflow) (.replicate 0)).gas = c.freeInflow .gas := hfree (r := .gas) hg
    rw [if_pos hog, if_pos hog, hoil, hgas]
    cases p with
    | water => exact congrArg Dual.value (hfree hp)
    | oil => rfl
    | gas => rfl
  · rw [if_neg hog, if_neg hog, hfree hp, PerPhase.get_ofFn]

private theorem volume_inflow (hb : ∀ p, phases.isActive p = true → (c.cell.invB.get p).value ≠ 0)
    (h : phases.hasOilAndGas = true → c.cell.rs.value * c.cell.rv.value ≠ 1) :
    c.volume phases c.cell.rs.value c.cell.rv.value ((c.inflow phases).map (·.value)) = c.reservoirRate phases := by
  have hq {p : Phase} (hp : phases.isActive p = true) : ((c.inflow phases).map (·.value)).get p =
      (phases.surfaceRates c.cell.rs.value c.cell.rv.value (.ofFn fun r => (c.freeInflow r).value)).get p := by
    rw [PerPhase.get_map, inflow_value hp]
  have hterm (p : Phase) (hp : phases.isActive p = true) :
      (c.freeInflow p).value / (c.cell.invB.get p).value =
        (c.cell.mobility.get p).value * (-c.transmissibility * c.drawdown.value) := by
    have hvalue : (c.freeInflow p).value =
        (c.cell.invB.get p).value * ((c.cell.mobility.get p).value * c.drawdown.value * -c.transmissibility) := by
      rw [← invB_value, ← mobility_value]
      rfl
    rw [hvalue, mul_div_cancel_left₀ _ (hb p hp)]
    ring
  calc c.volume phases c.cell.rs.value c.cell.rv.value ((c.inflow phases).map (·.value))
    _ = phases.sum (.zipWith (· / ·) (.ofFn fun r => (c.freeInflow r).value) (c.cell.invB.map (·.value))) := by
      rw [volume, PhaseSet.reservoirVolume_congr fun p hp => hq hp, PhaseSet.reservoirVolume,
        PhaseSet.freeRates_surfaceRates h]
    _ = phases.sum ((c.cell.mobility.map (·.value)).map (· * (-c.transmissibility * c.drawdown.value))) := by
      refine PhaseSet.sum_congr fun p hp => ?_
      simp only [PerPhase.get_zipWith, PerPhase.get_map, PerPhase.get_ofFn]
      exact hterm p hp
    _ = c.reservoirRate phases := by
      rw [PhaseSet.sum_map_mul, reservoirRate]
      ring

/-! ### Flow out of the well -/

/-- The ratio of dissolved gas and the ratio of vaporized oil in the well stream, neither above saturation. -/
def streamRatios (c : ConnectionInput K) (pvt : PvtModel K) : Except FluidError (K × K) := do
  let rsSat ← pvt.dissolvedGas c.cell.region c.cell.temperature c.wellPressure
  let rvSat ← pvt.vaporizedOil c.cell.region c.cell.temperature c.wellPressure
  return (saturatedRatio c.mix.gas.value c.mix.oil.value rsSat.value,
    saturatedRatio c.mix.oil.value c.mix.gas.value rvSat.value)

/-- Whether a flow out of the well is stopped, because at given ratios the stream has no free phases or no volume. -/
def Stopped (c : ConnectionInput K) (phases : PhaseSet) (rs rv : K) : Prop :=
  phases.hasOilAndGas = true ∧ |1 - rs * rv| < 1e-12 ∨ |c.volume phases rs rv (c.mix.map (·.value))| < 1e-12

theorem ne_zero_of_guard [IsStrictOrderedRing K] {x : K} (h : ¬|x| < 1e-12) : x ≠ 0 :=
  ne_zero_of_not_small (by norm_num) h

private theorem streamRatio_value (part whole sat : WellDual K) :
    (streamRatio part whole sat).value = saturatedRatio part.value whole.value sat.value := by
  have hratio : (if 0 < whole.value then part / whole else 0).value =
      if 0 < whole.value then part.value / whole.value else 0 := by
    split
    · exact Dual.value_div _ _
    · rfl
  rw [streamRatio, saturatedRatio, ← hratio]
  generalize (if 0 < whole.value then part / whole else 0) = ratio
  by_cases h : sat.value < ratio.value
  · rw [min_eq_right (le_of_lt h)]
    exact congrArg Dual.value (if_pos h)
  · rw [min_eq_left (not_lt.1 h)]
    exact congrArg Dual.value (if_neg h)

private theorem value_total_div (c : ConnectionInput K) (phases : PhaseSet) (free : PerPhase (WellDual K)) :
    (phases.total (.zipWith (· / ·) free c.invB)).value =
      phases.sum (.zipWith (· / ·) (free.map (·.value)) (c.cell.invB.map (·.value))) := by
  rw [PhaseSet.value_total]
  refine PhaseSet.sum_congr fun p _ => ?_
  simp only [PerPhase.get_map, PerPhase.get_zipWith, Dual.value_div, invB_value]

private theorem streamVolume?_ok {v : Option (WellDual K)} (h : c.streamVolume? phases pvt = .ok v) :
    ∃ rs rv, (phases.hasOilAndGas = true → c.streamRatios pvt = .ok (rs, rv)) ∧
      ((v = none ∧ phases.hasOilAndGas = true ∧ |1 - rs * rv| < 1e-12) ∨
        ∃ d, v = some d ∧ (phases.hasOilAndGas = true → ¬|1 - rs * rv| < 1e-12) ∧
          d.value = c.volume phases rs rv (c.mix.map (·.value))) := by
  unfold streamVolume? at h
  by_cases hog : phases.hasOilAndGas = true
  · rw [if_pos hog] at h
    obtain ⟨rsSat, hrs, h⟩ := Outcome.bind_ok.1 h
    obtain ⟨rvSat, hrv, h⟩ := Outcome.bind_ok.1 h
    have hratios : c.streamRatios pvt =
        .ok ((streamRatio c.mix.gas c.mix.oil rsSat).value, (streamRatio c.mix.oil c.mix.gas rvSat).value) := by
      rw [streamRatios, hrs, hrv, streamRatio_value, streamRatio_value]
      rfl
    generalize streamRatio c.mix.gas c.mix.oil rsSat = rs at h hratios
    generalize streamRatio c.mix.oil c.mix.gas rvSat = rv at h hratios
    have hd : ((1 : K) - rv * rs).value = 1 - rs.value * rv.value := by
      change -(rv.value * rs.value) + 1 = _
      ring
    refine ⟨rs.value, rv.value, fun _ => hratios, ?_⟩
    rw [← hd]
    by_cases hsmall : |((1 : K) - rv * rs).value| < 1e-12
    · refine .inl ⟨?_, hog, hsmall⟩
      change (if |((1 : K) - rv * rs).value| < 1e-12 then _ else _) = _ at h
      rw [if_pos hsmall] at h
      cases h
      rfl
    · change (if |((1 : K) - rv * rs).value| < 1e-12 then _ else _) = _ at h
      rw [if_neg hsmall] at h
      cases h
      refine .inr ⟨_, rfl, fun _ => hsmall, ?_⟩
      rw [value_total_div, volume, PhaseSet.reservoirVolume, PhaseSet.freeRates, if_pos hog, ← hd]
      simp only [PerPhase.map, Dual.value_div]
      rfl
  · rw [if_neg hog] at h
    cases h
    refine ⟨0, 0, fun ho => absurd ho hog, .inr ⟨_, rfl, fun ho => absurd ho hog, ?_⟩⟩
    rw [value_total_div, volume, PhaseSet.reservoirVolume, PhaseSet.freeRates, if_neg hog]

theorem outflow_ok (h : c.outflow phases pvt = .ok q) :
    ∃ rs rv, (phases.hasOilAndGas = true → c.streamRatios pvt = .ok (rs, rv)) ∧
      ((c.Stopped phases rs rv ∧ q = .replicate 0) ∨
        (¬c.Stopped phases rs rv ∧ ∀ p, phases.isActive p = true → (q.get p).value =
          (c.mix.get p).value * (c.reservoirRate phases / c.volume phases rs rv (c.mix.map (·.value))))) := by
  obtain ⟨v, hv, h⟩ := Outcome.bind_ok.1 h
  obtain ⟨rs, rv, hratios, ⟨rfl, hog, hsmall⟩ | ⟨d, rfl, hd, hvalue⟩⟩ := streamVolume?_ok (Outcome.ofFluid_ok.1 hv)
  · cases h
    exact ⟨rs, rv, hratios, .inl ⟨.inl ⟨hog, hsmall⟩, rfl⟩⟩
  · refine ⟨rs, rv, hratios, ?_⟩
    by_cases hsmall : |d.value| < 1e-12
    · change (if |d.value| < 1e-12 then _ else _) = _ at h
      rw [if_pos hsmall] at h
      cases h
      rw [hvalue] at hsmall
      exact .inl ⟨.inr hsmall, rfl⟩
    · change (if |d.value| < 1e-12 then _ else _) = _ at h
      rw [if_neg hsmall] at h
      dsimp only at h
      split at h
      case isFalse => cases h
      case isTrue =>
        cases h
        refine .inr ⟨?_, fun p hp => ?_⟩
        · rintro (⟨hog, hcancel⟩ | hempty)
          · exact hd hog hcancel
          · exact hsmall (hvalue ▸ hempty)
        · have hrate : (phases.total c.mobility * c.drawdown * -c.transmissibility / d).value =
              c.reservoirRate phases / c.volume phases rs rv (c.mix.map (·.value)) := by
            rw [Dual.value_div, hvalue, value_reservoirRate]
          rw [PhaseSet.get_select hp, PerPhase.get_map, ← hrate]
          rfl

/-! ### Both directions -/

/-- A flow that is neither held back nor stopped moves the volume that the drawdown drives through the total mobility:
at the ratios of the cell into the well, and at the capped ratios of the stream out of it. -/
theorem reservoirVolume_of_flux [IsStrictOrderedRing K] (h : c.flux phases pvt = .ok q) (hs : ¬c.Suppressed)
    (hb : ∀ p, phases.isActive p = true → (c.cell.invB.get p).value ≠ 0) :
    (0 < c.drawdown.value → (phases.hasOilAndGas = true → c.cell.rs.value * c.cell.rv.value ≠ 1) →
      c.volume phases c.cell.rs.value c.cell.rv.value (q.map (·.value)) = c.reservoirRate phases) ∧
    (¬0 < c.drawdown.value → ∃ rs rv, (phases.hasOilAndGas = true → c.streamRatios pvt = .ok (rs, rv)) ∧
      (¬c.Stopped phases rs rv → c.volume phases rs rv (q.map (·.value)) = c.reservoirRate phases)) := by
  constructor
  · intro hd hratios
    rw [flux_of_inward hs hd] at h
    cases h
    exact volume_inflow hb hratios
  · intro hd
    rw [flux_of_outward hs hd] at h
    obtain ⟨rs, rv, hratios, ⟨hstop, -⟩ | ⟨hgo, hq⟩⟩ := outflow_ok h
    · exact ⟨rs, rv, hratios, fun hgo => absurd hstop hgo⟩
    refine ⟨rs, rv, hratios, fun _ => ?_⟩
    have hunit : c.volume phases rs rv (c.mix.map (·.value)) ≠ 0 := ne_zero_of_guard fun hempty => hgo (.inr hempty)
    have hscaled (p : Phase) (hp : phases.isActive p = true) : (q.map (·.value)).get p = ((c.mix.map (·.value)).map
        (· * (c.reservoirRate phases / c.volume phases rs rv (c.mix.map (·.value))))).get p := by
      rw [PerPhase.get_map, PerPhase.get_map, PerPhase.get_map]
      exact hq p hp
    calc c.volume phases rs rv (q.map (·.value))
      _ = c.volume phases rs rv (c.mix.map (·.value)) *
          (c.reservoirRate phases / c.volume phases rs rv (c.mix.map (·.value))) := by
        rw [volume, PhaseSet.reservoirVolume_congr hscaled, PhaseSet.reservoirVolume_scale]
        rfl
      _ = c.reservoirRate phases := mul_div_cancel₀ _ hunit

/-- A cell with dissolved gas and vaporized oil. -/
def liveCell (pressure : ℚ) : Cell ℚ :=
  { Cell.still (.seed pressure 0) 350 with
    invB := ⟨.const 1, .const (4 / 5), .const 100⟩
    mobility := ⟨.const 1, .const 2, .const 3⟩
    rs := .const 50
    rv := .const (1 / 1000) }

/-- A connection of a well with cross flow, whose stream has more gas and more oil than can be dissolved and
vaporized. -/
def liveConnection (bhp : ℚ) : ConnectionInput ℚ where
  cell := liveCell 2e7
  transmissibility := 1 / 10
  bhp := .seedWell bhp 0
  head := 0
  type := .producer
  crossFlow := true
  mix := ⟨.const (1 / 5), .const (1 / 1000), .const (799 / 1000)⟩

/-- Into the well the ratios are those of the cell, and out of it both ratios are at saturation. -/
theorem reservoirVolume_of_flux_liveConnection :
    (∃ q, (liveConnection 1.5e7).flux .threePhase (FluidRegions.mk [.standard]).model = .ok q ∧
      (liveConnection 1.5e7).volume .threePhase 50 (1 / 1000) (q.map (·.value)) = -3e6) ∧
    (∃ q, (liveConnection 2.5e7).flux .threePhase (FluidRegions.mk [.standard]).model = .ok q ∧
      (liveConnection 2.5e7).volume .threePhase 200 (1 / 4000) (q.map (·.value)) = 3e6) := by
  constructor
  · have hs : ¬(liveConnection 1.5e7).Suppressed := fun hs => nomatch hs.1
    have hd : 0 < (liveConnection 1.5e7).drawdown.value := by decide +kernel
    have hb (p : Phase) (_ : PhaseSet.threePhase.isActive p = true) :
        ((liveConnection 1.5e7).cell.invB.get p).value ≠ 0 := by
      cases p <;> decide +kernel
    have hrun := flux_of_inward hs hd .threePhase (FluidRegions.mk [.standard]).model
    refine ⟨_, hrun, ((reservoirVolume_of_flux hrun hs hb).1 hd fun _ => ?_).trans ?_⟩
    · decide +kernel
    · decide +kernel
  · have hs : ¬(liveConnection 2.5e7).Suppressed := fun hs => nomatch hs.1
    have hd : ¬0 < (liveConnection 2.5e7).drawdown.value := by decide +kernel
    have hb (p : Phase) (_ : PhaseSet.threePhase.isActive p = true) :
        ((liveConnection 2.5e7).cell.invB.get p).value ≠ 0 := by
      cases p <;> decide +kernel
    have hsome : ((liveConnection 2.5e7).flux .threePhase (FluidRegions.mk [.standard]).model).toOption.isSome = true :=
      by decide +kernel
    obtain ⟨q, hq⟩ := Option.isSome_iff_exists.1 hsome
    have hrun := Outcome.ok_of_toOption hq
    have hratios : (liveConnection 2.5e7).streamRatios (FluidRegions.mk [.standard]).model = .ok (200, 1 / 4000) :=
      Outcome.ok_of_toOption (by decide +kernel)
    obtain ⟨rs, rv, h, hvolume⟩ := (reservoirVolume_of_flux hrun hs hb).2 hd
    obtain ⟨rfl, rfl⟩ := Prod.mk.inj (Except.ok.inj (hratios.symm.trans (h rfl)))
    refine ⟨q, hrun, (hvolume ?_).trans ?_⟩
    · rintro (⟨-, hcancel⟩ | hempty)
      · exact absurd hcancel (by decide +kernel)
      · exact absurd hempty (by decide +kernel)
    · decide +kernel

end ConnectionInput

end BlackOilWells
