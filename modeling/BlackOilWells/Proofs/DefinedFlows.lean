import Mathlib.Algebra.Order.Field.Basic
import BlackOilWells.Proofs.ReservoirVolume
import BlackOilWells.Proofs.Ranges
import BlackOilWells.Proofs.Reductions

/-!
# Flows without undefined numbers

In an ordered field the quotient by zero is zero, and a division by zero would pass unseen.  `Computed` numbers have
an undefined quotient by zero, which spoils whatever it enters.  The same program runs on both: a quantity over the
field is one of computed numbers that are all defined (`Dual.computed` and its like), and a quotient is that quotient
again as long as the divisor is not zero (`Dual.computed_div`).

The flows through the connections of a well are defined throughout.  In the flow through one connection the tests before
each quotient keep its divisor from zero (`ConnectionInput.flux_computed`).  The bottom-hole pressure under a
tubing-head control divides by the intervals of a lift table, and the axes of a validated table increase
(`LiftTable.bhp_computed`).  So all flows that a well has over the field are those over computed numbers
(`WellUnit.connectionFlows_computed`): no division on the way has had the divisor zero.
-/

namespace BlackOilWells

variable {K : Type} {n : Nat}

/-! ### Differentiable values -/

namespace Computed

private theorem zipWith_value {f : K → K → K} {g : Computed K → Computed K → Computed K}
    (h : ∀ x y, g (.value x) (.value y) = .value (f x y)) (u v : Vector K n) :
    Vector.zipWith g (u.map .value) (v.map .value) = (Vector.zipWith f u v).map .value := by
  refine Vector.ext fun i hi => ?_
  rw [Vector.getElem_zipWith, Vector.getElem_map, Vector.getElem_map, h, Vector.getElem_map, Vector.getElem_zipWith]

private theorem map_value {f : K → K} {g : Computed K → Computed K} (h : ∀ x, g (.value x) = .value (f x))
    (u : Vector K n) :
    (u.map .value).map g = (u.map f).map .value := by
  refine Vector.ext fun i hi => ?_
  rw [Vector.getElem_map, Vector.getElem_map, h, Vector.getElem_map, Vector.getElem_map]

end Computed

namespace Dual

/-- A differentiable value in computed numbers. -/
def computed (d : Dual K n) : Dual (Computed K) n := ⟨.value d.value, d.partials.map .value⟩

variable [Field K] [LinearOrder K]

private theorem computed_const (x : K) : (const (.value x) : Dual (Computed K) n) = (const x).computed := by
  refine congrArg (Dual.mk _) (Vector.ext fun i h => ?_)
  rw [Vector.getElem_replicate, Vector.getElem_map]
  exact congrArg Computed.value (Vector.getElem_replicate h).symm

private theorem computed_zero : (0 : Dual (Computed K) n) = (0 : Dual K n).computed := computed_const 0

private theorem computed_add (d e : Dual K n) : d.computed + e.computed = (d + e).computed :=
  congrArg (Dual.mk _) (Computed.zipWith_value (fun _ _ => rfl) _ _)

private theorem computed_sub (d e : Dual K n) : d.computed - e.computed = (d - e).computed :=
  congrArg (Dual.mk _) (Computed.zipWith_value (fun _ _ => rfl) _ _)

private theorem computed_mul (d e : Dual K n) : d.computed * e.computed = (d * e).computed :=
  congrArg (Dual.mk _) (Computed.zipWith_value (fun _ _ => rfl) _ _)

/-- A quotient is defined if its divisor is not zero. -/
theorem computed_div (d : Dual K n) {e : Dual K n} (he : e.value ≠ 0) : d.computed / e.computed = (d / e).computed := by
  have hinv : (1 : Computed K) / e.computed.value = .value (1 / e.value) := if_neg he
  change Dual.mk (d.computed.value * ((1 : Computed K) / e.computed.value)) (Vector.zipWith
    (fun a b => (a * e.computed.value - d.computed.value * b) * ((1 : Computed K) / e.computed.value) *
      ((1 : Computed K) / e.computed.value)) d.computed.partials e.computed.partials) = _
  rw [hinv]
  exact congrArg (Dual.mk _) (Computed.zipWith_value (fun _ _ => rfl) _ _)

private theorem computed_chain (d : Dual K n) (x slope : K) :
    d.computed.chain (.value x) (.value slope) = (d.chain x slope).computed :=
  congrArg (Dual.mk _) (Computed.map_value (fun _ => rfl) _)

private theorem computed_neg (d : Dual K n) : -d.computed = (-d).computed := computed_chain d (-d.value) (-1)

private theorem computed_mul_scalar (d : Dual K n) (x : K) : d.computed * Computed.value x = (d * x).computed :=
  computed_chain d (d.value * x) x

private theorem computed_div_scalar (d : Dual K n) {x : K} (hx : x ≠ 0) :
    d.computed / Computed.value x = (d / x).computed := by
  have hquotient : d.computed.value / Computed.value x = .value (d.value / x) := if_neg hx
  have hinv : (1 : Computed K) / Computed.value x = .value (1 / x) := if_neg hx
  change d.computed.chain (d.computed.value / Computed.value x) (1 / Computed.value x) = _
  rw [hquotient, hinv, computed_chain]
  rfl

private theorem computed_scalar_sub (x : K) (d : Dual K n) : Computed.value x - d.computed = (x - d).computed := by
  change -d.computed + Computed.value x = _
  rw [computed_neg]
  rfl

private theorem computed_abs (d : Dual K n) : d.computed.abs = d.abs.computed := by
  unfold abs
  by_cases h : d.value < 0
  · rw [if_pos h, ← computed_neg]
    exact if_pos h
  · rw [if_neg h]
    exact if_neg h

private theorem computed_min (d e : Dual K n) : d.computed.min e.computed = (d.min e).computed := by
  unfold min
  by_cases h : e.value < d.value
  · exact (if_pos h).trans (congrArg computed (if_pos h).symm)
  · exact (if_neg h).trans (congrArg computed (if_neg h).symm)

private theorem isFinite_computed (d : Dual K n) : d.computed.isFinite = true := by
  refine Bool.and_eq_true_iff.2 ⟨rfl, Vector.all_eq_true.2 fun i hi => ?_⟩
  rw [computed, Vector.getElem_map]
  rfl

end Dual

namespace WellDual

variable [Field K] [LinearOrder K]

private theorem computed_ofCell (d : CellDual K) : ofCell d.computed = (ofCell d).computed := by
  refine congrArg (Dual.mk _) (Vector.ext fun i h => ?_)
  have hpart : (ofCell d).partials[i] = if hcell : i < 3 then d.partials[i] else 0 := Vector.getElem_ofFn h
  rw [Vector.getElem_ofFn, Vector.getElem_map, hpart]
  by_cases hcell : i < 3
  · rw [dif_pos hcell, dif_pos hcell]
    exact Vector.getElem_map _ hcell
  · rw [dif_neg hcell, dif_neg hcell]
    rfl

end WellDual

/-! ### Quantities by phase -/

section

variable [Field K] [LinearOrder K] {phases : PhaseSet} {q : PerPhase (WellDual K)}
  {r : PerPhase (WellDual (Computed K))}

private theorem PerPhase.zero_computed :
    (.replicate 0 : PerPhase (WellDual (Computed K))) = (.replicate 0 : PerPhase (WellDual K)).map Dual.computed := by
  rw [Dual.computed_zero]
  rfl

private theorem PhaseSet.select_computed (phases : PhaseSet) (q : PerPhase (WellDual K)) :
    phases.select (q.map Dual.computed) (.replicate 0) = (phases.select q (.replicate 0)).map Dual.computed := by
  refine PerPhase.ext_get fun p => ?_
  rw [PerPhase.get_map, select, select, PerPhase.get_ofFn, PerPhase.get_ofFn, PerPhase.get_map, apply_ite Dual.computed,
    PerPhase.get_replicate, PerPhase.get_replicate, Dual.computed_zero]

private theorem PerPhase.isFinite_computed (q : PerPhase (WellDual K)) :
    (q.map Dual.computed).toList.all Dual.isFinite = true := by
  change (q.toList.map Dual.computed).all Dual.isFinite = true
  rw [List.all_map]
  exact List.all_eq_true.2 fun d _ => d.isFinite_computed

/-- A total looks at the active phases only. -/
private theorem PhaseSet.total_computed (h : ∀ p, phases.isActive p = true → r.get p = (q.get p).computed) :
    phases.total r = (phases.total q).computed := by
  have hfold (l : List Phase) (hl : ∀ p ∈ l, r.get p = (q.get p).computed) (d : WellDual K) :
      (l.map r.get).foldl (· + ·) d.computed = ((l.map q.get).foldl (· + ·) d).computed := by
    induction l generalizing d with
    | nil => rfl
    | cons p l ih =>
      rw [List.map_cons, List.foldl_cons, List.map_cons, List.foldl_cons, hl p (List.mem_cons_self ..),
        Dual.computed_add]
      exact ih (fun p' hp' => hl p' (List.mem_cons_of_mem p hp')) _
  rw [total, Dual.computed_zero]
  exact hfold _ (fun p hp => h p (isActive_of_mem hp)) _

end

/-! ### Flow through a connection -/

/-- A cell in computed numbers. -/
def Cell.computed (c : Cell K) : Cell (Computed K) where
  pressure := c.pressure.computed
  temperature := .value c.temperature
  invB := c.invB.map Dual.computed
  mobility := c.mobility.map Dual.computed
  rs := c.rs.computed
  rv := c.rv.computed
  region := c.region

/-- Whether a fluid model in computed numbers gives the saturated ratios of a model over the field. -/
structure PvtModel.Computes (pvt' : PvtModel (Computed K)) (pvt : PvtModel K) : Prop where
  dissolvedGas : ∀ region t p,
    pvt'.dissolvedGas region (.value t) p.computed = (pvt.dissolvedGas region t p).map Dual.computed
  vaporizedOil : ∀ region t p,
    pvt'.vaporizedOil region (.value t) p.computed = (pvt.vaporizedOil region t p).map Dual.computed

/-- A fluid region in computed numbers. -/
def FluidRegion.computed (r : FluidRegion K) : FluidRegion (Computed K) where
  surfaceDensity := r.surfaceDensity.map .value
  referencePressure := .value r.referencePressure
  inverseFvfRef := r.inverseFvfRef.map .value
  compressibility := r.compressibility.map .value
  rsSlope := .value r.rsSlope
  rsMax := .value r.rsMax
  rvSlope := .value r.rvSlope
  rvMax := .value r.rvMax
  oilSwelling := .value r.oilSwelling
  gasSwelling := .value r.gasSwelling

namespace FluidRegions

private theorem region_computed (f : FluidRegions K) (i : Nat) :
    (FluidRegions.mk (f.regions.map FluidRegion.computed)).region i = (f.region i).map FluidRegion.computed := by
  unfold region
  rw [List.getElem?_map, List.length_map]
  cases f.regions[i]? <;> rfl

variable [Field K] [LinearOrder K]

private theorem checkPressure_computed (p : WellDual K) : checkPressure p.computed = checkPressure p := by
  unfold checkPressure
  by_cases h : 0 < p.value
  · have hdefined : Scalar.isFinite p.computed.value ∧ 0 < p.computed.value := ⟨rfl, h⟩
    have hfield : Scalar.isFinite p.value ∧ 0 < p.value := ⟨rfl, h⟩
    rw [if_pos hdefined, if_pos hfield]
  · have hdefined : ¬(Scalar.isFinite p.computed.value ∧ 0 < p.computed.value) := fun hp => h hp.2
    have hfield : ¬(Scalar.isFinite p.value ∧ 0 < p.value) := fun hp => h hp.2
    rw [if_neg hdefined, if_neg hfield]

/-- The analytic model gives defined ratios. -/
theorem model_computes (f : FluidRegions K) :
    (FluidRegions.mk (f.regions.map FluidRegion.computed)).model.Computes f.model := by
  have hsaturated (i : Nat) (p : WellDual K) (slope most : {α : Type} → FluidRegion α → α)
      (hslope : ∀ r : FluidRegion K, slope r.computed = .value (slope r))
      (hmost : ∀ r : FluidRegion K, most r.computed = .value (most r)) :
      (do
        checkPressure p.computed
        let r ← (FluidRegions.mk (f.regions.map FluidRegion.computed)).region i
        return (p.computed * slope r).min (.const (most r))) =
      Except.map Dual.computed (do
        checkPressure p
        let r ← f.region i
        return (p * slope r).min (.const (most r))) := by
    rw [checkPressure_computed, region_computed]
    cases checkPressure p with
    | error e => rfl
    | ok _ =>
      cases hr : f.region i with
      | error e => rfl
      | ok r =>
        change Except.ok ((p.computed * slope r.computed).min (.const (most r.computed))) = Except.ok _
        rw [hslope, hmost, Dual.computed_mul_scalar, Dual.computed_const, Dual.computed_min]
  exact ⟨fun i _ p => hsaturated i p (·.rsSlope) (·.rsMax) (fun _ => rfl) fun _ => rfl,
    fun i _ p => hsaturated i p (·.rvSlope) (·.rvMax) (fun _ => rfl) fun _ => rfl⟩

end FluidRegions

namespace ConnectionInput

/-- What a flow depends on, in computed numbers. -/
def computed (c : ConnectionInput K) : ConnectionInput (Computed K) where
  cell := c.cell.computed
  transmissibility := .value c.transmissibility
  bhp := c.bhp.computed
  head := .value c.head
  type := c.type
  crossFlow := c.crossFlow
  mix := c.mix.map Dual.computed

variable [Field K] [LinearOrder K] (c : ConnectionInput K) {phases : PhaseSet} {pvt : PvtModel K}
  {pvt' : PvtModel (Computed K)}

private theorem drawdown_computed : c.computed.drawdown = c.drawdown.computed := by
  change WellDual.ofCell c.cell.pressure.computed - c.wellPressure.computed = _
  rw [WellDual.computed_ofCell, Dual.computed_sub]
  rfl

private theorem invB_computed (p : Phase) : c.computed.invB.get p = (c.invB.get p).computed := by
  change ((c.cell.invB.map Dual.computed).map WellDual.ofCell).get p = _
  rw [PerPhase.get_map, PerPhase.get_map, WellDual.computed_ofCell, invB, PerPhase.get_map]

private theorem mobility_computed (p : Phase) : c.computed.mobility.get p = (c.mobility.get p).computed := by
  change ((c.cell.mobility.map Dual.computed).map WellDual.ofCell).get p = _
  rw [PerPhase.get_map, PerPhase.get_map, WellDual.computed_ofCell, mobility, PerPhase.get_map]

private theorem freeInflow_computed (p : Phase) : c.computed.freeInflow p = (c.freeInflow p).computed := by
  change c.computed.invB.get p *
    (c.computed.mobility.get p * c.computed.drawdown * Computed.value (-c.transmissibility)) = _
  rw [invB_computed, mobility_computed, drawdown_computed, Dual.computed_mul, Dual.computed_mul_scalar,
    Dual.computed_mul]
  rfl

private theorem inflow_computed (phases : PhaseSet) :
    c.computed.inflow phases = (c.inflow phases).map Dual.computed := by
  have hfree : phases.select (.ofFn c.computed.freeInflow) (.replicate 0) =
      (phases.select (.ofFn c.freeInflow) (.replicate 0)).map Dual.computed := by
    rw [← PhaseSet.select_computed, funext c.freeInflow_computed]
    rfl
  unfold inflow
  rw [hfree]
  by_cases hog : phases.hasOilAndGas = true
  · rw [if_pos hog, if_pos hog]
    change PerPhase.mk _ (_ + WellDual.ofCell c.cell.rv.computed * _) (_ + WellDual.ofCell c.cell.rs.computed * _) = _
    rw [WellDual.computed_ofCell, WellDual.computed_ofCell]
    simp only [PerPhase.map, Dual.computed_add, Dual.computed_mul]
  · rw [if_neg hog, if_neg hog]

private theorem streamRatio_computed (part whole saturated : WellDual K) :
    streamRatio part.computed whole.computed saturated.computed = (streamRatio part whole saturated).computed := by
  have hratio : (if 0 < whole.computed.value then part.computed / whole.computed else 0) =
      (if 0 < whole.value then part / whole else 0).computed := by
    by_cases h : 0 < whole.value
    · rw [if_pos h, ← Dual.computed_div _ h.ne']
      exact if_pos h
    · rw [if_neg h, ← Dual.computed_zero]
      exact if_neg h
  unfold streamRatio
  rw [hratio]
  generalize (if 0 < whole.value then part / whole else 0) = ratio
  by_cases h : saturated.value < ratio.value
  · exact (if_pos h).trans (congrArg Dual.computed (if_pos h).symm)
  · exact (if_neg h).trans (congrArg Dual.computed (if_neg h).symm)

private theorem total_div_computed {free : PerPhase (WellDual K)} {free' : PerPhase (WellDual (Computed K))}
    (hb : ∀ p, phases.isActive p = true → (c.cell.invB.get p).value ≠ 0)
    (hfree : ∀ p, phases.isActive p = true → free'.get p = (free.get p).computed) :
    phases.total (.zipWith (· / ·) free' c.computed.invB) = (phases.total (.zipWith (· / ·) free c.invB)).computed := by
  refine PhaseSet.total_computed fun p hp => ?_
  have hdivisor : (c.invB.get p).value ≠ 0 := by
    rw [invB, PerPhase.get_map]
    exact hb p hp
  rw [PerPhase.get_zipWith, PerPhase.get_zipWith, hfree p hp, invB_computed, Dual.computed_div _ hdivisor]

private theorem streamRate_computed {volume : WellDual K} (h : volume.value ≠ 0) :
    phases.total c.computed.mobility * c.computed.drawdown * -c.computed.transmissibility / volume.computed =
      (phases.total c.mobility * c.drawdown * -c.transmissibility / volume).computed := by
  rw [← Dual.computed_div _ h, ← Dual.computed_mul_scalar, ← Dual.computed_mul,
    ← PhaseSet.total_computed fun p _ => c.mobility_computed p, drawdown_computed]
  rfl

/-- The free phases of a stream that dissolves and vaporizes are defined at a divisor that is not zero. -/
private theorem freeStream_computed (rs rv : WellDual K) {d : WellDual K} (h : d.value ≠ 0) (p : Phase) :
    (⟨c.computed.mix.water, (c.computed.mix.oil - rv.computed * c.computed.mix.gas) / d.computed,
      (c.computed.mix.gas - rs.computed * c.computed.mix.oil) / d.computed⟩ : PerPhase (WellDual (Computed K))).get p =
    ((⟨c.mix.water, (c.mix.oil - rv * c.mix.gas) / d, (c.mix.gas - rs * c.mix.oil) / d⟩ :
      PerPhase (WellDual K)).get p).computed := by
  cases p with
  | water => rfl
  | oil =>
    change (c.mix.oil.computed - rv.computed * c.mix.gas.computed) / _ = _
    rw [Dual.computed_mul, Dual.computed_sub, Dual.computed_div _ h]
    rfl
  | gas =>
    change (c.mix.gas.computed - rs.computed * c.mix.oil.computed) / _ = _
    rw [Dual.computed_mul, Dual.computed_sub, Dual.computed_div _ h]
    rfl

private theorem suppressed_computed : c.computed.Suppressed ↔ c.Suppressed := by
  unfold Suppressed
  rw [drawdown_computed]
  exact Iff.rfl

variable [IsStrictOrderedRing K]

private theorem streamVolume?_computed (hpvt : pvt'.Computes pvt)
    (hb : ∀ p, phases.isActive p = true → (c.cell.invB.get p).value ≠ 0) {v : Option (WellDual K)}
    (h : c.streamVolume? phases pvt = .ok v) : c.computed.streamVolume? phases pvt' = .ok (v.map Dual.computed) := by
  unfold streamVolume? at h ⊢
  by_cases hog : phases.hasOilAndGas = true
  · rw [if_pos hog] at h ⊢
    obtain ⟨rsSat, hrs, h⟩ := Outcome.bind_ok.1 h
    obtain ⟨rvSat, hrv, h⟩ := Outcome.bind_ok.1 h
    have hrs' := hpvt.dissolvedGas c.cell.region c.cell.temperature c.wellPressure
    have hrv' := hpvt.vaporizedOil c.cell.region c.cell.temperature c.wellPressure
    rw [hrs] at hrs'
    rw [hrv] at hrv'
    refine Outcome.bind_ok.2 ⟨_, hrs', Outcome.bind_ok.2 ⟨_, hrv', ?_⟩⟩
    have hrsRatio := streamRatio_computed c.mix.gas c.mix.oil rsSat
    have hrvRatio := streamRatio_computed c.mix.oil c.mix.gas rvSat
    change streamRatio c.computed.mix.gas c.computed.mix.oil rsSat.computed = _ at hrsRatio
    change streamRatio c.computed.mix.oil c.computed.mix.gas rvSat.computed = _ at hrvRatio
    rw [hrsRatio, hrvRatio]
    generalize streamRatio c.mix.gas c.mix.oil rsSat = rs at h ⊢
    generalize streamRatio c.mix.oil c.mix.gas rvSat = rv at h ⊢
    have hd : (1 : Computed K) - rv.computed * rs.computed = ((1 : K) - rv * rs).computed := by
      rw [Dual.computed_mul]
      exact Dual.computed_scalar_sub 1 _
    dsimp only at h ⊢
    rw [hd]
    by_cases hsmall : |((1 : K) - rv * rs).value| < 1e-12
    · have h' : (pure none : Except FluidError (Option (WellDual K))) = .ok v := (if_pos hsmall).symm.trans h
      cases h'
      exact if_pos hsmall
    · have h' := (if_neg hsmall).symm.trans h
      cases h'
      refine (if_neg hsmall).trans ?_
      have hfree (p : Phase) := c.freeStream_computed rs rv (ne_zero_of_guard hsmall) p
      exact congrArg (fun d => Except.ok (some d)) (c.total_div_computed hb fun p _ => hfree p)
  · rw [if_neg hog] at h ⊢
    cases h
    have hmix (p : Phase) (_ : phases.isActive p = true) :
        (c.mix.map Dual.computed).get p = (c.mix.get p).computed := PerPhase.get_map Dual.computed c.mix p
    exact congrArg (fun d => Except.ok (some d)) (c.total_div_computed hb hmix)

private theorem outflow_computed (hpvt : pvt'.Computes pvt)
    (hb : ∀ p, phases.isActive p = true → (c.cell.invB.get p).value ≠ 0) {q : PerPhase (WellDual K)}
    (h : c.outflow phases pvt = .ok q) : c.computed.outflow phases pvt' = .ok (q.map Dual.computed) := by
  obtain ⟨v, hv, h⟩ := Outcome.bind_ok.1 h
  have hv' := c.streamVolume?_computed hpvt hb (Outcome.ofFluid_ok.1 hv)
  refine Outcome.bind_ok.2 ⟨_, Outcome.ofFluid_ok.2 hv', ?_⟩
  cases v with
  | none =>
    cases h
    exact congrArg Except.ok PerPhase.zero_computed
  | some volume =>
    dsimp only [Option.map_some] at h ⊢
    by_cases hsmall : |volume.value| < 1e-12
    · cases (if_pos hsmall).symm.trans h
      exact (if_pos hsmall).trans (congrArg Except.ok PerPhase.zero_computed)
    · have h := (if_neg hsmall).symm.trans h
      refine (if_neg hsmall).trans ?_
      rw [c.streamRate_computed (ne_zero_of_guard hsmall)]
      generalize phases.total c.mobility * c.drawdown * -c.transmissibility / volume = rate at h ⊢
      have hq : phases.select (c.computed.mix.map (· * rate.computed)) (.replicate 0) =
          (phases.select (c.mix.map (· * rate)) (.replicate 0)).map Dual.computed := by
        rw [← PhaseSet.select_computed]
        simp only [computed, PerPhase.map, Dual.computed_mul]
      rw [hq]
      generalize phases.select (c.mix.map (· * rate)) (.replicate 0) = r at h ⊢
      have hr : r = q := by
        split at h
        · exact Except.ok.inj h
        · cases h
      rw [hr]
      exact if_pos q.isFinite_computed

/-- A flow through a connection divides by no zero, unless a volume factor is zero. -/
theorem flux_computed (hpvt : pvt'.Computes pvt)
    (hb : ∀ p, phases.isActive p = true → (c.cell.invB.get p).value ≠ 0) {q : PerPhase (WellDual K)}
    (h : c.flux phases pvt = .ok q) : c.computed.flux phases pvt' = .ok (q.map Dual.computed) := by
  have hdrawdown : 0 < c.computed.drawdown.value ↔ 0 < c.drawdown.value := by
    rw [drawdown_computed]
    exact Iff.rfl
  by_cases hs : c.Suppressed
  · rw [flux_of_suppressed hs] at h
    cases h
    rw [flux_of_suppressed (c.suppressed_computed.2 hs), PerPhase.zero_computed]
  have hs' : ¬c.computed.Suppressed := mt c.suppressed_computed.1 hs
  by_cases hd : 0 < c.drawdown.value
  · rw [flux_of_inward hs hd] at h
    cases h
    rw [flux_of_inward hs' (hdrawdown.2 hd), inflow_computed]
  · rw [flux_of_outward hs hd] at h
    rw [flux_of_outward hs' (mt hdrawdown.1 hd)]
    exact c.outflow_computed hpvt hb h

end ConnectionInput

/-! ### Lift tables -/

section

variable [Field K] [LinearOrder K]

namespace Axis

private theorem lt_of_isIncreasing {axis : List K} (h : isIncreasing axis = true) {i : Nat} {a b : K}
    (ha : axis[i]? = some a)
    (hb : axis[i + 1]? = some b) : a < b := by
  induction axis generalizing i with
  | nil => cases ha
  | cons x axis ih =>
    cases axis with
    | nil => cases hb
    | cons y axis =>
      obtain ⟨hxy, haxis⟩ := Bool.and_eq_true_iff.1 h
      cases i with
      | zero =>
        cases ha
        cases hb
        exact of_decide_eq_true hxy
      | succ i => exact ih haxis ha hb

private theorem lowerNode_computed (axis : List K) (x : K) :
    lowerNode (axis.map .value) (Computed.value x) = lowerNode axis x := by
  rw [lowerNode, lowerNode, List.takeWhile_map, List.length_map, List.length_map]
  rfl

/-- The position on an increasing axis is defined. -/
private theorem weight_computed {axis : List K} (h : isIncreasing axis = true) (i : Nat) (x : K) :
    weight (axis.map .value) i (Computed.value x) = .value (weight axis i x) := by
  unfold weight
  rw [List.getElem?_map, List.getElem?_map]
  cases ha : axis[i]? with
  | none => rfl
  | some a =>
    cases hb : axis[i + 1]? with
    | none => rfl
    | some b => exact if_neg (sub_ne_zero.2 (lt_of_isIncreasing h ha hb).ne')

private theorem valueAt_computed {values : List K} {i : Nat} {s x : K} (h : valueAt values i s = .ok x) :
    valueAt (values.map .value) i (Computed.value s) = .ok (.value x) := by
  obtain ⟨lo, hlo, h⟩ := Outcome.bind_ok.1 h
  cases h
  refine Outcome.bind_ok.2 ⟨.value lo, ?_, ?_⟩
  · rw [List.getElem?_map, Outcome.need_ok.1 hlo]
    rfl
  · rw [List.getElem?_map]
    cases values[i + 1]? <;> rfl

end Axis

private theorem FlowKind.flow_computed (k : FlowKind) (rates : PerPhase (WellDual K)) :
    k.flow (rates.map Dual.computed) = (k.flow rates).computed := by
  cases k with
  | oil => exact Dual.computed_abs _
  | liquid => exact (congrArg Dual.abs (Dual.computed_add _ _)).trans (Dual.computed_abs _)
  | gas => exact Dual.computed_abs _

namespace LiftTable

/-- A lift table in computed numbers. -/
def computed (t : LiftTable K) : LiftTable (Computed K) where
  id := t.id
  datumDepth := .value t.datumDepth
  flowKind := t.flowKind
  flowNodes := t.flowNodes.map .value
  thpNodes := t.thpNodes.map .value
  grid := t.grid.map (·.map .value)

theorem increasing_of_validate {t : LiftTable K} (h : t.validate = .ok ⟨⟩) :
    Axis.isIncreasing t.flowNodes = true ∧ Axis.isIncreasing t.thpNodes = true := by
  change (if _ then (.error _ : Outcome K PUnit) else if _ then .error _ else _) = _ at h
  split at h
  · cases h
  split at h
  · cases h
  rename_i hincreasing
  exact Bool.and_eq_true_iff.1 (not_not.1 hincreasing)

/-- The bottom-hole pressure at a flow in the interval above node `i` and at the position `s` above the tubing-head
pressure of node `j`. -/
def bhpAt {α : Type} [Scalar α] (t : LiftTable α) (flow : WellDual α) (i j : Nat) (s : α) : Outcome α (WellDual α) := do
  let row ← Outcome.need t.grid[i]?
  let low ← Axis.valueAt row j s
  match t.flowNodes[i]?, t.flowNodes[i + 1]?, t.grid[i + 1]? with
  | some f, some g, some row =>
    let high ← Axis.valueAt row j s
    return (flow - f) / (g - f) * (high - low) + low
  | _, _, _ => return .const low

/-- What is read from a table is refused only if it is not finite. -/
theorem bhp_eq {α : Type} [Scalar α] (t : LiftTable α) (rates : PerPhase (WellDual α)) (thp : α) :
    t.bhp rates thp =
      t.bhpAt (t.flowKind.flow rates) (Axis.lowerNode t.flowNodes (t.flowKind.flow rates).value)
        (Axis.lowerNode t.thpNodes thp) (Axis.weight t.thpNodes (Axis.lowerNode t.thpNodes thp) thp) >>= fun b =>
      if b.isFinite then .ok b else .error (.numerical (.liftNotFinite t.id)) := by
  unfold bhp bhpAt
  rw [bind_assoc]
  refine bind_congr fun row => ?_
  rw [bind_assoc]
  refine bind_congr fun low => ?_
  dsimp only
  generalize t.flowNodes[Axis.lowerNode t.flowNodes (t.flowKind.flow rates).value]? = f
  generalize t.flowNodes[Axis.lowerNode t.flowNodes (t.flowKind.flow rates).value + 1]? = g
  generalize t.grid[Axis.lowerNode t.flowNodes (t.flowKind.flow rates).value + 1]? = next
  cases f with
  | none => rfl
  | some f =>
    cases g with
    | none => rfl
    | some g =>
      cases next with
      | none => rfl
      | some next =>
        dsimp only
        rw [bind_assoc]
        rfl

private theorem bhpAt_computed {t : LiftTable K} (ht : Axis.isIncreasing t.flowNodes = true) {flow b : WellDual K}
    {i j : Nat}
    {s : K} (h : t.bhpAt flow i j s = .ok b) :
    t.computed.bhpAt flow.computed i j (.value s) = .ok b.computed := by
  have hrows (k : Nat) : t.computed.grid[k]? = t.grid[k]?.map (·.map .value) := List.getElem?_map
  have hnodes (k : Nat) : t.computed.flowNodes[k]? = t.flowNodes[k]?.map .value := List.getElem?_map
  obtain ⟨row, hrow, h⟩ := Outcome.bind_ok.1 h
  obtain ⟨low, hlow, h⟩ := Outcome.bind_ok.1 h
  have hrow' : (Outcome.need t.computed.grid[i]? : Outcome (Computed K) _) = .ok (row.map .value) := by
    rw [hrows, Outcome.need_ok.1 hrow]
    rfl
  refine Outcome.bind_ok.2 ⟨_, hrow', Outcome.bind_ok.2 ⟨_, Axis.valueAt_computed hlow, ?_⟩⟩
  rw [hnodes, hnodes, hrows]
  cases hf : t.flowNodes[i]? with
  | none =>
    rw [hf] at h
    cases h
    exact congrArg Except.ok (Dual.computed_const low)
  | some f =>
    cases hg : t.flowNodes[i + 1]? with
    | none =>
      rw [hf, hg] at h
      cases h
      exact congrArg Except.ok (Dual.computed_const low)
    | some g =>
      cases hnext : t.grid[i + 1]? with
      | none =>
        rw [hf, hg, hnext] at h
        cases h
        exact congrArg Except.ok (Dual.computed_const low)
      | some next =>
        rw [hf, hg, hnext] at h
        obtain ⟨high, hhigh, h⟩ := Outcome.bind_ok.1 h
        cases h
        have hinterval : g - f ≠ 0 := sub_ne_zero.2 (Axis.lt_of_isIncreasing ht hf hg).ne'
        refine Outcome.bind_ok.2 ⟨_, Axis.valueAt_computed hhigh, congrArg Except.ok ?_⟩
        change (flow - f).computed / Computed.value (g - f) * Computed.value (high - low) + Computed.value low = _
        rw [Dual.computed_div_scalar _ hinterval, Dual.computed_mul_scalar]
        rfl

/-- The bottom-hole pressure of a validated table is defined. -/
theorem bhp_computed {t : LiftTable K} (ht : t.validate = .ok ⟨⟩) {rates : PerPhase (WellDual K)} {thp : K}
    {b : WellDual K} (h : t.bhp rates thp = .ok b) :
    t.computed.bhp (rates.map Dual.computed) (.value thp) = .ok b.computed := by
  obtain ⟨hflow, hthp⟩ := increasing_of_validate ht
  have hread : t.bhpAt (t.flowKind.flow rates) (Axis.lowerNode t.flowNodes (t.flowKind.flow rates).value)
      (Axis.lowerNode t.thpNodes thp) (Axis.weight t.thpNodes (Axis.lowerNode t.thpNodes thp) thp) = .ok b := by
    rw [bhp_eq] at h
    obtain ⟨b', hb', h⟩ := Outcome.bind_ok.1 h
    split at h
    · cases h
      exact hb'
    · cases h
  -- the table is read at the same nodes and at the same position
  have hflowOf : t.computed.flowKind.flow (rates.map Dual.computed) = (t.flowKind.flow rates).computed :=
    t.flowKind.flow_computed rates
  have hi : Axis.lowerNode t.computed.flowNodes (t.flowKind.flow rates).computed.value = _ :=
    Axis.lowerNode_computed t.flowNodes (t.flowKind.flow rates).value
  have hj : Axis.lowerNode t.computed.thpNodes (.value thp) = _ := Axis.lowerNode_computed t.thpNodes thp
  have hs : Axis.weight t.computed.thpNodes (Axis.lowerNode t.thpNodes thp) (.value thp) = _ :=
    Axis.weight_computed hthp (Axis.lowerNode t.thpNodes thp) thp
  rw [bhp_eq, hflowOf, hi, hj, hs, bhpAt_computed hflow hread]
  exact if_pos b.isFinite_computed

end LiftTable

end

/-! ### The flows of a well -/

/-- The quantity of a control in computed numbers. -/
def ControlKind.computed : ControlKind K → ControlKind (Computed K)
  | .bhp => .bhp
  | .thp table lift => .thp table (.value lift)
  | .surfaceRate => .surfaceRate
  | .reservoirRate => .reservoirRate

/-- A control in computed numbers. -/
def Control.computed (c : Control K) : Control (Computed K) := ⟨c.kind.computed, .value c.target, c.weights.map .value⟩

/-- A connection in computed numbers. -/
def Connection.computed (c : Connection K) : Connection (Computed K) :=
  ⟨c.cell, .value c.transmissibility, .value c.depth, .value c.efficiency⟩

/-- A segment in computed numbers. -/
def Segment.computed (s : Segment K) : Segment (Computed K) := ⟨.value s.density, .value s.head, .value s.efficiency⟩

/-- A well in computed numbers. -/
def Well.computed (w : Well K) : Well (Computed K) where
  name := w.name
  type := w.type
  refDepth := .value w.refDepth
  connections := w.connections.map Connection.computed
  composition := w.composition.map .value
  controls := ⟨w.controls.list.map Control.computed, w.controls.initial⟩
  crossFlow := w.crossFlow

/-- What the state holds for a well, in computed numbers. -/
def Slot.computed (s : Slot K) : Slot (Computed K) where
  bhp := s.bhp.map .value
  thp := s.thp.map .value
  rates := s.rates.map (·.map .value)
  unknowns := s.unknowns.map fun x => ⟨.value x.lead, .value x.water, .value x.gas⟩
  control := s.control

/-- The flow through a connection in computed numbers. -/
def ConnectionFlow.computed (f : ConnectionFlow K) : ConnectionFlow (Computed K) :=
  ⟨f.cell, .value f.efficiency, .value f.pressure, f.flux.map Dual.computed⟩

/-- Settings in computed numbers. -/
def Settings.computed (s : Settings K) : Settings (Computed K) where
  tolerance := .value s.tolerance
  maxResidual := .value s.maxResidual
  maxBhpChange := .value s.maxBhpChange
  maxFractionChange := .value s.maxFractionChange
  maxLocalIterations := s.maxLocalIterations
  solveFirst := s.solveFirst
  storageVolume := .value s.storageVolume
  gravity := .value s.gravity
  minBhp := .value s.minBhp
  terminalOutput := s.terminalOutput

/-- What the wells share, with a fluid model in computed numbers.  The flows do not ask for voidage coefficients. -/
def Setup.computed (s : Setup K) (pvt' : PvtModel (Computed K)) : Setup (Computed K) where
  phases := s.phases
  settings := s.settings.computed
  pvt := pvt'
  lift := ⟨s.lift.list.map LiftTable.computed⟩
  converter := none

section

variable [Field K] [LinearOrder K]

/-- A well of a model in computed numbers.  The flows do not look at its linear system. -/
def WellUnit.computed (u : WellUnit K) : WellUnit (Computed K) :=
  { create u.well.computed with
    unknowns := ⟨u.unknowns.lead.computed, u.unknowns.water.computed, u.unknowns.gas.computed⟩
    startFractions := u.startFractions.map .value
    segments := u.segments.map Segment.computed }

omit [Field K] [LinearOrder K] in
theorem cellAt_ok {α : Type} {cells : List (Cell α)} {k : Nat} {cell : Cell α} :
    cellAt cells k = .ok cell ↔ cells[k]? = some cell := by
  unfold cellAt
  cases cells[k]? with
  | none => exact ⟨nofun, nofun⟩
  | some c => exact ⟨fun h => congrArg some (Except.ok.inj h), fun h => congrArg Except.ok (Option.some.inj h)⟩

omit [Field K] [LinearOrder K] in
private theorem cellAt_computed {cells : List (Cell K)} {k : Nat} {cell : Cell K} (h : cellAt cells k = .ok cell) :
    cellAt (cells.map Cell.computed) k = .ok cell.computed := by
  rw [cellAt_ok, List.getElem?_map, cellAt_ok.1 h]
  rfl

omit [Field K] [LinearOrder K] in
private theorem LiftTables.get_computed {ts : LiftTables K} {id : Nat} {t : LiftTable K} (h : ts.get id = .ok t) :
    LiftTables.get ⟨ts.list.map LiftTable.computed⟩ id = .ok t.computed ∧ t ∈ ts.list := by
  have hid : ((·.id == id) ∘ LiftTable.computed) = fun t : LiftTable K => t.id == id := rfl
  unfold get at h ⊢
  rw [List.find?_map, hid]
  cases hfind : ts.list.find? (·.id == id) with
  | none =>
    rw [hfind] at h
    cases h
  | some t' =>
    rw [hfind] at h
    cases h
    exact ⟨rfl, List.mem_of_find?_eq_some hfind⟩

private theorem Control.fractionScale_computed (c : Control K) :
    c.computed.fractionScale = c.fractionScale.map .value := by
  unfold fractionScale
  cases hk : c.kind <;> simp only [computed, hk, ControlKind.computed] <;> rfl

namespace WellUnit

variable {u : WellUnit K} {setup : Setup K} {control : Control K} {pvt' : PvtModel (Computed K)}

private theorem fraction_computed (u : WellUnit K) (phases : PhaseSet) (p : Phase) :
    u.computed.fraction phases p = (u.fraction phases p).computed := by
  cases p with
  | water => rfl
  | gas => rfl
  | oil =>
    have hone : (.const 1 : WellDual (Computed K)) = (.const 1 : WellDual K).computed := Dual.computed_const 1
    have hwater : u.computed.unknowns.water = u.unknowns.water.computed := rfl
    have hgas : u.computed.unknowns.gas = u.unknowns.gas.computed := rfl
    unfold fraction
    rw [hone, hwater, hgas]
    cases phases.water <;> cases phases.gas <;>
      simp only [Bool.false_eq_true, if_true, if_false, Dual.computed_sub]

private theorem mix_computed (u : WellUnit K) (phases : PhaseSet) :
    u.computed.mix phases = (u.mix phases).map Dual.computed := by
  rw [mix, mix, ← PhaseSet.select_computed, funext (u.fraction_computed phases)]
  rfl

private theorem scaledFraction_computed (u : WellUnit K) (phases : PhaseSet) (control : Control K) (p : Phase) :
    u.computed.scaledFraction phases control.computed p = (u.scaledFraction phases control p).computed := by
  unfold scaledFraction
  rw [control.fractionScale_computed, PerPhase.get_map, fraction_computed]
  generalize control.fractionScale.get p = scale
  by_cases hzero : scale = 0
  · have hbeq : (scale == 0) = true := decide_eq_true hzero
    dsimp only
    rw [if_pos hbeq, ← Dual.computed_zero]
    exact if_pos hbeq
  · have hbeq : ¬(scale == 0) = true := mt of_decide_eq_true hzero
    dsimp only
    rw [if_neg hbeq, ← Dual.computed_div_scalar _ hzero]
    exact if_neg hbeq

/-- Under a tubing-head control the rates that the lift table is read at are defined. -/
private theorem surfaceRate_computed {table : Nat} {lift : K} (hk : control.kind = .thp table lift) (phases : PhaseSet)
    (p : Phase) : u.computed.surfaceRate phases control.computed p = (u.surfaceRate phases control p).computed := by
  have hk' : control.computed.kind = .thp table (.value lift) := by
    rw [Control.computed, hk]
    rfl
  have hlead : u.computed.unknowns.lead = u.unknowns.lead.computed := rfl
  have hinjector : u.computed.well.isInjector = u.well.isInjector := rfl
  have hcomposition : u.computed.well.composition.get p = .value (u.well.composition.get p) := PerPhase.get_map _ _ p
  have hbeq : ((Computed.value (u.well.composition.get p)) == 0) = (u.well.composition.get p == 0) := rfl
  unfold surfaceRate
  rw [hk, hk', hlead, hinjector, hcomposition, hbeq]
  dsimp only
  rw [scaledFraction_computed, Dual.computed_mul]
  by_cases hi : u.well.isInjector = true
  · rw [if_pos hi, if_pos hi]
    by_cases hzero : (u.well.composition.get p == 0) = true
    · rw [if_pos hzero, if_pos hzero, Dual.computed_zero]
    · rw [if_neg hzero, if_neg hzero]
      rfl
  · rw [if_neg hi, if_neg hi]

private theorem liftRates_computed (u : WellUnit K) (control : Control K) {table : Nat} {lift : K}
    (hk : control.kind = .thp table lift) (phases : PhaseSet) :
    phases.select (.ofFn (u.computed.surfaceRate phases control.computed)) (.replicate 0) =
      (phases.select (.ofFn (u.surfaceRate phases control)) (.replicate 0)).map Dual.computed := by
  rw [← PhaseSet.select_computed, funext (surfaceRate_computed hk phases)]
  rfl

private theorem liftCorrection_computed (u : WellUnit K) (setup : Setup K) (t : LiftTable K) :
    u.computed.liftCorrection (setup.computed pvt') t.computed = .value (u.liftCorrection setup t) := by
  have hdensity : (u.computed.segments.head?.map (·.density)).getD 0 =
      Computed.value ((u.segments.head?.map (·.density)).getD 0) := by
    change ((u.segments.map Segment.computed).head?.map (·.density)).getD 0 = _
    cases u.segments <;> rfl
  rw [liftCorrection, hdensity]
  rfl

/-- The bottom-hole pressure is defined if the lift tables are valid. -/
theorem bottomHole_computed (hlift : ∀ t ∈ setup.lift.list, t.validate = .ok ⟨⟩) {bhp : WellDual K}
    (h : u.bottomHole setup control = .ok bhp) :
    u.computed.bottomHole (setup.computed pvt') control.computed = .ok bhp.computed := by
  obtain ⟨kind, target, weights⟩ := control
  cases kind with
  | bhp =>
    cases h
    exact congrArg Except.ok (Dual.computed_const target)
  | surfaceRate =>
    cases h
    rfl
  | reservoirRate =>
    cases h
    rfl
  | thp table lift =>
    obtain ⟨t, ht, h⟩ := Outcome.bind_ok.1 h
    obtain ⟨b, hb, h⟩ := Outcome.bind_ok.1 h
    cases h
    obtain ⟨ht', hmem⟩ := LiftTables.get_computed ht
    have hrates := u.liftRates_computed ⟨.thp table lift, target, weights⟩ rfl setup.phases
    have hb' := LiftTable.bhp_computed (hlift t hmem) hb
    rw [← hrates] at hb'
    refine Outcome.bind_ok.2 ⟨_, ht', Outcome.bind_ok.2 ⟨_, hb', congrArg Except.ok ?_⟩⟩
    rw [liftCorrection_computed]
    rfl

private theorem links_computed (u : WellUnit K) :
    u.computed.links = u.links.map (Prod.map Connection.computed Segment.computed) := List.zip_map

private theorem isForward_computed (type : WellType) (drawdown : K) :
    isForward type (Computed.value drawdown) = isForward type drawdown := by
  cases type with
  | injector => exact decide_eq_decide.2 Iff.rfl
  | producer => exact decide_eq_decide.2 Iff.rfl

private theorem admitsCrossFlow_computed (hlift : ∀ t ∈ setup.lift.list, t.validate = .ok ⟨⟩) {cells : List (Cell K)}
    {crossFlow : Bool} (h : u.admitsCrossFlow setup cells (.ok control) = .ok crossFlow) :
    u.computed.admitsCrossFlow (setup.computed pvt') (cells.map Cell.computed) (.ok control.computed) =
      .ok crossFlow := by
  unfold admitsCrossFlow at h ⊢
  by_cases hopen : u.well.crossFlow = true
  · rw [if_pos hopen] at h
    cases h
    exact if_pos hopen
  · rw [if_neg hopen] at h
    refine (if_neg hopen).trans ?_
    obtain ⟨_, hcontrol, h⟩ := Outcome.bind_ok.1 h
    cases hcontrol
    obtain ⟨bhp, hb, h⟩ := Outcome.bind_ok.1 h
    refine Outcome.bind_ok.2 ⟨_, rfl, Outcome.bind_ok.2 ⟨_, bottomHole_computed hlift hb, ?_⟩⟩
    rw [links_computed]
    refine Outcome.allM_map (fun link _ b hlink => ?_) h
    obtain ⟨cell, hcell, hlink⟩ := Outcome.bind_ok.1 hlink
    cases hlink
    refine Outcome.bind_ok.2 ⟨_, cellAt_computed hcell, ?_⟩
    exact congrArg (fun forward => Except.ok !forward) (isForward_computed _ _)

variable [IsStrictOrderedRing K]

theorem connectionFlux_computed (hpvt : pvt'.Computes setup.pvt) {cells : List (Cell K)} {crossFlow : Bool}
    {bhp : WellDual K} {link : Connection K × Segment K}
    (hb : ∀ cell, cellAt cells link.1.cell = .ok cell →
      ∀ p, setup.phases.isActive p = true → (cell.invB.get p).value ≠ 0) {q : PerPhase (WellDual K)}
    (h : u.connectionFlux setup cells crossFlow bhp link = .ok q) :
    u.computed.connectionFlux (setup.computed pvt') (cells.map Cell.computed) crossFlow bhp.computed
      (Prod.map Connection.computed Segment.computed link) = .ok (q.map Dual.computed) := by
  obtain ⟨cell, hcell, h⟩ := Outcome.bind_ok.1 h
  refine Outcome.bind_ok.2 ⟨_, cellAt_computed hcell, ?_⟩
  have hflux := ConnectionInput.flux_computed _ hpvt (hb cell hcell) h
  rw [ConnectionInput.computed, ← mix_computed] at hflux
  exact hflux

/-- The flows of a well divide by no zero, unless a volume factor is zero or a lift table has not been validated. -/
theorem connectionFlows_computed (hpvt : pvt'.Computes setup.pvt)
    (hlift : ∀ t ∈ setup.lift.list, t.validate = .ok ⟨⟩) {cells : List (Cell K)}
    (hb : ∀ link ∈ u.links, ∀ cell, cellAt cells link.1.cell = .ok cell →
      ∀ p, setup.phases.isActive p = true → (cell.invB.get p).value ≠ 0) {s : Slot K} {flows : List (ConnectionFlow K)}
    (h : u.connectionFlows setup cells s control = .ok flows) :
    u.computed.connectionFlows (setup.computed pvt') (cells.map Cell.computed) s.computed control.computed =
      .ok (flows.map ConnectionFlow.computed) := by
  obtain ⟨bhp, hbhp, h⟩ := Outcome.bind_ok.1 h
  obtain ⟨crossFlow, hcross, h⟩ := Outcome.bind_ok.1 h
  refine Outcome.bind_ok.2 ⟨_, bottomHole_computed hlift hbhp, ?_⟩
  refine Outcome.bind_ok.2 ⟨_, admitsCrossFlow_computed hlift hcross, ?_⟩
  rw [links_computed]
  refine Outcome.mapM_map_ok (fun link hlink flow hflow => ?_) h
  obtain ⟨q, hq, hflow⟩ := Outcome.bind_ok.1 hflow
  obtain ⟨reported, hreported, hflow⟩ := Outcome.bind_ok.1 hflow
  cases hflow
  have hreported' : s.computed.bhp = some (.value reported) := by
    rw [Slot.computed, Outcome.need_ok.1 hreported]
    rfl
  refine Outcome.bind_ok.2 ⟨_, connectionFlux_computed hpvt (hb link hlink) hq, ?_⟩
  exact Outcome.bind_ok.2 ⟨_, Outcome.need_ok.2 hreported', rfl⟩

end WellUnit

end

end BlackOilWells
