import BlackOilWells.Proofs.DefinedFlows
import BlackOilWells.Proofs.StateSizes

/-!
# Densities of the segments of a well

The density of a segment is the mass of its mix over its volume.  Oil and gas carry each other, and their free parts
come from inverting that exchange, with a quotient by `1 - rs * rv`.  The ratios `rs` and `rv` are those of the mix,
capped at saturation, and multiply to one exactly if neither is capped (`PerPhase.TakenUp`): all the gas could be
dissolved in the oil and all the oil vaporized into the gas, and nothing says which of them is free.

Apart from such mixes no division by zero enters a density, and it is not negative; for them the density is undefined
(`Well.densities_defined`).
-/

namespace BlackOilWells

variable {K : Type} [Field K] [LinearOrder K]

/-! ### Ratios of a mix -/

/-- Whether the oil and the gas of a mix take each other up completely at given ratios. -/
structure PerPhase.TakenUp (mix : PerPhase K) (rs rv : K) : Prop where
  oil_pos : 0 < mix.oil
  gas_pos : 0 < mix.gas
  gas_le : mix.gas ≤ rs * mix.oil
  oil_le : mix.oil ≤ rv * mix.gas

section

variable [IsStrictOrderedRing K] {a b s t : K}

private theorem saturatedRatio_lt_one (ha : 0 ≤ a) (hb : 0 ≤ b) (hs : 0 ≤ s) (ht : 0 ≤ t) (h : s * b < a) :
    saturatedRatio a b s * saturatedRatio b a t < 1 := by
  have ha' : 0 < a := (mul_nonneg hs hb).trans_lt h
  have hle : saturatedRatio a b s * saturatedRatio b a t * a < 1 * a := by
    calc saturatedRatio a b s * saturatedRatio b a t * a = saturatedRatio a b s * (saturatedRatio b a t * a) :=
          mul_assoc ..
      _ ≤ s * b := mul_le_mul (min_le_right _ _) (saturatedRatio_mul_le hb ha)
          (mul_nonneg (saturatedRatio_nonneg hb ht) ha) hs
      _ < a := h
      _ = 1 * a := (one_mul a).symm
  exact lt_of_mul_lt_mul_right hle ha

/-- The capped ratios of a mix multiply to one exactly if neither is capped. -/
private theorem saturatedRatio_mul_eq_one_iff {mix : PerPhase K} (hoil : 0 ≤ mix.oil) (hgas : 0 ≤ mix.gas) (hs : 0 ≤ s)
    (ht : 0 ≤ t) : saturatedRatio mix.gas mix.oil s * saturatedRatio mix.oil mix.gas t = 1 ↔ mix.TakenUp s t := by
  constructor
  · intro hone
    refine ⟨?_, ?_, ?_, ?_⟩
    · by_contra hnot
      rw [saturatedRatio_of_not_pos hnot hs, zero_mul] at hone
      exact zero_ne_one hone
    · by_contra hnot
      rw [saturatedRatio_of_not_pos hnot ht, mul_zero] at hone
      exact zero_ne_one hone
    · by_contra hnot
      exact (saturatedRatio_lt_one hgas hoil hs ht (not_le.1 hnot)).ne hone
    · by_contra hnot
      rw [mul_comm] at hone
      exact (saturatedRatio_lt_one hoil hgas ht hs (not_le.1 hnot)).ne hone
  · rintro ⟨hoil, hgas, hrs, hrv⟩
    have hfirst : saturatedRatio mix.gas mix.oil s = mix.gas / mix.oil := by
      rw [saturatedRatio, if_pos hoil, min_eq_left ((div_le_iff₀ hoil).2 hrs)]
    have hsecond : saturatedRatio mix.oil mix.gas t = mix.oil / mix.gas := by
      rw [saturatedRatio, if_pos hgas, min_eq_left ((div_le_iff₀ hgas).2 hrv)]
    rw [hfirst, hsecond, div_mul_div_comm, mul_comm mix.oil, div_self (mul_ne_zero hgas.ne' hoil.ne')]

omit [IsStrictOrderedRing K] in
private theorem mixRatio_computed (part whole : K) (saturated : Option K) :
    mixRatio (.value part) (.value whole) (saturated.map .value) = Computed.value (mixRatio part whole saturated) := by
  cases saturated with
  | none => rfl
  | some most =>
    change (if 0 < whole then Scalar.min (Computed.value part / .value whole) (.value most) else 0) =
      Computed.value (if 0 < whole then Scalar.min (part / whole) most else 0)
    by_cases hw : 0 < whole
    · have hdiv : (Computed.value part / .value whole : Computed K) = .value (part / whole) := if_neg hw.ne'
      rw [if_pos hw, if_pos hw, hdiv]
      by_cases hlt : most < part / whole
      · exact (if_pos hlt).trans (congrArg Computed.value (if_pos hlt).symm)
      · exact (if_neg hlt).trans (congrArg Computed.value (if_neg hlt).symm)
    · rw [if_neg hw, if_neg hw]
      rfl

private theorem mixRatio_eq {part whole : K} {saturated : Option K} (hpart : 0 ≤ part) (hsat : ∀ x ∈ saturated, 0 ≤ x) :
    mixRatio part whole saturated = saturatedRatio part whole (saturated.getD 0) := by
  cases saturated with
  | none =>
    have hnonneg : 0 ≤ if 0 < whole then part / whole else 0 := by
      split
      · exact div_nonneg hpart (by assumption : 0 < whole).le
      · exact le_rfl
    exact (min_eq_right hnonneg).symm
  | some most =>
    unfold mixRatio saturatedRatio
    by_cases hw : 0 < whole
    · dsimp only
      rw [if_pos hw, if_pos hw, Scalar.min_exact]
      rfl
    · dsimp only
      rw [if_neg hw, if_neg hw]
      exact (min_eq_left (hsat most rfl)).symm

end

/-! ### The density of a mix -/

namespace PhaseSet

variable {phases : PhaseSet}

private theorem total_value {q : PerPhase K} {r : PerPhase (Computed K)}
    (h : ∀ p, phases.isActive p = true → r.get p = .value (q.get p)) : phases.total r = .value (phases.total q) := by
  have hfold (l : List Phase) (hl : ∀ p ∈ l, r.get p = .value (q.get p)) (x : K) :
      (l.map r.get).foldl (· + ·) (.value x) = Computed.value ((l.map q.get).foldl (· + ·) x) := by
    induction l generalizing x with
    | nil => rfl
    | cons p l ih =>
      rw [List.map_cons, List.foldl_cons, List.map_cons, List.foldl_cons, hl p (List.mem_cons_self ..)]
      exact ih (fun p' hp' => hl p' (List.mem_cons_of_mem p hp')) _
  exact hfold _ (fun p hp => h p (isActive_of_mem hp)) _

/-- An undefined part spoils the total. -/
private theorem total_undefined {p : Phase} (hp : phases.isActive p = true) {r : PerPhase (Computed K)}
    (h : r.get p = .undefined) : phases.total r = .undefined := by
  have hspoiled (l : List (Computed K)) : l.foldl (· + ·) .undefined = .undefined := by
    induction l with
    | nil => rfl
    | cons x l ih => exact ih
  have hfold (l : List Phase) (hl : p ∈ l) (x : Computed K) : (l.map r.get).foldl (· + ·) x = .undefined := by
    induction l generalizing x with
    | nil => exact absurd hl List.not_mem_nil
    | cons p' l ih =>
      rw [List.map_cons, List.foldl_cons]
      rcases List.mem_cons.1 hl with rfl | hl
      · have hx : x + r.get p = .undefined := by
          rw [h]
          cases x <;> rfl
        rw [hx]
        exact hspoiled _
      · exact ih hl _
  exact hfold _ (List.mem_filter.2 ⟨by cases p <;> decide, hp⟩) _

theorem total_eq_sum (q : PerPhase K) : phases.total q = phases.sum q := by
  rw [sum, Scalar.sum_exact, List.sum_eq_foldl]
  rfl

private theorem total_nonneg [IsStrictOrderedRing K] {q : PerPhase K}
    (h : ∀ p, phases.isActive p = true → 0 ≤ q.get p) :
    0 ≤ phases.total q := by
  rw [total_eq_sum]
  exact sum_nonneg h

end PhaseSet

/-- The free parts of a mix at ratios that oil and gas carry each other at. -/
def freeParts {α : Type} [Scalar α] (rs rv : α) (mix : PerPhase α) : PerPhase α where
  water := mix.water
  oil := if rv == 0 then mix.oil else (mix.oil - mix.gas * rv) / (1 - rs * rv)
  gas := if rs == 0 then mix.gas else (mix.gas - mix.oil * rs) / (1 - rs * rv)

/-- The mass of a mix over the volume of its free parts. -/
def freeDensity {α : Type} [Scalar α] (phases : PhaseSet) (free mix invB surfaceDensity : PerPhase α) : α :=
  if phases.total (.zipWith (· / ·) free invB) == 0 then 0
  else phases.total (.zipWith (· * ·) surfaceDensity mix) / phases.total (.zipWith (· / ·) free invB)

theorem mixDensity_eq {α : Type} [Scalar α] (phases : PhaseSet) (mix invB surfaceDensity : PerPhase α)
    (rsMax rvMax : Option α) : mixDensity phases mix invB surfaceDensity rsMax rvMax =
      freeDensity phases (freeParts (mixRatio mix.gas mix.oil rsMax) (mixRatio mix.oil mix.gas rvMax) mix) mix invB
        surfaceDensity := rfl

section

variable {phases : PhaseSet} {free mix invB surfaceDensity : PerPhase K} {rs rv : K}

private theorem freeParts_computed (h : rs * rv ≠ 1) : freeParts (.value rs) (.value rv) (mix.map .value) =
    (freeParts rs rv mix).map Computed.value := by
  have hd : 1 - rs * rv ≠ 0 := sub_ne_zero.2 h.symm
  have hpart (own other ratio : K) : (if (Computed.value ratio == 0) = true then .value own else
      (.value own - .value other * .value ratio) / (1 - .value rs * .value rv)) =
      Computed.value (if (ratio == 0) = true then own else (own - other * ratio) / (1 - rs * rv)) := by
    by_cases hratio : (ratio == 0) = true
    · rw [if_pos hratio]
      exact if_pos hratio
    · rw [if_neg hratio]
      exact (if_neg hratio).trans (if_neg hd)
  refine PerPhase.ext_get fun p => ?_
  cases p with
  | water => rfl
  | oil => exact hpart mix.oil mix.gas rv
  | gas => exact hpart mix.gas mix.oil rs

/-- If the ratios multiply to one, the quotient that inverts their exchange has a zero below. -/
private theorem freeParts_undefined (h : rs * rv = 1) :
    (freeParts (.value rs) (.value rv) (mix.map .value)).oil = Computed.undefined := by
  have hrv : ¬(Computed.value rv == 0) = true := fun hzero => by
    have hrv : rv = 0 := of_decide_eq_true hzero
    rw [hrv, mul_zero] at h
    exact zero_ne_one h
  have hd : 1 - rs * rv = 0 := sub_eq_zero.2 h.symm
  exact (if_neg hrv).trans (if_pos hd)

private theorem freeDensity_computed (h : ∀ p, phases.isActive p = true → invB.get p ≠ 0) :
    freeDensity phases (free.map .value) (mix.map .value) (invB.map .value) (surfaceDensity.map .value) =
      Computed.value (freeDensity phases free mix invB surfaceDensity) := by
  have hvolume : phases.total (.zipWith (· / ·) (free.map .value) (invB.map .value)) =
      Computed.value (phases.total (.zipWith (· / ·) free invB)) := PhaseSet.total_value fun p hp => by
    rw [PerPhase.get_zipWith, PerPhase.get_zipWith, PerPhase.get_map, PerPhase.get_map]
    exact if_neg (h p hp)
  have hmass : phases.total (.zipWith (· * ·) (surfaceDensity.map .value) (mix.map .value)) =
      Computed.value (phases.total (.zipWith (· * ·) surfaceDensity mix)) := PhaseSet.total_value fun p _ => by
    rw [PerPhase.get_zipWith, PerPhase.get_zipWith, PerPhase.get_map, PerPhase.get_map]
    rfl
  unfold freeDensity
  rw [hvolume, hmass]
  generalize phases.total (.zipWith (· / ·) free invB) = volume
  by_cases hzero : volume = 0
  · have hzero' : (volume == 0) = true := decide_eq_true hzero
    exact (if_pos hzero').trans (congrArg Computed.value (if_pos hzero').symm)
  · have hzero' : ¬(volume == 0) = true := fun hv => hzero (of_decide_eq_true hv)
    exact (if_neg hzero').trans ((if_neg hzero).trans (congrArg Computed.value (if_neg hzero').symm))

variable [IsStrictOrderedRing K]

private theorem freeDensity_nonneg (hfree : ∀ p, 0 ≤ free.get p) (hmix : ∀ p, 0 ≤ mix.get p)
    (hinvB : ∀ p, 0 < invB.get p)
    (hdensity : ∀ p, 0 ≤ surfaceDensity.get p) : 0 ≤ freeDensity phases free mix invB surfaceDensity := by
  unfold freeDensity
  split
  · exact le_rfl
  refine div_nonneg (PhaseSet.total_nonneg fun p _ => ?_) (PhaseSet.total_nonneg fun p _ => ?_)
  · rw [PerPhase.get_zipWith]
    exact mul_nonneg (hdensity p) (hmix p)
  · rw [PerPhase.get_zipWith]
    exact div_nonneg (hfree p) (hinvB p).le

private theorem freeParts_nonneg (hmix : ∀ p, 0 ≤ mix.get p) (hgas : rs * mix.oil ≤ mix.gas)
    (hoil : rv * mix.gas ≤ mix.oil)
    (hone : rs * rv ≤ 1) (p : Phase) : 0 ≤ (freeParts rs rv mix).get p := by
  have hd : 0 ≤ 1 - rs * rv := sub_nonneg.2 hone
  cases p with
  | water => exact hmix .water
  | oil =>
    change 0 ≤ if (rv == 0) = true then mix.oil else (mix.oil - mix.gas * rv) / (1 - rs * rv)
    split
    · exact hmix .oil
    · exact div_nonneg (sub_nonneg.2 (mul_comm rv mix.gas ▸ hoil)) hd
  | gas =>
    change 0 ≤ if (rs == 0) = true then mix.gas else (mix.gas - mix.oil * rs) / (1 - rs * rv)
    split
    · exact hmix .gas
    · exact div_nonneg (sub_nonneg.2 (mul_comm rs mix.oil ▸ hgas)) hd

/-- The density of a mix: defined and not negative, unless its oil and gas take each other up completely. -/
theorem mixDensity_defined (phases : PhaseSet) {rsMax rvMax : Option K} (hmix : ∀ p, 0 ≤ mix.get p)
    (hinvB : ∀ p, 0 < invB.get p) (hdensity : ∀ p, 0 ≤ surfaceDensity.get p) (hrs : ∀ x ∈ rsMax, 0 ≤ x)
    (hrv : ∀ x ∈ rvMax, 0 ≤ x) :
    (¬mix.TakenUp (rsMax.getD 0) (rvMax.getD 0) →
      mixDensity phases (mix.map .value) (invB.map .value) (surfaceDensity.map .value) (rsMax.map .value)
          (rvMax.map .value) = Computed.value (mixDensity phases mix invB surfaceDensity rsMax rvMax) ∧
        0 ≤ mixDensity phases mix invB surfaceDensity rsMax rvMax) ∧
    (mix.TakenUp (rsMax.getD 0) (rvMax.getD 0) → phases.oil = true →
      mixDensity phases (mix.map .value) (invB.map .value) (surfaceDensity.map .value) (rsMax.map .value)
        (rvMax.map .value) = Computed.undefined) := by
  have hsat {sat : Option K} (h : ∀ x ∈ sat, 0 ≤ x) : 0 ≤ sat.getD 0 := by
    cases sat with
    | none => exact le_rfl
    | some x => exact h x rfl
  have hoil : 0 ≤ mix.oil := hmix .oil
  have hgas : 0 ≤ mix.gas := hmix .gas
  have hcarries : PhaseSet.threePhase.Carries _ _ mix :=
    PhaseSet.carries_saturatedRatio (fun _ => hoil) (fun _ => hgas) (hsat hrs) (hsat hrv)
  have hone := saturatedRatio_mul_eq_one_iff hoil hgas (hsat hrs) (hsat hrv)
  rw [← mixRatio_eq hgas hrs, ← mixRatio_eq hoil hrv] at hcarries hone
  have hcomputed : mixDensity phases (mix.map .value) (invB.map .value) (surfaceDensity.map .value) (rsMax.map .value)
      (rvMax.map .value) = freeDensity phases (freeParts (Computed.value (mixRatio mix.gas mix.oil rsMax))
        (.value (mixRatio mix.oil mix.gas rvMax)) (mix.map .value)) (mix.map .value) (invB.map .value)
        (surfaceDensity.map .value) := by
    rw [← mixRatio_computed, ← mixRatio_computed]
    rfl
  rw [hcomputed]
  refine ⟨fun hnot => ⟨?_, ?_⟩, fun htaken ho => ?_⟩
  · rw [freeParts_computed (fun h => hnot (hone.1 h)), mixDensity_eq]
    exact freeDensity_computed fun p _ => (hinvB p).ne'
  · rw [mixDensity_eq]
    exact freeDensity_nonneg (freeParts_nonneg hmix (hcarries.gas rfl) (hcarries.oil rfl) (hcarries.exchange rfl)) hmix
      hinvB hdensity
  · have hundefined : (freeParts (Computed.value (mixRatio mix.gas mix.oil rsMax))
        (.value (mixRatio mix.oil mix.gas rvMax)) (mix.map .value)).oil = .undefined :=
      freeParts_undefined (hone.2 htaken)
    have hvolume : phases.total (.zipWith (· / ·) (freeParts (Computed.value (mixRatio mix.gas mix.oil rsMax))
        (.value (mixRatio mix.oil mix.gas rvMax)) (mix.map .value)) (invB.map .value)) = .undefined := by
      refine PhaseSet.total_undefined (p := .oil) ho ?_
      rw [PerPhase.get_zipWith]
      change (freeParts _ _ _).oil / _ = _
      rw [hundefined]
      rfl
    unfold freeDensity
    rw [hvolume]
    cases phases.total (.zipWith (· * ·) (surfaceDensity.map Computed.value) (mix.map .value)) <;> rfl

end

/-! ### The density at a connection -/

namespace ConnectionProperties

/-- Properties in computed numbers. -/
def computed (props : ConnectionProperties K) : ConnectionProperties (Computed K) where
  invB := props.invB.map (·.map .value)
  rsMax := props.rsMax.map .value
  rvMax := props.rvMax.map .value
  surfaceDensity := props.surfaceDensity.map (·.map .value)

/-- Whether all inverse volume factors are positive and nothing else is negative. -/
structure IsPhysical (props : ConnectionProperties K) : Prop where
  invB : ∀ b ∈ props.invB, ∀ p, 0 < b.get p
  rsMax : ∀ x ∈ props.rsMax, 0 ≤ x
  rvMax : ∀ x ∈ props.rvMax, 0 ≤ x
  surfaceDensity : ∀ r ∈ props.surfaceDensity, ∀ p, 0 ≤ r.get p

omit [Field K] [LinearOrder K] in
private theorem Covers.computed {n : Nat} {props : ConnectionProperties K} (h : props.Covers n) :
    props.computed.Covers n := by
  refine ⟨?_, fun he => ?_, fun he => ?_, ?_⟩
  · rw [ConnectionProperties.computed, List.length_map, h.invB]
  · rw [ConnectionProperties.computed, List.isEmpty_map] at he
    rw [ConnectionProperties.computed, List.length_map, h.rsMax he]
  · rw [ConnectionProperties.computed, List.isEmpty_map] at he
    rw [ConnectionProperties.computed, List.length_map, h.rvMax he]
  · rw [ConnectionProperties.computed, List.length_map, h.surfaceDensity]

theorem Covers.density_eq {α : Type} [Scalar α] {n i : Nat} {props : ConnectionProperties α} (h : props.Covers n)
    (hi : i < n) {invB surfaceDensity : PerPhase α} (hinvB : props.invB[i]? = some invB)
    (hdensity : props.surfaceDensity[i]? = some surfaceDensity) (phases : PhaseSet) (mix : PerPhase α) :
    props.density phases mix i = .ok (mixDensity phases mix invB surfaceDensity
      (if 0 < mix.oil then props.rsMax[i]? else none) (if 0 < mix.gas then props.rvMax[i]? else none)) := by
  have hratio {ratios : List α} (hr : ratios.isEmpty = false → ratios.length = n) :
      (ratioAt ratios i : Outcome α (Option α)) = .ok ratios[i]? := by
    unfold ratioAt
    cases he : ratios.isEmpty with
    | true =>
      rw [List.isEmpty_iff.1 he]
      rfl
    | false =>
      rw [List.getElem?_eq_getElem ((hr he).symm ▸ hi)]
      rfl
  have hrest (rsMax rvMax : Option α) : (do
      let invB ← Outcome.need props.invB[i]?
      let surfaceDensity ← Outcome.need props.surfaceDensity[i]?
      return mixDensity phases mix invB surfaceDensity rsMax rvMax : Outcome α α) =
      .ok (mixDensity phases mix invB surfaceDensity rsMax rvMax) := by
    rw [hinvB, hdensity]
    rfl
  unfold density
  by_cases ho : 0 < mix.oil
  · rw [if_pos ho, if_pos ho]
    refine Outcome.bind_ok.2 ⟨_, hratio h.rsMax, ?_⟩
    by_cases hg : 0 < mix.gas
    · rw [if_pos hg]
      exact (if_pos hg).trans (Outcome.bind_ok.2 ⟨_, hratio h.rvMax, hrest _ _⟩)
    · rw [if_neg hg]
      exact (if_neg hg).trans (hrest _ _)
  · rw [if_neg ho, if_neg ho]
    by_cases hg : 0 < mix.gas
    · rw [if_pos hg]
      exact (if_pos hg).trans (Outcome.bind_ok.2 ⟨_, hratio h.rvMax, hrest _ _⟩)
    · rw [if_neg hg]
      exact (if_neg hg).trans (hrest _ _)

variable [IsStrictOrderedRing K]

/-- The density at a connection: defined and not negative, unless oil and gas take each other up completely. -/
theorem IsPhysical.density_defined {n i : Nat} {props : ConnectionProperties K} (h : props.IsPhysical)
    (hcovers : props.Covers n) (hi : i < n) (phases : PhaseSet) {mix : PerPhase K} (hmix : ∀ p, 0 ≤ mix.get p) :
    ∃ d d', props.density phases mix i = .ok d ∧ props.computed.density phases (mix.map .value) i = .ok d' ∧
      (¬mix.TakenUp (props.rsMax[i]?.getD 0) (props.rvMax[i]?.getD 0) → d' = .value d ∧ 0 ≤ d) ∧
      (mix.TakenUp (props.rsMax[i]?.getD 0) (props.rvMax[i]?.getD 0) → phases.oil = true → d' = .undefined) := by
  have hb : i < props.invB.length := hcovers.invB.symm ▸ hi
  have hr : i < props.surfaceDensity.length := hcovers.surfaceDensity.symm ▸ hi
  have hget := hcovers.density_eq hi (List.getElem?_eq_getElem hb) (List.getElem?_eq_getElem hr) phases mix
  have hget' := hcovers.computed.density_eq hi
    (show props.computed.invB[i]? = some (props.invB[i].map .value) by
      rw [computed, List.getElem?_map, List.getElem?_eq_getElem hb, Option.map_some])
    (show props.computed.surfaceDensity[i]? = some (props.surfaceDensity[i].map .value) by
      rw [computed, List.getElem?_map, List.getElem?_eq_getElem hr, Option.map_some]) phases (mix.map .value)
  refine ⟨_, _, hget, hget', ?_⟩
  have hsat (c : Prop) [Decidable c] {ratios : List K} (hratios : ∀ x ∈ ratios, 0 ≤ x) :
      ∀ x ∈ if c then ratios[i]? else none, 0 ≤ x := by
    intro x hx
    split at hx
    · exact hratios x (List.mem_of_getElem? hx)
    · cases hx
  have hmap (x : K) (ratios : List K) : (if 0 < Computed.value x then (ratios.map Computed.value)[i]? else none) =
      (if 0 < x then ratios[i]? else none).map .value := by
    rw [List.getElem?_map]
    by_cases hx : 0 < x
    · exact (if_pos hx).trans (congrArg (Option.map Computed.value) (if_pos hx).symm)
    · rw [if_neg hx]
      exact if_neg hx
  -- the ratios that are not looked up are those of a mix without the phase
  have htaken : mix.TakenUp ((if 0 < mix.oil then props.rsMax[i]? else none).getD 0)
      ((if 0 < mix.gas then props.rvMax[i]? else none).getD 0) ↔
      mix.TakenUp (props.rsMax[i]?.getD 0) (props.rvMax[i]?.getD 0) := by
    constructor
    · intro ht
      rwa [if_pos ht.oil_pos, if_pos ht.gas_pos] at ht
    · intro ht
      rwa [if_pos ht.oil_pos, if_pos ht.gas_pos]
  have hdefined := mixDensity_defined phases hmix (h.invB _ (List.getElem_mem hb))
    (h.surfaceDensity _ (List.getElem_mem hr)) (hsat (0 < mix.oil) h.rsMax) (hsat (0 < mix.gas) h.rvMax)
  rw [htaken, ← hmap, ← hmap] at hdefined
  exact hdefined

end ConnectionProperties

/-! ### The densities of a well -/

/-- A state in computed numbers. -/
def FlowState.computed (s : FlowState K) : FlowState (Computed K) where
  bhp := s.bhp.map .value
  thp := s.thp.map .value
  rates := s.rates.map .value
  unknowns := s.unknowns.map .value
  control := s.control
  connectionPressure := s.connectionPressure.map .value
  connectionRates := s.connectionRates.map .value
  potentials := s.potentials.map .value
  revision := s.revision

omit [Field K] [LinearOrder K] in
private theorem FlowState.ratesAt_computed {s : FlowState K} {i : Nat} {q : PerPhase K} (h : s.ratesAt i = .ok q) :
    s.computed.ratesAt i = .ok (q.map .value) := by
  obtain ⟨v, hv, rfl⟩ := Option.map_eq_some_iff.1 (Outcome.need_ok.1 h)
  obtain ⟨hx, hy, hz⟩ := Stride.get?_eq_some_iff.1 hv
  have hget : Stride.get? (s.connectionRates.map Computed.value) i = some ⟨.value v.x, .value v.y, .value v.z⟩ := by
    rw [Stride.get?_eq_some_iff, List.getElem?_map, List.getElem?_map, List.getElem?_map, hx, hy, hz]
    exact ⟨rfl, rfl, rfl⟩
  refine Outcome.need_ok.2 (Option.map_eq_some_iff.2 ⟨_, hget, rfl⟩)

private theorem upwardFlows_computed (qs : List (PerPhase K)) :
    upwardFlows (qs.map (·.map Computed.value)) = (upwardFlows qs).map (·.map .value) := by
  induction qs with
  | nil => rfl
  | cons q qs ih =>
    rw [List.map_cons, upwardFlows, upwardFlows, ih, List.map_cons]
    refine congrArg (· :: _) ?_
    cases upwardFlows qs <;> rfl

private theorem PerPhase.composition_computed (flow rest : PerPhase K) :
    (flow.map Computed.value).composition (rest.map .value) = (flow.composition rest).map .value := by
  have hsum : (flow.map Computed.value).sum = .value flow.sum := rfl
  unfold composition
  rw [hsum]
  dsimp only
  generalize flow.sum = total
  by_cases hzero : total = 0
  · have hzero' : (total == 0) = true := decide_eq_true hzero
    rw [if_pos hzero']
    exact if_pos hzero'
  · have hzero' : ¬(total == 0) = true := fun h => hzero (of_decide_eq_true h)
    rw [if_neg hzero']
    refine (if_neg hzero').trans (PerPhase.ext_get fun p => ?_)
    have hdiv : (Computed.value (flow.get p) / .value total : Computed K) = .value (flow.get p / total) := if_neg hzero
    rw [PerPhase.get_map, PerPhase.get_map, PerPhase.get_map, PerPhase.get_map, hdiv]
    rfl

theorem PerPhase.composition_nonneg [IsStrictOrderedRing K] {flow rest : PerPhase K} (hrest : ∀ p, 0 ≤ rest.get p)
    (p : Phase) : 0 ≤ (flow.composition rest).get p := by
  unfold composition
  dsimp only
  split
  · exact hrest p
  · rw [PerPhase.get_map]
    exact abs_nonneg _

namespace Well

/-- The mixes in the segments of a well, from the rates of its connections. -/
def segmentMixes {α : Type} [Scalar α] (w : Well α) (rates : List (PerPhase α)) : List (PerPhase α) :=
  (upwardFlows rates).map (·.composition w.composition)

private theorem densities_eq {α : Type} [Scalar α] {p : Placed (Well α)} {s : FlowState α} {rates : List (PerPhase α)}
    (h : p.item.connections.zipIdx.mapM (fun ck => s.ratesAt (p.first + ck.2)) = .ok rates) (phases : PhaseSet)
    (props : ConnectionProperties α) : densities p s phases props =
      (p.item.segmentMixes rates).zipIdx.mapM fun mk => props.density phases mk.1 (p.first + mk.2) := by
  unfold densities segmentMixes
  rw [List.zipIdx_map, List.mapM_map]
  exact congrArg (· >>= _) h

/-- Each segment has the density of its mix, if they all have one. -/
theorem exists_densities {α : Type} [Scalar α] {p : Placed (Well α)} {s : FlowState α} {rates : List (PerPhase α)}
    (h : p.item.connections.zipIdx.mapM (fun ck => s.ratesAt (p.first + ck.2)) = .ok rates) (phases : PhaseSet)
    (props : ConnectionProperties α) (hdensity : ∀ (k : Nat) mix, (p.item.segmentMixes rates)[k]? = some mix →
      ∃ d, props.density phases mix (p.first + k) = .ok d) :
    ∃ ds, densities p s phases props = .ok ds ∧ ∀ (k : Nat) mix d, (p.item.segmentMixes rates)[k]? = some mix →
      ds[k]? = some d → props.density phases mix (p.first + k) = .ok d := by
  obtain ⟨ds, hds⟩ : ∃ ds, densities p s phases props = .ok ds := by
    rw [densities_eq h]
    exact Outcome.exists_mapM fun mk hmk => hdensity mk.2 mk.1 (List.mem_zipIdx_iff_getElem?.1 hmk)
  refine ⟨ds, hds, fun k mix d hmix hd => ?_⟩
  rw [densities_eq h] at hds
  have hplace : (p.item.segmentMixes rates).zipIdx[k]? = some (mix, k) := by
    rw [List.getElem?_zipIdx, hmix, Option.map_some, Nat.zero_add]
  exact Outcome.ok_of_getElem? hds hplace hd

private theorem segmentMixes_computed (w : Well K) (rates : List (PerPhase K)) :
    w.computed.segmentMixes (rates.map (·.map .value)) = (w.segmentMixes rates).map (·.map Computed.value) := by
  unfold segmentMixes
  rw [upwardFlows_computed, List.map_map, List.map_map]
  exact List.map_congr_left fun flow _ => PerPhase.composition_computed flow w.composition

omit [Field K] [LinearOrder K] in
theorem exists_connectionRates {ws : Wells K} {s : FlowState K} {p : Placed (Well K)} (hp : p ∈ ws.placed)
    (hrates : s.connectionRates.length = 3 * ws.numConnections) :
    ∃ rates, p.item.connections.zipIdx.mapM (fun ck => s.ratesAt (p.first + ck.2)) = .ok rates := by
  refine Outcome.exists_mapM fun ck hck => ?_
  have hk := (List.getElem?_eq_some_iff.1 (List.mem_zipIdx_iff_getElem?.1 hck)).1
  exact FlowState.exists_ratesAt hrates hp hk

omit [Field K] [LinearOrder K] in
private theorem connectionRates_computed {s : FlowState K} {p : Placed (Well K)} {rates : List (PerPhase K)}
    (h : p.item.connections.zipIdx.mapM (fun ck => s.ratesAt (p.first + ck.2)) = .ok rates) :
    p.item.computed.connections.zipIdx.mapM (fun ck => s.computed.ratesAt (p.first + ck.2)) =
      .ok (rates.map (·.map .value)) := by
  obtain ⟨hlength, hget⟩ := Outcome.mapM_zipIdx.1 h
  refine Outcome.mapM_zipIdx.2 ⟨(List.length_map _).trans (hlength.trans (List.length_map _).symm), fun k hk hk' => ?_⟩
  rw [List.getElem_map]
  exact FlowState.ratesAt_computed (hget k ((List.length_map _).symm ▸ hk) ((List.length_map _).symm ▸ hk'))

variable [IsStrictOrderedRing K]

/-- The densities of the segments of a well, where the volume factors are positive and compositions, ratios and surface
densities not negative.  They exist and no division by zero enters them, nor is any negative, unless the oil and the gas
of a mix take each other up completely; the density of such a mix is undefined. -/
theorem densities_defined {ws : Wells K} {s : FlowState K} {props : ConnectionProperties K} {p : Placed (Well K)}
    (hp : p ∈ ws.placed) (hcomposition : ∀ r, 0 ≤ p.item.composition.get r)
    (hrates : s.connectionRates.length = 3 * ws.numConnections) (hcovers : props.Covers ws.numConnections)
    (hprops : props.IsPhysical) (phases : PhaseSet) :
    ∃ rates ds ds', p.item.connections.zipIdx.mapM (fun ck => s.ratesAt (p.first + ck.2)) = .ok rates ∧
      densities p s phases props = .ok ds ∧
      densities ⟨p.index, p.first, p.item.computed⟩ s.computed phases props.computed = .ok ds' ∧
      ds.length = p.item.connections.length ∧ ds'.length = p.item.connections.length ∧
      ∀ (k : Nat) mix d d', (p.item.segmentMixes rates)[k]? = some mix → ds[k]? = some d → ds'[k]? = some d' →
        (¬mix.TakenUp (props.rsMax[p.first + k]?.getD 0) (props.rvMax[p.first + k]?.getD 0) →
          d' = .value d ∧ 0 ≤ d) ∧
        (mix.TakenUp (props.rsMax[p.first + k]?.getD 0) (props.rvMax[p.first + k]?.getD 0) → phases.oil = true →
          d' = .undefined) := by
  obtain ⟨rates, hall⟩ := exists_connectionRates hp hrates
  have hmixes : (p.item.segmentMixes rates).length = p.item.connections.length := by
    rw [segmentMixes, List.length_map, length_upwardFlows, (Outcome.mapM_zipIdx.1 hall).1]
  have hdensity (k : Nat) (mix : PerPhase K) (hmix : (p.item.segmentMixes rates)[k]? = some mix) := by
    have hk := Wells.first_add_lt hp (hmixes ▸ (List.getElem?_eq_some_iff.1 hmix).1)
    have hnonneg : ∀ r, 0 ≤ mix.get r := by
      obtain ⟨flow, -, rfl⟩ := List.mem_map.1 (List.mem_of_getElem? hmix)
      exact PerPhase.composition_nonneg hcomposition
    exact hprops.density_defined hcovers hk phases hnonneg
  obtain ⟨ds, hds, hplain⟩ := exists_densities hall phases props fun k mix hmix => by
    obtain ⟨d, -, hd, -⟩ := hdensity k mix hmix
    exact ⟨d, hd⟩
  -- in computed numbers the mixes are the same, and each density exists at the same place
  obtain ⟨ds', hds', hcomputed⟩ := exists_densities (p := ⟨p.index, p.first, p.item.computed⟩)
      (connectionRates_computed hall) phases props.computed fun k mix' hmix' => by
    rw [segmentMixes_computed, List.getElem?_map] at hmix'
    obtain ⟨mix, hmix, rfl⟩ := Option.map_eq_some_iff.1 hmix'
    obtain ⟨-, d', -, hd', -⟩ := hdensity k mix hmix
    exact ⟨d', hd'⟩
  refine ⟨rates, ds, ds', hall, hds, hds', length_densities hds,
    (length_densities hds').trans (List.length_map _), fun k mix d d' hmix hd hd' => ?_⟩
  have hmix' : (p.item.computed.segmentMixes (rates.map (·.map .value)))[k]? = some (mix.map .value) := by
    rw [segmentMixes_computed, List.getElem?_map, hmix, Option.map_some]
  obtain ⟨e, e', he, he', hdefined⟩ := hdensity k mix hmix
  obtain rfl : e = d := Except.ok.inj (he.symm.trans (hplain k mix d hmix hd))
  obtain rfl : e' = d' := Except.ok.inj (he'.symm.trans (hcomputed k _ d' hmix' hd'))
  exact hdefined

/-! ### A well of oil and gas -/

/-- A producer without a composition of its own. -/
def evenProducer : Well ℚ := .producer "P" 0 [⟨0, 2, 10, 1⟩] ⟨[⟨.bhp, 90, .replicate 0⟩], 0⟩

/-- The producer, accepted with an even mix of oil and gas. -/
def evenWells : Wells ℚ := ⟨[{ evenProducer with composition := ⟨0, 1 / 2, 1 / 2⟩ }]⟩

/-- A state in which the producer flows oil and gas at the same rate. -/
def evenFlow : FlowState ℚ := ⟨[90], [0], [0, -1, -1], [0, 0, 0], [0], [90], [0, -1, -1], [0, 0, 0], 0⟩

/-- Properties at the connection of the producer, with given ratios at saturation. -/
def evenProperties (rsMax rvMax : ℚ) : ConnectionProperties ℚ :=
  ⟨[⟨1, 4 / 5, 4 / 5⟩], [rsMax], [rvMax], [⟨1000, 800, 1⟩]⟩

private theorem evenProperties_isPhysical {rsMax rvMax : ℚ} (hrs : 0 ≤ rsMax) (hrv : 0 ≤ rvMax) :
    (evenProperties rsMax rvMax).IsPhysical := by
  refine ⟨fun b hb p => ?_, fun x hx => ?_, fun x hx => ?_, fun r hr p => ?_⟩
  · rw [List.mem_singleton.1 hb]
    cases p <;> decide +kernel
  · rwa [List.mem_singleton.1 hx]
  · rwa [List.mem_singleton.1 hx]
  · rw [List.mem_singleton.1 hr]
    cases p <;> decide +kernel

/-- If the oil takes up half of the gas only, the density is defined. -/
theorem densities_defined_evenProducer : Wells.create [evenProducer] .oilGas 1 = .ok evenWells ∧
    ∃ p ∈ evenWells.placed, ∃ ds', densities ⟨p.index, p.first, p.item.computed⟩ evenFlow.computed .oilGas
      (evenProperties (1 / 2) 1).computed = .ok ds' ∧ ∀ d' ∈ ds', ∃ d : ℚ, d' = .value d ∧ 0 ≤ d := by
  refine ⟨by with_unfolding_all rfl, _, List.mem_cons_self .., ?_⟩
  have hphysical : (evenProperties (1 / 2) 1).IsPhysical :=
    evenProperties_isPhysical (by decide +kernel) (by decide +kernel)
  have hcomposition : ∀ r, 0 ≤ evenWells.list[0].composition.get r := fun r => by cases r <;> decide +kernel
  have hlength : evenFlow.connectionRates.length = 3 * evenWells.numConnections := rfl
  obtain ⟨rates, ds, ds', hrates, -, hds', hone, hone', hdefined⟩ :=
    densities_defined (p := ⟨0, 0, evenWells.list[0]⟩) (List.mem_cons_self ..) hcomposition hlength
      ⟨rfl, fun _ => rfl, fun _ => rfl, rfl⟩ hphysical .oilGas
  obtain ⟨d, rfl⟩ := List.length_eq_one_iff.1 hone
  obtain ⟨d', rfl⟩ := List.length_eq_one_iff.1 hone'
  obtain rfl : [⟨0, -1, -1⟩] = rates := Except.ok.inj hrates
  have hmix : (evenWells.list[0].segmentMixes [⟨0, -1, -1⟩])[0]? = some ⟨0, 1 / 2, 1 / 2⟩ := by decide +kernel
  have hnot : ¬(⟨0, 1 / 2, 1 / 2⟩ : PerPhase ℚ).TakenUp (1 / 2) 1 := fun h => absurd h.gas_le (by decide +kernel)
  obtain ⟨hvalue, hnonneg⟩ := (hdefined 0 _ d d' hmix rfl rfl).1 hnot
  exact ⟨_, hds', fun e he => ⟨d, (List.mem_singleton.1 he).trans hvalue, hnonneg⟩⟩

/-- If the oil could take up all of the gas, and the gas all of the oil, the density is undefined. -/
theorem density_undefined_evenProducer : Wells.create [evenProducer] .oilGas 1 = .ok evenWells ∧
    (evenProperties 1 1).Covers evenWells.numConnections ∧ (evenProperties 1 1).IsPhysical ∧
    ∃ p ∈ evenWells.placed, (∀ r, 0 ≤ p.item.composition.get r) ∧
      densities ⟨p.index, p.first, p.item.computed⟩ evenFlow.computed .oilGas (evenProperties 1 1).computed =
        .ok [.undefined] := by
  have hphysical := evenProperties_isPhysical zero_le_one zero_le_one
  refine ⟨by with_unfolding_all rfl, ⟨rfl, fun _ => rfl, fun _ => rfl, rfl⟩, hphysical, _, List.mem_cons_self ..,
    fun r => ?_, Outcome.ok_of_toOption (by decide +kernel)⟩
  cases r <;> decide +kernel

end Well

end BlackOilWells
