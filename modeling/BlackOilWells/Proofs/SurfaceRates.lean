import Mathlib.Algebra.Order.BigOperators.Group.List
import Mathlib.Tactic.NormNum
import BlackOilWells.Proofs.Fractions
import BlackOilWells.Proofs.NewtonSteps

/-!
# Rates in the equations and in the state

The surface rates of a well are worked out twice: in its equations from the unknowns (`WellUnit.surfaceRate`), and for
the state by the Newton step that leaves these unknowns (`ratesOf`).

For a producer the two agree, except that under a surface rate control the state weights the phases and the equations do
not (`WellUnit.ProducerRates`).  So they agree there under weights of zero and one, and in general exactly if the target
is zero or the weights are one on average over the stream that they weight (`Session.producedRates_of_updates`).

For an injector the equations take the whole leading unknown, or the whole target, for every injected phase.  The state
shares it out by the composition, or under a reservoir rate control by the scaled stream (`WellUnit.InjectorRates`).  So
they agree where a phase is injected alone and, under a reservoir rate control, unscaled
(`Session.injectedRates_of_updates`).
-/

namespace BlackOilWells

open Attempt

variable {γ K : Type} [Field K] [LinearOrder K]

private theorem ControlKind.eq_surfaceRate_of_name {α : Type} {k : ControlKind α} (h : k.name = "SURFACE_RATE") :
    k = .surfaceRate := by
  cases k with
  | surfaceRate => rfl
  | _ => simp [name] at h

omit [Field K] [LinearOrder K] in
private theorem Well.isProducer_iff {w : Well K} : w.isProducer = true ↔ w.type = .producer := decide_eq_true_iff

omit [Field K] [LinearOrder K] in
private theorem Well.isInjector_iff {w : Well K} : w.isInjector = true ↔ w.type = .injector := decide_eq_true_iff

/-! ### The well stream -/

namespace WellUnit

variable (u : WellUnit K) (phases : PhaseSet) (c : Control K)

/-- The part of the scaled stream that flows in the active phases which a control weights. -/
def controlledStream : K :=
  ((phases.active.filter fun p => decide (0 < c.weights.get p)).map fun p => (u.scaledFraction phases c p).value).sum

/-- The scaled stream in units of the weights of a control. -/
def weightedStream : K := (phases.active.map fun p => c.weights.get p * (u.scaledFraction phases c p).value).sum

/-- Whether the rates of the active phases in the equations are given rates. -/
def RatesAgree (q : PerPhase K) : Prop :=
  ∀ p, phases.isActive p = true → (u.surfaceRate phases c p).value = q.get p

variable {u phases c}

private theorem controlledStream_pos [IsStrictOrderedRing K] (h : 1e-6 ≤ u.controlledStream phases c) :
    0 < u.controlledStream phases c :=
  lt_of_lt_of_le (by norm_num) h

private theorem value_rateAtTarget (p : Phase) (part : WellDual K) {tested : K} (h : 1e-6 ≤ tested) :
    (u.rateAtTarget phases c p part !(decide (tested < 1e-6))).value =
      (u.scaledFraction phases c p).value * c.target / part.value := by
  rw [rateAtTarget, if_pos (by simpa using h)]
  exact (div_eq_mul_one_div _ _).symm

/-- Under a surface rate control the phases flow in the equations in proportion to the stream, so that the phases which
the control weights reach the target together. -/
private theorem value_ratedProduction [IsStrictOrderedRing K] (h : 1e-6 ≤ u.controlledStream phases c) (p : Phase) :
    (u.ratedProduction phases c p).value =
      (u.scaledFraction phases c p).value * c.target / u.controlledStream phases c := by
  have hpos : 0 < u.controlledStream phases c := controlledStream_pos h
  unfold ratedProduction
  unfold controlledStream at h hpos ⊢
  dsimp only
  generalize phases.active.filter (fun q => decide (0 < c.weights.get q)) = weighted at h hpos ⊢
  match weighted with
  | [] => exact absurd hpos (lt_irrefl 0)
  | [controlled] =>
    rw [List.map_singleton, List.sum_singleton] at h hpos ⊢
    dsimp only
    -- a phase that is weighted alone is given the target itself, which is the same only as its stream is not zero
    by_cases hp : controlled = p
    · subst hp
      rw [if_pos rfl, mul_div_cancel_left₀ _ hpos.ne']
      rfl
    · rw [if_neg hp]
      exact value_rateAtTarget p _ h
  | q :: r :: weighted =>
    have hpart : (((q :: r :: weighted).map (u.scaledFraction phases c)).foldl (· + ·) 0).value =
        ((q :: r :: weighted).map fun p => (u.scaledFraction phases c p).value).sum :=
      (Dual.value_foldl_add _ _ 0).trans (zero_add _)
    have htested : 1e-6 ≤ |(((q :: r :: weighted).map (u.scaledFraction phases c)).foldl (· + ·) 0).value| := by
      rw [hpart, abs_of_pos hpos]
      exact h
    rw [← hpart]
    exact value_rateAtTarget p _ htested

private theorem exists_controlled [IsStrictOrderedRing K] (h : 0 < u.controlledStream phases c) :
    ∃ p, phases.isActive p = true ∧ 0 < c.weights.get p ∧ 0 < (u.scaledFraction phases c p).value := by
  have hsum : ((phases.active.filter fun p => decide (0 < c.weights.get p)).map fun _ => (0 : K)).sum <
      u.controlledStream phases c := by
    rwa [List.map_const', List.sum_replicate, smul_zero]
  obtain ⟨p, hp, hpos⟩ := List.exists_lt_of_sum_lt _ _ hsum
  obtain ⟨hactive, hweight⟩ := List.mem_filter.1 hp
  exact ⟨p, (List.mem_filter.1 hactive).2, of_decide_eq_true hweight, hpos⟩

private theorem weightedStream_pos [IsStrictOrderedRing K] (hweights : ∀ p, 0 ≤ c.weights.get p)
    (hstream : ∀ p, phases.isActive p = true → 0 ≤ (u.scaledFraction phases c p).value)
    (h : 0 < u.controlledStream phases c) : 0 < u.weightedStream phases c := by
  obtain ⟨p, hactive, hweight, hpos⟩ := exists_controlled h
  have hmem : p ∈ phases.active := List.mem_filter.2 ⟨by cases p <;> simp [Phase.all], hactive⟩
  refine (mul_pos hweight hpos).trans_le (List.single_le_sum (fun x hx => ?_) _ (List.mem_map_of_mem hmem))
  obtain ⟨r, hr, rfl⟩ := List.mem_map.1 hx
  exact mul_nonneg (hweights r) (hstream r (List.mem_filter.1 hr).2)

/-- With weights of zero and one the weighted stream is the part that the control weights. -/
private theorem weightedStream_of_unit [IsStrictOrderedRing K]
    (h : ∀ p, phases.isActive p = true → c.weights.get p = 0 ∨ c.weights.get p = 1) :
    u.weightedStream phases c = u.controlledStream phases c := by
  have hactive : ∀ p ∈ phases.active, phases.isActive p = true := fun p hp => (List.mem_filter.1 hp).2
  unfold weightedStream controlledStream
  generalize phases.active = l at hactive ⊢
  induction l with
  | nil => rfl
  | cons p l ih =>
    have hrest := ih fun r hr => hactive r (List.mem_cons_of_mem p hr)
    rw [List.map_cons, List.sum_cons, hrest, List.filter_cons]
    rcases h p (hactive p (List.mem_cons_self ..)) with hp | hp
    · rw [hp, if_neg (by simp), zero_mul, zero_add]
    · rw [hp, if_pos (by simp), one_mul, List.map_cons, List.sum_cons]

private theorem value_surfaceRate_injector (hu : u.well.isInjector = true) (p : Phase) :
    (u.surfaceRate phases c p).value = if u.well.composition.get p = 0 then 0
      else if c.kind.isPressure then u.unknowns.lead.value else c.target := by
  rw [surfaceRate, if_pos hu]
  by_cases hcomposition : u.well.composition.get p = 0
  · rw [if_pos hcomposition, if_pos (beq_iff_eq.2 hcomposition)]
    rfl
  · rw [if_neg hcomposition, if_neg fun heq => hcomposition (beq_iff_eq.1 heq)]
    split <;> rfl

/-! ### After a Newton step -/

section Stepped

variable [IsStrictOrderedRing K] {setup : Setup K} {old : Unknowns K} {dx : Vec3 K} {rates : PerPhase K}

/-- Oil closes the fractions in the equations as it does in the step. -/
private theorem value_fraction_stepped (p : Phase) :
    ((u.stepped setup c old dx).fraction setup.phases p).value = (stepFractions setup old dx).get p := by
  have hmix : (stepFractions setup old dx).IsMix setup.phases := closeFractions_isMix ..
  cases p with
  | water => rfl
  | gas => rfl
  | oil =>
    -- the equations take the fractions of the other active phases from one, and those of the absent ones are zero
    have hwater : setup.phases.water = false → (stepFractions setup old dx).water = 0 := hmix.absent .water nofun
    have hgas : setup.phases.gas = false → (stepFractions setup old dx).gas = 0 := hmix.absent .gas nofun
    have hclosed : (stepFractions setup old dx).oil = 1 - (stepFractions setup old dx).water -
        (stepFractions setup old dx).gas := by linear_combination hmix.sum
    change _ = (stepFractions setup old dx).oil
    rw [hclosed]
    unfold fraction
    dsimp only
    by_cases hg : setup.phases.gas = true
    · by_cases hw : setup.phases.water = true
      · rw [if_pos hg, if_pos hw]
        rfl
      · rw [if_pos hg, if_neg hw, hwater (Bool.eq_false_iff.2 hw), sub_zero]
        rfl
    · by_cases hw : setup.phases.water = true
      · rw [if_neg hg, if_pos hw, hgas (Bool.eq_false_iff.2 hg), sub_zero]
        rfl
      · rw [if_neg hg, if_neg hw, hwater (Bool.eq_false_iff.2 hw), hgas (Bool.eq_false_iff.2 hg), sub_zero, sub_zero]
        rfl

private theorem value_scaledFraction_stepped {p : Phase} (hp : setup.phases.isActive p = true) :
    ((u.stepped setup c old dx).scaledFraction setup.phases c p).value =
      (unscaled setup.phases c (stepFractions setup old dx)).get p := by
  rw [unscaled, PhaseSet.select, PerPhase.get_ofFn, if_pos hp, PerPhase.get_zipWith, scaledFraction,
    ← value_fraction_stepped (u := u) (c := c)]
  split
  · rfl
  · rfl

private theorem nonneg_scaledFraction_stepped (hk : c.kind = .surfaceRate) {p : Phase}
    (hp : setup.phases.isActive p = true) :
    0 ≤ ((u.stepped setup c old dx).scaledFraction setup.phases c p).value := by
  have hmix : (stepFractions setup old dx).IsMix setup.phases := closeFractions_isMix ..
  have hscale : c.fractionScale = ⟨1, 1, 0.01⟩ := by rw [Control.fractionScale, hk]
  rw [value_scaledFraction_stepped hp, unscaled, PhaseSet.select, PerPhase.get_ofFn, if_pos hp, PerPhase.get_zipWith,
    hscale]
  split
  · exact le_refl 0
  · refine div_nonneg (hmix.nonneg p) ?_
    cases p with
    | gas => exact (by norm_num : (0 : K) ≤ 0.01)
    | _ => exact zero_le_one

private theorem weightedStream_stepped : (u.stepped setup c old dx).weightedStream setup.phases c =
    setup.phases.sum (.zipWith (· * ·) c.weights (unscaled setup.phases c (stepFractions setup old dx))) := by
  rw [PhaseSet.sum, Scalar.sum_exact, weightedStream]
  refine congrArg List.sum (List.map_congr_left fun p hp => ?_)
  rw [PerPhase.get_zipWith, value_scaledFraction_stepped (List.mem_filter.1 hp).2]

/-- A producer flows alike in the equations and in the state, except under a surface rate control. -/
theorem ratesAgree_of_producer (hu : u.well.isInjector = false) (hk : c.kind ≠ .surfaceRate) :
    (u.stepped setup c old dx).RatesAgree setup.phases c (u.steppedRates setup c old dx rates) := by
  intro p hp
  have hs : ((u.stepped setup c old dx).scaledFraction setup.phases c p).value =
      (unscaled setup.phases c (stepFractions setup old dx)).get p := value_scaledFraction_stepped hp
  have hinjector : ¬u.well.isInjector = true := Bool.eq_false_iff.1 hu
  unfold surfaceRate steppedRates ratesOf
  rw [if_neg (show ¬(u.stepped setup c old dx).well.isInjector = true from hinjector)]
  cases hk' : c.kind with
  | surfaceRate => exact absurd hk' hk
  | reservoirRate =>
    dsimp only
    rw [PhaseSet.select, PerPhase.get_ofFn, if_pos hp, PerPhase.get_map, ← hs]
    rfl
  | _ =>
    dsimp only
    rw [if_neg hinjector, PhaseSet.select, PerPhase.get_ofFn, if_pos hp, PerPhase.get_map, ← hs]
    rfl

/-- Under a surface rate control a producer flows in proportion to the stream both in the equations and in the state.
In the equations the phases which the control weights reach the target together, and in the state their weighted rates
do. -/
theorem rates_of_ratedProducer (rates : PerPhase K) (hu : u.well.isInjector = false) (hk : c.kind = .surfaceRate)
    (hweights : ∀ p, 0 ≤ c.weights.get p) (h : 1e-6 ≤ (u.stepped setup c old dx).controlledStream setup.phases c) :
    0 < (u.stepped setup c old dx).weightedStream setup.phases c ∧ ∀ p, setup.phases.isActive p = true →
      ((u.stepped setup c old dx).surfaceRate setup.phases c p).value =
        ((u.stepped setup c old dx).scaledFraction setup.phases c p).value * c.target /
          (u.stepped setup c old dx).controlledStream setup.phases c ∧
      (u.steppedRates setup c old dx rates).get p =
        ((u.stepped setup c old dx).scaledFraction setup.phases c p).value * c.target /
          (u.stepped setup c old dx).weightedStream setup.phases c := by
  have hcontrolled := controlledStream_pos h
  have hpos : 0 < (u.stepped setup c old dx).weightedStream setup.phases c :=
    weightedStream_pos hweights (fun p hp => nonneg_scaledFraction_stepped hk hp) hcontrolled
  have hinjector : ¬u.well.isInjector = true := Bool.eq_false_iff.1 hu
  refine ⟨hpos, fun p hp => ⟨?_, ?_⟩⟩
  · rw [surfaceRate, if_neg (show ¬(u.stepped setup c old dx).well.isInjector = true from hinjector), hk]
    exact value_ratedProduction h p
  · rw [weightedStream_stepped] at hpos ⊢
    have hne : ¬(setup.phases.sum
        (.zipWith (· * ·) c.weights (unscaled setup.phases c (stepFractions setup old dx))) == 0) = true := by
      rw [beq_iff_eq]
      exact hpos.ne'
    unfold steppedRates ratesOf
    rw [hk]
    dsimp only
    rw [if_neg hinjector, if_neg hne, PhaseSet.select, PerPhase.get_ofFn, if_pos hp, PerPhase.get_map,
      value_scaledFraction_stepped hp]

/-- Under a surface rate control the rates of a producer agree exactly if the weights of the control are one on average
over the stream that it weights. -/
theorem ratesAgree_iff_of_ratedProducer (hu : u.well.isInjector = false) (hk : c.kind = .surfaceRate)
    (hweights : ∀ p, 0 ≤ c.weights.get p) (h : 1e-6 ≤ (u.stepped setup c old dx).controlledStream setup.phases c) :
    (u.stepped setup c old dx).RatesAgree setup.phases c (u.steppedRates setup c old dx rates) ↔
      c.target = 0 ∨ (u.stepped setup c old dx).weightedStream setup.phases c =
        (u.stepped setup c old dx).controlledStream setup.phases c := by
  have hcontrolled := controlledStream_pos h
  obtain ⟨hweighted, hrates⟩ := rates_of_ratedProducer rates hu hk hweights h
  constructor
  · intro hagree
    -- a phase that flows tells the two sums apart
    obtain ⟨p, hp, -, hpos⟩ := exists_controlled hcontrolled
    obtain ⟨hvalue, hstored⟩ := hrates p hp
    have hsame := hagree p hp
    rw [hvalue, hstored, div_eq_div_iff hcontrolled.ne' hweighted.ne'] at hsame
    rw [or_iff_not_imp_left]
    intro htarget
    exact mul_left_cancel₀ (mul_ne_zero hpos.ne' htarget) hsame
  · intro hcases p hp
    obtain ⟨hvalue, hstored⟩ := hrates p hp
    rw [hvalue, hstored]
    rcases hcases with htarget | hstreams
    · rw [htarget, mul_zero, zero_div, zero_div]
    · rw [hstreams]

/-- What an injected phase flows at in the equations, the whole leading unknown or the whole target, is shared out by
the composition in the state.  Under a reservoir rate control the state takes the stream in place of the composition. -/
theorem rates_of_injector (c : Control K) (old : Unknowns K) (dx : Vec3 K) (rates : PerPhase K)
    (hu : u.well.isInjector = true) {p : Phase} (hp : setup.phases.isActive p = true) :
    (c.kind ≠ .reservoirRate → (u.steppedRates setup c old dx rates).get p =
      u.well.composition.get p * ((u.stepped setup c old dx).surfaceRate setup.phases c p).value) ∧
    (c.kind = .reservoirRate → (u.steppedRates setup c old dx rates).get p =
        ((u.stepped setup c old dx).scaledFraction setup.phases c p).value * c.target ∧
      ((u.stepped setup c old dx).surfaceRate setup.phases c p).value =
        if u.well.composition.get p = 0 then 0 else c.target) := by
  have hvalue : ((u.stepped setup c old dx).surfaceRate setup.phases c p).value =
      if u.well.composition.get p = 0 then 0 else if c.kind.isPressure then stepLead setup c old dx else c.target :=
    value_surfaceRate_injector (u := u.stepped setup c old dx) hu p
  have hshare (x : K) : u.well.composition.get p * x =
      u.well.composition.get p * if u.well.composition.get p = 0 then 0 else x := by
    split
    · rename_i h0
      rw [h0, zero_mul, zero_mul]
    · rfl
  unfold steppedRates ratesOf
  rw [hvalue]
  constructor
  · intro hk
    cases hk' : c.kind with
    | reservoirRate => exact absurd hk' hk
    | surfaceRate =>
      dsimp only
      rw [if_pos hu, PerPhase.get_map]
      exact hshare _
    | _ =>
      dsimp only
      rw [if_pos hu, PhaseSet.select, PerPhase.get_ofFn, if_pos hp, PerPhase.get_map]
      exact hshare _
  · intro hk
    rw [hk]
    dsimp only
    rw [PhaseSet.select, PerPhase.get_ofFn, if_pos hp, PerPhase.get_map, value_scaledFraction_stepped hp]
    exact ⟨rfl, rfl⟩

end Stepped

end WellUnit

/-! ### What the rates have to do with each other -/

namespace WellUnit

/-- The rates of a producer in a state, against those in its equations. -/
structure ProducerRates (u : WellUnit K) (phases : PhaseSet) (c : Control K) (q : PerPhase K) : Prop where
  /-- They agree under any control but a surface rate control. -/
  unrated : c.kind ≠ .surfaceRate → u.RatesAgree phases c q
  /-- Under a surface rate control the weighted phases reach the target together in the equations, and their weighted
  rates do in the state. -/
  rated : c.kind = .surfaceRate → (∀ p, 0 ≤ c.weights.get p) → 1e-6 ≤ u.controlledStream phases c →
    ∀ p, phases.isActive p = true →
      (u.surfaceRate phases c p).value * u.controlledStream phases c = q.get p * u.weightedStream phases c
  /-- So they agree exactly if the weights are one on average over the stream. -/
  agree_iff : c.kind = .surfaceRate → (∀ p, 0 ≤ c.weights.get p) → 1e-6 ≤ u.controlledStream phases c →
    (u.RatesAgree phases c q ↔ c.target = 0 ∨ u.weightedStream phases c = u.controlledStream phases c)
  /-- They agree with weights of zero and one. -/
  unit : c.kind = .surfaceRate → 1e-6 ≤ u.controlledStream phases c →
    (∀ p, c.weights.get p = 0 ∨ c.weights.get p = 1) → u.RatesAgree phases c q

/-- The rates of an injector in a state, against those in its equations. -/
structure InjectorRates (u : WellUnit K) (phases : PhaseSet) (c : Control K) (q : PerPhase K) : Prop where
  /-- Except under a reservoir rate control the state takes the share of the composition. -/
  shared : c.kind ≠ .reservoirRate → ∀ p, phases.isActive p = true →
    q.get p = u.well.composition.get p * (u.surfaceRate phases c p).value
  /-- So they agree exactly if every phase that flows is injected alone. -/
  agree_iff : c.kind ≠ .reservoirRate → (u.RatesAgree phases c q ↔ ∀ p, phases.isActive p = true →
    u.well.composition.get p = 0 ∨ u.well.composition.get p = 1 ∨ q.get p = 0)
  /-- Under a reservoir rate control the state takes the scaled stream, and the equations the whole target. -/
  reservoir : c.kind = .reservoirRate → ∀ p, phases.isActive p = true →
    q.get p = (u.scaledFraction phases c p).value * c.target ∧
      (u.surfaceRate phases c p).value = if u.well.composition.get p = 0 then 0 else c.target
  reservoir_agree_iff : c.kind = .reservoirRate → (u.RatesAgree phases c q ↔ c.target = 0 ∨
    ∀ p, phases.isActive p = true → (u.scaledFraction phases c p).value = if u.well.composition.get p = 0 then 0 else 1)

variable [IsStrictOrderedRing K] {u : WellUnit K} {setup : Setup K} {c : Control K} {old : Unknowns K} {dx : Vec3 K}
  {rates : PerPhase K}

private theorem producerRates_of_step (hu : u.well.isProducer = true) :
    (u.stepped setup c old dx).ProducerRates setup.phases c (u.steppedRates setup c old dx rates) := by
  have hinjector := Well.isInjector_of_isProducer hu
  refine ⟨ratesAgree_of_producer hinjector, fun hk hweights h p hp => ?_, fun hk hweights h => ?_, fun hk h hunit => ?_⟩
  · obtain ⟨hweighted, hrates⟩ := rates_of_ratedProducer rates hinjector hk hweights h
    have hcontrolled := controlledStream_pos h
    obtain ⟨hvalue, hstored⟩ := hrates p hp
    rw [hvalue, hstored, div_mul_cancel₀ _ hcontrolled.ne', div_mul_cancel₀ _ hweighted.ne']
  · exact ratesAgree_iff_of_ratedProducer hinjector hk hweights h
  · have hweights (p : Phase) : 0 ≤ c.weights.get p := by
      rcases hunit p with hp | hp
      · exact hp.ge
      · exact hp ▸ zero_le_one
    rw [ratesAgree_iff_of_ratedProducer hinjector hk hweights h]
    exact .inr (weightedStream_of_unit fun p _ => hunit p)

private theorem injectorRates_of_step (hu : u.well.isInjector = true) :
    (u.stepped setup c old dx).InjectorRates setup.phases c (u.steppedRates setup c old dx rates) := by
  have habsent {p : Phase} (hp : u.well.composition.get p = 0) :
      ((u.stepped setup c old dx).surfaceRate setup.phases c p).value = 0 :=
    (value_surfaceRate_injector (u := u.stepped setup c old dx) hu p).trans (if_pos hp)
  refine ⟨fun hk p hp => (rates_of_injector _ _ _ _ hu hp).1 hk, fun hk => forall₂_congr fun p hp => ?_,
    fun hk p hp => (rates_of_injector _ _ _ _ hu hp).2 hk, fun hk => ?_⟩
  · have hshared := (rates_of_injector c old dx rates hu hp).1 hk
    rw [hshared]
    change _ ↔ u.well.composition.get p = 0 ∨ u.well.composition.get p = 1 ∨ _
    constructor
    · intro hagree
      rcases eq_or_ne ((u.stepped setup c old dx).surfaceRate setup.phases c p).value 0 with hzero | hne
      · exact .inr (.inr (by rw [hzero, mul_zero]))
      · exact .inr (.inl ((mul_eq_right₀ hne).1 hagree.symm))
    · rintro (hzero | hone | hnone)
      · rw [habsent hzero, mul_zero]
      · rw [hone, one_mul]
      · rw [hnone]
        rcases mul_eq_zero.1 hnone with hzero | hvalue
        · exact habsent hzero
        · exact hvalue
  · have hrates {p : Phase} (hp : setup.phases.isActive p = true) :=
      (rates_of_injector c old dx rates hu hp).2 hk
    have hvalue {p : Phase} (hp : setup.phases.isActive p = true) :
        ((u.stepped setup c old dx).surfaceRate setup.phases c p).value =
          (if u.well.composition.get p = 0 then 0 else 1) * c.target := by
      rw [(hrates hp).2, ite_mul, zero_mul, one_mul]
    constructor
    · intro hagree
      rw [or_iff_not_imp_left]
      intro htarget p hp
      have hsame := hagree p hp
      rw [hvalue hp, (hrates hp).1] at hsame
      exact (mul_right_cancel₀ htarget hsame).symm
    · rintro (htarget | hstream) p hp
      · rw [hvalue hp, (hrates hp).1, htarget, mul_zero, mul_zero]
      · rw [hvalue hp, (hrates hp).1, hstream p hp]
        rfl

end WellUnit

namespace Session

/-! ### Wells alone -/

/-- A model of a single well in a cell of oil and water, at its start. -/
def startAlone (w : Well ℚ) : Outcome ℚ (Session ℚ (Option (VoidageGroup ℚ))) := do
  let ws ← Wells.create [w] .oilWater 1
  let m ← Model.create ws wateredSetup
  m.start none oilCell

/-- A single well after a Newton step from its start: the sessions before and after it and with the unknowns that it
leaves, and the well with its current control and its rates in the state. -/
structure SteppedAlone (w : Well ℚ) (dx : Vec3 ℚ) (s t t' : Session ℚ (Option (VoidageGroup ℚ))) (u : WellUnit ℚ)
    (c : Control ℚ) (q : PerPhase ℚ) : Prop where
  start : startAlone w = .ok s
  step : applyUpdates [dx] s = (.ok ⟨⟩, t)
  taken : takeUnknowns t = (.ok ⟨⟩, t')
  phases : t'.model.setup.phases = .oilWater
  unit : t'.model.units[0]? = some u
  control : (t'.flow.slot 0).currentControl u.well = .ok c
  rates : (t'.flow.slot 0).rates = some q

/-- The rates of a single well in the equations and in the state, and what they depend on. -/
structure RateComparison where
  phases : PhaseSet
  type : WellType
  kind : String
  weights : PerPhase ℚ
  composition : PerPhase ℚ
  stream : ℚ
  equations : PerPhase ℚ
  state : PerPhase ℚ
deriving DecidableEq

/-- The comparison for a well under a control with rates in the state. -/
def RateComparison.of (phases : PhaseSet) (u : WellUnit ℚ) (c : Control ℚ) (q : PerPhase ℚ) : RateComparison where
  phases := phases
  type := u.well.type
  kind := c.kind.name
  weights := c.weights
  composition := u.well.composition
  stream := u.controlledStream phases c
  equations := .ofFn fun p => (u.surfaceRate phases c p).value
  state := q

/-- The comparison for a single well after a Newton step from its start. -/
def compareAlone (w : Well ℚ) (dx : Vec3 ℚ) : Outcome ℚ RateComparison := do
  let s ← startAlone w
  let run := applyUpdates [dx] s
  run.1
  let taken := takeUnknowns run.2
  taken.1
  let u ← taken.2.model.unit 0
  let c ← (taken.2.flow.slot 0).currentControl u.well
  let q ← Outcome.need (taken.2.flow.slot 0).rates
  return .of taken.2.model.setup.phases u c q

private theorem exists_of_compareAlone {w : Well ℚ} {dx : Vec3 ℚ} {r : RateComparison}
    (h : (compareAlone w dx).toOption = some r) (hphases : r.phases = .oilWater) :
    ∃ s t t' u c q, SteppedAlone w dx s t t' u c q ∧ r = .of .oilWater u c q := by
  obtain ⟨s, hs, h⟩ := Outcome.bind_ok.1 (Outcome.ok_of_toOption h)
  obtain ⟨_, hrun, h⟩ := Outcome.bind_ok.1 h
  obtain ⟨_, htaken, h⟩ := Outcome.bind_ok.1 h
  obtain ⟨u, hu, h⟩ := Outcome.bind_ok.1 h
  obtain ⟨c, hc, h⟩ := Outcome.bind_ok.1 h
  obtain ⟨q, hq, h⟩ := Outcome.bind_ok.1 h
  have hr := Except.ok.inj h
  rw [← hr] at hphases
  refine ⟨s, _, _, u, c, q, ⟨hs, Prod.ext hrun rfl, Prod.ext htaken rfl, hphases, Model.getElem?_of_unit hu, hc,
    Outcome.need_ok.1 hq⟩, ?_⟩
  rw [← hr]
  exact congrArg (RateComparison.of · u c q) hphases

/-- What is known of all wells after the step, holds of the single one. -/
private theorem SteppedAlone.apply {w : Well ℚ} {dx : Vec3 ℚ} {s t t' : Session ℚ (Option (VoidageGroup ℚ))}
    {u : WellUnit ℚ} {c : Control ℚ} {q : PerPhase ℚ} (h : SteppedAlone w dx s t t' u c q) {P : WellUnit ℚ → Prop}
    {R : WellUnit ℚ → PhaseSet → Control ℚ → PerPhase ℚ → Prop} (hP : P u)
    (hall : ∃ t', takeUnknowns t = (.ok ⟨⟩, t') ∧ ∀ (w : Nat) u, t'.model.units[w]? = some u → P u → ∃ c q,
      (t'.flow.slot w).currentControl u.well = .ok c ∧ (t'.flow.slot w).rates = some q ∧
      R u t'.model.setup.phases c q) : R u .oilWater c q := by
  obtain ⟨t₁, ht₁, hall⟩ := hall
  rw [h.taken] at ht₁
  cases ht₁
  obtain ⟨c', q', hc, hq, hR⟩ := hall 0 u h.unit hP
  rw [h.control] at hc
  rw [h.rates] at hq
  cases hc
  cases hq
  rwa [h.phases] at hR

private theorem not_ratesAgree_of_comparison {u : WellUnit ℚ} {c : Control ℚ} {q : PerPhase ℚ} {r : RateComparison}
    (h : r = .of .oilWater u c q) {p : Phase} (hp : PhaseSet.oilWater.isActive p = true)
    (hne : r.equations.get p ≠ r.state.get p) : ¬u.RatesAgree .oilWater c q := by
  intro hagree
  rw [h] at hne
  exact hne ((PerPhase.get_ofFn _ p).trans (hagree p hp))

/-! ### Producers -/

section Runs

variable [IsStrictOrderedRing K] {updates : List (Vec3 K)} {s t : Session K γ}

/-- After Newton steps that succeed the model takes the unknowns that they leave.  Then the rates of a producer in the
state and in the equations agree, except that under a surface rate control the state weights the phases and the
equations do not. -/
theorem producedRates_of_updates (h : applyUpdates updates s = (.ok ⟨⟩, t)) : ∃ t', takeUnknowns t = (.ok ⟨⟩, t') ∧
    ∀ (w : Nat) u, t'.model.units[w]? = some u → u.well.isProducer = true → ∃ c q,
      (t'.flow.slot w).currentControl u.well = .ok c ∧ (t'.flow.slot w).rates = some q ∧
      u.ProducerRates t'.model.setup.phases c q := by
  obtain ⟨t', ht', -, hunits⟩ := takeUnknowns_of_updates h
  refine ⟨t', ht', fun w u' hu' hproducer => ?_⟩
  obtain ⟨u, c, old, dx, rates, rfl, hc, hq⟩ := hunits w u' hu'
  exact ⟨c, _, hc, hq, WellUnit.producerRates_of_step hproducer⟩

/-- A producer on a surface rate control. -/
def weightedProducer (weights : PerPhase ℚ) : Well ℚ :=
  .producer "P" 0 [⟨0, 2, 0, 1⟩] ⟨[⟨.surfaceRate, -4, weights⟩], 0⟩

/-- Under a limit to the rate of oil and water together the rates agree. -/
theorem producedRates_of_updates_liquidLimit : ∃ s t t' u c q,
    SteppedAlone (weightedProducer ⟨1, 1, 0⟩) ⟨0, 1 / 8, 0⟩ s t t' u c q ∧ u.well.isProducer = true ∧
    c.kind = .surfaceRate ∧ 1e-6 ≤ u.controlledStream .oilWater c ∧
    (∀ p, c.weights.get p = 0 ∨ c.weights.get p = 1) ∧ u.RatesAgree .oilWater c q := by
  have hcompare : (compareAlone (weightedProducer ⟨1, 1, 0⟩) ⟨0, 1 / 8, 0⟩).toOption =
      some ⟨.oilWater, .producer, "SURFACE_RATE", ⟨1, 1, 0⟩, ⟨1 / 2, 1 / 2, 0⟩, 1, ⟨-3 / 2, -5 / 2, 0⟩,
        ⟨-3 / 2, -5 / 2, 0⟩⟩ := by decide +kernel
  obtain ⟨s, t, t', u, c, q, hstepped, hr⟩ := exists_of_compareAlone hcompare rfl
  injection hr with _ htype hname hweights _ hstream
  have hproducer : u.well.isProducer = true := Well.isProducer_iff.2 htype.symm
  have hkind : c.kind = .surfaceRate := ControlKind.eq_surfaceRate_of_name hname.symm
  have hpart : 1e-6 ≤ u.controlledStream .oilWater c := by
    rw [← hstream]
    norm_num
  have hunit : ∀ p, c.weights.get p = 0 ∨ c.weights.get p = 1 := by
    rw [← hweights]
    intro p
    cases p <;> decide
  have hrates := hstepped.apply hproducer (producedRates_of_updates hstepped.step)
  exact ⟨s, t, t', u, c, q, hstepped, hproducer, hkind, hpart, hunit, hrates.unit hkind hpart hunit⟩

/-- With other weights the well flows faster in the equations than in the state. -/
theorem not_ratesAgree_weightedProducer : ∃ s t t' u c q,
    SteppedAlone (weightedProducer ⟨1, 3, 0⟩) 0 s t t' u c q ∧ u.well.isProducer = true ∧
    Controls.create (weightedProducer ⟨1, 3, 0⟩).controls.list 0 = .ok (weightedProducer ⟨1, 3, 0⟩).controls ∧
    (∃ p, PhaseSet.oilWater.isActive p = true ∧ 0 < c.weights.get p) ∧ 1e-6 ≤ u.controlledStream .oilWater c ∧
    ¬u.RatesAgree .oilWater c q := by
  have hcompare : (compareAlone (weightedProducer ⟨1, 3, 0⟩) 0).toOption =
      some ⟨.oilWater, .producer, "SURFACE_RATE", ⟨1, 3, 0⟩, .ofFn fun p => if p = .gas then 0 else 1 / 2, 1,
        ⟨-3, -1, 0⟩, ⟨-2, -2 / 3, 0⟩⟩ := by decide +kernel
  obtain ⟨s, t, t', u, c, q, hstepped, hr⟩ := exists_of_compareAlone hcompare rfl
  have hdisagree : ¬u.RatesAgree .oilWater c q := not_ratesAgree_of_comparison (p := .water) hr rfl (by decide)
  injection hr with _ htype _ hweights _ hstream
  refine ⟨s, t, t', u, c, q, hstepped, Well.isProducer_iff.2 htype.symm, rfl, ⟨.water, rfl, ?_⟩, ?_, hdisagree⟩
  · rw [← hweights]
    decide
  · rw [← hstream]
    norm_num

/-! ### Injectors -/

/-- After Newton steps that succeed the model takes the unknowns that they leave.  Then the rates of an injector in the
state are shares of those in the equations, and they agree only where a phase is injected alone. -/
theorem injectedRates_of_updates (h : applyUpdates updates s = (.ok ⟨⟩, t)) : ∃ t', takeUnknowns t = (.ok ⟨⟩, t') ∧
    ∀ (w : Nat) u, t'.model.units[w]? = some u → u.well.isInjector = true → ∃ c q,
      (t'.flow.slot w).currentControl u.well = .ok c ∧ (t'.flow.slot w).rates = some q ∧
      u.InjectorRates t'.model.setup.phases c q := by
  obtain ⟨t', ht', -, hunits⟩ := takeUnknowns_of_updates h
  refine ⟨t', ht', fun w u' hu' hinjector => ?_⟩
  obtain ⟨u, c, old, dx, rates, rfl, hc, hq⟩ := hunits w u' hu'
  exact ⟨c, _, hc, hq, WellUnit.injectorRates_of_step hinjector⟩

/-- An injector of a given composition. -/
def mixedInjector (composition : PerPhase ℚ) (c : Control ℚ) : Well ℚ :=
  { Well.injector "I" 0 .water [⟨0, 2, 0, 1⟩] ⟨[c], 0⟩ with composition := composition }

/-- A single injected phase flows alike in the equations and in the state. -/
theorem injectedRates_of_updates_waterInjector : ∃ s t t' u c q,
    SteppedAlone (mixedInjector ⟨1, 0, 0⟩ ⟨.bhp, 120, .replicate 0⟩) ⟨-2, 0, 0⟩ s t t' u c q ∧
    u.well.isInjector = true ∧ c.kind ≠ .reservoirRate ∧ u.RatesAgree .oilWater c q := by
  have hcompare : (compareAlone (mixedInjector ⟨1, 0, 0⟩ ⟨.bhp, 120, .replicate 0⟩) ⟨-2, 0, 0⟩).toOption =
      some ⟨.oilWater, .injector, "BHP", .replicate 0, ⟨1, 0, 0⟩, 0, ⟨2, 0, 0⟩, ⟨2, 0, 0⟩⟩ := by decide +kernel
  obtain ⟨s, t, t', u, c, q, hstepped, hr⟩ := exists_of_compareAlone hcompare rfl
  injection hr with _ htype hname _ hcomposition
  have hinjector : u.well.isInjector = true := Well.isInjector_iff.2 htype.symm
  have hkind : c.kind ≠ .reservoirRate := by
    intro hk
    rw [hk] at hname
    exact absurd hname (by decide)
  have hrates := hstepped.apply hinjector (injectedRates_of_updates hstepped.step)
  refine ⟨s, t, t', u, c, q, hstepped, hinjector, hkind, (hrates.agree_iff hkind).2 fun p _ => ?_⟩
  rw [← hcomposition]
  cases p
  · exact .inr (.inl rfl)
  · exact .inl rfl
  · exact .inl rfl

/-- Two injected phases flow at the whole leading unknown each in the equations.  Under a reservoir rate control the
whole target flows in the equations, and in the state the target by the coefficient. -/
theorem not_ratesAgree_mixedInjector :
    (∃ s t t' u c q, SteppedAlone (mixedInjector ⟨1, 1, 0⟩ ⟨.bhp, 120, .replicate 0⟩) ⟨-2, 0, 0⟩ s t t' u c q ∧
      u.well.isInjector = true ∧ ¬u.RatesAgree .oilWater c q) ∧
    ∃ s t t' u c q, SteppedAlone (mixedInjector ⟨1, 0, 0⟩ ⟨.reservoirRate, 4, ⟨2, 0, 0⟩⟩) 0 s t t' u c q ∧
      u.well.isInjector = true ∧ ¬u.RatesAgree .oilWater c q := by
  constructor
  · have hcompare : (compareAlone (mixedInjector ⟨1, 1, 0⟩ ⟨.bhp, 120, .replicate 0⟩) ⟨-2, 0, 0⟩).toOption =
        some ⟨.oilWater, .injector, "BHP", .replicate 0, ⟨1 / 2, 1 / 2, 0⟩, 0, ⟨2, 2, 0⟩, ⟨1, 1, 0⟩⟩ := by
      decide +kernel
    obtain ⟨s, t, t', u, c, q, hstepped, hr⟩ := exists_of_compareAlone hcompare rfl
    have hdisagree : ¬u.RatesAgree .oilWater c q := not_ratesAgree_of_comparison (p := .water) hr rfl (by decide)
    injection hr with _ htype
    exact ⟨s, t, t', u, c, q, hstepped, Well.isInjector_iff.2 htype.symm, hdisagree⟩
  · have hcompare : (compareAlone (mixedInjector ⟨1, 0, 0⟩ ⟨.reservoirRate, 4, ⟨2, 0, 0⟩⟩) 0).toOption =
        some ⟨.oilWater, .injector, "RESERVOIR_RATE", ⟨2, 0, 0⟩, ⟨1, 0, 0⟩, 1 / 2, ⟨4, 0, 0⟩, ⟨2, 0, 0⟩⟩ := by
      decide +kernel
    obtain ⟨s, t, t', u, c, q, hstepped, hr⟩ := exists_of_compareAlone hcompare rfl
    have hdisagree : ¬u.RatesAgree .oilWater c q := not_ratesAgree_of_comparison (p := .water) hr rfl (by decide)
    injection hr with _ htype
    exact ⟨s, t, t', u, c, q, hstepped, Well.isInjector_iff.2 htype.symm, hdisagree⟩

end Runs

end Session

end BlackOilWells
