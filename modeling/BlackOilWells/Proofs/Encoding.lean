import BlackOilWells.Proofs.Scenarios
import BlackOilWells.Proofs.Settling
import BlackOilWells.Proofs.ZeroSteps

/-!
# Rates through the unknowns

The unknowns of a well are derived from its rates after a change of control (`Well.encode`), and the rates from the
unknowns by the next Newton step (`WellUnit.ratesOf`).  The two scale the stream by the control, each in its own place.
For a producer in whose rates nothing is lost (`Control.IsEncodable`) the scalings cancel: the fractions are those of the
scaled stream (`Well.encode_of_isEncodable`), and a step of zero gives the rates back under a pressure control, and in
proportion to the target under a rate control (`Model.rates_of_encoding`).
-/

namespace BlackOilWells

open Attempt

variable {K : Type} [Field K] [LinearOrder K]

/-- The weighted rate of the active phases is that of all phases where no other phase flows. -/
private theorem Control.activeRate_eq_weightedRate (c : Control K) {phases : PhaseSet} {q : PerPhase K}
    (h : ∀ p, phases.isActive p = false → q.get p = 0) : c.activeRate phases q = c.weightedRate q := by
  have hterms (p : Phase) (hp : phases.isActive p = false) :
      (PerPhase.zipWith (· * ·) c.weights q).get p = 0 := by
    rw [PerPhase.get_zipWith, h p hp, mul_zero]
  rw [activeRate, PhaseSet.sum_of_absent hterms, weightedRate, PerPhase.weightedSum_exact]
  rfl

/-! ### Streams without loss -/

/-- Whether rates can be had back from the unknowns of a producer under a control: they have one sign, no absent phase
flows, and neither the scaled stream nor what the control weights vanishes. -/
structure Control.IsEncodable (c : Control K) (phases : PhaseSet) (q : PerPhase K) : Prop where
  oneSign : (∀ p, phases.isActive p = true → 0 ≤ q.get p) ∨ ∀ p, phases.isActive p = true → q.get p ≤ 0
  absent : ∀ p, phases.isActive p = false → q.get p = 0
  scaled : c.fractionScale.weightedSum q ≠ 0
  coefficients : c.kind = .reservoirRate → ∀ p, phases.isActive p = true → 0 < c.weights.get p
  weighted : c.kind.isPressure = false → c.weightedRate q ≠ 0

/-- The fractions of the scaled stream. -/
def Control.stream (c : Control K) (q : PerPhase K) : PerPhase K :=
  .ofFn fun p => c.fractionScale.get p * q.get p / c.fractionScale.weightedSum q

namespace Control.IsEncodable

variable [IsStrictOrderedRing K] {c : Control K} {phases : PhaseSet} {q : PerPhase K}

private theorem fractionScale_pos (h : c.IsEncodable phases q) {p : Phase} (hp : phases.isActive p = true) :
    0 < c.fractionScale.get p := by
  cases hk : c.kind with
  | reservoirRate =>
    rw [Control.fractionScale, hk]
    exact h.coefficients hk p hp
  | _ =>
    rw [Control.fractionScale, hk]
    cases p with
    | gas => exact (by norm_num : (0 : K) < 0.01)
    | _ => exact one_pos

private theorem stream_nonneg (h : c.IsEncodable phases q) (p : Phase) : 0 ≤ (c.stream q).get p := by
  have hterm (s : K) (hs : ∀ r, phases.isActive r = true → 0 ≤ s * q.get r) (r : Phase) :
      0 ≤ s * (c.fractionScale.get r * q.get r) := by
    by_cases hr : phases.isActive r = true
    · rw [mul_left_comm]
      exact mul_nonneg (h.fractionScale_pos hr).le (hs r hr)
    · rw [h.absent r (Bool.eq_false_iff.2 hr), mul_zero, mul_zero]
  rw [Control.stream, PerPhase.get_ofFn, PerPhase.weightedSum_exact]
  rcases h.oneSign with hsign | hsign
  · have hpos := hterm 1 fun r hr => by rw [one_mul]; exact hsign r hr
    simp only [one_mul] at hpos
    exact div_nonneg (hpos p) (add_nonneg (add_nonneg (hpos .water) (hpos .oil)) (hpos .gas))
  · have hneg := hterm (-1) fun r hr => by rw [neg_one_mul]; exact neg_nonneg.2 (hsign r hr)
    simp only [neg_one_mul, neg_nonneg] at hneg
    exact div_nonneg_of_nonpos (hneg p) (add_nonpos (add_nonpos (hneg .water) (hneg .oil)) (hneg .gas))

private theorem stream_isMix (h : c.IsEncodable phases q) : (c.stream q).IsMix phases where
  nonneg := h.stream_nonneg
  sum := by
    have hsum := h.scaled
    change c.fractionScale.water * q.water / c.fractionScale.weightedSum q +
      c.fractionScale.oil * q.oil / c.fractionScale.weightedSum q +
      c.fractionScale.gas * q.gas / c.fractionScale.weightedSum q = 1
    rw [← add_div, ← add_div, ← PerPhase.weightedSum_exact, div_self hsum]
  absent p _ hp := by rw [Control.stream, PerPhase.get_ofFn, h.absent p hp, mul_zero, zero_div]

/-- The step divides the fractions by the scaling that they have been encoded with. -/
private theorem unscaled_stream (h : c.IsEncodable phases q) {p : Phase} (hp : phases.isActive p = true) :
    (WellUnit.unscaled phases c (c.stream q)).get p = q.get p / c.fractionScale.weightedSum q := by
  have hscale := (h.fractionScale_pos hp).ne'
  have hne : ¬(c.fractionScale.get p == 0) = true := by
    rw [beq_iff_eq]
    exact hscale
  rw [WellUnit.unscaled, PhaseSet.get_select hp, PerPhase.get_zipWith, if_neg hne, Control.stream, PerPhase.get_ofFn,
    mul_div_assoc, mul_div_cancel_left₀ _ hscale]

end Control.IsEncodable

/-! ### Unknowns from rates -/

section Encode

variable [IsStrictOrderedRing K] {w : Well K} {phases : PhaseSet} {c : Control K} {q : PerPhase K} {s : Slot K}

/-- The unknowns of a producer under a control. -/
def Control.unknownsOf (c : Control K) (q : PerPhase K) (bhp : K) : Unknowns K where
  lead := if c.kind.isPressure then c.fractionScale.weightedSum q else bhp
  water := (c.stream q).water
  gas := (c.stream q).gas

omit [IsStrictOrderedRing K] in
private theorem Well.streamFraction_of_ne_zero {p : Phase} (h : c.fractionScale.weightedSum q ≠ 0)
    (habsent : phases.isActive p = false → q.get p = 0) :
    w.streamFraction phases c.fractionScale q p = (c.stream q).get p := by
  have hne : ¬(c.fractionScale.weightedSum q == 0) = true := by
    rw [beq_iff_eq]
    exact h
  rw [streamFraction, Control.stream, PerPhase.get_ofFn]
  by_cases hp : phases.isActive p = true
  · rw [if_pos hp, if_neg hne]
  · rw [if_neg hp, habsent (Bool.eq_false_iff.2 hp), mul_zero, zero_div]

theorem Well.encode_of_isEncodable (hw : w.isInjector = false) (h : c.IsEncodable phases q) (bhp : K) :
    w.encode phases c q (.ok bhp) = .ok (c.unknownsOf q bhp) := by
  have hlead : w.leadUnknown c q (.ok bhp) = .ok (c.unknownsOf q bhp).lead := by
    unfold leadUnknown Control.unknownsOf
    rw [if_neg (Bool.eq_false_iff.1 hw)]
    dsimp only
    split <;> rfl
  have hclosed : closeFractions phases (w.streamFraction phases c.fractionScale q .water)
      (w.streamFraction phases c.fractionScale q .gas) = c.stream q := by
    rw [streamFraction_of_ne_zero h.scaled (h.absent .water), streamFraction_of_ne_zero h.scaled (h.absent .gas)]
    exact h.stream_isMix.closeFractions
  unfold encode
  rw [hlead]
  dsimp only [Bind.bind, Except.bind]
  rw [hclosed]
  simp only [Outcome.finite_exact]
  rfl

private theorem Slot.seed_of_isEncodable (hw : w.isInjector = false) (hc : s.currentControl w = .ok c)
    (hq : s.rates = some q) {bhp : K} (hbhp : s.bhp = some bhp) (hunknowns : s.unknowns.isSome)
    (h : c.IsEncodable phases q) :
    Slot.seed phases w s = (.ok ⟨⟩, { s with unknowns := some (c.unknownsOf q bhp) }) := by
  unfold Slot.seed
  rw [run_get_bind, run_outcome_bind, hc]
  dsimp only
  refine need_bind_ok.2 ⟨q, hq, ?_⟩
  have hpressure : (Outcome.need s.bhp : Outcome K K) = .ok bhp := Outcome.need_ok.2 hbhp
  rw [hpressure]
  exact outcome_bind_ok.2 ⟨_, Well.encode_of_isEncodable hw h bhp, Slot.putUnknowns_ok.2 ⟨hunknowns, rfl⟩⟩

end Encode

/-! ### Rates from unknowns -/

namespace WellUnit

variable [IsStrictOrderedRing K] {u : WellUnit K} {setup : Setup K} {c : Control K} {phases : PhaseSet}
  {q : PerPhase K}

omit [IsStrictOrderedRing K] in
private theorem ratesOf_pressure (hu : u.well.isInjector = false) (hk : c.kind.isPressure = true) (lead : K)
    (scaled rates : PerPhase K) :
    ratesOf u.well phases c lead scaled rates = phases.select (scaled.map (lead * ·)) rates := by
  unfold ratesOf
  cases hkind : c.kind with
  | bhp | thp =>
    dsimp only
    rw [if_neg (Bool.eq_false_iff.1 hu)]
  | surfaceRate | reservoirRate =>
    rw [hkind] at hk
    cases hk

private theorem activeRate_unscaled_stream (h : c.IsEncodable phases q) :
    c.activeRate phases (unscaled phases c (c.stream q)) = c.weightedRate q / c.fractionScale.weightedSum q := by
  rw [← c.activeRate_eq_weightedRate h.absent, div_eq_mul_inv, Control.activeRate, Control.activeRate,
    ← PhaseSet.sum_map_mul]
  refine PhaseSet.sum_congr fun p hp => ?_
  rw [PerPhase.get_zipWith, h.unscaled_stream hp, PerPhase.get_map, PerPhase.get_zipWith, div_eq_mul_inv, mul_assoc]

/-- A step of zero gives the rates back, on the target of a rate control. -/
private theorem steppedRates_unknownsOf (hlimit : 0 ≤ setup.settings.maxFractionChange) (hu : u.well.isInjector = false)
    (h : c.IsEncodable setup.phases q) (bhp : K) :
    u.steppedRates setup c (c.unknownsOf q bhp) 0 q =
      if c.kind.isPressure then q else q.map (· * (c.target / c.weightedRate q)) := by
  have hmix : (c.stream q).IsMix setup.phases := h.stream_isMix
  have hfractions : (c.unknownsOf q bhp).fractions = c.stream q := Unknowns.fractions_of_isMix hmix _
  have hkept : stepFractions setup (c.unknownsOf q bhp) 0 = c.stream q := by
    rw [← hfractions] at hmix ⊢
    exact stepFractions_zero hlimit hmix
  rw [steppedRates, hkept]
  have hscaled := h.scaled
  -- the rates of absent phases are kept, and these are zero
  have hselect {f : K → K} {a : K} (hf : ∀ p, setup.phases.isActive p = true →
      f ((unscaled setup.phases c (c.stream q)).get p) = q.get p * a) :
      setup.phases.select ((unscaled setup.phases c (c.stream q)).map f) q = q.map (· * a) := by
    refine PerPhase.ext_get fun p => ?_
    rw [PerPhase.get_map]
    by_cases hp : setup.phases.isActive p = true
    · rw [PhaseSet.get_select hp, PerPhase.get_map, hf p hp]
    · have hzero := h.absent p (Bool.eq_false_iff.2 hp)
      rw [PhaseSet.get_select_absent (Bool.eq_false_iff.2 hp), hzero, zero_mul]
  by_cases hk : c.kind.isPressure = true
  · have hlead : stepLead setup c (c.unknownsOf q bhp) 0 = c.fractionScale.weightedSum q := by
      rw [stepLead, if_pos hk, Control.unknownsOf, if_pos hk]
      exact sub_zero _
    have hone : q.map (· * 1) = q := PerPhase.ext_get fun p => by rw [PerPhase.get_map, mul_one]
    rw [if_pos hk, ratesOf_pressure hu hk, hlead]
    refine (hselect (a := 1) fun p hp => ?_).trans hone
    rw [h.unscaled_stream hp, mul_one]
    exact mul_div_cancel₀ _ hscaled
  · have hweighted := h.weighted (Bool.eq_false_iff.2 hk)
    rw [if_neg hk]
    cases hkind : c.kind with
    | bhp | thp =>
      rw [hkind] at hk
      exact absurd rfl hk
    | surfaceRate =>
      have htotal : c.activeRate setup.phases (unscaled setup.phases c (c.stream q)) ≠ 0 := by
        rw [activeRate_unscaled_stream h]
        exact div_ne_zero hweighted hscaled
      rw [ratesOf_surfaceRate hu hkind htotal, activeRate_unscaled_stream h]
      refine hselect fun p hp => ?_
      rw [h.unscaled_stream hp]
      field_simp
    | reservoirRate =>
      have hscale : c.fractionScale.weightedSum q = c.weightedRate q := by
        rw [Control.fractionScale, hkind]
        rfl
      rw [ratesOf_reservoirRate hkind]
      refine hselect fun p hp => ?_
      rw [h.unscaled_stream hp, hscale, div_mul_eq_mul_div, mul_div_assoc]

end WellUnit

/-- The rates of a producer in which nothing is lost pass through its unknowns: deriving the unknowns succeeds, and after
that a step of zero gives the rates back under a pressure control.  Under a rate control it gives them on the target. -/
theorem Model.rates_of_encoding [IsStrictOrderedRing K] {m : Model K} {f : FlowState K} {w : Nat} {u : WellUnit K}
    {c : Control K} {q : PerPhase K} (hlimit : 0 ≤ m.setup.settings.maxFractionChange) (hu : m.units[w]? = some u)
    (hproducer : u.well.isProducer = true) (hc : (f.slot w).currentControl u.well = .ok c)
    (hq : (f.slot w).rates = some q) (hbhp : (f.slot w).bhp.isSome) (hunknowns : (f.slot w).unknowns.isSome)
    (h : c.IsEncodable m.setup.phases q) :
    ∃ f₁, FlowState.onSlot w (Slot.seed m.setup.phases u.well) f = (.ok ⟨⟩, f₁) ∧
      ∀ updates f₂, updates[w]? = some 0 → m.applyUpdates updates f₁ = (.ok ⟨⟩, f₂) → (f₂.slot w).rates =
        some (if c.kind.isPressure then q else q.map (· * (c.target / c.weightedRate q))) := by
  have hinjector := Well.isInjector_of_isProducer hproducer
  obtain ⟨bhp, hbhp⟩ := Option.isSome_iff_exists.1 hbhp
  have hseed := Slot.seed_of_isEncodable hinjector hc hq hbhp hunknowns h
  have hslot : (f.putSlot w { f.slot w with unknowns := some (c.unknownsOf q bhp) }).slot w =
      { f.slot w with unknowns := some (c.unknownsOf q bhp) } :=
    FlowState.slot_putSlot_self ⟨rfl, rfl, rfl, hunknowns.symm, rfl⟩
  refine ⟨f.putSlot w { f.slot w with unknowns := some (c.unknownsOf q bhp) }, ?_, fun updates f₂ hzero hrun => ?_⟩
  · rw [FlowState.run_onSlot, hseed]
  obtain ⟨dx, hdx, hstep⟩ := applyUpdates_slot hrun hu
  obtain rfl : dx = 0 := Option.some.inj (hdx.symm.trans hzero)
  rw [hslot] at hstep
  obtain ⟨c', x, hc', ⟨old, rates, bhp', hold, hrates, -, -, rfl⟩, hthp⟩ := WellUnit.applyUpdate_ok hstep
  obtain rfl : c = c' := Except.ok.inj (hc.symm.trans hc')
  obtain rfl : c.unknownsOf q bhp = old := Option.some.inj hold
  obtain rfl : q = rates := Option.some.inj (hq.symm.trans hrates)
  rw [WellUnit.updateThp_frame hthp]
  exact congrArg some (WellUnit.steppedRates_unknownsOf hlimit hinjector h bhp)

/-! ### Producers of oil and water -/

namespace Session

/-- The six wells with oil and water flowing through the producers. -/
def flowingSix : FlowState ℚ :=
  { sixWells.flow with rates := [-1, -2, 0, 0, -5, 0, -2, -1, 0, -3, -1, 0, 0, 0, 0, 0, 0, 0] }

private theorem isEncodable_produced {c : Control ℚ} {water oil : ℚ} (hwater : water ≤ 0) (hoil : oil ≤ 0)
    (hscaled : c.fractionScale.weightedSum ⟨water, oil, 0⟩ ≠ 0)
    (hcoefficients : c.kind = .reservoirRate → 0 < c.weights.water ∧ 0 < c.weights.oil)
    (hweighted : c.kind.isPressure = false → c.weightedRate ⟨water, oil, 0⟩ ≠ 0) :
    c.IsEncodable .oilWater ⟨water, oil, 0⟩ where
  oneSign := by
    refine .inr fun p _ => ?_
    cases p with
    | water => exact hwater
    | oil => exact hoil
    | gas => exact le_refl 0
  absent p hp := by
    cases p with
    | gas => rfl
    | _ => cases hp
  scaled := hscaled
  coefficients hk p hp := by
    cases p with
    | water => exact (hcoefficients hk).1
    | oil => exact (hcoefficients hk).2
    | gas => cases hp
  weighted := hweighted

/-- Under the bottom-hole pressure the rates come back.  Under the surface rate, where their weighted rate is -5 and the
target -6, they come back a fifth larger, and so they do under the reservoir rate. -/
theorem rates_of_encoding_flowingSix :
    (∃ u f₁ f₂, sixWells.model.units[0]? = some u ∧
      FlowState.onSlot 0 (Slot.seed sixWells.model.setup.phases u.well) flowingSix = (.ok ⟨⟩, f₁) ∧
      sixWells.model.applyUpdates (.replicate 6 0) f₁ = (.ok ⟨⟩, f₂) ∧ (f₂.slot 0).rates = some ⟨-1, -2, 0⟩) ∧
    (∃ u f₁ f₂, sixWells.model.units[2]? = some u ∧
      FlowState.onSlot 2 (Slot.seed sixWells.model.setup.phases u.well) flowingSix = (.ok ⟨⟩, f₁) ∧
      sixWells.model.applyUpdates (.replicate 6 0) f₁ = (.ok ⟨⟩, f₂) ∧
      (f₂.slot 2).rates = some ⟨-12 / 5, -6 / 5, 0⟩) ∧
    ∃ u f₁ f₂, sixWells.model.units[3]? = some u ∧
      FlowState.onSlot 3 (Slot.seed sixWells.model.setup.phases u.well) flowingSix = (.ok ⟨⟩, f₁) ∧
      sixWells.model.applyUpdates (.replicate 6 0) f₁ = (.ok ⟨⟩, f₂) ∧
      (f₂.slot 3).rates = some ⟨-18 / 5, -6 / 5, 0⟩ := by
  have hback {w : Nat} {u : WellUnit ℚ} {c : Control ℚ} {q r : PerPhase ℚ} (hw : w < 6)
      (hu : sixWells.model.units[w]? = some u) (hproducer : u.well.isProducer = true)
      (hc : (flowingSix.slot w).currentControl u.well = .ok c) (hq : (flowingSix.slot w).rates = some q)
      (hplaces : (flowingSix.slot w).bhp.isSome ∧ (flowingSix.slot w).unknowns.isSome)
      (h : c.IsEncodable sixWells.model.setup.phases q)
      (hr : (if c.kind.isPressure then q else q.map (· * (c.target / c.weightedRate q))) = r)
      (hrun : (sixWells.model.applyUpdates (.replicate 6 0)
        (FlowState.onSlot w (Slot.seed sixWells.model.setup.phases u.well) flowingSix).2).1.toOption = some ⟨⟩) :
      ∃ u f₁ f₂, sixWells.model.units[w]? = some u ∧
        FlowState.onSlot w (Slot.seed sixWells.model.setup.phases u.well) flowingSix = (.ok ⟨⟩, f₁) ∧
        sixWells.model.applyUpdates (.replicate 6 0) f₁ = (.ok ⟨⟩, f₂) ∧ (f₂.slot w).rates = some r := by
    have hlimit : 0 ≤ sixWells.model.setup.settings.maxFractionChange := by decide +kernel
    obtain ⟨f₁, hseed, hstep⟩ :=
      Model.rates_of_encoding hlimit hu hproducer hc hq hplaces.1 hplaces.2 h
    rw [hseed] at hrun
    have hzero : (List.replicate 6 (0 : Vec3 ℚ))[w]? = some 0 := List.getElem?_replicate_of_lt hw
    exact ⟨u, f₁, _, hu, hseed, run_ok_of_toOption hrun, hr ▸ hstep _ _ hzero (run_ok_of_toOption hrun)⟩
  refine ⟨?_, ?_, ?_⟩
  · exact hback (by decide) rfl rfl rfl rfl ⟨rfl, rfl⟩
      (isEncodable_produced (by norm_num) (by norm_num) (by decide +kernel) nofun nofun) (by decide +kernel)
      (by decide +kernel)
  · exact hback (by decide) rfl rfl rfl rfl ⟨rfl, rfl⟩
      (isEncodable_produced (by norm_num) (by norm_num) (by decide +kernel) nofun fun _ => by decide +kernel)
      (by decide +kernel) (by decide +kernel)
  · exact hback (by decide) rfl rfl rfl rfl ⟨rfl, rfl⟩
      (isEncodable_produced (by norm_num) (by norm_num) (by decide +kernel) (fun _ => by decide +kernel)
        fun _ => by decide +kernel) (by decide +kernel) (by decide +kernel)

end Session

end BlackOilWells
