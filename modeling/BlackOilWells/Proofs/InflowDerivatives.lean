import BlackOilWells.Proofs.Derivatives
import BlackOilWells.Proofs.Attempts
import BlackOilWells.Well.Inflow

/-!
# Derivatives of the flow through a connection

The rates through a connection track their derivatives by the unknowns of the cell and of the well, if what they depend
on does (`ConnectionInput.TracksAt`) and no test in them is at a tie (`ConnectionInput.OffTies`).  The saturated ratios
of the fluid model may be any functions of the pressure that follow the chain rule (`FollowsPressure`).
-/

namespace BlackOilWells

open Filter Topology

variable {E : Type} [NormedAddCommGroup E] [NormedSpace ℝ E] {c : Fin 6 → E →L[ℝ] ℝ} {x : E}

/-! ### Fluid properties -/

/-- Whether a fluid property is a differentiable function of the pressure near a pressure, and multiplies the partial
derivatives of the pressure by its slope. -/
def FollowsPressure (f : WellDual ℝ → Except FluidError (WellDual ℝ)) (p : ℝ) : Prop :=
  ∃ g k : ℝ → ℝ, HasDerivAt g (k p) p ∧ ∀ᶠ r in 𝓝 p, ∀ d : WellDual ℝ, d.value = r → f d = .ok (d.chain (g r) (k r))

private theorem FollowsPressure.tracksOk {f : WellDual ℝ → Except FluidError (WellDual ℝ)} {P : E → WellDual ℝ}
    (hP : Tracks c P x) (hf : FollowsPressure f (P x).value) : TracksOk c (fun q => f (P q)) x := by
  obtain ⟨g, k, hg, hf⟩ := hf
  refine ⟨fun q => (P q).chain (g (P q).value) (k (P q).value), ?_, hP.chain hg (.of_forall fun _ => rfl) rfl⟩
  exact (hP.continuousAt.eventually hf).mono fun q hq => hq (P q) rfl

namespace ConnectionInput

/-! ### What a flow depends on -/

/-- Whether the differentiable inputs of a flow track their derivatives; the others do not change. -/
structure TracksAt (c : Fin 6 → E →L[ℝ] ℝ) (I : E → ConnectionInput ℝ) (x : E) : Prop where
  pressure : Tracks c (fun q => WellDual.ofCell (I q).cell.pressure) x
  invB : TracksAll c (fun q => (I q).invB) x
  mobility : TracksAll c (fun q => (I q).mobility) x
  rs : Tracks c (fun q => WellDual.ofCell (I q).cell.rs) x
  rv : Tracks c (fun q => WellDual.ofCell (I q).cell.rv) x
  bhp : Tracks c (fun q => (I q).bhp) x
  mix : TracksAll c (fun q => (I q).mix) x
  region : ∀ q, (I q).cell.region = (I x).cell.region
  temperature : ∀ q, (I q).cell.temperature = (I x).cell.temperature
  transmissibility : ∀ q, (I q).transmissibility = (I x).transmissibility
  head : ∀ q, (I q).head = (I x).head
  type : ∀ q, (I q).type = (I x).type
  crossFlow : ∀ q, (I q).crossFlow = (I x).crossFlow

namespace TracksAt

variable {I : E → ConnectionInput ℝ}

private theorem wellPressure (hI : TracksAt c I x) : Tracks c (fun q => (I q).wellPressure) x := by
  refine (hI.bhp.add_scalar (I x).head).congr (.of_forall fun q => ?_)
  rw [ConnectionInput.wellPressure, hI.head]

private theorem drawdown (hI : TracksAt c I x) : Tracks c (fun q => (I q).drawdown) x := hI.pressure.sub hI.wellPressure

private theorem freeInflow (hI : TracksAt c I x) (p : Phase) : Tracks c (fun q => (I q).freeInflow p) x := by
  refine ((hI.invB p).mul (((hI.mobility p).mul hI.drawdown).mul_scalar (-(I x).transmissibility))).congr
    (.of_forall fun q => ?_)
  rw [ConnectionInput.freeInflow, hI.transmissibility]

private theorem inflow (hI : TracksAt c I x) (phases : PhaseSet) : TracksAll c (fun q => (I q).inflow phases) x := by
  have hfree : TracksAll c (fun q => phases.select (.ofFn (I q).freeInflow) (.replicate 0)) x :=
    .select_ofFn phases fun p _ => hI.freeInflow p
  intro p
  unfold ConnectionInput.inflow
  cases phases.hasOilAndGas with
  | false => exact hfree p
  | true =>
    cases p with
    | water => exact hfree .water
    | oil => exact (hfree .oil).add (hI.rv.mul (hfree .gas))
    | gas => exact (hfree .gas).add (hI.rs.mul (hfree .oil))

end TracksAt

/-! ### Flow out of the well -/

/-- The ratio of two fractions before it is capped; zero without the second. -/
noncomputable def freeRatio (part whole : WellDual ℝ) : WellDual ℝ := if 0 < whole.value then part / whole else 0

/-- Whether no test in a flow out of the well is at a tie and no divisor vanishes: the volume factors, the fractions of
oil and gas, their ratios against saturation, and what is left of the stream without what is dissolved in it. -/
structure OutflowOffTies (c : ConnectionInput ℝ) (phases : PhaseSet) (pvt : PvtModel ℝ) : Prop where
  /-- The volume factors do not vanish. -/
  invB : ∀ p, phases.isActive p = true → (c.invB.get p).value ≠ 0
  /-- The fraction of oil is not zero. -/
  oil : phases.hasOilAndGas = true → c.mix.oil.value ≠ 0
  /-- The fraction of gas is not zero. -/
  gas : phases.hasOilAndGas = true → c.mix.gas.value ≠ 0
  /-- The saturated gas-oil ratio follows the pressure. -/
  dissolvedGas : phases.hasOilAndGas = true →
    FollowsPressure (pvt.dissolvedGas c.cell.region c.cell.temperature) c.wellPressure.value
  /-- The saturated oil-gas ratio follows the pressure. -/
  vaporizedOil : phases.hasOilAndGas = true →
    FollowsPressure (pvt.vaporizedOil c.cell.region c.cell.temperature) c.wellPressure.value
  /-- The ratio of gas to oil is not at saturation. -/
  rs : phases.hasOilAndGas = true → ∀ sat,
    pvt.dissolvedGas c.cell.region c.cell.temperature c.wellPressure = .ok sat →
      sat.value ≠ (freeRatio c.mix.gas c.mix.oil).value
  /-- The ratio of oil to gas is not at saturation. -/
  rv : phases.hasOilAndGas = true → ∀ sat,
    pvt.vaporizedOil c.cell.region c.cell.temperature c.wellPressure = .ok sat →
      sat.value ≠ (freeRatio c.mix.oil c.mix.gas).value
  /-- Dissolved gas and vaporized oil are not at the limit of cancelling each other. -/
  cancellation : phases.hasOilAndGas = true → ∀ rsSat rvSat,
    pvt.dissolvedGas c.cell.region c.cell.temperature c.wellPressure = .ok rsSat →
    pvt.vaporizedOil c.cell.region c.cell.temperature c.wellPressure = .ok rvSat →
      |((1 : ℝ) - streamRatio c.mix.oil c.mix.gas rvSat * streamRatio c.mix.gas c.mix.oil rsSat : WellDual ℝ).value| ≠
        (1e-12 : ℝ)
  /-- The volume of the stream is not at its limit. -/
  volume : ∀ v, c.streamVolume? phases pvt = .ok (some v) → |v.value| ≠ (1e-12 : ℝ)

private theorem streamRatio_tracks {part whole sat : E → WellDual ℝ} (hp : Tracks c part x) (hw : Tracks c whole x)
    (hs : Tracks c sat x) (h0 : (whole x).value ≠ 0) (hne : (sat x).value ≠ (freeRatio (part x) (whole x)).value) :
    Tracks c (fun q => streamRatio (part q) (whole q) (sat q)) x := by
  have hr : Tracks c (fun q => freeRatio (part q) (whole q)) x :=
    .ite (eventually_lt_iff continuousAt_const hw.continuousAt h0.symm) (fun _ => hp.div hw h0) fun _ => .zero
  exact .ite (eventually_lt_iff hs.continuousAt hr.continuousAt hne) (fun _ => hs) fun _ => hr

private theorem ne_zero_of_not_abs_lt {k : ℝ} (h : ¬|k| < 1e-12) : k ≠ 0 := by
  rintro rfl
  rw [abs_zero] at h
  norm_num at h

/-- A quotient phase by phase. -/
private theorem total_div_tracks {phases : PhaseSet} {Q R : E → PerPhase (WellDual ℝ)}
    (hQ : ∀ p, phases.isActive p = true → Tracks c (fun q => (Q q).get p) x) (hR : TracksAll c R x)
    (h0 : ∀ p, phases.isActive p = true → ((R x).get p).value ≠ 0) :
    Tracks c (fun q => phases.total (.zipWith (· / ·) (Q q) (R q))) x := by
  refine TracksAll.total fun p hp => ?_
  simp only [PerPhase.get_zipWith]
  exact (hQ p hp).div (hR p) (h0 p hp)

private theorem streamVolume_tracks {I : E → ConnectionInput ℝ} {phases : PhaseSet} {pvt : PvtModel ℝ}
    (hI : TracksAt c I x)
    (h : (I x).OutflowOffTies phases pvt) :
    (∀ᶠ q in 𝓝 x, (I q).streamVolume? phases pvt = .ok none) ∨
      ∃ V, (∀ᶠ q in 𝓝 x, (I q).streamVolume? phases pvt = .ok (some (V q))) ∧ Tracks c V x := by
  by_cases hog : phases.hasOilAndGas = true
  · obtain ⟨Rs, hRs, hRst⟩ := FollowsPressure.tracksOk hI.wellPressure (h.dissolvedGas hog)
    obtain ⟨Rv, hRv, hRvt⟩ := FollowsPressure.tracksOk hI.wellPressure (h.vaporizedOil hog)
    have hrs := streamRatio_tracks (hI.mix .gas) (hI.mix .oil) hRst (h.oil hog) (h.rs hog _ hRs.self_of_nhds)
    have hrv := streamRatio_tracks (hI.mix .oil) (hI.mix .gas) hRvt (h.gas hog) (h.rv hog _ hRv.self_of_nhds)
    have hd := (hrv.mul hrs).scalar_sub 1
    have hne := h.cancellation hog _ _ hRs.self_of_nhds hRv.self_of_nhds
    have hlt := eventually_lt_iff hd.continuousAt.abs continuousAt_const hne
    by_cases hx : |((1 : ℝ) - streamRatio (I x).mix.oil (I x).mix.gas (Rv x) *
        streamRatio (I x).mix.gas (I x).mix.oil (Rs x) : WellDual ℝ).value| < 1e-12
    · -- dissolved gas and vaporized oil cancel, also nearby
      left
      filter_upwards [hRs, hRv, hlt] with q hqs hqv hq
      unfold streamVolume?
      rw [if_pos hog, hI.region, hI.temperature]
      refine Outcome.bind_ok.2 ⟨_, hqs, Outcome.bind_ok.2 ⟨_, hqv, ?_⟩⟩
      exact if_pos (hq.2 hx)
    · right
      have h0 := ne_zero_of_not_abs_lt hx
      have hoil := ((hI.mix .oil).sub (hrv.mul (hI.mix .gas))).div hd h0
      have hgas := ((hI.mix .gas).sub (hrs.mul (hI.mix .oil))).div hd h0
      have hfree := TracksAll.mk (hI.mix .water) hoil hgas
      refine ⟨_, ?_, total_div_tracks (fun p _ => hfree p) hI.invB h.invB⟩
      filter_upwards [hRs, hRv, hlt] with q hqs hqv hq
      unfold streamVolume?
      rw [if_pos hog, hI.region, hI.temperature]
      refine Outcome.bind_ok.2 ⟨_, hqs, Outcome.bind_ok.2 ⟨_, hqv, ?_⟩⟩
      exact if_neg (mt hq.1 hx)
  · right
    refine ⟨_, .of_forall fun q => ?_, total_div_tracks (fun p _ => hI.mix p) hI.invB h.invB⟩
    unfold streamVolume?
    rw [if_neg hog]
    rfl

private theorem outflow_tracks {I : E → ConnectionInput ℝ} {phases : PhaseSet} {pvt : PvtModel ℝ} (hI : TracksAt c I x)
    (h : (I x).OutflowOffTies phases pvt) :
    ∃ G, (∀ᶠ q in 𝓝 x, (I q).outflow phases pvt = .ok (G q)) ∧ TracksAll c G x := by
  rcases streamVolume_tracks hI h with hnone | ⟨V, hV, hVt⟩
  · refine ⟨_, hnone.mono fun q hq => ?_, .zero⟩
    unfold outflow
    rw [hq]
    rfl
  have hlt := eventually_lt_iff hVt.continuousAt.abs continuousAt_const (h.volume _ hV.self_of_nhds)
  by_cases hx : |(V x).value| < 1e-12
  · refine ⟨_, ?_, .zero⟩
    filter_upwards [hV, hlt] with q hq hqlt
    unfold outflow
    rw [hq]
    exact if_pos (hqlt.2 hx)
  · have hm : Tracks c (fun q => phases.total (I q).mobility) x := TracksAll.total fun p _ => hI.mobility p
    have hrate := ((hm.mul hI.drawdown).mul_scalar (-(I x).transmissibility)).div hVt (ne_zero_of_not_abs_lt hx)
    have hq := TracksAll.map (f := fun q d => d * _) fun p => (hI.mix p).mul hrate
    refine ⟨_, ?_, TracksAll.select phases fun p _ => hq p⟩
    filter_upwards [hV, hlt] with q hq hqlt
    unfold outflow
    rw [hq, hI.transmissibility]
    change (if |(V q).value| < 1e-12 then _ else _) = _
    rw [if_neg (mt hqlt.1 hx)]
    exact if_pos (List.all_eq_true.2 fun d _ => d.isFinite_exact)

/-! ### Both directions -/

/-- Whether no test in a flow is at a tie: the drawdown is not zero, and a flow out of the well is off its ties. -/
def OffTies (c : ConnectionInput ℝ) (phases : PhaseSet) (pvt : PvtModel ℝ) : Prop :=
  c.drawdown.value ≠ 0 ∧
    (c.drawdown.value < 0 → c.crossFlow = true ∨ c.type = .injector → c.OutflowOffTies phases pvt)

theorem flux_tracks {I : E → ConnectionInput ℝ} {phases : PhaseSet} {pvt : PvtModel ℝ} (hI : TracksAt c I x)
    (h : (I x).OffTies phases pvt) :
    ∃ G, (∀ᶠ q in 𝓝 x, (I q).flux phases pvt = .ok (G q)) ∧ TracksAll c G x := by
  have hlt := eventually_lt_iff continuousAt_const hI.drawdown.continuousAt h.1.symm
  by_cases hx : 0 < (I x).drawdown.value
  · by_cases hb : (!(I x).crossFlow && (I x).type = .injector) = true
    · refine ⟨_, hlt.mono fun q hq => ?_, .zero⟩
      rw [flux, if_pos (hq.2 hx), hI.crossFlow, hI.type, if_pos hb]
    · refine ⟨_, hlt.mono fun q hq => ?_, hI.inflow phases⟩
      rw [flux, if_pos (hq.2 hx), hI.crossFlow, hI.type, if_neg hb]
  · by_cases hb : (!(I x).crossFlow && (I x).type = .producer) = true
    · refine ⟨_, hlt.mono fun q hq => ?_, .zero⟩
      rw [flux, if_neg (mt hq.1 hx), hI.crossFlow, hI.type, if_pos hb]
    · have hopen : (I x).crossFlow = true ∨ (I x).type = .injector := by
        cases hc : (I x).crossFlow with
        | true => exact .inl rfl
        | false =>
          cases ht : (I x).type with
          | injector => exact .inr rfl
          | producer => exact absurd (by rw [hc, ht]; rfl) hb
      obtain ⟨G, hG, hGt⟩ := outflow_tracks hI (h.2 (lt_of_le_of_ne (not_lt.1 hx) h.1) hopen)
      refine ⟨G, ?_, hGt⟩
      filter_upwards [hlt, hG] with q hq hqG
      rw [flux, if_neg (mt hq.1 hx), hI.crossFlow, hI.type, if_neg hb, hqG]

/-! ### Absent phases -/

private theorem inflow_absent {α : Type} [Scalar α] (c : ConnectionInput α) {phases : PhaseSet} {p : Phase}
    (hp : phases.isActive p = false) : (c.inflow phases).get p = 0 := by
  have hfree : (phases.select (.ofFn c.freeInflow) (.replicate 0)).get p = 0 := by
    rw [PhaseSet.get_select_absent hp, PerPhase.get_replicate]
  unfold inflow
  cases hog : phases.hasOilAndGas with
  | false => exact hfree
  | true =>
    obtain ⟨ho, hg⟩ := Bool.and_eq_true_iff.1 hog
    cases p with
    | water => exact hfree
    | oil => exact absurd (ho.symm.trans hp) nofun
    | gas => exact absurd (hg.symm.trans hp) nofun

private theorem outflow_absent {α : Type} [Scalar α] {c : ConnectionInput α} {phases : PhaseSet} {pvt : PvtModel α}
    {f : PerPhase (WellDual α)} (h : c.outflow phases pvt = .ok f) {p : Phase} (hp : phases.isActive p = false) :
    f.get p = 0 := by
  obtain ⟨volume, -, h⟩ := Outcome.bind_ok.1 h
  cases volume with
  | none =>
    cases h
    exact PerPhase.get_replicate 0 p
  | some volume =>
    dsimp only at h
    split at h
    · cases h
      exact PerPhase.get_replicate 0 p
    · split at h
      · cases h
        rw [PhaseSet.get_select_absent hp, PerPhase.get_replicate]
      · cases h

/-- A phase that takes no part does not flow. -/
theorem flux_absent {α : Type} [Scalar α] {c : ConnectionInput α} {phases : PhaseSet} {pvt : PvtModel α}
    {f : PerPhase (WellDual α)} (h : c.flux phases pvt = .ok f) {p : Phase} (hp : phases.isActive p = false) :
    f.get p = 0 := by
  unfold flux at h
  split at h
  · split at h
    · cases h
      exact PerPhase.get_replicate 0 p
    · cases h
      exact c.inflow_absent hp
  · split at h
    · cases h
      exact PerPhase.get_replicate 0 p
    · exact outflow_absent h hp

end ConnectionInput

end BlackOilWells
