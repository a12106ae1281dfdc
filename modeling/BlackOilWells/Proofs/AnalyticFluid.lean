import BlackOilWells.Proofs.FlowDerivatives

/-!
# The analytic fluid away from ties

The flows of a well track their derivatives with any fluid whose saturated ratios follow the pressure
(`FollowsPressure`).  The ratios of the analytic fluid are linear in the pressure up to a cap, so that they follow it
off the cap.  What is left of the conditions on a well are inequalities between values
(`WellUnit.offTies_of_offCaps`).
-/

namespace BlackOilWells

open Filter Topology

/-! ### Saturated ratios -/

namespace FluidRegion

variable (r : FluidRegion ℝ) (p : ℝ)

/-- The saturated gas-oil ratio at a pressure. -/
noncomputable def rsAt : ℝ := min (p * r.rsSlope) r.rsMax

/-- The saturated oil-gas ratio at a pressure. -/
noncomputable def rvAt : ℝ := min (p * r.rvSlope) r.rvMax

/-- Whether a stream of oil and gas at a pressure is off all ties: the saturated ratios are off their caps, the ratios of
the stream are off saturation, and dissolved gas and vaporized oil are not at the limit of cancelling each other. -/
structure OffCaps (mix : PerPhase (WellDual ℝ)) : Prop where
  pressure : 0 < p
  rsCap : r.rsMax ≠ p * r.rsSlope
  rvCap : r.rvMax ≠ p * r.rvSlope
  oil : mix.oil.value ≠ 0
  gas : mix.gas.value ≠ 0
  rs : r.rsAt p ≠ (ConnectionInput.freeRatio mix.gas mix.oil).value
  rv : r.rvAt p ≠ (ConnectionInput.freeRatio mix.oil mix.gas).value
  cancellation : |1 - min (ConnectionInput.freeRatio mix.oil mix.gas).value (r.rvAt p) *
    min (ConnectionInput.freeRatio mix.gas mix.oil).value (r.rsAt p)| ≠ (1e-12 : ℝ)

end FluidRegion

section Capped

variable {s m p : ℝ}

/-- A linear function of the pressure up to a cap has a slope off the cap. -/
private theorem hasDerivAt_capped (hm : m ≠ p * s) :
    HasDerivAt (fun r => if m < r * s then m else r * s) (if m < p * s then 0 else s) p := by
  have hlt : ∀ᶠ r in 𝓝 p, (m < r * s ↔ m < p * s) :=
    eventually_lt_iff continuousAt_const (continuousAt_id.mul continuousAt_const) hm
  by_cases h : m < p * s
  · rw [if_pos h]
    exact (hasDerivAt_const p m).congr_of_eventuallyEq (hlt.mono fun r hr => if_pos (hr.2 h))
  · rw [if_neg h]
    have hs : HasDerivAt (fun r => r * s) s p := by simpa using (hasDerivAt_id p).mul_const s
    exact hs.congr_of_eventuallyEq (hlt.mono fun r hr => if_neg (mt hr.1 h))

private theorem capped_eq_chain (d : WellDual ℝ) : (d * s).min (.const m) =
    d.chain (if m < d.value * s then m else d.value * s) (if m < d.value * s then 0 else s) := by
  by_cases h : m < d.value * s
  · have hc : Dual.const m = d.chain m 0 := by
      rw [Dual.const, Dual.chain, Dual.mk.injEq]
      exact ⟨rfl, Vector.ext fun i hi => by simp⟩
    rw [if_pos h, if_pos h, ← hc]
    exact if_pos h
  · rw [if_neg h, if_neg h]
    exact if_neg h

private theorem capped_follows {f : WellDual ℝ → Except FluidError (WellDual ℝ)}
    (hf : ∀ d, 0 < d.value → f d = .ok ((d * s).min (.const m))) (hp : 0 < p) (hm : m ≠ p * s) :
    FollowsPressure f p := by
  refine ⟨_, fun r => if m < r * s then 0 else s, hasDerivAt_capped hm, ?_⟩
  filter_upwards [lt_mem_nhds hp] with r hr d hd
  subst hd
  rw [hf d hr, capped_eq_chain]

end Capped

namespace FluidRegions

variable {f : FluidRegions ℝ} {i : Nat} {r : FluidRegion ℝ} {p : ℝ}

private theorem dissolvedGas_eq (hr : f.region i = .ok r) (t : ℝ) {d : WellDual ℝ} (hd : 0 < d.value) :
    f.dissolvedGas i t d = .ok ((d * r.rsSlope).min (.const r.rsMax)) :=
  Outcome.bind_ok.2 ⟨⟨⟩, if_pos ⟨rfl, hd⟩, Outcome.bind_ok.2 ⟨r, hr, rfl⟩⟩

private theorem vaporizedOil_eq (hr : f.region i = .ok r) (t : ℝ) {d : WellDual ℝ} (hd : 0 < d.value) :
    f.vaporizedOil i t d = .ok ((d * r.rvSlope).min (.const r.rvMax)) :=
  Outcome.bind_ok.2 ⟨⟨⟩, if_pos ⟨rfl, hd⟩, Outcome.bind_ok.2 ⟨r, hr, rfl⟩⟩

/-- The gas-oil ratio follows the pressure off its cap. -/
theorem dissolvedGas_follows (hr : f.region i = .ok r) (t : ℝ) (hp : 0 < p) (hm : r.rsMax ≠ p * r.rsSlope) :
    FollowsPressure (f.dissolvedGas i t) p :=
  capped_follows (fun _ => dissolvedGas_eq hr t) hp hm

/-- The oil-gas ratio follows the pressure off its cap. -/
theorem vaporizedOil_follows (hr : f.region i = .ok r) (t : ℝ) (hp : 0 < p) (hm : r.rvMax ≠ p * r.rvSlope) :
    FollowsPressure (f.vaporizedOil i t) p :=
  capped_follows (fun _ => vaporizedOil_eq hr t) hp hm

private theorem value_of_dissolvedGas (hr : f.region i = .ok r) (t : ℝ) {d sat : WellDual ℝ} (hd : 0 < d.value)
    (h : f.dissolvedGas i t d = .ok sat) : sat.value = r.rsAt d.value := by
  obtain rfl := Except.ok.inj ((dissolvedGas_eq hr t hd).symm.trans h)
  exact Dual.value_min ..

private theorem value_of_vaporizedOil (hr : f.region i = .ok r) (t : ℝ) {d sat : WellDual ℝ} (hd : 0 < d.value)
    (h : f.vaporizedOil i t d = .ok sat) : sat.value = r.rvAt d.value := by
  obtain rfl := Except.ok.inj ((vaporizedOil_eq hr t hd).symm.trans h)
  exact Dual.value_min ..

end FluidRegions

/-! ### Flows -/

namespace ConnectionInput

/-- Whether no test in a flow of the analytic fluid out of the well is at a tie. -/
structure OutflowOffCaps (c : ConnectionInput ℝ) (phases : PhaseSet) (f : FluidRegions ℝ) : Prop where
  /-- The volume factors do not vanish. -/
  invB : ∀ p, phases.isActive p = true → (c.invB.get p).value ≠ 0
  /-- The volume of the stream is not at its limit. -/
  volume : ∀ v, c.streamVolume? phases f.model = .ok (some v) → |v.value| ≠ (1e-12 : ℝ)
  /-- The region is one of the fluid, and the stream is off the ties there. -/
  region : phases.hasOilAndGas = true → ∃ r, f.region c.cell.region = .ok r ∧ r.OffCaps c.wellPressure.value c.mix

theorem OutflowOffCaps.outflowOffTies {c : ConnectionInput ℝ} {phases : PhaseSet} {f : FluidRegions ℝ}
    (h : c.OutflowOffCaps phases f) : c.OutflowOffTies phases f.model := by
  cases hog : phases.hasOilAndGas with
  | false =>
    have hno {P : Prop} (h : phases.hasOilAndGas = true) : P := absurd (hog.symm.trans h) Bool.false_ne_true
    exact ⟨h.invB, hno, hno, hno, hno, hno, hno, hno, h.volume⟩
  | true =>
    obtain ⟨r, hregion, hr⟩ := h.region hog
    refine ⟨h.invB, fun _ => hr.oil, fun _ => hr.gas,
      fun _ => FluidRegions.dissolvedGas_follows hregion c.cell.temperature hr.pressure hr.rsCap,
      fun _ => FluidRegions.vaporizedOil_follows hregion c.cell.temperature hr.pressure hr.rvCap,
      fun _ sat hsat => ?_, fun _ sat hsat => ?_, fun _ rsSat rvSat hrs hrv => ?_, h.volume⟩
    · rw [FluidRegions.value_of_dissolvedGas hregion c.cell.temperature hr.pressure hsat]
      exact hr.rs
    · rw [FluidRegions.value_of_vaporizedOil hregion c.cell.temperature hr.pressure hsat]
      exact hr.rv
    · have hsub (d : WellDual ℝ) : ((1 : ℝ) - d).value = 1 - d.value := neg_add_eq_sub _ _
      have hratio (part whole sat : WellDual ℝ) :
          (streamRatio part whole sat).value = min (freeRatio part whole).value sat.value := Dual.value_min ..
      have hne := hr.cancellation
      rw [← FluidRegions.value_of_dissolvedGas hregion c.cell.temperature hr.pressure hrs,
        ← FluidRegions.value_of_vaporizedOil hregion c.cell.temperature hr.pressure hrv, ← hratio, ← hratio] at hne
      rw [hsub]
      exact hne

/-- Whether no test in a flow of the analytic fluid is at a tie, like `OffTies` for any fluid. -/
def OffCaps (c : ConnectionInput ℝ) (phases : PhaseSet) (f : FluidRegions ℝ) : Prop :=
  c.drawdown.value ≠ 0 ∧
    (c.drawdown.value < 0 → c.crossFlow = true ∨ c.type = .injector → c.OutflowOffCaps phases f)

theorem OffCaps.offTies {c : ConnectionInput ℝ} {phases : PhaseSet} {f : FluidRegions ℝ} (h : c.OffCaps phases f) :
    c.OffTies phases f.model :=
  ⟨h.1, fun hd hopen => (h.2 hd hopen).outflowOffTies⟩

end ConnectionInput

/-- With the analytic fluid no derivative of a fluid property is left to assume: the conditions on the connections of a
well are inequalities between values. -/
theorem WellUnit.offTies_of_offCaps {u : WellUnit ℝ} {setup : Setup ℝ} {cells : List (Cell ℝ)} {control : Control ℝ}
    {f : FluidRegions ℝ} (hpvt : setup.pvt = f.model)
    (hrate : ∀ p, setup.phases.isActive p = true → u.well.isInjector = false → control.kind = .surfaceRate →
      u.OffGuard setup.phases control p)
    (hlift : ∀ table lift t, control.kind = .thp table lift → setup.lift.get table = .ok t →
      t.OffNodes (setup.phases.select (.ofFn (u.surfaceRate setup.phases control)) (.replicate 0)))
    (hconnection : ∀ link ∈ u.links, ∀ cell bhp crossFlow, cellAt cells link.1.cell = .ok cell →
      u.bottomHole setup control = .ok bhp → u.admitsCrossFlow setup cells (.ok control) = .ok crossFlow →
      (u.connectionInput setup crossFlow bhp link cell).OffCaps setup.phases f) :
    u.OffTies setup cells control := by
  refine ⟨hrate, hlift, fun link hlink cell bhp crossFlow hcell hb hc => ?_⟩
  rw [hpvt]
  exact (hconnection link hlink cell bhp crossFlow hcell hb hc).offTies

end BlackOilWells
