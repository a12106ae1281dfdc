import Mathlib.Algebra.Order.Field.Basic
import BlackOilWells.Proofs.DefinedFlows
import BlackOilWells.Proofs.FlowDerivatives

/-!
# Directions of the flows of a well

In a physical state (`ConnectionInput.IsPhysical`) all phases of a connection flow in one direction, which the
drawdown gives.  Into the well every free phase flows inwards and takes a part of the others along; out of it the
stream moves at a rate that has the sign of the drawdown, because a stream without negative fractions has no negative
volume at its own ratios.

Whether a connection may flow against the type of the well is decided for all connections of the well together.  The
flows of a well either follow the drawdowns (`ConnectionFlow.FollowsDrawdown`) or keep to the type of the well
(`ConnectionFlow.KeepsType`); `WellUnit.connectionFlows_direction` says which, and that the flows are defined without
any division by zero.
-/

namespace BlackOilWells

/-! ### One connection -/

section

variable {K : Type} [Field K] [LinearOrder K]

/-- Whether nothing that a flow depends on is negative, apart from pressures, and no volume factor is zero. -/
structure ConnectionInput.IsPhysical (c : ConnectionInput K) (phases : PhaseSet) (pvt : PvtModel K) : Prop where
  transmissibility : 0 ≤ c.transmissibility
  invB : ∀ p, phases.isActive p = true → 0 < (c.cell.invB.get p).value
  mobility : ∀ p, phases.isActive p = true → 0 ≤ (c.cell.mobility.get p).value
  rs : phases.hasOilAndGas = true → 0 ≤ c.cell.rs.value
  rv : phases.hasOilAndGas = true → 0 ≤ c.cell.rv.value
  dissolvedGas : phases.hasOilAndGas = true → ∀ sat,
    pvt.dissolvedGas c.cell.region c.cell.temperature c.wellPressure = .ok sat → 0 ≤ sat.value
  vaporizedOil : phases.hasOilAndGas = true → ∀ sat,
    pvt.vaporizedOil c.cell.region c.cell.temperature c.wellPressure = .ok sat → 0 ≤ sat.value
  mix : ∀ p, phases.isActive p = true → 0 ≤ (c.mix.get p).value

namespace ConnectionInput

variable {c : ConnectionInput K} {phases : PhaseSet} {pvt : PvtModel K} {q : PerPhase (WellDual K)}

/-- A phase that flows is active, and its flow is not held back. -/
theorem flux_cases (h : c.flux phases pvt = .ok q) (p : Phase) :
    (q.get p).value = 0 ∨ phases.isActive p = true ∧
      ((0 < c.drawdown.value ∧ q = c.inflow phases) ∨ (¬0 < c.drawdown.value ∧ c.outflow phases pvt = .ok q)) := by
  by_cases hp : phases.isActive p = true
  · by_cases hs : c.Suppressed
    · rw [flux_of_suppressed hs] at h
      cases h
      rw [PerPhase.get_replicate]
      exact .inl rfl
    · by_cases hd : 0 < c.drawdown.value
      · rw [flux_of_inward hs hd] at h
        exact .inr ⟨hp, .inl ⟨hd, (Except.ok.inj h).symm⟩⟩
      · rw [flux_of_outward hs hd] at h
        exact .inr ⟨hp, .inr ⟨hd, h⟩⟩
  · rw [flux_absent h (Bool.eq_false_iff.2 hp)]
    exact .inl rfl

/-- A phase flows out of the well as its part of the stream. -/
theorem outflow_value (h : c.outflow phases pvt = .ok q) {p : Phase} (hp : phases.isActive p = true) :
    (q.get p).value = 0 ∨ ∃ rs rv, (phases.hasOilAndGas = true → c.streamRatios pvt = .ok (rs, rv)) ∧
      (q.get p).value =
        (c.mix.get p).value * (c.reservoirRate phases / c.volume phases rs rv (c.mix.map (·.value))) := by
  obtain ⟨rs, rv, hratios, ⟨-, rfl⟩ | ⟨-, hq⟩⟩ := outflow_ok h
  · rw [PerPhase.get_replicate]
    exact .inl rfl
  · exact .inr ⟨rs, rv, hratios, hq p hp⟩

private theorem flux_of_still (h : c.flux phases pvt = .ok q) (hd : c.drawdown.value = 0) (p : Phase) :
    (q.get p).value = 0 := by
  rcases flux_cases h p with hzero | ⟨hp, ⟨hin, -⟩ | ⟨-, hout⟩⟩
  · exact hzero
  · exact absurd hd hin.ne'
  · rcases outflow_value hout hp with hzero | ⟨rs, rv, -, hq⟩
    · exact hzero
    · rw [hq, reservoirRate, hd, mul_zero, zero_div, mul_zero]

/-- Without cross flow nothing flows unless the drawdown has the direction of the well. -/
theorem flux_of_opposed (h : c.flux phases pvt = .ok q) (hclosed : c.crossFlow = false)
    (hd : WellUnit.isForward c.type c.drawdown.value = false) (p : Phase) : (q.get p).value = 0 := by
  have hsuppressed (hs : c.Suppressed) : (q.get p).value = 0 := by
    rw [flux_of_suppressed hs] at h
    rw [← Except.ok.inj h, PerPhase.get_replicate]
    rfl
  cases htype : c.type with
  | injector =>
    rw [htype] at hd
    rcases lt_or_eq_of_le (not_lt.1 (of_decide_eq_false hd)) with hpos | hzero
    · exact hsuppressed ⟨hclosed, .inl ⟨hpos, htype⟩⟩
    · exact flux_of_still h hzero.symm p
  | producer =>
    rw [htype] at hd
    exact hsuppressed ⟨hclosed, .inr ⟨of_decide_eq_false hd, htype⟩⟩

variable [IsStrictOrderedRing K]

private theorem IsPhysical.reservoirRate_nonneg (hc : c.IsPhysical phases pvt) (hd : c.drawdown.value ≤ 0) :
    0 ≤ c.reservoirRate phases := by
  have hmobility : 0 ≤ phases.sum (c.cell.mobility.map (·.value)) := PhaseSet.sum_nonneg fun p hp => by
    rw [PerPhase.get_map]
    exact hc.mobility p hp
  have hconductance : -c.transmissibility * phases.sum (c.cell.mobility.map (·.value)) ≤ 0 :=
    mul_nonpos_of_nonpos_of_nonneg (neg_nonpos.2 hc.transmissibility) hmobility
  exact mul_nonneg_of_nonpos_of_nonpos hconductance hd

/-- A physical stream has no negative volume at its own ratios. -/
private theorem IsPhysical.volume_nonneg (hc : c.IsPhysical phases pvt) {rs rv : K}
    (hratios : phases.hasOilAndGas = true → c.streamRatios pvt = .ok (rs, rv)) :
    0 ≤ c.volume phases rs rv (c.mix.map (·.value)) := by
  have hmix (p : Phase) (hp : phases.isActive p = true) : 0 ≤ (c.mix.map (·.value)).get p := by
    rw [PerPhase.get_map]
    exact hc.mix p hp
  have hb (p : Phase) (hp : phases.isActive p = true) : 0 ≤ (c.cell.invB.map (·.value)).get p := by
    rw [PerPhase.get_map]
    exact (hc.invB p hp).le
  refine PhaseSet.reservoirVolume_nonneg ?_ hb hmix
  by_cases hog : phases.hasOilAndGas = true
  · obtain ⟨rsSat, hrs, hr⟩ := Outcome.bind_ok.1 (hratios hog)
    obtain ⟨rvSat, hrv, hr⟩ := Outcome.bind_ok.1 hr
    cases hr
    exact PhaseSet.carries_saturatedRatio (hmix .oil) (hmix .gas) (hc.dissolvedGas hog _ hrs)
      (hc.vaporizedOil hog _ hrv)
  · exact ⟨fun h => absurd h hog, fun h => absurd h hog, fun h => absurd h hog⟩

private theorem flux_nonpos (h : c.flux phases pvt = .ok q) (hc : c.IsPhysical phases pvt) (hd : 0 < c.drawdown.value)
    (p : Phase) : (q.get p).value ≤ 0 := by
  rcases flux_cases h p with hzero | ⟨hp, ⟨-, rfl⟩ | ⟨hout, -⟩⟩
  · exact hzero.le
  · rw [inflow_value hp]
    refine PhaseSet.surfaceRates_nonpos hc.rs hc.rv (fun r hr => ?_) hp
    have hfree : (c.freeInflow r).value =
        (c.cell.invB.get r).value * ((c.cell.mobility.get r).value * c.drawdown.value * -c.transmissibility) := by
      rw [← invB_value, ← mobility_value]
      rfl
    have hdriven : 0 ≤ (c.cell.mobility.get r).value * c.drawdown.value := mul_nonneg (hc.mobility r hr) hd.le
    rw [PerPhase.get_ofFn, hfree]
    exact mul_nonpos_of_nonneg_of_nonpos (hc.invB r hr).le
      (mul_nonpos_of_nonneg_of_nonpos hdriven (neg_nonpos.2 hc.transmissibility))
  · exact absurd hd hout

private theorem flux_nonneg (h : c.flux phases pvt = .ok q) (hc : c.IsPhysical phases pvt) (hd : c.drawdown.value < 0)
    (p : Phase) : 0 ≤ (q.get p).value := by
  rcases flux_cases h p with hzero | ⟨hp, ⟨hin, -⟩ | ⟨-, hout⟩⟩
  · exact hzero.ge
  · exact absurd hin hd.not_gt
  · rcases outflow_value hout hp with hzero | ⟨rs, rv, hratios, hq⟩
    · exact hzero.ge
    · rw [hq]
      exact mul_nonneg (hc.mix p hp) (div_nonneg (hc.reservoirRate_nonneg hd.le) (hc.volume_nonneg hratios))

end ConnectionInput

/-! ### All connections of a well -/

namespace ConnectionFlow

/-- Whether all phases flow as a drawdown drives them: into the well if it is positive, and out of it if it is
negative. -/
structure FollowsDrawdown (f : ConnectionFlow K) (drawdown : K) : Prop where
  inward : 0 < drawdown → ∀ p, (f.flux.get p).value ≤ 0
  outward : drawdown < 0 → ∀ p, 0 ≤ (f.flux.get p).value
  still : drawdown = 0 → ∀ p, (f.flux.get p).value = 0

/-- Whether all phases flow as the well is meant to, and nothing flows unless the drawdown has that direction. -/
structure KeepsType (type : WellType) (f : ConnectionFlow K) (drawdown : K) : Prop where
  injector : type = .injector → ∀ p, 0 ≤ (f.flux.get p).value
  producer : type = .producer → ∀ p, (f.flux.get p).value ≤ 0
  opposed : WellUnit.isForward type drawdown = false → ∀ p, (f.flux.get p).value = 0

variable [IsStrictOrderedRing K]

private theorem followsDrawdown_of_flux {c : ConnectionInput K} {phases : PhaseSet} {pvt : PvtModel K}
    {f : ConnectionFlow K}
    (h : c.flux phases pvt = .ok f.flux) (hc : c.IsPhysical phases pvt) : f.FollowsDrawdown c.drawdown.value :=
  ⟨c.flux_nonpos h hc, c.flux_nonneg h hc, c.flux_of_still h⟩

theorem keepsType_of_flux {c : ConnectionInput K} {phases : PhaseSet} {pvt : PvtModel K} {f : ConnectionFlow K}
    (h : c.flux phases pvt = .ok f.flux) (hc : c.IsPhysical phases pvt) (hclosed : c.crossFlow = false) :
    f.KeepsType c.type c.drawdown.value := by
  have hopposed := c.flux_of_opposed h hclosed
  refine ⟨fun htype p => ?_, fun htype p => ?_, hopposed⟩
  · rcases lt_or_ge c.drawdown.value 0 with hd | hd
    · exact c.flux_nonneg h hc hd p
    · rw [htype] at hopposed
      exact (hopposed (decide_eq_false hd.not_gt) p).ge
  · rcases lt_or_ge 0 c.drawdown.value with hd | hd
    · exact c.flux_nonpos h hc hd p
    · rw [htype] at hopposed
      exact (hopposed (decide_eq_false hd.not_gt) p).le

end ConnectionFlow

namespace WellUnit

/-- The drawdown of a connection at a bottom-hole pressure. -/
def drawdownAt (cells : List (Cell K)) (bhp : K) (link : Connection K × Segment K) : Outcome K K := do
  let cell ← cellAt cells link.1.cell
  return cell.pressure.value - (bhp + link.2.head)

/-- Whether the flows through the connections of a well depend on physical values only. -/
def IsPhysical (u : WellUnit K) (setup : Setup K) (cells : List (Cell K)) (control : Control K) : Prop :=
  ∀ link ∈ u.links, ∀ cell bhp crossFlow, cellAt cells link.1.cell = .ok cell → u.bottomHole setup control = .ok bhp →
    (u.connectionInput setup crossFlow bhp link cell).IsPhysical setup.phases setup.pvt

variable {u : WellUnit K} {setup : Setup K} {cells : List (Cell K)} {control : Control K} {bhp : WellDual K}
  {ds : List K}

/-- A well admits cross flow if it permits it or if no drawdown has the direction of the well. -/
theorem admitsCrossFlow_of_drawdowns (hb : u.bottomHole setup control = .ok bhp)
    (hds : u.links.mapM (drawdownAt cells bhp.value) = .ok ds) :
    u.admitsCrossFlow setup cells (.ok control) =
      .ok (u.well.crossFlow || ds.all fun d => !isForward u.well.type d) := by
  cases hopen : u.well.crossFlow with
  | true => exact if_pos hopen
  | false =>
    have hback : u.holdsBack cells bhp.value =
        fun link => do return !isForward u.well.type (← drawdownAt cells bhp.value link) := by
      funext link
      unfold holdsBack drawdownAt
      rw [bind_assoc]
      rfl
    rw [admitsCrossFlow_eq hopen hb, Bool.false_or, hback]
    exact Outcome.allM_of_mapM hds fun d => !isForward u.well.type d

variable [IsStrictOrderedRing K]

/-- The flows of a well follow their drawdowns.  If the well does not permit cross flow and some drawdown has its
direction, they keep to the type of the well; otherwise cross flow is admitted.  No division by zero enters a flow at
its bottom-hole pressure, nor the pressure itself if it comes from a validated lift table. -/
theorem connectionFlows_direction {s : Slot K} {flows : List (ConnectionFlow K)}
    (h : u.connectionFlows setup cells s control = .ok flows) (hphysical : u.IsPhysical setup cells control) :
    ∃ bhp ds, u.bottomHole setup control = .ok bhp ∧ u.links.mapM (drawdownAt cells bhp.value) = .ok ds ∧
      u.admitsCrossFlow setup cells (.ok control) =
        .ok (u.well.crossFlow || ds.all fun d => !isForward u.well.type d) ∧
      List.Forall₂ ConnectionFlow.FollowsDrawdown flows ds ∧
      (u.well.crossFlow = false → (∃ d ∈ ds, isForward u.well.type d = true) →
        List.Forall₂ (ConnectionFlow.KeepsType u.well.type) flows ds) ∧
      ∀ pvt' : PvtModel (Computed K), pvt'.Computes setup.pvt →
        (∀ link ∈ u.links, ∀ crossFlow q, u.connectionFlux setup cells crossFlow bhp link = .ok q →
          u.computed.connectionFlux (setup.computed pvt') (cells.map Cell.computed) crossFlow bhp.computed
            (Prod.map Connection.computed Segment.computed link) = .ok (q.map Dual.computed)) ∧
        ((∀ t ∈ setup.lift.list, t.validate = .ok ⟨⟩) →
          u.computed.connectionFlows (setup.computed pvt') (cells.map Cell.computed) s.computed control.computed =
            .ok (flows.map ConnectionFlow.computed)) := by
  obtain ⟨bhp, hb, hflows⟩ := Outcome.bind_ok.1 h
  obtain ⟨crossFlow, hcross, hflows⟩ := Outcome.bind_ok.1 hflows
  -- each flow is that through a connection with the drawdown in its place
  obtain ⟨ds, hds, hpairs⟩ := Outcome.mapM_of_mapM (g := drawdownAt cells bhp.value) (R := fun flow d =>
      ∃ c : ConnectionInput K, c.flux setup.phases setup.pvt = .ok flow.flux ∧ c.IsPhysical setup.phases setup.pvt ∧
        c.type = u.well.type ∧ c.crossFlow = crossFlow ∧ c.drawdown.value = d) hflows fun link hlink flow hflow => by
    obtain ⟨q, hq, hflow⟩ := Outcome.bind_ok.1 hflow
    obtain ⟨reported, -, hflow⟩ := Outcome.bind_ok.1 hflow
    cases hflow
    obtain ⟨cell, hcell, hq⟩ := Outcome.bind_ok.1 hq
    refine ⟨_, Outcome.bind_ok.2 ⟨cell, hcell, rfl⟩, _, hq, ?_, rfl, rfl, rfl⟩
    exact hphysical link hlink cell bhp crossFlow hcell hb
  have hadmits := admitsCrossFlow_of_drawdowns hb hds
  have hfactors : ∀ link ∈ u.links, ∀ cell, cellAt cells link.1.cell = .ok cell →
      ∀ p, setup.phases.isActive p = true → (cell.invB.get p).value ≠ 0 := fun link hlink cell hcell p hp =>
    ((hphysical link hlink cell bhp crossFlow hcell hb).invB p hp).ne'
  refine ⟨bhp, ds, hb, hds, hadmits, ?_, fun hclosed hforward => ?_, fun pvt' hpvt => ⟨fun link hlink cross q hq => ?_,
    fun hlift => connectionFlows_computed hpvt hlift hfactors h⟩⟩
  · refine hpairs.imp fun flow d ⟨c, hq, hc, _, _, hd⟩ => ?_
    rw [← hd]
    exact ConnectionFlow.followsDrawdown_of_flux hq hc
  · have hnot : crossFlow = false := by
      rw [Except.ok.inj (hcross.symm.trans hadmits), hclosed, Bool.false_or]
      obtain ⟨d, hd, hforward⟩ := hforward
      exact List.all_eq_false.2 ⟨d, hd, by rw [hforward]; exact Bool.false_ne_true⟩
    refine hpairs.imp fun flow d ⟨c, hq, hc, htype, hcross, hd⟩ => ?_
    rw [← hd, ← htype]
    exact ConnectionFlow.keepsType_of_flux hq hc (hcross.trans hnot)
  · exact connectionFlux_computed hpvt (hfactors link hlink) hq

end WellUnit

end

/-! ### A well between cells of different pressures -/

/-- A producer on its bottom-hole pressure, below the pressure of its first cell, above that of the second and level
with the third. -/
def mixedProducer (crossFlow : Bool) : WellUnit ℚ :=
  let controls : Controls ℚ := ⟨[⟨.bhp, 2e7, ⟨1, 1, 1⟩⟩], 0⟩
  let connections : List (Connection ℚ) := [⟨0, 1 / 10, 2000, 1⟩, ⟨1, 1 / 5, 2000, 1⟩, ⟨2, 1 / 10, 2000, 1⟩]
  { WellUnit.create { Well.producer "P1" 2000 connections controls with crossFlow := crossFlow } with
    unknowns := WellUnit.seeded ⟨0, 1 / 5, 799 / 1000⟩ }

/-- Three active phases of the standard fluid. -/
def liveSetup : Setup ℚ := ⟨.threePhase, .standard, (FluidRegions.mk [.standard]).model, .empty, none⟩

/-- Cells around the bottom-hole pressure of the producer. -/
def liveCells : List (Cell ℚ) := [3e7, 1e7, 2e7].map ConnectionInput.liveCell

namespace WellUnit

private theorem mixedProducer_isPhysical (crossFlow : Bool) :
    (mixedProducer crossFlow).IsPhysical liveSetup liveCells ⟨.bhp, 2e7, ⟨1, 1, 1⟩⟩ := by
  have hfluid : liveSetup.pvt.IsPhysical := by
    refine FluidRegions.model_isPhysical fun r hr => ?_
    rw [List.mem_singleton.1 hr]
    decide +kernel
  have htransmissibility : ∀ link ∈ (mixedProducer true).links, 0 ≤ link.1.transmissibility := by decide +kernel
  have hinvB (p : Phase) : 0 < ((ConnectionInput.liveCell 0).invB.get p).value := by
    cases p <;> decide +kernel
  have hmobility (p : Phase) : 0 ≤ ((ConnectionInput.liveCell 0).mobility.get p).value := by
    cases p <;> decide +kernel
  have hmix (p : Phase) : 0 ≤ (((mixedProducer true).mix .threePhase).get p).value := by
    cases p <;> decide +kernel
  intro link hlink cell bhp cross hcell hb
  obtain ⟨pressure, -, rfl⟩ := List.mem_map.1 (List.mem_of_getElem? (cellAt_ok.1 hcell))
  refine ⟨htransmissibility link hlink, fun p _ => hinvB p, fun p _ => hmobility p, fun _ => ?_, fun _ => ?_,
    fun _ => hfluid.dissolvedGas _ _ _, fun _ => hfluid.vaporizedOil _ _ _, fun p _ => hmix p⟩
  · exact (by decide +kernel : 0 ≤ (ConnectionInput.liveCell 0).rs.value)
  · exact (by decide +kernel : 0 ≤ (ConnectionInput.liveCell 0).rv.value)

/-- Without cross flow only the first connection flows, into the well.  With cross flow the phases also flow from the
well into the second cell. -/
theorem connectionFlows_direction_mixedProducer :
    (∃ flows, (mixedProducer false).connectionFlows liveSetup liveCells ⟨some 2e7, none, none, none, none⟩
        ⟨.bhp, 2e7, ⟨1, 1, 1⟩⟩ = .ok flows ∧
      List.Forall₂ (ConnectionFlow.KeepsType .producer) flows [1e7, -1e7, 0]) ∧
    ∃ flows, (mixedProducer true).connectionFlows liveSetup liveCells ⟨some 2e7, none, none, none, none⟩
        ⟨.bhp, 2e7, ⟨1, 1, 1⟩⟩ = .ok flows ∧
      List.Forall₂ ConnectionFlow.FollowsDrawdown flows [1e7, -1e7, 0] ∧
      (mixedProducer true).computed.connectionFlows
        (liveSetup.computed (FluidRegions.mk [FluidRegion.standard.computed]).model) (liveCells.map Cell.computed)
        (Slot.computed ⟨some 2e7, none, none, none, none⟩) (Control.computed ⟨.bhp, 2e7, ⟨1, 1, 1⟩⟩) =
          .ok (flows.map ConnectionFlow.computed) := by
  have hruns (crossFlow : Bool) : ∃ flows, (mixedProducer crossFlow).connectionFlows liveSetup liveCells
      ⟨some 2e7, none, none, none, none⟩ ⟨.bhp, 2e7, ⟨1, 1, 1⟩⟩ = .ok flows := by
    have hsome : ((mixedProducer crossFlow).connectionFlows liveSetup liveCells
        ⟨some 2e7, none, none, none, none⟩ ⟨.bhp, 2e7, ⟨1, 1, 1⟩⟩).toOption.isSome = true := by
      cases crossFlow <;> decide +kernel
    obtain ⟨flows, hflows⟩ := Option.isSome_iff_exists.1 hsome
    exact ⟨flows, Outcome.ok_of_toOption hflows⟩
  have hdrawdowns (crossFlow : Bool) :
      (mixedProducer crossFlow).links.mapM (drawdownAt liveCells 2e7) = .ok [1e7, -1e7, 0] :=
    Outcome.ok_of_toOption (by cases crossFlow <;> decide +kernel)
  constructor
  · obtain ⟨flows, hflows⟩ := hruns false
    obtain ⟨bhp, ds, hb, hds, -, -, hkeeps, -⟩ := connectionFlows_direction hflows (mixedProducer_isPhysical false)
    obtain rfl : .const 2e7 = bhp := Except.ok.inj hb
    obtain rfl : [1e7, -1e7, 0] = ds := Except.ok.inj ((hdrawdowns false).symm.trans hds)
    exact ⟨flows, hflows, hkeeps rfl ⟨1e7, List.mem_cons_self .., by decide +kernel⟩⟩
  · obtain ⟨flows, hflows⟩ := hruns true
    obtain ⟨bhp, ds, hb, hds, -, hfollows, -, hdefined⟩ :=
      connectionFlows_direction hflows (mixedProducer_isPhysical true)
    obtain rfl : .const 2e7 = bhp := Except.ok.inj hb
    obtain rfl : [1e7, -1e7, 0] = ds := Except.ok.inj ((hdrawdowns true).symm.trans hds)
    exact ⟨flows, hflows, hfollows, (hdefined _ (FluidRegions.model_computes ⟨[.standard]⟩)).2 nofun⟩

end WellUnit

end BlackOilWells
