import Mathlib.Data.Set.Finite.Lemmas
import BlackOilWells.Proofs.AbsentPhases
import BlackOilWells.Proofs.Columns
import BlackOilWells.Proofs.Mediants

/-!
# Bounds of densities

Unless both oil and gas are active, the density of a mix is the mediant of the densities of its phases, and lies between
the least and the greatest of them (`mixDensity_between`).  In a segment these are the phases of its stream: the sum of
the rates at and below its connection, or the composition of the well where the sum over the phases is zero
(`Well.stream`).  Rates may have any signs, since a mix has no signs (`Well.densities_between`).
-/

namespace BlackOilWells

variable {K : Type} [Field K] [LinearOrder K]

/-! ### Streams -/

namespace PerPhase

/-- The sum of flows, phase by phase. -/
def sumOf (qs : List (PerPhase K)) : PerPhase K := .ofFn fun r => (qs.map (·.get r)).sum

private theorem get_sumOf (qs : List (PerPhase K)) (r : Phase) :
    (sumOf qs).get r = (qs.map (·.get r)).sum := get_ofFn ..

private theorem exists_get_ne_zero {q : PerPhase K} (h : q.sum ≠ 0) : ∃ r, q.get r ≠ 0 := by
  by_contra hnone
  have hzero : q = .replicate 0 := ext_get fun r => by
    by_contra hr
    exact hnone ⟨r, get_replicate (0 : K) r ▸ hr⟩
  refine h ?_
  rw [hzero, sum, Scalar.sum_exact]
  simp [toList, replicate]

private theorem sum_neg (q : PerPhase K) : (q.map (-·)).sum = -q.sum := by
  rw [sum, sum, Scalar.sum_exact, Scalar.sum_exact]
  exact (List.sum_neg q.toList).symm

/-- A mix has the phases of the flow it comes from. -/
private theorem composition_eq_zero_iff [IsStrictOrderedRing K] {flow rest : PerPhase K} (r : Phase) :
    (flow.composition rest).get r = 0 ↔ (if flow.sum = 0 then rest else flow).get r = 0 := by
  have hzero : (flow.sum == 0) = decide (flow.sum = 0) := rfl
  unfold composition
  dsimp only
  rw [hzero]
  by_cases htotal : flow.sum = 0
  · rw [if_pos htotal, if_pos (decide_eq_true htotal)]
  · rw [if_neg htotal, if_neg (by simpa using htotal), get_map]
    exact abs_eq_zero.trans (div_eq_zero_iff.trans (or_iff_left htotal))

end PerPhase

/-- What flows upwards out of the first connection is the sum of all rates, with the opposite sign. -/
theorem head_upwardFlows (qs : List (PerPhase K)) :
    (upwardFlows qs).head?.getD (.replicate 0) = (PerPhase.sumOf qs).map (-·) := by
  induction qs with
  | nil =>
    refine PerPhase.ext_get fun r => ?_
    rw [PerPhase.get_map, PerPhase.get_sumOf, List.map_nil, List.sum_nil, neg_zero]
    exact PerPhase.get_replicate 0 r
  | cons q qs ih =>
    refine PerPhase.ext_get fun r => ?_
    rw [upwardFlows, List.head?_cons, Option.getD_some, ih, PerPhase.get_zipWith, PerPhase.get_map, PerPhase.get_map,
      PerPhase.get_sumOf, PerPhase.get_sumOf, List.map_cons, List.sum_cons, neg_add_rev, sub_eq_add_neg]

namespace Well

/-- What is in the segment above a connection, from the rates of the connections of a well. -/
def stream (w : Well K) (rates : List (PerPhase K)) (k : Nat) : PerPhase K :=
  if (PerPhase.sumOf (rates.drop k)).sum = 0 then w.composition else .sumOf (rates.drop k)

private theorem segmentMixes_eq_zero_iff [IsStrictOrderedRing K] {w : Well K} {rates : List (PerPhase K)} {k : Nat}
    {mix : PerPhase K} (h : (w.segmentMixes rates)[k]? = some mix) (r : Phase) :
    mix.get r = 0 ↔ (w.stream rates k).get r = 0 := by
  rw [segmentMixes, List.getElem?_map] at h
  obtain ⟨flow, hflow, rfl⟩ := Option.map_eq_some_iff.1 h
  obtain rfl : flow = (PerPhase.sumOf (rates.drop k)).map (-·) := by
    rw [← head_upwardFlows, ← drop_upwardFlows, List.head?_drop, hflow, Option.getD_some]
  rw [PerPhase.composition_eq_zero_iff, stream]
  by_cases htotal : (PerPhase.sumOf (rates.drop k)).sum = 0
  · rw [if_pos htotal, if_pos (by rw [PerPhase.sum_neg, htotal, neg_zero])]
  · rw [if_neg htotal, if_neg (by rwa [PerPhase.sum_neg, neg_eq_zero]), PerPhase.get_map, neg_eq_zero]

private theorem stream_absent {w : Well K} {rates : List (PerPhase K)} {r : Phase}
    (hcomposition : w.composition.get r = 0)
    (hrates : ∀ q ∈ rates, q.get r = 0) (k : Nat) : (w.stream rates k).get r = 0 := by
  unfold stream
  split
  · exact hcomposition
  · rw [PerPhase.get_sumOf]
    exact List.sum_eq_zero (List.forall_mem_map.2 fun q hq => hrates q (List.mem_of_mem_drop hq))

private theorem exists_stream_ne_zero {w : Well K} (hcomposition : ∃ r, w.composition.get r ≠ 0)
    (rates : List (PerPhase K))
    (k : Nat) : ∃ r, (w.stream rates k).get r ≠ 0 := by
  unfold stream
  split
  · exact hcomposition
  · exact PerPhase.exists_get_ne_zero ‹_›

/-- An accepted well has a phase in its composition. -/
theorem exists_composition_of_accept [IsStrictOrderedRing K] {w w' : Well K} {phases : PhaseSet} {n : Nat}
    (h : w.accept phases n = .ok w') (hoil : phases.oil = true) : ∃ r, w'.composition.get r ≠ 0 := by
  obtain ⟨-, -, q, rfl, ⟨htotal, rfl⟩ | ⟨-, rfl⟩⟩ := accept_ok h
  · have hpos : 0 < (phases.select w.composition (.replicate 0)).sum := not_le.1 htotal
    obtain ⟨r, hr⟩ := PerPhase.exists_get_ne_zero hpos.ne'
    refine ⟨r, ?_⟩
    dsimp only
    rw [PerPhase.get_map]
    exact div_ne_zero hr hpos.ne'
  · refine ⟨.oil, ?_⟩
    dsimp only
    rw [PhaseSet.get_select (p := .oil) hoil, PerPhase.get_replicate]
    exact one_div_ne_zero (Nat.cast_ne_zero.2 (PhaseSet.count_ne_zero hoil))

end Well

/-! ### Mixes -/

section

variable {phases : PhaseSet} {mix invB surfaceDensity : PerPhase K}

/-- Without gas a mix has nothing but free parts. -/
private theorem freeParts_of_gas_eq_zero (hgas : mix.gas = 0) (rsMax rvMax : Option K) {r : Phase} (hr : r ≠ .gas) :
    (freeParts (mixRatio mix.gas mix.oil rsMax) (mixRatio mix.oil mix.gas rvMax) mix).get r = mix.get r := by
  have hratio : mixRatio mix.oil mix.gas rvMax = 0 := by
    rw [hgas]
    cases rvMax with
    | none => rfl
    | some most => exact if_neg (lt_irrefl 0)
  cases r with
  | water => rfl
  | oil =>
    refine if_pos ?_
    rw [hratio]
    exact decide_eq_true rfl
  | gas => exact absurd rfl hr

private theorem mixDensity_of_gas_eq_zero (hinactive : phases.gas = false) (hgas : mix.gas = 0) (rsMax rvMax : Option K)
    (hvolume : (phases.active.map fun r => mix.get r / invB.get r).sum ≠ 0) :
    mixDensity phases mix invB surfaceDensity rsMax rvMax =
      (phases.active.map fun r => surfaceDensity.get r * mix.get r).sum /
        (phases.active.map fun r => mix.get r / invB.get r).sum := by
  have hfree : phases.total (.zipWith (· / ·) (freeParts (mixRatio mix.gas mix.oil rsMax)
      (mixRatio mix.oil mix.gas rvMax) mix) invB) = (phases.active.map fun r => mix.get r / invB.get r).sum := by
    rw [PhaseSet.total_eq_sum, PhaseSet.sum, Scalar.sum_exact]
    refine congrArg List.sum (List.map_congr_left fun r hr => ?_)
    have hne : r ≠ .gas := fun h => by
      rw [h] at hr
      exact Bool.false_ne_true (hinactive.symm.trans (PhaseSet.isActive_of_mem hr))
    rw [PerPhase.get_zipWith, freeParts_of_gas_eq_zero hgas rsMax rvMax hne]
  have hmass : phases.total (.zipWith (· * ·) surfaceDensity mix) =
      (phases.active.map fun r => surfaceDensity.get r * mix.get r).sum := by
    rw [PhaseSet.total_eq_sum, PhaseSet.sum, Scalar.sum_exact]
    exact congrArg List.sum (List.map_congr_left fun r _ => PerPhase.get_zipWith ..)
  rw [mixDensity_eq, freeDensity, hfree, hmass]
  exact if_neg fun h => hvolume (of_decide_eq_true h)

/-- The densities of the phases of a stream where the volume factors and the surface densities are the given ones. -/
def PhaseSet.densitiesOf (phases : PhaseSet) (stream invB surfaceDensity : PerPhase K) : Set K :=
  (fun r => surfaceDensity.get r * invB.get r) '' {r | phases.isActive r = true ∧ stream.get r ≠ 0}

private theorem PhaseSet.densitiesOf_congr {stream : PerPhase K} (h : ∀ r, mix.get r = 0 ↔ stream.get r = 0) :
    phases.densitiesOf mix invB surfaceDensity = phases.densitiesOf stream invB surfaceDensity := by
  simp only [densitiesOf, ne_eq, h]

private theorem PhaseSet.exists_isLeast_isGreatest (h : ∃ r, phases.isActive r = true ∧ mix.get r ≠ 0)
    (invB surfaceDensity : PerPhase K) :
    ∃ lo hi, IsLeast (phases.densitiesOf mix invB surfaceDensity) lo ∧
      IsGreatest (phases.densitiesOf mix invB surfaceDensity) hi := by
  have hfinite : {r | phases.isActive r = true ∧ mix.get r ≠ 0}.Finite :=
    (List.finite_toSet Phase.all).subset fun r _ => by cases r <;> decide
  obtain ⟨r, hr, hleast⟩ := Set.exists_min_image _ (fun r => surfaceDensity.get r * invB.get r) hfinite h
  obtain ⟨t, ht, hgreatest⟩ := Set.exists_max_image _ (fun r => surfaceDensity.get r * invB.get r) hfinite h
  exact ⟨_, _, ⟨Set.mem_image_of_mem _ hr, Set.forall_mem_image.2 hleast⟩,
    ⟨Set.mem_image_of_mem _ ht, Set.forall_mem_image.2 hgreatest⟩⟩

/-- The density of a mix without gas lies between the least and the greatest density of its phases. -/
theorem mixDensity_between [IsStrictOrderedRing K] (hinactive : phases.gas = false) (hgas : mix.gas = 0)
    (hmix : ∀ r, 0 ≤ mix.get r) (hinvB : ∀ r, phases.isActive r = true → 0 < invB.get r)
    (hpresent : ∃ r, phases.isActive r = true ∧ mix.get r ≠ 0) (surfaceDensity : PerPhase K) (rsMax rvMax : Option K) :
    ∃ lo hi, IsLeast (phases.densitiesOf mix invB surfaceDensity) lo ∧
      IsGreatest (phases.densitiesOf mix invB surfaceDensity) hi ∧
      lo ≤ mixDensity phases mix invB surfaceDensity rsMax rvMax ∧
      mixDensity phases mix invB surfaceDensity rsMax rvMax ≤ hi := by
  have hparts : ∀ r ∈ phases.active, 0 ≤ mix.get r / invB.get r := fun r hr =>
    div_nonneg (hmix r) (hinvB r (PhaseSet.isActive_of_mem hr)).le
  have hzero : ∀ r ∈ phases.active, mix.get r / invB.get r = 0 → surfaceDensity.get r * mix.get r = 0 := by
    intro r hr hpart
    rw [(div_eq_zero_iff.1 hpart).resolve_right (hinvB r (PhaseSet.isActive_of_mem hr)).ne', mul_zero]
  have hpos : 0 < (phases.active.map fun r => mix.get r / invB.get r).sum := by
    obtain ⟨r, hr, hne⟩ := hpresent
    have hpart : 0 < mix.get r / invB.get r := div_pos (lt_of_le_of_ne (hmix r) hne.symm) (hinvB r hr)
    refine hpart.trans_le (List.single_le_sum (List.forall_mem_map.2 hparts) _ (List.mem_map_of_mem ?_))
    exact List.mem_filter.2 ⟨by cases r <;> decide, hr⟩
  -- the quotient of the parts of one phase is the density of that phase
  have hquotient {r : Phase} (hr : r ∈ phases.active) (h : 0 < mix.get r / invB.get r) :
      surfaceDensity.get r * mix.get r / (mix.get r / invB.get r) ∈ phases.densitiesOf mix invB surfaceDensity := by
    have hne : mix.get r ≠ 0 := fun hzero => by
      rw [hzero, zero_div] at h
      exact h.false
    refine ⟨r, ⟨PhaseSet.isActive_of_mem hr, hne⟩, ?_⟩
    rw [div_div_eq_mul_div, mul_right_comm, mul_div_cancel_right₀ _ hne]
  obtain ⟨lo, hi, hlo, hhi⟩ := PhaseSet.exists_isLeast_isGreatest hpresent invB surfaceDensity
  rw [mixDensity_of_gas_eq_zero hinactive hgas rsMax rvMax hpos.ne']
  obtain ⟨r, hr, hpart, hle⟩ := exists_le_mediant hparts hzero hpos
  obtain ⟨t, ht, hpart', hge⟩ := exists_mediant_le hparts hzero hpos
  exact ⟨lo, hi, hlo, hhi, (hlo.2 (hquotient hr hpart)).trans hle, hge.trans (hhi.2 (hquotient ht hpart'))⟩

end

/-! ### Segments -/

namespace Well

private theorem get_connectionRates_eq_zero {p : Placed (Well K)} {s : FlowState K} {rates : List (PerPhase K)}
    {r : Phase}
    (hlacks : Stride.Lacks r s.connectionRates)
    (h : p.item.connections.zipIdx.mapM (fun ck => s.ratesAt (p.first + ck.2)) = .ok rates) :
    ∀ q ∈ rates, q.get r = 0 := by
  intro q hq
  obtain ⟨ck, -, hget⟩ := Outcome.exists_of_mem_ok h hq
  obtain ⟨v, hv, rfl⟩ := Option.map_eq_some_iff.1 (Outcome.need_ok.1 hget)
  exact hlacks.get? hv

variable [IsStrictOrderedRing K]

/-- The density of the segment above each connection of an accepted well, unless both oil and gas are active, lies
between the least and the greatest of the densities of the active phases in its stream. -/
theorem densities_between {given : List (Well K)} {phases : PhaseSet} {n : Nat} {ws : Wells K}
    {s : FlowState K} {props : ConnectionProperties K} {p : Placed (Well K)}
    (hcreate : Wells.create given phases n = .ok ws) (hphases : phases.hasOilAndGas = false) (hp : p ∈ ws.placed)
    (hcomposition : ∀ r, 0 ≤ p.item.composition.get r) (hrates : s.connectionRates.length = 3 * ws.numConnections)
    (hlacks : ∀ r, phases.isActive r = false → Stride.Lacks r s.connectionRates)
    (hcovers : props.Covers ws.numConnections)
    (hinvB : ∀ b ∈ props.invB, ∀ r, phases.isActive r = true → 0 < b.get r) :
    ∃ rates ds, p.item.connections.zipIdx.mapM (fun ck => s.ratesAt (p.first + ck.2)) = .ok rates ∧
      densities p s phases props = .ok ds ∧ ds.length = p.item.connections.length ∧
      ∀ k < p.item.connections.length, ∃ d invB surfaceDensity lo hi, ds[k]? = some d ∧
        props.invB[p.first + k]? = some invB ∧ props.surfaceDensity[p.first + k]? = some surfaceDensity ∧
        IsLeast (phases.densitiesOf (p.item.stream rates k) invB surfaceDensity) lo ∧
        IsGreatest (phases.densitiesOf (p.item.stream rates k) invB surfaceDensity) hi ∧ lo ≤ d ∧ d ≤ hi := by
  have hoil : phases.oil = true := Wells.oil_of_create hcreate
  have hgas : phases.gas = false := by
    rw [PhaseSet.hasOilAndGas, hoil, Bool.true_and] at hphases
    exact hphases
  obtain ⟨w, -, haccept⟩ := Outcome.exists_of_mem_ok (Wells.create_ok hcreate).1
    (List.mem_of_getElem? (Placed.mem_ofList _ hp).1)
  obtain ⟨rates, ds, hall, hds, hat⟩ := exists_density hp hrates hcovers phases
  -- an absent phase is in no stream, so a phase of a stream is active
  have habsent (r : Phase) (hr : phases.isActive r = false) (k : Nat) : (p.item.stream rates k).get r = 0 :=
    stream_absent (composition_of_accept haccept hr) (get_connectionRates_eq_zero (hlacks r hr) hall) k
  have hpresent (k : Nat) : ∃ r, phases.isActive r = true ∧ (p.item.stream rates k).get r ≠ 0 := by
    obtain ⟨r, hr⟩ := exists_stream_ne_zero (exists_composition_of_accept haccept hoil) rates k
    exact ⟨r, by_contra fun h => hr (habsent r (Bool.eq_false_iff.2 h) k), hr⟩
  refine ⟨rates, ds, hall, hds, length_densities hds, fun k hk => ?_⟩
  obtain ⟨mix, d, hmix, hd, hdensity⟩ := hat k hk
  have hplace := Wells.first_add_lt hp hk
  obtain ⟨invB, hb⟩ : ∃ b, props.invB[p.first + k]? = some b :=
    ⟨_, List.getElem?_eq_getElem (hcovers.invB.symm ▸ hplace)⟩
  obtain ⟨surfaceDensity, hr⟩ : ∃ r, props.surfaceDensity[p.first + k]? = some r :=
    ⟨_, List.getElem?_eq_getElem (hcovers.surfaceDensity.symm ▸ hplace)⟩
  rw [hcovers.density_eq hplace hb hr] at hdensity
  obtain rfl := Except.ok.inj hdensity
  -- the mix has the phases of the stream
  have hiff := segmentMixes_eq_zero_iff hmix
  have hnonneg : ∀ r, 0 ≤ mix.get r := by
    obtain ⟨flow, -, rfl⟩ := List.mem_map.1 (List.mem_of_getElem? hmix)
    exact PerPhase.composition_nonneg hcomposition
  obtain ⟨lo, hi, hbetween⟩ := mixDensity_between hgas ((hiff .gas).2 (habsent .gas hgas k)) hnonneg
    (hinvB _ (List.mem_of_getElem? hb)) ((hpresent k).imp fun r hr => ⟨hr.1, (hiff r).not.2 hr.2⟩) surfaceDensity
    (if 0 < mix.oil then props.rsMax[p.first + k]? else none) (if 0 < mix.gas then props.rvMax[p.first + k]? else none)
  rw [PhaseSet.densitiesOf_congr hiff] at hbetween
  exact ⟨_, invB, surfaceDensity, lo, hi, hd, hb, hr, hbetween⟩

/-! ### Two producers of oil and water -/

/-- A producer with two connections and its neighbour, accepted with even mixes of oil and water. -/
def evenColumns : Wells ℚ :=
  ⟨[{ Wells.columnNeighbour with composition := ⟨1 / 2, 1 / 2, 0⟩ },
    { Wells.columnProducer with composition := ⟨1 / 2, 1 / 2, 0⟩ }]⟩

/-- At its lower connection the producer loses as much water as it gains oil, so that the sum over the phases is zero;
above it water and oil flow in opposite directions.  Water has the density 1000 and oil 640 in both segments. -/
theorem densities_between_columnProducer :
    Wells.create [Wells.columnNeighbour, Wells.columnProducer] .oilWater 3 = .ok evenColumns ∧
    ∃ p ∈ evenColumns.placed, p.item.name = "P" ∧ ∃ ds, densities p
      (Wells.columnFlow [⟨-5, 0, 0⟩, ⟨-1, -2, 0⟩, ⟨2, -2, 0⟩]) .oilWater (Wells.columnProperties [1, 4 / 5, 4 / 5]) =
        .ok ds ∧ ds.length = 2 ∧ ∀ d ∈ ds, 640 ≤ d ∧ d ≤ 1000 := by
  have hcreate : Wells.create [Wells.columnNeighbour, Wells.columnProducer] .oilWater 3 = .ok evenColumns := by
    with_unfolding_all rfl
  refine ⟨hcreate, _, List.mem_cons_of_mem _ (List.mem_cons_self ..), rfl, ?_⟩
  have hcomposition : ∀ r, 0 ≤ evenColumns.list[1].composition.get r := fun r => by cases r <;> decide +kernel
  have hlacks : ∀ r, PhaseSet.oilWater.isActive r = false → Stride.Lacks r
      (Wells.columnFlow [⟨-5, 0, 0⟩, ⟨-1, -2, 0⟩, ⟨2, -2, 0⟩]).connectionRates := by
    intro r hr
    cases r with
    | gas => exact Stride.Lacks.flatMap (f := id) (by decide +kernel)
    | _ => cases hr
  have hpositive : ∀ b ∈ (Wells.columnProperties [1, 4 / 5, 4 / 5]).invB, 0 < b.water ∧ 0 < b.oil := by decide +kernel
  have hinvB : ∀ b ∈ (Wells.columnProperties [1, 4 / 5, 4 / 5]).invB, ∀ r, PhaseSet.oilWater.isActive r = true →
      0 < b.get r := by
    intro b hb r hr
    cases r with
    | water => exact (hpositive b hb).1
    | oil => exact (hpositive b hb).2
    | gas => cases hr
  obtain ⟨rates, ds, -, hds, hlength, hbetween⟩ := densities_between (p := ⟨1, 1, evenColumns.list[1]⟩) hcreate rfl
    (List.mem_cons_of_mem _ (List.mem_cons_self ..)) hcomposition rfl hlacks
    ⟨rfl, fun h => Bool.noConfusion h, fun h => Bool.noConfusion h, rfl⟩ hinvB
  have hphases (stream : PerPhase ℚ) :
      ∀ x ∈ PhaseSet.oilWater.densitiesOf stream ⟨1, 4 / 5, 1⟩ ⟨1000, 800, 0⟩, 640 ≤ x ∧ x ≤ 1000 := by
    rintro _ ⟨r, ⟨hr, -⟩, rfl⟩
    cases r with
    | gas => cases hr
    | _ => decide +kernel
  refine ⟨ds, hds, hlength, fun d hd => ?_⟩
  obtain ⟨k, hget⟩ := List.mem_iff_getElem?.1 hd
  have hk : k < 2 := (List.getElem?_eq_some_iff.1 hget).1.trans_eq hlength
  obtain ⟨d', invB, surfaceDensity, lo, hi, hd', hb, hr, hlo, hhi, hle, hge⟩ := hbetween k hk
  obtain rfl : d = d' := Option.some.inj (hget.symm.trans hd')
  obtain ⟨rfl, rfl⟩ : invB = ⟨1, 4 / 5, 1⟩ ∧ surfaceDensity = ⟨1000, 800, 0⟩ := by
    obtain rfl | rfl : k = 0 ∨ k = 1 := by omega
    · exact ⟨(Option.some.inj hb).symm, (Option.some.inj hr).symm⟩
    · exact ⟨(Option.some.inj hb).symm, (Option.some.inj hr).symm⟩
  exact ⟨(hphases _ lo hlo.1).1.trans hle, hge.trans (hphases _ hi hhi.1).2⟩

end Well

end BlackOilWells
