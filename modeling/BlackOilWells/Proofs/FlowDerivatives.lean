import BlackOilWells.Proofs.InflowDerivatives
import BlackOilWells.Proofs.RelationDerivatives

/-!
# Derivatives of the flows of a well

Every cell of a reservoir depends on three unknowns of its own, and the values of a cell track their derivatives by them
(`CellTracks`).  The flows through the connections of a well are then functions of the unknowns of all cells and of the
well (`Point`).  Near a point at which no test in the closure relations is at a tie (`WellUnit.OffTies`), the flows
exist and track their derivatives by the unknowns of their cell and of the well (`WellUnit.eventually_connectionFlows`).
-/

namespace BlackOilWells

open Filter Topology

/-! ### Cells and unknowns -/

/-- Whether the values of a cell, as functions of its unknowns, track their derivatives; region and temperature are
fixed. -/
structure CellTracks (state : (Fin 3 → ℝ) → Cell ℝ) (y : Fin 3 → ℝ) : Prop where
  pressure : Tracks ContinuousLinearMap.proj (fun y => (state y).pressure) y
  invB : TracksAll ContinuousLinearMap.proj (fun y => (state y).invB) y
  mobility : TracksAll ContinuousLinearMap.proj (fun y => (state y).mobility) y
  rs : Tracks ContinuousLinearMap.proj (fun y => (state y).rs) y
  rv : Tracks ContinuousLinearMap.proj (fun y => (state y).rv) y
  region : ∀ y', (state y').region = (state y).region
  temperature : ∀ y', (state y').temperature = (state y).temperature

variable {n : Nat}

/-- The cells at given unknowns. -/
def cellsAt (state : Fin n → (Fin 3 → ℝ) → Cell ℝ) (y : Fin n → Fin 3 → ℝ) : List (Cell ℝ) :=
  List.ofFn fun i => state i (y i)

private theorem cellAt_cellsAt {state : Fin n → (Fin 3 → ℝ) → Cell ℝ} {y : Fin n → Fin 3 → ℝ} {k : Nat} {cell : Cell ℝ}
    (h : cellAt (cellsAt state y) k = .ok cell) : ∃ i : Fin n, i.val = k ∧ state i (y i) = cell := by
  unfold cellAt at h
  split at h
  · rename_i hk
    cases h
    obtain ⟨hlt, hk⟩ := List.getElem?_eq_some_iff.1 hk
    rw [cellsAt, List.length_ofFn] at hlt
    refine ⟨⟨k, hlt⟩, rfl, ?_⟩
    rw [← hk]
    simp only [cellsAt, List.getElem_ofFn]
  · cases h

theorem cellAt_of_val {i : Fin n} {k : Nat} (hi : i.val = k) (state : Fin n → (Fin 3 → ℝ) → Cell ℝ)
    (y : Fin n → Fin 3 → ℝ) : cellAt (cellsAt state y) k = .ok (state i (y i)) := by
  subst hi
  have hi : (cellsAt state y)[i.val]? = some (state i (y i)) := by
    rw [cellsAt, List.getElem?_ofFn, dif_pos i.isLt]
  rw [cellAt, hi]

namespace WellUnit

variable {α : Type} [Scalar α]

/-! ### Tests -/

/-- What the flow through a connection depends on. -/
def connectionInput (u : WellUnit α) (setup : Setup α) (crossFlow : Bool) (bhp : WellDual α)
    (link : Connection α × Segment α) (cell : Cell α) : ConnectionInput α :=
  ⟨cell, link.1.transmissibility, bhp, link.2.head, u.well.type, crossFlow, u.mix setup.phases⟩

/-- Whether a connection does not flow as the well is meant to at a bottom-hole pressure. -/
def holdsBack (u : WellUnit α) (cells : List (Cell α)) (bhp : α) (link : Connection α × Segment α) :
    Outcome α Bool := do
  let cell ← cellAt cells link.1.cell
  return !isForward u.well.type (cell.pressure.value - (bhp + link.2.head))

theorem admitsCrossFlow_eq {u : WellUnit α} {setup : Setup α} {control : Control α} {cells : List (Cell α)}
    {bhp : WellDual α} (h : u.well.crossFlow = false) (hb : u.bottomHole setup control = .ok bhp) :
    u.admitsCrossFlow setup cells (.ok control) = u.links.allM (u.holdsBack cells bhp.value) := by
  have hclosed : ¬u.well.crossFlow = true := by rw [h]; exact Bool.false_ne_true
  unfold admitsCrossFlow
  rw [if_neg hclosed]
  change (u.bottomHole setup control >>= _) = _
  rw [hb]
  rfl

/-- Whether no test in the closure relations of a well is at a tie. -/
structure OffTies (u : WellUnit ℝ) (setup : Setup ℝ) (cells : List (Cell ℝ)) (control : Control ℝ) : Prop where
  /-- No part of the stream of a producer is at the guard against missing from it. -/
  rate : ∀ p, setup.phases.isActive p = true → u.well.isInjector = false → control.kind = .surfaceRate →
    u.OffGuard setup.phases control p
  /-- The flow is not at a node of the lift table. -/
  lift : ∀ table lift t, control.kind = .thp table lift → setup.lift.get table = .ok t →
    t.OffNodes (setup.phases.select (.ofFn (u.surfaceRate setup.phases control)) (.replicate 0))
  /-- No test in the flow through a connection is at a tie. -/
  connection : ∀ link ∈ u.links, ∀ cell bhp crossFlow, cellAt cells link.1.cell = .ok cell →
    u.bottomHole setup control = .ok bhp → u.admitsCrossFlow setup cells (.ok control) = .ok crossFlow →
    (u.connectionInput setup crossFlow bhp link cell).OffTies setup.phases setup.pvt

variable {u : WellUnit ℝ} {setup : Setup ℝ} {state : Fin n → (Fin 3 → ℝ) → Cell ℝ} {x : Point n}
  {control : Control ℝ} {crossFlow : Bool}

/-! ### Connections -/

/-- The bottom-hole pressure at nearby unknowns, as a connection to a cell sees it. -/
private theorem OffTies.bottomHole_tracks (h : (u.withUnknowns x.2).OffTies setup (cellsAt state x.1) control)
    {bhp : WellDual ℝ} (hb : (u.withUnknowns x.2).bottomHole setup control = .ok bhp) (k : Nat) :
    ∃ B : Point n → WellDual ℝ, B x = bhp ∧
      (∀ᶠ q in 𝓝 x, (u.withUnknowns q.2).bottomHole setup control = .ok (B q)) ∧
      Tracks (frame (cellPart n k) (wellPart n)) B x := by
  obtain ⟨B, hB, hBt⟩ := u.bottomHole_tracks (a := cellPart n k) (b := wellPart n) setup control h.rate h.lift hb
  exact ⟨B, Except.ok.inj (hB.self_of_nhds.symm.trans hb), hB, hBt⟩

private theorem connectionInput_tracks (u : WellUnit ℝ) (setup : Setup ℝ) (crossFlow : Bool) {i : Fin n}
    {B : Point n → WellDual ℝ} (hstate : CellTracks (state i) (x.1 i))
    (hB : Tracks (frame (cellPart n i) (wellPart n)) B x) (link : Connection ℝ × Segment ℝ) :
    ConnectionInput.TracksAt (frame (cellPart n i) (wellPart n))
      (fun q => (u.withUnknowns q.2).connectionInput setup crossFlow (B q) link (state i (q.1 i))) x := by
  have ofCell {F : (Fin 3 → ℝ) → CellDual ℝ} (hF : Tracks ContinuousLinearMap.proj F (x.1 i)) :
      Tracks (frame (cellPart n i) (wellPart n)) (fun q => WellDual.ofCell (F (q.1 i))) x := by
    rw [← cellPart_apply i x] at hF
    refine hF.ofCell.congr (.of_forall fun q => ?_)
    rw [cellPart_apply]
  refine ⟨ofCell hstate.pressure, ?_, ?_, ofCell hstate.rs, ofCell hstate.rv, hB, ?_, fun q => ?_, fun q => ?_,
    fun _ => rfl, fun _ => rfl, fun _ => rfl, fun _ => rfl⟩
  · intro p
    simp only [ConnectionInput.invB, PerPhase.get_map]
    exact ofCell (hstate.invB p)
  · intro p
    simp only [ConnectionInput.mobility, PerPhase.get_map]
    exact ofCell (hstate.mobility p)
  · exact .select_ofFn _ fun p _ => u.fraction_tracks (b := wellPart n) setup.phases p
  · exact (hstate.region _).trans (hstate.region _).symm
  · exact (hstate.temperature _).trans (hstate.temperature _).symm

private theorem eventually_isForward {f : Point n → ℝ} (hf : ContinuousAt f x) (h : f x ≠ 0) (type : WellType) :
    ∀ᶠ q in 𝓝 x, isForward type (f q) = isForward type (f x) := by
  cases type with
  | injector => exact (eventually_lt_iff hf continuousAt_const h).mono fun q hq => decide_eq_decide.2 hq
  | producer => exact (eventually_lt_iff continuousAt_const hf h.symm).mono fun q hq => decide_eq_decide.2 hq

private theorem allM_congr {β : Type} {f g : β → Outcome ℝ Bool} {l : List β} (h : ∀ b ∈ l, f b = g b) :
    l.allM f = l.allM g := by
  induction l with
  | nil => rfl
  | cons b l ih =>
    rw [List.allM_cons, List.allM_cons, h b (List.mem_cons_self ..), ih fun b' hb' => h b' (List.mem_cons_of_mem b hb')]

/-- A well admits cross flow at nearby unknowns if it does so at a point. -/
theorem eventually_admitsCrossFlow (hstate : ∀ i, CellTracks (state i) (x.1 i)) {bhp : WellDual ℝ}
    (h : (u.withUnknowns x.2).OffTies setup (cellsAt state x.1) control)
    (hb : (u.withUnknowns x.2).bottomHole setup control = .ok bhp)
    (hlinks : ∀ link ∈ u.links, ∃ i : Fin n, i.val = link.1.cell)
    (hc : (u.withUnknowns x.2).admitsCrossFlow setup (cellsAt state x.1) (.ok control) = .ok crossFlow) :
    ∀ᶠ q in 𝓝 x, (u.withUnknowns q.2).admitsCrossFlow setup (cellsAt state q.1) (.ok control) = .ok crossFlow := by
  cases hx : u.well.crossFlow with
  | true =>
    have hopen (z : Fin 3 → ℝ) (cells : List (Cell ℝ)) :
        (u.withUnknowns z).admitsCrossFlow setup cells (.ok control) = .ok true := if_pos hx
    rw [hopen] at hc
    exact .of_forall fun q => (hopen _ _).trans hc
  | false =>
    obtain ⟨B, hBx, hB, hBt⟩ := h.bottomHole_tracks hb 0
    -- each connection that holds back at the point does so nearby, because its drawdown keeps its sign
    have hsame : ∀ᶠ q in 𝓝 x, ∀ link ∈ u.links,
        u.holdsBack (cellsAt state q.1) (B q).value link = u.holdsBack (cellsAt state x.1) (B x).value link := by
      refine (eventually_all_finite u.links.finite_toSet).2 fun link hlink => ?_
      obtain ⟨i, hi⟩ := hlinks link hlink
      have hp : ContinuousAt (fun q : Point n => (state i (q.1 i)).pressure.value) x :=
        ContinuousAt.comp (f := fun q : Point n => q.1 i) (hstate i).pressure.continuousAt
          ((continuous_apply i).continuousAt.comp continuousAt_fst)
      have hne := (h.connection link hlink _ bhp crossFlow (cellAt_of_val hi state x.1) hb hc).1
      rw [← hBx] at hne
      have hd := hp.sub (hBt.continuousAt.add_const link.2.head)
      refine (eventually_isForward hd hne u.well.type).mono fun q hq => ?_
      unfold holdsBack
      rw [cellAt_of_val hi, cellAt_of_val hi]
      exact congrArg (fun b => Except.ok !b) hq
    filter_upwards [hB, hsame] with q hq hs
    rw [admitsCrossFlow_eq (u := u.withUnknowns q.2) hx hq]
    rw [← hBx] at hb
    rw [admitsCrossFlow_eq (u := u.withUnknowns x.2) hx hb] at hc
    exact (allM_congr hs).trans hc

/-! ### All connections -/

/-- The flow through a connection with given rates. -/
noncomputable def flowAt (s : Slot ℝ) (link : Connection ℝ × Segment ℝ) (flux : PerPhase (WellDual ℝ)) :
    ConnectionFlow ℝ :=
  ⟨link.1.cell, link.2.efficiency, s.bhp.getD 0 + link.2.head, flux⟩

private theorem connectionFlux_tracks {bhp : WellDual ℝ} (hstate : ∀ i, CellTracks (state i) (x.1 i))
    (h : (u.withUnknowns x.2).OffTies setup (cellsAt state x.1) control)
    (hb : (u.withUnknowns x.2).bottomHole setup control = .ok bhp)
    (hc : (u.withUnknowns x.2).admitsCrossFlow setup (cellsAt state x.1) (.ok control) = .ok crossFlow)
    {link : Connection ℝ × Segment ℝ} (hlink : link ∈ u.links) {i : Fin n} (hi : i.val = link.1.cell) :
    ∃ G : Point n → PerPhase (WellDual ℝ),
      (∀ᶠ q in 𝓝 x, ∀ b, (u.withUnknowns q.2).bottomHole setup control = .ok b →
        (u.withUnknowns q.2).connectionFlux setup (cellsAt state q.1) crossFlow b link = .ok (G q)) ∧
      TracksAll (frame (cellPart n link.1.cell) (wellPart n)) G x ∧
      ∀ p, setup.phases.isActive p = false → (G x).get p = 0 := by
  obtain ⟨B, hBx, hB, hBt⟩ := h.bottomHole_tracks hb i
  have hties := h.connection link hlink _ bhp crossFlow (cellAt_of_val hi state x.1) hb hc
  rw [← hBx] at hties
  obtain ⟨G, hG, hGt⟩ := ConnectionInput.flux_tracks
    (u.connectionInput_tracks setup crossFlow (hstate i) hBt link) hties
  refine ⟨G, ?_, hi ▸ hGt, fun p hp => ConnectionInput.flux_absent hG.self_of_nhds hp⟩
  filter_upwards [hB, hG] with q hq hqG b hb
  obtain rfl : B q = b := Except.ok.inj (hq.symm.trans hb)
  exact Outcome.bind_ok.2 ⟨_, cellAt_of_val hi state q.1, hqG⟩

theorem eventually_connectionFlows {s : Slot ℝ} {flows : List (ConnectionFlow ℝ)}
    (hstate : ∀ i, CellTracks (state i) (x.1 i))
    (h : (u.withUnknowns x.2).OffTies setup (cellsAt state x.1) control)
    (hf : (u.withUnknowns x.2).connectionFlows setup (cellsAt state x.1) s control = .ok flows) :
    ∃ F : Connection ℝ × Segment ℝ → Point n → PerPhase (WellDual ℝ),
      (∀ᶠ q in 𝓝 x, (u.withUnknowns q.2).connectionFlows setup (cellsAt state q.1) s control =
        .ok (u.links.map fun link => flowAt s link (F link q))) ∧
      ∀ link ∈ u.links, TracksAll (frame (cellPart n link.1.cell) (wellPart n)) (F link) x ∧
        ∀ p, setup.phases.isActive p = false → (F link x).get p = 0 := by
  obtain ⟨bhp, hb, hf⟩ := Outcome.bind_ok.1 hf
  obtain ⟨crossFlow, hc, hf⟩ := Outcome.bind_ok.1 hf
  -- that the flows exist tells that the cells are in the reservoir and that a bottom-hole pressure is reported
  have hparts : ∀ link ∈ u.links, (∃ i : Fin n, i.val = link.1.cell) ∧ s.bhp = some (s.bhp.getD 0) := by
    intro link hlink
    obtain ⟨flow, hflow⟩ := Outcome.ok_of_mem hf hlink
    obtain ⟨flux, hflux, hflow⟩ := Outcome.bind_ok.1 hflow
    obtain ⟨reported, hr, -⟩ := Outcome.bind_ok.1 hflow
    obtain ⟨cell, hcell, -⟩ := Outcome.bind_ok.1 hflux
    obtain ⟨i, hi, -⟩ := cellAt_cellsAt hcell
    refine ⟨⟨i, hi⟩, ?_⟩
    cases hs : s.bhp with
    | none =>
      rw [hs] at hr
      cases hr
    | some r => rfl
  have hlinks : ∀ link ∈ u.links, ∃ i : Fin n, i.val = link.1.cell := fun link hlink => (hparts link hlink).1
  have hflux : ∀ link ∈ u.links, ∃ G : Point n → PerPhase (WellDual ℝ), _ := fun link hlink =>
    connectionFlux_tracks hstate h hb hc hlink (hlinks link hlink).choose_spec
  have : Nonempty (PerPhase (WellDual ℝ)) := ⟨.replicate 0⟩
  choose! F hF using hflux
  refine ⟨F, ?_, fun link hlink => (hF link hlink).2⟩
  have hall := (eventually_all_finite u.links.finite_toSet).2 fun link hlink => (hF link hlink).1
  obtain ⟨B, -, hB, -⟩ := h.bottomHole_tracks hb 0
  filter_upwards [hB, eventually_admitsCrossFlow hstate h hb hlinks hc, hall] with q hq hqc hqF
  refine Outcome.bind_ok.2 ⟨B q, hq, Outcome.bind_ok.2 ⟨crossFlow, hqc, Outcome.mapM_map fun link hlink => ?_⟩⟩
  refine Outcome.bind_ok.2 ⟨_, hqF link hlink _ hq, Outcome.bind_ok.2 ⟨s.bhp.getD 0, ?_, rfl⟩⟩
  rw [(hparts link hlink).2]
  rfl

end WellUnit

end BlackOilWells
