import BlackOilWells.Proofs.LocalSolution

/-!
# Failed local solutions

A local solution that does not converge goes back to the flow state on entry and takes the unknowns from it.  The wells
are then what they were before it but for their systems and sources, which the assembly that follows does not look at.
So without a group in effect an assembly with a failed local solution does what it does without one
(`Session.assemble_failedSolution`): only the preparation, the assembly and the notices remain.

Nothing but the decision itself looks at the setting that asks for a local solution (`Session.withSolveFirst`).
-/

namespace BlackOilWells

open Attempt

variable {α γ : Type} [Scalar α]

/-! ### The setting -/

omit [Scalar α] in
/-- The setup with or without a local solution. -/
def Setup.withSolveFirst (b : Bool) (c : Setup α) : Setup α :=
  { c with settings := { c.settings with solveFirst := b } }

namespace Model

/-- The model with or without a local solution. -/
def withSolveFirst (b : Bool) (m : Model α) : Model α := { m with setup := m.setup.withSolveFirst b }

private theorem setUnknowns_withSolveFirst (b : Bool) (m : Model α) (s : FlowState α) :
    (m.withSolveFirst b).setUnknowns s = (m.setUnknowns s).map (withSolveFirst b) := by
  unfold setUnknowns
  rw [Outcome.map_bind]
  rfl

private theorem setDensities_withSolveFirst (b : Bool) (m : Model α) (cells : List (Cell α)) (s : FlowState α) :
    (m.withSolveFirst b).setDensities cells s = (m.setDensities cells s).map (withSolveFirst b) := by
  unfold setDensities
  rw [Outcome.map_bind]
  simp only [Outcome.map_bind]
  rfl

omit [Scalar α] in
private theorem setTarget_withSolveFirst (b : Bool) (m : Model α) (w control : Nat) (target : α) :
    (m.withSolveFirst b).setTarget w control target = (m.setTarget w control target).map (withSolveFirst b) := by
  unfold setTarget
  rw [Outcome.map_bind]
  simp only [Outcome.map_bind]
  rfl

private theorem assemble_withSolveFirst (b : Bool) (m : Model α) (cells : List (Cell α)) (dt : α) (s : FlowState α) :
    (m.withSolveFirst b).assemble cells dt s =
      ((m.assemble cells dt s).1.map (withSolveFirst b), (m.assemble cells dt s).2) := by
  have ha : (m.withSolveFirst b).assembled cells dt s = m.assembled cells dt s := rfl
  rw [assemble_eq, assemble_eq, ha]
  cases m.assembled cells dt s with
  | error => rfl
  | ok wells =>
    have hp : (m.withSolveFirst b).putAllFlows wells s = m.putAllFlows wells s := rfl
    dsimp only
    rw [hp]
    rcases m.putAllFlows wells s with ⟨_ | _, t⟩ <;> rfl

end Model

namespace Session

/-- The session with or without a local solution. -/
def withSolveFirst (b : Bool) (s : Session α γ) : Session α γ := { s with model := s.model.withSolveFirst b }

variable {b : Bool}

/-! ### Operations that do not look at it -/

/-- Compute another model. -/
private def putModel (f : Session α γ → Outcome α (Model α)) : Step Id α γ Unit := do
  let s ← get
  set { s with model := ← f s }

omit [Scalar α] in
private theorem putModel_commutes {f : Session α γ → Outcome α (Model α)}
    (hf : ∀ s, f (withSolveFirst b s) = (f s).map (Model.withSolveFirst b)) :
    Commutes (withSolveFirst b) (putModel f) := by
  intro s
  change (liftM (f (withSolveFirst b s)) >>= fun m => set { withSolveFirst b s with model := m } :
      Attempt α (Session α γ) PUnit) (withSolveFirst b s) =
    (((liftM (f s) >>= fun m => set { s with model := m } : Attempt α (Session α γ) PUnit) s).1,
      withSolveFirst b ((liftM (f s) >>= fun m => set { s with model := m } : Attempt α (Session α γ) PUnit) s).2)
  rw [run_bind, run_bind, run_outcome, run_outcome, hf]
  cases f s <;> rfl

omit [Scalar α] in
private theorem onFlow_commutes {β : Type} (act : Attempt α (FlowState α) β) :
    Commutes (withSolveFirst b) (onFlow act : Step Id α γ β) := fun _ => rfl

omit [Scalar α] in
private theorem note_commutes (ns : List (Notice α)) :
    Commutes (withSolveFirst b) (note ns : Step Id α γ Unit) := fun _ => rfl

private theorem takeUnknowns_commutes : Commutes (withSolveFirst b) (takeUnknowns : Step Id α γ Unit) :=
  putModel_commutes fun s => Model.setUnknowns_withSolveFirst b s.model s.flow

private theorem refreshDensities_commutes (cells : List (Cell α)) :
    Commutes (withSolveFirst b) (refreshDensities cells : Step Id α γ Unit) :=
  putModel_commutes fun s => Model.setDensities_withSolveFirst b s.model cells s.flow

private theorem assembleWells_commutes (cells : List (Cell α)) (dt : α) :
    Commutes (withSolveFirst b) (assembleWells cells dt : Step Id α γ Unit) := by
  intro s
  rw [run_assembleWells, run_assembleWells]
  have hm : (s.withSolveFirst b).model.assemble cells dt (s.withSolveFirst b).flow = _ :=
    Model.assemble_withSolveFirst b s.model cells dt s.flow
  rw [hm]
  rcases s.model.assemble cells dt s.flow with ⟨_ | _, f⟩ <;> rfl

variable [GroupControl α γ]

omit [Scalar α] in
private theorem followGroup_commutes (u : WellUnit α) (w : Nat) :
    Commutes (withSolveFirst b) (followGroup u w : Step Id α γ Unit) := by
  refine .get_bind (fun _ => rfl) fun s => .ite ?_ (.pure _)
  cases GroupControl.controlIndex s.groups u.well.name with
  | none => exact .pure _
  | some i => exact (Commutes.outcome _).bind fun _ => onFlow_commutes _

private theorem run_replaceVoidage (cells : List (Cell α)) (s : Session α γ) :
    replaceVoidage cells s = match s.model.voidage cells s.flow with
      | .ok vs => (s.model.units.zipIdx.forM fun (u, w) => followGroup u w)
          { s with groups := GroupControl.takeVoidage s.groups vs.unzip.1 vs.unzip.2 }
      | .error e => (.error e, s) := by
  change (liftM (s.model.voidage cells s.flow) >>= _ : Attempt α (Session α γ) PUnit) s = _
  rw [run_bind, run_outcome]
  cases s.model.voidage cells s.flow <;> rfl

private theorem replaceVoidage_commutes (cells : List (Cell α)) :
    Commutes (withSolveFirst b) (replaceVoidage cells : Step Id α γ Unit) := by
  intro s
  have hv : (s.withSolveFirst b).model.voidage cells (s.withSolveFirst b).flow = s.model.voidage cells s.flow := rfl
  rw [run_replaceVoidage, run_replaceVoidage, hv]
  cases s.model.voidage cells s.flow with
  | error => rfl
  | ok vs =>
    have hu : Commutes (withSolveFirst b)
        (s.model.units.zipIdx.forM fun (u, w) => followGroup u w : Step Id α γ PUnit) :=
      .forM fun p _ => followGroup_commutes p.1 p.2
    exact hu { s with groups := GroupControl.takeVoidage s.groups vs.unzip.1 vs.unzip.2 }

omit [Scalar α] [GroupControl α γ] in
private theorem takeTarget_commutes (t : AssignedTarget α) :
    Commutes (withSolveFirst b) (takeTarget t : Step Id α γ Unit) := by
  intro s
  have hw : (s.withSolveFirst b).model.wells = s.model.wells := rfl
  unfold takeTarget
  rw [run_bind, run_bind, run_get, run_get]
  simp only [hw]
  cases s.model.wells.indexOf? t.well with
  | none => rfl
  | some w =>
    exact putModel_commutes (f := fun s => s.model.setTarget w t.control t.target)
      (fun s => Model.setTarget_withSolveFirst b s.model w t.control t.target) s

omit [Scalar α] in
private theorem takeTargets_commutes : Commutes (withSolveFirst b) (takeTargets : Step Id α γ Unit) := by
  intro s
  have h : Commutes (withSolveFirst b)
      ((GroupControl.distribute s.groups s.flow.rates).1.forM takeTarget : Step Id α γ Unit) :=
    .forM fun t _ => takeTarget_commutes t
  exact h { s with groups := (GroupControl.distribute s.groups s.flow.rates).2 }

omit [Scalar α] in
private theorem putControl_commutes (active : Bool) (name : String) (w : Nat) (next : Nat × Bool) :
    Commutes (withSolveFirst b) (putControl active name w next : Step Id α γ Unit) :=
  (onFlow_commutes _).bind fun _ => .ite (.modify fun _ => rfl) (.pure _)

omit [GroupControl α γ] in
private theorem followSwitch_commutes (previous : List Nat) (w : Nat) :
    Commutes (withSolveFirst b) (followSwitch previous w : Step Id α γ Unit) := by
  refine .get_bind (fun _ => rfl) fun s => ?_
  refine Commutes.bind (.need _) fun before => Commutes.bind (.need _) fun after => .ite ?_ (.pure _)
  refine Commutes.bind (.outcome _) fun u => Commutes.bind (.outcome _) fun old => ?_
  refine Commutes.bind (.outcome _) fun new => ?_
  exact (note_commutes _).bind fun _ => onFlow_commutes _

private theorem updateControls_commutes (cells : List (Cell α)) :
    Commutes (withSolveFirst b) (updateControls cells : Step Id α γ Unit) := by
  refine .get_bind (fun _ => rfl) fun s => Commutes.bind (.outcome _) fun _ => ?_
  refine Commutes.when (replaceVoidage_commutes cells) fun _ => .get_bind (fun _ => rfl) fun s' => ?_
  refine Commutes.bind (.mapM_outcome _ _) fun next => ?_
  refine Commutes.bind (.forM fun p _ => putControl_commutes _ _ _ _) fun _ => ?_
  refine Commutes.when takeTargets_commutes fun _ => ?_
  exact (Commutes.forM fun w _ => followSwitch_commutes _ w).bind fun _ => onFlow_commutes _

omit [GroupControl α γ] in
private theorem warnThreePhaseRates_commutes :
    Commutes (withSolveFirst b) (warnThreePhaseRates : Step Id α γ Unit) := by
  refine .get_bind (fun _ => rfl) fun s => Commutes.forM fun p _ => ?_
  refine .ite (Commutes.bind (.need _) fun current => ?_) (.pure _)
  rcases p.1.well.controls.list[current]? with _ | ⟨kind, target, weights⟩
  · exact .pure _
  · cases kind
    case surfaceRate => exact .ite (note_commutes _) (.pure _)
    all_goals exact .pure _

/-- The preparation does not look at the setting. -/
private theorem prepare_commutes (cells : List (Cell α)) (dt : α) (i : Nat) :
    Commutes (withSolveFirst b) (prepare cells dt i : Step Id α γ Unit) := by
  unfold prepare
  refine Commutes.when (.throw _) fun _ => .get_bind (fun _ => rfl) fun s => ?_
  refine Commutes.bind (.outcome _) fun _ => Commutes.when (.modify fun _ => rfl) fun _ => ?_
  refine Commutes.bind (updateControls_commutes cells) fun _ => Commutes.bind takeUnknowns_commutes fun _ => ?_
  refine .ite ?_ warnThreePhaseRates_commutes
  refine Commutes.bind (refreshDensities_commutes cells) fun _ => ?_
  exact Commutes.bind (.modify fun _ => rfl) fun _ => warnThreePhaseRates_commutes

end Session

/-! ### Unknowns taken from the flow state -/

namespace WellUnit

private theorem setUnknowns_again {u u' : WellUnit α} {s : Slot α} (h : u.setUnknowns s = .ok u') :
    u'.setUnknowns s = .ok u' := by
  obtain ⟨x, hx, h⟩ := Outcome.bind_ok.1 h
  cases h
  exact Outcome.bind_ok.2 ⟨x, hx, rfl⟩

private theorem setUnknowns_outline {u u' : WellUnit α} {s : Slot α} (h : u.setUnknowns s = .ok u') :
    u.outline.setUnknowns s = .ok u'.bare := by
  obtain ⟨x, hx, h⟩ := Outcome.bind_ok.1 h
  cases h
  exact Outcome.bind_ok.2 ⟨x, hx, rfl⟩

/-- Another description of the well bore keeps the unknowns. -/
private theorem setUnknowns_setDensities {u : WellUnit α} {s : Slot α} (h : u.setUnknowns s = .ok u) (g : α)
    (ds : List α) :
    (u.setDensities g ds).setUnknowns s = .ok (u.setDensities g ds) := by
  obtain ⟨x, hx, h⟩ := Outcome.bind_ok.1 h
  refine Outcome.bind_ok.2 ⟨x, hx, ?_⟩
  have hu : seeded x = u.unknowns := congrArg WellUnit.unknowns (Except.ok.inj h)
  rw [hu]
  rfl

private theorem setUnknowns_setStartFractions {u : WellUnit α} {s : Slot α} (h : u.setUnknowns s = .ok u)
    (phases : PhaseSet) :
    (u.setStartFractions phases).setUnknowns s = .ok (u.setStartFractions phases) := by
  obtain ⟨x, hx, h⟩ := Outcome.bind_ok.1 h
  refine Outcome.bind_ok.2 ⟨x, hx, ?_⟩
  have hu : seeded x = u.unknowns := congrArg WellUnit.unknowns (Except.ok.inj h)
  rw [hu]
  rfl

end WellUnit

namespace Model

/-- Whether the unknowns of all wells are those of a flow state. -/
def Follows (m : Model α) (s : FlowState α) : Prop := m.setUnknowns s = .ok m

private theorem follows_iff {m : Model α} {s : FlowState α} :
    m.Follows s ↔ ∀ i (h : i < m.units.length), m.units[i].setUnknowns (s.slot i) = .ok m.units[i] := by
  rw [Follows, setUnknowns_ok, Outcome.mapM_zipIdx]
  exact ⟨fun h i hi => h.2.2 i hi hi, fun h => ⟨rfl, rfl, fun i hi _ => h i hi⟩⟩

private theorem follows_of_setUnknowns {m m' : Model α} {s : FlowState α} (h : m.setUnknowns s = .ok m') :
    m'.Follows s := by
  obtain ⟨-, h⟩ := setUnknowns_ok.1 h
  obtain ⟨hl, h⟩ := Outcome.mapM_zipIdx.1 h
  rw [follows_iff]
  exact fun i hi => WellUnit.setUnknowns_again (h i (hl ▸ hi) hi)

private theorem follows_of_setDensities {m m' : Model α} {cells : List (Cell α)} {s f : FlowState α} (hm : m.Follows f)
    (h : m.setDensities cells s = .ok m') : m'.Follows f := by
  obtain ⟨props, -, h⟩ := Outcome.bind_ok.1 h
  obtain ⟨densities, -, h⟩ := Outcome.bind_ok.1 h
  cases h
  rw [follows_iff] at hm ⊢
  intro i hi
  dsimp only at hi ⊢
  rw [List.getElem_zipWith]
  exact WellUnit.setUnknowns_setDensities (hm i _) _ _

private theorem follows_setStartFractions {m : Model α} {s : FlowState α} (hm : m.Follows s) :
    m.setStartFractions.Follows s := by
  rw [follows_iff] at hm ⊢
  intro i hi
  simp only [setStartFractions, List.length_map, List.getElem_map] at hi ⊢
  exact WellUnit.setUnknowns_setStartFractions (hm i hi) _

/-- Models that differ in unknowns, systems and sources take the same unknowns. -/
private theorem bare_of_setUnknowns {m₁ m₂ m₁' m₂' : Model α} {s : FlowState α} (h : m₁.outline = m₂.outline)
    (h₁ : m₁.setUnknowns s = .ok m₁') (h₂ : m₂.setUnknowns s = .ok m₂') : m₁'.bare = m₂'.bare := by
  have ho {m m' : Model α} (h : m.setUnknowns s = .ok m') : m.outline.setUnknowns s = .ok m'.bare := by
    obtain ⟨hs, hu⟩ := setUnknowns_ok.1 h
    obtain ⟨hl, hu⟩ := Outcome.mapM_zipIdx.1 hu
    refine setUnknowns_ok.2 ⟨hs, Outcome.mapM_zipIdx.2 ⟨?_, fun i hi hi' => ?_⟩⟩
    · rw [outline, bare, List.length_map, List.length_map, hl]
    · simp only [outline, bare, List.length_map, List.getElem_map] at hi hi' ⊢
      exact WellUnit.setUnknowns_outline (hu i hi hi')
  have he := ho h₁
  rw [h, ho h₂] at he
  exact (Except.ok.inj he).symm

end Model

namespace Session

variable [GroupControl α γ]

/-- After the preparation the unknowns are those of the flow state. -/
theorem prepare_establishes (cells : List (Cell α)) (dt : α) (i : Nat) :
    Establishes (fun s => s.model.Follows s.flow) (prepare cells dt i : Step Id α γ Unit) := by
  have warn : Maintains (fun s => s.model.Follows s.flow) (warnThreePhaseRates : Step Id α γ Unit) :=
    warnThreePhaseRates_maintains fun _ h => h
  unfold prepare
  refine Establishes.when fun _ => .get_bind fun s => .bind fun _ => ?_
  refine Establishes.when fun _ => .bind fun _ => ?_
  refine Establishes.bind_maintains (fun s _ t h => ?_) fun _ => .ite (fun _ => ?_) fun _ => warn
  · obtain ⟨m, hm, rfl⟩ := takeUnknowns_ok.1 h
    exact Model.follows_of_setUnknowns hm
  · refine Maintains.bind (fun s hs => ?_) fun _ => Maintains.bind ?_ fun _ => warn
    · rw [run_refreshDensities]
      cases hd : s.model.setDensities cells s.flow with
      | error => exact hs
      | ok m => exact Model.follows_of_setDensities hs hd
    · exact .modify fun s hs => Model.follows_setStartFractions hs

/-- Without a group in effect, the local solution keeps the groups and the outline of the model. -/
private theorem stable_ungrouped {s : Session α γ} (h : GroupControl.isActive s.groups = false) :
    Stable fun t : Session α γ => t.groups = s.groups ∧ t.model.outline = s.model.outline :=
  .of_led (fun _ h => h) (fun _ h => h) (fun _ hm h => ⟨h.1, hm.trans h.2⟩) fun _ _ h₀ ha => by
    rw [h₀.1, h] at ha
    cases ha

private theorem stable_groups {s : Session α γ} (h : GroupControl.isActive s.groups = false) :
    Stable fun t : Session α γ => t.groups = s.groups :=
  .of_led (fun _ h => h) (fun _ h => h) (fun _ _ h => h) fun _ _ h₀ ha => by
    rw [h₀, h] at ha
    cases ha

variable {comm : Communicator Id α} {cells : List (Cell α)} {dt : α}

/-- A local solution that does not converge leaves the flow state, the groups and the bare wells as they were. -/
theorem solve_failed {s t : Session α γ} {r : SolveReport} (hs : s.model.Follows s.flow)
    (hg : GroupControl.isActive s.groups = false) (h : solve comm cells dt s = (.ok r, t)) (hr : r.converged = false) :
    t.flow = s.flow ∧ t.groups = s.groups ∧ t.model.bare = s.model.bare := by
  obtain ⟨u, hu, -, ht⟩ := solve_ok h
  -- whatever the rounds did, restoring takes the unknowns from the flow state on entry
  have hk := iterate_maintains (stable_ungrouped hg) comm cells dt s.model.setup.settings.maxLocalIterations 0 s
    ⟨rfl, rfl⟩
  rw [hu] at hk
  obtain ⟨m, hm, rfl⟩ := takeUnknowns_ok.1 (ht hr)
  exact ⟨rfl, hk.1, Model.bare_of_setUnknowns hk.2 hm hs⟩

/-- Without a group in effect, an assembly with a local solution that does not converge does what it does without a
local solution: it leaves the same flow state, the same groups and the same wells with their unknowns, systems and
sources. -/
theorem assemble_failedSolution (comm : Communicator Id α) (cells : List (Cell α)) (dt : α) (s t : Session α γ)
    (report : SolveReport) (hg : GroupControl.isActive s.groups = false)
    (h : assemble comm cells dt 0 (s.withSolveFirst true) = (.ok report, t)) (hr : report.converged = false) :
    ∃ t', assemble comm cells dt 0 (s.withSolveFirst false) = (.ok ⟨true, 0⟩, t') ∧
      t'.flow = t.flow ∧ t'.groups = t.groups ∧ t'.model = t.model.withSolveFirst false := by
  obtain ⟨hq, p, u, v, hp, hu, hv, rfl⟩ := assemble_ok.1 h
  have hps : p.model.setup.settings.solveFirst = true := by rw [setup_of_prepare hp]; rfl
  have hpg : p.groups = s.groups := by
    have hk := prepare_maintains (stable_groups hg) (fun _ _ h => h) cells dt 0 (s.withSolveFirst true) rfl
    rwa [hp] at hk
  rw [if_pos hps] at hu
  obtain ⟨huf, hug, hum⟩ := solve_failed (prepare_establishes cells dt 0 _ _ _ hp) (hpg ▸ hg) hu hr
  -- the run without a local solution gets to the last assembly with the wells of `p`, that with one with those of `u`
  have hp' : prepare cells dt 0 (s.withSolveFirst false) = (.ok ⟨⟩, p.withSolveFirst false) := by
    have hc := prepare_commutes (b := false) cells dt 0 (s.withSolveFirst true)
    rw [hp] at hc
    exact hc
  obtain ⟨m, f, ha, rfl⟩ := assembleWells_ok.1 hv
  rw [Model.assemble_congr hum, huf] at ha
  have hv' : assembleWells cells dt (p.withSolveFirst false) =
      (.ok ⟨⟩, withSolveFirst false { p with model := m, flow := f }) := by
    rw [assembleWells_commutes, assembleWells_ok.2 ⟨m, f, ha, rfl⟩]
  exact ⟨_, assemble_ok.2 ⟨hq, _, _, _, hp', rfl, hv', rfl⟩, rfl, hug.symm, rfl⟩

/-- A single round does not solve the producer, and is undone. -/
theorem assemble_failedSolution_oilProducer : GroupControl.isActive (oilProducer 1).groups = false ∧ ∃ t t',
    assemble (.serial : Communicator Id ℚ) oilCell 1 0 ((oilProducer 1).withSolveFirst true) = (.ok ⟨false, 1⟩, t) ∧
      assemble (.serial : Communicator Id ℚ) oilCell 1 0 ((oilProducer 1).withSolveFirst false) =
        (.ok ⟨true, 0⟩, t') ∧
      t'.flow = t.flow ∧ t'.groups = t.groups ∧ t'.model = t.model.withSolveFirst false := by
  have hr : (assemble (.serial : Communicator Id ℚ) oilCell 1 0
      ((oilProducer 1).withSolveFirst true)).1.toOption = some ⟨false, 1⟩ := by
    decide +kernel
  have h := run_ok_of_toOption hr
  obtain ⟨t', h', ht⟩ := assemble_failedSolution .serial oilCell 1 (oilProducer 1) _ _ rfl h rfl
  exact ⟨rfl, _, t', h, h', ht⟩

end Session

end BlackOilWells
