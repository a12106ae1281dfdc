import BlackOilWells.Proofs.Consistency

/-!
# Invariants of the flow state

A run changes the flow state in few ways: a start builds one, and then wells are put on controls and moved to targets,
Newton steps are applied, flows and potentials written, and changes counted.  A property of flow states that each of
these keeps (`FlowInvariant`) holds after every run (`FlowInvariant.run`).

The models that do this may have a property of their own, as long as it depends only on what no operation changes: the
setup, and the wells without their targets.
-/

namespace BlackOilWells

open Attempt

variable {ω α γ : Type} [Scalar α]

/-- A property `Q` of flow states that models with a property `M` keep. -/
structure FlowInvariant (M : Model α → Prop) (Q : FlowState α → Prop) : Prop where
  /-- Of a model only the setup and the wells without their targets matter. -/
  model : ∀ {m m'}, M m → m'.setup = m.setup → m'.wells.untargeted = m.wells.untargeted → M m'
  init : ∀ {m cells s}, M m → FlowState.init m.wells cells m.setup.phases = .ok s → Q s
  revision : ∀ {s} n, Q s → Q { s with revision := n }
  putControl : ∀ w i, Maintains Q (FlowState.onSlot w (Slot.putControl i))
  moveToTarget : ∀ {m} w, M m → Maintains Q (m.moveToTarget w)
  applyUpdates : ∀ {m} updates, M m → Maintains Q (m.applyUpdates updates)
  assemble : ∀ {m} cells dt, M m → Maintains Q (m.assemble cells dt)
  putPotentials : ∀ {m} cells, M m → Maintains Q (m.putPotentials cells)

/-- Whether the model and the flow state of a session have given properties. -/
structure Session.Meets (M : Model α → Prop) (Q : FlowState α → Prop) (s : Session α γ) : Prop where
  model : M s.model
  flow : Q s.flow

namespace FlowInvariant

variable {M : Model α → Prop} {Q : FlowState α → Prop} (h : FlowInvariant M Q)

/-! ### The parts of an operation -/

section Parts

variable {s : Session α γ} (hs : s.Meets M Q)

include hs

omit [Scalar α] in
private theorem onFlow {β : Type} {act : Attempt α (FlowState α) β} (hact : Maintains Q act) :
    (Session.onFlow act s).2.Meets M Q := ⟨hs.model, hact s.flow hs.flow⟩

include h

private theorem of_untargeted {m : Model α} (hsetup : m.setup = s.model.setup)
    (hwells : m.wells.untargeted = s.model.wells.untargeted) : Session.Meets M Q { s with model := m } :=
  ⟨h.model hs.model hsetup hwells, hs.flow⟩

private theorem of_wells {m : Model α} (hsetup : m.setup = s.model.setup) (hwells : m.wells = s.model.wells) :
    Session.Meets M Q { s with model := m } :=
  h.of_untargeted hs hsetup (congrArg Wells.untargeted hwells)

private theorem of_outline {m : Model α} (hm : m.outline = s.model.outline) : Session.Meets M Q { s with model := m } :=
  h.of_wells hs (congrArg Model.setup hm :) (Model.wells_of_outline hm)

end Parts

include h

private theorem takeUnknowns : Maintains (Session.Meets M Q) (Session.takeUnknowns : Step Id α γ Unit) :=
  (Session.takeUnknowns_keeps (fun _ _ => .any _) fun hm hs => h.of_outline hs hm).maintains

private theorem refreshDensities (cells : List (Cell α)) :
    Maintains (Session.Meets M Q) (Session.refreshDensities cells : Step Id α γ Unit) :=
  (Session.refreshDensities_keeps (fun _ _ => .any _) fun hm hs =>
    h.of_wells hs (Model.setup_of_setDensities hm) (Model.wells_of_setDensities hm)).maintains

private theorem assembleWells (cells : List (Cell α)) (dt : α) :
    Maintains (Session.Meets M Q) (Session.assembleWells cells dt : Step Id α γ Unit) := by
  refine (Session.assembleWells_keeps (fun s hs => ⟨?_, .any _⟩) fun hm hs => h.of_outline hs hm).maintains
  exact ⟨hs.model, h.assemble cells dt hs.model s.flow hs.flow⟩

private theorem applyNewton (updates : List (Vec3 α)) :
    Maintains (Session.Meets M Q) (Session.applyUpdates updates : Step Id α γ Unit) :=
  .get_bind fun _ hs => onFlow hs (h.applyUpdates updates hs.model)

theorem of_start {m : Model α} {groups : γ} {cells : List (Cell α)} {s : Session α γ} (hm : M m)
    (hs : m.start groups cells = .ok s) : s.Meets M Q := by
  obtain ⟨flow, hflow, hs⟩ := Outcome.bind_ok.1 hs
  obtain ⟨m', hm', hs⟩ := Outcome.bind_ok.1 hs
  cases hs
  have hstart : (⟨m, flow, groups, []⟩ : Session α γ).Meets M Q := ⟨hm, h.init hm hflow⟩
  exact h.of_outline hstart (Model.outline_of_setUnknowns hm')

/-! ### Switching -/

variable [GroupControl α γ]

private theorem switchable (cells : List (Cell α)) :
    Session.Switchable cells (Session.Meets (γ := γ) M Q) (fun _ _ => True) fun _ => True where
  size _ _ _ := trivial
  voidage _ _ _ _ := trivial
  takeVoidage _ _ hs := ⟨hs.model, hs.flow⟩
  setIndividual _ _ hs := ⟨hs.model, hs.flow⟩
  distribute hs := ⟨hs.model, hs.flow⟩
  target {_ s t} _ _ hs := Session.takeTarget_keeps (fun _ => trivial)
    (fun hm ht => h.of_untargeted ht (Model.setup_of_setTarget hm) (Model.untargeted_of_setTarget hm)) t s hs
  follow _ _ _ _ _ := trivial
  get _ := trivial
  next _ _ _ := ⟨fun _ _ => trivial, fun _ _ _ => trivial⟩
  put hs _ _ := ⟨onFlow hs (h.putControl _ _), fun _ _ => trivial⟩

private theorem updateControls (cells : List (Cell α)) :
    Maintains (Session.Meets M Q) (Session.updateControls cells : Step Id α γ Unit) := by
  intro s hs
  refine (Session.updateControls_keeps (h.switchable cells) (fun _ ht => ht) hs (fun w _ => ?_) fun ht => ?_).1
  · refine Session.followSwitch_keeps (fun _ => trivial) (fun _ _ _ => trivial) (fun _ _ _ _ => trivial)
      (fun _ _ _ _ _ _ _ _ => trivial) (fun _ ht => ⟨ht.model, ht.flow⟩) fun t ht _ => ?_
    exact ⟨onFlow ht (h.moveToTarget w ht.model), fun _ _ => trivial⟩
  · exact ⟨ht.model, h.revision _ ht.flow⟩

private theorem prepare (cells : List (Cell α)) (dt : α) (i : Nat) :
    Maintains (Session.Meets M Q) (Session.prepare cells dt i : Step Id α γ Unit) := fun _ hs =>
  (Session.prepare_keeps (F := fun _ => True) (fun _ ht => ht) i (fun _ => trivial) (fun _ _ _ _ => trivial)
    (fun t ht => h.of_wells (m := t.model.setEfficiencies _) ht rfl (t.model.wells_of_setEfficiencies _))
    (fun t ht => ⟨h.updateControls cells t ht, fun _ _ => trivial⟩) (.of_maintains h.takeUnknowns)
    (.of_maintains (h.refreshDensities cells))
    (fun t ht => h.of_wells (m := t.model.setStartFractions) ht rfl t.model.wells_of_setStartFractions)
    (.of_maintains (Session.warnThreePhaseRates_maintains fun _ ht => ⟨ht.model, ht.flow⟩)) hs).1

/-! ### Runs -/

/-- Every operation keeps the property, whether it succeeds or stops. -/
theorem lasting : Session.Lasting (Session.Meets (γ := γ) M Q) fun _ => True where
  aborted _ := trivial
  parts cells dt :=
    { numerical := fun _ => trivial
      notices := fun _ hs => ⟨hs.model, hs.flow⟩
      back := fun hs ht => ⟨ht.model, hs.flow⟩
      countChange := fun hs => ⟨hs.model, h.revision _ hs.flow⟩
      assembleWells := .of_maintains (h.assembleWells cells dt)
      takeUnknowns := .of_maintains h.takeUnknowns
      updateControls := .of_maintains (h.updateControls cells)
      updates := fun ns hs ht => by
        have hk := (h.assembleWells cells dt).of_eq hs ht
        refine ⟨fun _ _ => trivial, fun dxs _ => ⟨h.applyNewton dxs _ ?_, fun _ _ => trivial⟩⟩
        exact ⟨hk.model, hk.flow⟩ }
  prepare cells dt i := .of_maintains (h.prepare cells dt i)
  restart cells := by
    refine .of_maintains (.get_bind fun s hs => ?_)
    rw [run_outcome_bind]
    cases hstart : s.model.start s.groups cells with
    | error e => exact hs
    | ok t =>
      have ht := h.of_start hs.model hstart
      exact ⟨ht.model, ht.flow⟩
  applyUpdates updates := .of_maintains (h.applyNewton updates)
  recover _ _ _ _ := trivial
  putPotentials {s} cells hs := ⟨onFlow hs (h.putPotentials cells hs.model), fun _ _ => trivial⟩
  regroup _ hs := ⟨hs.model, hs.flow⟩

/-- The property holds after a start and any operations. -/
theorem run {m : Model α} (hm : M m) (comm : Communicator (StateM ω) α) {groups : γ} {cells : List (Cell α)}
    {s : Session α γ} (hs : m.start groups cells = .ok s) (ops : List (Operation α γ)) (w : ω) :
    Q (Session.run comm ops s w).2.1.flow :=
  (Session.run_keeps (fun op _ => h.lasting.operation comm op) (h.of_start hm hs) w).1.flow

end FlowInvariant

end BlackOilWells
