import BlackOilWells.Model.Solve
import BlackOilWells.Proofs.Slots

/-!
# What a switch of controls keeps

A switch of controls writes in two rounds: first the indices of the controls, together with what passes between the
groups and the wells, and then, for the wells whose control has changed, the values of the state.  A property of
sessions may hold through the first round (`Session.Switchable`) and change into another one for the second.  The
statements also say for what the rounds stop.
-/

namespace BlackOilWells

open Attempt

variable {α γ : Type} [Scalar α]

namespace Model

variable {F : Fault α → Prop} (hF : ∀ e, F (.error e))

include hF

omit [Scalar α] in
theorem unit_stops (m : Model α) (w : Nat) : (m.unit w).Stops F := by
  unfold unit
  cases m.units[w]? with
  | none => exact .error (hF _)
  | some u => exact .ok u

omit [Scalar α] in
theorem checkState_stops (m : Model α) (s : FlowState α) : (m.checkState s).Stops F :=
  .ite (fun _ => .ok _) fun _ => .error (hF _)

omit [Scalar α] in
private theorem setTarget_stops (m : Model α) (w i : Nat) (target : α) : (m.setTarget w i target).Stops F :=
  (unit_stops hF m w).bind fun _ _ => (Controls.setTarget_stops hF _ i target).bind fun _ _ => .ok _

end Model

namespace Session

variable [GroupControl α γ]

/-- Properties of a session that the first round keeps on given cells, and for what it stops.  A well is only put on
controls that are `Valid` for it.  What passes between the groups and the wells matters only once a group is in
effect. -/
structure Switchable (cells : List (Cell α)) (A : Session α γ → Prop) (Valid : Well α → Nat → Prop)
    (F : Fault α → Prop) : Prop where
  size : ∀ {s : Session α γ}, A s → (s.model.checkState s.flow).Stops F
  voidage : ∀ {s : Session α γ}, A s → GroupControl.isActive s.groups = true →
    (s.model.voidage cells s.flow).Stops F
  /-- The group learns about the voidage. -/
  takeVoidage : ∀ {s} v c, A s → A { s with groups := GroupControl.takeVoidage s.groups v c }
  /-- The group learns whether a well stands for itself. -/
  setIndividual : ∀ {s} name b, A s → A { s with groups := GroupControl.setIndividual s.groups name b }
  /-- The group distributes its targets. -/
  distribute : ∀ {s}, A s → A { s with groups := (GroupControl.distribute s.groups s.flow.rates).2 }
  /-- A well takes a target of the group. -/
  target : ∀ {s₀ s t}, A s₀ → t ∈ (GroupControl.distribute s₀.groups s₀.flow.rates).1 → A s →
    A (takeTarget t s).2 ∧ Outcome.Stops F (takeTarget t s).1
  /-- The control that the group assigns to a well. -/
  follow : ∀ {s} {w i : Nat} {u}, A s → s.model.units[w]? = some u →
    GroupControl.controlIndex s.groups u.well.name = some i → (u.well.controls.get i).Stops F
  get : ∀ {w : Well α} {i c}, w.controls.get i = .ok c → Valid w i
  /-- The scan of a well finds the next control. -/
  next : ∀ {s : Session α γ} {w : Nat} {u} g, A s → s.model.units[w]? = some u →
    (u.well.nextControl (s.flow.slot w) g).Stops F ∧
      ∀ i b, u.well.nextControl (s.flow.slot w) g = .ok (i, b) → Valid u.well i
  /-- A well is put on a control. -/
  put : ∀ {s : Session α γ} {w i : Nat} {u}, A s → s.model.units[w]? = some u → Valid u.well i →
    A (onFlow (FlowState.onSlot w (Slot.putControl i)) s).2 ∧
      Outcome.Stops F (onFlow (FlowState.onSlot w (Slot.putControl i)) s).1

variable {cells : List (Cell α)} {A B : Session α γ → Prop} {Valid : Well α → Nat → Prop} {F : Fault α → Prop}

omit [Scalar α] [GroupControl α γ] in
/-- A target of a group, where every change of a target keeps the property. -/
theorem takeTarget_keeps (hF : ∀ e, F (.error e))
    (hA : ∀ {s : Session α γ} {w i x m}, s.model.setTarget w i x = .ok m → A s → A { s with model := m })
    (t : AssignedTarget α) : Keeps A F (takeTarget t : Step Id α γ Unit) := by
  refine .get_bind fun s hs => ?_
  cases s.model.wells.indexOf? t.well with
  | none => exact ⟨hs, .error (hF _)⟩
  | some w =>
    dsimp only
    rw [run_bind, run_outcome]
    have hstops := Model.setTarget_stops hF s.model w t.control t.target
    cases hm : s.model.setTarget w t.control t.target with
    | ok m => exact ⟨hA hm hs, .ok _⟩
    | error e => exact ⟨hs, .error (hstops e hm)⟩

/-- Putting a well on a control leaves the model as it is. -/
private theorem put_keeps (hA : Switchable cells A Valid F) {m : Model α} {w i : Nat} {u : WellUnit α}
    (hu : m.units[w]? = some u) (hi : Valid u.well i) :
    Keeps (fun s => A s ∧ s.model = m) F (onFlow (FlowState.onSlot w (Slot.putControl i)) : Step Id α γ Unit) := by
  rintro s ⟨hs, rfl⟩
  obtain ⟨ht, he⟩ := hA.put hs hu hi
  exact ⟨⟨ht, rfl⟩, he⟩

private theorem followGroup_keeps (hA : Switchable cells A Valid F) {m : Model α} {w : Nat} {u : WellUnit α}
    (hu : m.units[w]? = some u) : Keeps (fun s => A s ∧ s.model = m) F (followGroup u w : Step Id α γ Unit) := by
  refine .get_bind ?_
  rintro s ⟨hs, rfl⟩
  refine Keeps.ite (P := fun t => A t ∧ t.model = s.model) (fun _ => ?_) (fun _ => .pure _) s ⟨hs, rfl⟩
  cases hi : GroupControl.controlIndex s.groups u.well.name with
  | none => exact .pure _
  | some i => exact .outcome_bind (hA.follow hs hu hi) fun c hc => put_keeps hA hu (hA.get hc)

private theorem replaceVoidage_keeps (hA : Switchable cells A Valid F) {s : Session α γ}
    (ha : GroupControl.isActive s.groups = true) (hs : A s) :
    (A (replaceVoidage cells s).2 ∧ (replaceVoidage cells s).2.model = s.model) ∧
      Outcome.Stops F (replaceVoidage cells s).1 := by
  refine Keeps.get_into (Q := fun t => A t ∧ t.model = s.model) ?_
  have hwells : Keeps (fun t => A t ∧ t.model = s.model) F
      (s.model.units.zipIdx.forM fun p => followGroup p.1 p.2 : Step Id α γ PUnit) :=
    .forM fun p hp => followGroup_keeps hA (List.mem_zipIdx_iff_getElem?.1 hp)
  rw [run_outcome_bind]
  cases hv : s.model.voidage cells s.flow with
  | error e => exact ⟨⟨hs, rfl⟩, .error (hA.voidage hs ha e hv)⟩
  | ok vs =>
    exact hwells { s with groups := GroupControl.takeVoidage s.groups vs.unzip.1 vs.unzip.2 }
      ⟨hA.takeVoidage _ _ hs, rfl⟩

private theorem takeTargets_keeps (hA : Switchable cells A Valid F) : Keeps A F (takeTargets : Step Id α γ Unit) := by
  refine .get_bind fun s hs => ?_
  exact Keeps.forM (fun t ht u hu => hA.target hs ht hu)
    { s with groups := (GroupControl.distribute s.groups s.flow.rates).2 } (hA.distribute hs)

private theorem putControl_keeps (hA : Switchable cells A Valid F) (active : Bool) (name : String) {m : Model α}
    {w : Nat} {u : WellUnit α} (hu : m.units[w]? = some u) {next : Nat × Bool} (hi : Valid u.well next.1) :
    Keeps (fun s => A s ∧ s.model = m) F (putControl active name w next : Step Id α γ Unit) :=
  (put_keeps hA hu hi).bind fun _ =>
    .ite (fun _ => .modify fun _ hs => ⟨hA.setIndividual _ _ hs.1, hs.2⟩) fun _ => .pure _

omit [GroupControl α γ] in
/-- The second round, for a well: where the control has changed, the state moves to its target. -/
theorem followSwitch_keeps {previous : List Nat} {w : Nat} (hprevious : previous[w]? = none → F .outOfRange)
    (hcontrol : ∀ s, B s → s.flow.control[w]? = none → F .outOfRange) (hunit : ∀ s, B s → (s.model.unit w).Stops F)
    (hget : ∀ s u i, B s → s.model.unit w = .ok u → previous[w]? = some i ∨ s.flow.control[w]? = some i →
      (u.well.controls.get i).Stops F)
    (hnotices : ∀ {s} ns, B s → B { s with notices := ns })
    (hmove : ∀ s, B s → previous[w]? ≠ s.flow.control[w]? →
      B (onFlow (s.model.moveToTarget w) s).2 ∧ Outcome.Stops F (onFlow (s.model.moveToTarget w) s).1) :
    Keeps B F (followSwitch previous w : Step Id α γ Unit) := by
  refine .get_bind fun s hs => ?_
  cases hp : previous[w]? with
  | none => exact ⟨hs, .error (hprevious hp)⟩
  | some before =>
  cases hc : s.flow.control[w]? with
  | none => exact ⟨hs, .error (hcontrol s hs hc)⟩
  | some after =>
  simp only [Attempt.need, pure_bind]
  by_cases hne : before = after
  · rw [if_neg (not_not_intro hne)]
    exact ⟨hs, .ok _⟩
  rw [if_pos hne]
  have hmoved (ns : List (Notice α)) := hmove { s with notices := ns } (hnotices ns hs) (by
    rw [hp, hc]
    exact fun h => hne (Option.some.inj h))
  rw [run_outcome_bind]
  cases hu : s.model.unit w with
  | error e => exact ⟨hs, .error (hunit s hs e hu)⟩
  | ok u =>
  dsimp only
  rw [run_outcome_bind]
  cases ho : u.well.controls.get before with
  | error e => exact ⟨hs, .error (hget s u before hs hu (.inl hp) e ho)⟩
  | ok old =>
  dsimp only
  rw [run_outcome_bind]
  cases hn : u.well.controls.get after with
  | error e => exact ⟨hs, .error (hget s u after hs hu (.inr hc) e hn)⟩
  | ok new => exact hmoved _

/-- A switch of controls, in its two rounds. -/
theorem updateControls_keeps (hA : Switchable cells A Valid F) (hAB : ∀ s, A s → B s) {s : Session α γ} (hs : A s)
    (hfollow : ∀ w < s.model.units.length, Keeps B F (followSwitch s.flow.control w : Step Id α γ Unit))
    (hcount : ∀ {t : Session α γ}, B t → B { t with flow := { t.flow with revision := t.flow.revision + 1 } }) :
    B (updateControls cells s).2 ∧ Outcome.Stops F (updateControls cells s).1 := by
  have second : Keeps B F ((List.range s.model.units.length).forM (followSwitch s.flow.control) >>= fun _ =>
      onFlow FlowState.countChange : Step Id α γ Unit) := by
    refine Keeps.bind (.forM fun w hw => hfollow w (List.mem_range.1 hw)) fun _ t ht => ?_
    exact ⟨hcount ht, .ok _⟩
  -- up to the traversal that puts the wells on their controls the model stays
  have hPB (t : Session α γ) (ht : A t ∧ t.model = s.model) : B t := hAB t ht.1
  refine Keeps.bind_into (P := (s = ·)) (fun t ht => ht ▸ hAB s hs) (.outcome (hA.size hs)) ?_ rfl
  rintro _ _ rfl
  refine Keeps.when_run_into hPB ⟨hs, rfl⟩ (fun hc => replaceVoidage_keeps hA (Bool.and_eq_true_iff.1 hc).1 hs)
    fun t ht => ?_
  refine Keeps.get_into ?_
  let group (u : WellUnit α) : Option Nat :=
    if GroupControl.isActive s.groups = true then GroupControl.controlIndex t.groups u.well.name else none
  have hnext {u : WellUnit α} {w : Nat} (hu : s.model.units[w]? = some u) := hA.next (group u) ht.1 (ht.2 ▸ hu)
  refine Keeps.mapM_outcome_into (g := fun p => p.1.well.nextControl (t.flow.slot p.2) (group p.1)) hPB
    (fun p hp => (hnext (List.mem_zipIdx_iff_getElem?.1 hp)).1) (fun next hn t ht => ?_) ht
  refine Keeps.bind_into hPB (.forM fun p hp => ?_) (fun _ t ht => ?_) ht
  · obtain ⟨-, hv⟩ := Outcome.mapM_zipIdx_of_mem hn hp
    have hu : s.model.units[p.2]? = some p.1.1 := by
      have hz := List.mem_zipIdx_iff_getElem?.1 hp
      rw [List.getElem?_zip_eq_some] at hz
      exact hz.1
    exact putControl_keeps hA _ _ hu ((hnext hu).2 _ _ hv)
  · exact Keeps.when_into hAB (fun _ => takeTargets_keeps hA) (fun t ht => second t (hAB t ht)) ht.1

/-- A preparation: up to the switch of controls one property, and another one afterwards. -/
theorem prepare_keeps (hAB : ∀ s, A s → B s) {cells : List (Cell α)} {dt : α} (i : Nat)
    (hdt : ¬(Scalar.isFinite dt = true ∧ 0 < dt) → F (.error (.invalid (.timeStep dt))))
    (hsize : ∀ s, A s → (s.model.checkState s.flow).Stops F)
    (hefficiencies : ∀ s, A s → A { s with model := s.model.setEfficiencies (GroupControl.efficiency s.groups) })
    (hswitch : ∀ s, A s → B (updateControls cells s).2 ∧ Outcome.Stops F (updateControls cells s).1)
    (hunknowns : Keeps B F (takeUnknowns : Step Id α γ Unit))
    (hdensities : Keeps B F (refreshDensities cells : Step Id α γ Unit))
    (hfractions : ∀ s, B s → B { s with model := s.model.setStartFractions })
    (hwarn : Keeps B F (warnThreePhaseRates : Step Id α γ Unit)) {s : Session α γ} (hs : A s) :
    B (prepare cells dt i s).2 ∧ Outcome.Stops F (prepare cells dt i s).1 := by
  unfold prepare
  refine Keeps.when_into (P := A) hAB ?_ ?_ hs
  · exact fun h => .throw (hdt h)
  intro s hs
  refine Keeps.get_into ?_
  refine Keeps.bind_into hAB (.outcome (hsize s hs)) (fun _ s hs => ?_) hs
  refine Keeps.when_into hAB ?_ ?_ hs
  · exact fun _ => .modify hefficiencies
  intro s hs
  refine Keeps.bind_run (hswitch s hs) fun _ => hunknowns.bind fun _ => .ite (fun _ => ?_) fun _ => hwarn
  exact hdensities.bind fun _ => Keeps.bind (.modify hfractions) fun _ => hwarn

end Session

end BlackOilWells
