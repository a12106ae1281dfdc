import BlackOilWells.Proofs.ControlUpdates
import BlackOilWells.Proofs.NewtonSteps
import BlackOilWells.Proofs.Runs

/-!
# Tubing-head pressures

A constraint on the tubing-head pressure of a well is compared with the pressure in the state.  That pressure is in step
with the state (`WellUnit.HeadInStep`) if it is the target of a tubing-head control, and under any other control the
pressure that the first tubing-head constraint implies at the rates and the bottom-hole pressure.

Newton steps leave it in step (`Model.applyUpdates_inStep`).  A start and a switch of controls do not: they write it
under a tubing-head control only (`Control.headOr`), so that it is zero or what it was before under any other control.
`Session.head_of_operations` says what each of the operations leaves.
-/

namespace BlackOilWells

open Attempt

variable {α γ : Type} [Scalar α]

/-! ### Controls and the tubing-head pressure -/

/-- The target of a tubing-head control, and a given pressure under any other. -/
def Control.headOr (c : Control α) (other : α) : α :=
  match c.kind with
  | .thp _ _ => c.target
  | _ => other

namespace WellUnit

/-- The tubing-head pressure that a slot of a well implies under a control: the target of a tubing-head control, and
under any other what the first tubing-head constraint gives for the rates and the bottom-hole pressure. -/
def impliedHead (u : WellUnit α) (setup : Setup α) (c : Control α) (s : Slot α) : Outcome α (Option α) :=
  match c.kind with
  | .thp _ _ => .ok (some c.target)
  | _ =>
    match u.well.controls.firstLift? with
    | none => .ok none
    | some (table, _) => do
      let rates ← Outcome.need s.rates
      let bhp ← Outcome.need s.bhp
      return some (← u.thpOfBhp setup table rates bhp)

/-- Whether the tubing-head pressure in a slot of a well is the one that the slot implies. -/
def HeadInStep (u : WellUnit α) (setup : Setup α) (s : Slot α) : Prop :=
  ∃ c p, s.currentControl u.well = .ok c ∧ u.impliedHead setup c s = .ok p ∧ ∀ x, p = some x → s.thp = some x

end WellUnit

/-! ### Newton steps -/

namespace WellUnit

variable {u : WellUnit α} {setup : Setup α} {s t : Slot α}

omit [Scalar α] in
private theorem currentControl_of_control {w : Well α} (h : t.control = s.control) :
    t.currentControl w = s.currentControl w := by
  rw [Slot.currentControl, h, ← Slot.currentControl]

private theorem updateThp_ok {c : Control α} (hc : s.currentControl u.well = .ok c)
    (h : u.updateThp setup c s = (.ok ⟨⟩, t)) : u.HeadInStep setup t := by
  unfold updateThp at h
  unfold HeadInStep impliedHead
  cases hk : c.kind with
  | thp table lift =>
    rw [hk] at h
    obtain ⟨-, rfl⟩ := Slot.putThp_ok.1 h
    refine ⟨c, some c.target, hc, ?_, fun x hx => hx⟩
    rw [hk]
  | _ =>
    rw [hk] at h
    dsimp only at h
    cases hlift : u.well.controls.firstLift? with
    | none =>
      rw [hlift] at h
      cases h
      refine ⟨c, none, hc, ?_, fun x hx => nomatch hx⟩
      rw [hk]
    | some tl =>
      obtain ⟨table, lift⟩ := tl
      rw [hlift] at h
      dsimp only at h
      rw [run_get_bind] at h
      obtain ⟨rates, hr, h⟩ := need_bind_ok.1 h
      obtain ⟨bhp, hb, h⟩ := need_bind_ok.1 h
      obtain ⟨thp, hthp, h⟩ := outcome_bind_ok.1 h
      obtain ⟨-, rfl⟩ := Slot.putThp_ok.1 h
      refine ⟨c, some thp, hc, ?_, fun x hx => hx⟩
      rw [hk]
      refine Outcome.bind_ok.2 ⟨rates, Outcome.need_ok.2 hr, ?_⟩
      refine Outcome.bind_ok.2 ⟨bhp, Outcome.need_ok.2 hb, ?_⟩
      exact Outcome.bind_ok.2 ⟨thp, hthp, rfl⟩

theorem headInStep_of_applyUpdate {dx : Vec3 α} (h : u.applyUpdate setup dx s = (.ok ⟨⟩, t)) :
    u.HeadInStep setup t := by
  obtain ⟨c, x, hc, ⟨old, rates, bhp, -, -, -, -, rfl⟩, hthp⟩ := applyUpdate_ok h
  refine updateThp_ok ?_ hthp
  exact hc

/-- After a change of control the tubing-head pressure is the target of a tubing-head control, and otherwise what it was
before. -/
private theorem moveToTarget_ok (h : u.moveToTarget setup s = (.ok ⟨⟩, t)) :
    ∃ c, t.currentControl u.well = .ok c ∧ t.thp = s.thp.map c.headOr := by
  have hcontrol : t.control = s.control := by
    have hr : s.Refilled (u.moveToTarget setup s).2 := moveToTarget_refilled s
    rw [h] at hr
    exact hr.control
  unfold moveToTarget at h
  rw [run_get_bind] at h
  obtain ⟨c, hc, h⟩ := outcome_bind_ok.1 h
  refine ⟨c, by rw [currentControl_of_control hcontrol, hc], ?_⟩
  unfold Control.headOr
  cases hk : c.kind with
  | bhp =>
    rw [hk] at h
    obtain ⟨_, s', hb, h⟩ := bind_ok.1 h
    obtain ⟨-, rfl⟩ := Slot.putBhp_ok.1 hb
    obtain ⟨x, rfl⟩ := Slot.seed_ok h
    exact Option.map_id'.symm
  | thp table lift =>
    rw [hk] at h
    obtain ⟨rates, hr, h⟩ := need_bind_ok.1 h
    obtain ⟨bhp, hb, h⟩ := outcome_bind_ok.1 h
    obtain ⟨_, s', hs', h⟩ := bind_ok.1 h
    obtain ⟨-, rfl⟩ := Slot.putBhp_ok.1 hs'
    obtain ⟨_, s', hs', h⟩ := bind_ok.1 h
    obtain ⟨hthp, rfl⟩ := Slot.putThp_ok.1 hs'
    obtain ⟨x, rfl⟩ := Slot.seed_ok h
    obtain ⟨thp, hthp⟩ := Option.isSome_iff_exists.1 hthp
    dsimp only at hthp ⊢
    rw [hthp]
    rfl
  | reservoirRate =>
    rw [hk] at h
    obtain ⟨x, rfl⟩ := Slot.seed_ok h
    exact Option.map_id'.symm
  | surfaceRate =>
    rw [hk] at h
    obtain ⟨rates, hr, h⟩ := need_bind_ok.1 h
    obtain ⟨_, s', hs', h⟩ := bind_ok.1 h
    obtain ⟨-, rfl⟩ := Slot.putRates_ok.1 hs'
    obtain ⟨x, rfl⟩ := Slot.seed_ok h
    exact Option.map_id'.symm

end WellUnit

/-- Newton steps that succeed leave the tubing-head pressures of all wells in step. -/
theorem Model.applyUpdates_inStep {m : Model α} {updates : List (Vec3 α)} {f f' : FlowState α}
    (h : m.applyUpdates updates f = (.ok ⟨⟩, f')) {w : Nat} {u : WellUnit α} (hu : m.units[w]? = some u) :
    u.HeadInStep m.setup (f'.slot w) := by
  obtain ⟨dx, -, hstep⟩ := applyUpdates_slot h hu
  exact WellUnit.headInStep_of_applyUpdate hstep

/-! ### Starts -/

private theorem Well.start_head {w : Well α} {cells : List (Cell α)} {phases : PhaseSet} {x : WellStart α}
    (h : w.start cells phases = .ok x) : ∃ c, w.controls.get x.control = .ok c ∧ x.thp = c.headOr 0 := by
  obtain ⟨c, hc, h⟩ := Outcome.bind_ok.1 h
  obtain ⟨pressures, -, h⟩ := Outcome.bind_ok.1 h
  obtain ⟨top, -, h⟩ := Outcome.bind_ok.1 h
  obtain ⟨unknowns, -, h⟩ := Outcome.bind_ok.1 h
  cases h
  exact ⟨c, hc, rfl⟩

/-- At the start the tubing-head pressure of a well is the target of a tubing-head control, and otherwise zero. -/
theorem Model.start_head {m : Model α} {groups : γ} {cells : List (Cell α)} {t : Session α γ}
    (h : m.start groups cells = .ok t) {w : Nat} {u : WellUnit α} (hu : t.model.units[w]? = some u) :
    ∃ c, (t.flow.slot w).currentControl u.well = .ok c ∧ (t.flow.slot w).thp = some (c.headOr 0) := by
  obtain ⟨flow, hflow, h⟩ := Outcome.bind_ok.1 h
  obtain ⟨m', hm, h⟩ := Outcome.bind_ok.1 h
  cases h
  obtain ⟨starts, hstarts, h⟩ := Outcome.bind_ok.1 hflow
  cases h
  have hwell : m.wells.list[w]? = some u.well := by
    have hwells := congrArg Wells.list (wells_of_outline (outline_of_setUnknowns hm))
    rw [← hwells]
    exact (List.getElem?_map ..).trans (congrArg (Option.map WellUnit.well) hu)
  have hlt : w < starts.length := (Outcome.mapM_ok.1 hstarts).length_eq ▸ (List.getElem?_eq_some_iff.1 hwell).1
  obtain ⟨c, hc, hthp⟩ := Well.start_head (Outcome.ok_of_getElem? hstarts hwell (List.getElem?_eq_getElem hlt))
  have hslot : ((FlowState.ofStarts starts).slot w).control = some starts[w].control := by
    exact (List.getElem?_map ..).trans (congrArg (Option.map WellStart.control) (List.getElem?_eq_getElem hlt))
  refine ⟨c, ?_, ?_⟩
  · rw [Slot.currentControl, hslot]
    exact hc
  · rw [← hthp]
    exact (List.getElem?_map ..).trans (congrArg (Option.map WellStart.thp) (List.getElem?_eq_getElem hlt))

/-! ### Operations on a session -/

namespace Session

/-- Whether the tubing-head pressures of all wells are in step. -/
def HeadsInStep (s : Session α γ) : Prop :=
  ∀ (w : Nat) u, s.model.units[w]? = some u → u.HeadInStep s.model.setup (s.flow.slot w)

private theorem applyUpdates_inStep {updates : List (Vec3 α)} {s t : Session α γ}
    (h : applyUpdates updates s = (.ok ⟨⟩, t)) : t.HeadsInStep := by
  obtain ⟨f, hf, rfl⟩ := applyUpdates_ok.1 h
  exact fun w u hu => Model.applyUpdates_inStep hf hu

private theorem applyReservoirUpdate_inStep {x : List (Vec3 α)} {s t : Session α γ}
    (h : applyReservoirUpdate x s = (.ok ⟨⟩, t)) : t.HeadsInStep := by
  unfold applyReservoirUpdate at h
  rw [run_get_bind] at h
  obtain ⟨updates, -, h⟩ := outcome_bind_ok.1 h
  exact applyUpdates_inStep h

variable [GroupControl α γ]

/-- A switch of controls leaves a well without another control as it is.  The tubing-head pressure of a well with another
control becomes the target of a tubing-head control, and otherwise stays what it was before. -/
theorem updateControls_head {cells : List (Cell α)} {s t : Session α γ} (h : updateControls cells s = (.ok ⟨⟩, t))
    {w : Nat} (hw : w < s.model.units.length) :
    (t.flow.control[w]? = s.flow.control[w]? ∧ t.flow.slot w = s.flow.slot w) ∨
      (t.flow.control[w]? ≠ s.flow.control[w]? ∧ ∃ u c, t.model.units[w]? = some u ∧
        (t.flow.slot w).currentControl u.well = .ok c ∧ (t.flow.slot w).thp = (s.flow.slot w).thp.map c.headOr) := by
  obtain ⟨led, put, assigned, followed, next, hcourse⟩ := updateControls_ok h
  rcases hcourse.slot hw with hsame | ⟨hne, u, hu, hmove⟩
  · exact .inl hsame
  · obtain ⟨c, hc, hthp⟩ := WellUnit.moveToTarget_ok hmove
    exact .inr ⟨hne, u, c, hu, hc, hthp⟩

/-- The tubing-head pressures that operations leave: Newton steps leave that of every well in step; a start leaves the
target of a tubing-head control or zero; and a switch of controls writes it only under a tubing-head control to which a
well has switched. -/
theorem head_of_operations (cells : List (Cell α)) (s : Session α γ) :
    (∀ updates t, applyUpdates updates s = (.ok ⟨⟩, t) → t.HeadsInStep) ∧
    (∀ x t, applyReservoirUpdate x s = (.ok ⟨⟩, t) → t.HeadsInStep) ∧
    (∀ (m : Model α) (groups : γ) t, m.start groups cells = .ok t → ∀ (w : Nat) u, t.model.units[w]? = some u →
      ∃ c, (t.flow.slot w).currentControl u.well = .ok c ∧ (t.flow.slot w).thp = some (c.headOr 0)) ∧
    ∀ t, updateControls cells s = (.ok ⟨⟩, t) → ∀ w < s.model.units.length,
      (t.flow.control[w]? = s.flow.control[w]? ∧ t.flow.slot w = s.flow.slot w) ∨
      (t.flow.control[w]? ≠ s.flow.control[w]? ∧ ∃ u c, t.model.units[w]? = some u ∧
        (t.flow.slot w).currentControl u.well = .ok c ∧
        (t.flow.slot w).thp = (s.flow.slot w).thp.map c.headOr) := by
  refine ⟨fun updates t h => ?_, fun x t h => ?_, fun m groups t h w u hu => ?_, fun t h w hw => ?_⟩
  · exact applyUpdates_inStep h
  · exact applyReservoirUpdate_inStep h
  · exact Model.start_head h hu
  · exact updateControls_head h hw

/-! ### A producer with a limit to its tubing-head pressure and one to its rate -/

/-- A producer through a lift table that stands on one of its two limits: the tubing-head pressure and the rate. -/
def cappedProducer (control : Nat) : Session ℚ (Option (VoidageGroup ℚ)) where
  model :=
    { setup := liftedSetup
      units := [{ WellUnit.create (.producer "P" 0 [⟨0, 2, 0, 1⟩]
        ⟨[⟨.thp 1 0, 20, .replicate 0⟩, ⟨.surfaceRate, -5, ⟨0, 1, 0⟩⟩], control⟩) with
        unknowns := WellUnit.seeded ⟨-50, 0, 0⟩ }] }
  flow := ⟨[70], [20], [0, -50, 0], [-50, 0, 0], [control], [70], [0, -50, 0], [0, 0, 0], 0⟩
  groups := none
  notices := []

/-- The producer on its tubing-head pressure, just assembled. -/
def assembledCapped : Session ℚ (Option (VoidageGroup ℚ)) := (assembleWells oilCell 1 (cappedProducer 0)).2

/-- Each operation on the producer succeeds, and the switch puts it on its rate. -/
theorem head_of_operations_cappedProducer : ∃ t₁ t₂ t₃ t₄ : Session ℚ (Option (VoidageGroup ℚ)),
    applyUpdates [⟨1, 0, 0⟩] assembledCapped = (.ok ⟨⟩, t₁) ∧ t₁.HeadsInStep ∧
    applyReservoirUpdate [⟨1, 0, 0⟩] assembledCapped = (.ok ⟨⟩, t₂) ∧ t₂.HeadsInStep ∧
    (cappedProducer 1).model.start none oilCell = .ok t₃ ∧ (∀ u, t₃.model.units[0]? = some u →
      ∃ c, (t₃.flow.slot 0).currentControl u.well = .ok c ∧ (t₃.flow.slot 0).thp = some (c.headOr 0)) ∧
    updateControls oilCell assembledCapped = (.ok ⟨⟩, t₄) ∧ t₄.flow.control[0]? ≠ assembledCapped.flow.control[0]? ∧
    ∃ u c, t₄.model.units[0]? = some u ∧ (t₄.flow.slot 0).currentControl u.well = .ok c ∧
      (t₄.flow.slot 0).thp = (assembledCapped.flow.slot 0).thp.map c.headOr := by
  have h := head_of_operations oilCell assembledCapped
  have h₁ : (applyUpdates [⟨1, 0, 0⟩] assembledCapped).1.toOption = some ⟨⟩ := by decide +kernel
  have h₂ : (applyReservoirUpdate [⟨1, 0, 0⟩] assembledCapped).1.toOption = some ⟨⟩ := by decide +kernel
  have h₃ : ((cappedProducer 1).model.start (none : Option (VoidageGroup ℚ)) oilCell).toBool = true := by
    decide +kernel
  have h₄ : (updateControls oilCell assembledCapped).1.toOption = some ⟨⟩ := by decide +kernel
  have hswitch : (updateControls oilCell assembledCapped).2.flow.control[0]? ≠ assembledCapped.flow.control[0]? := by
    decide +kernel
  cases hstart : (cappedProducer 1).model.start (none : Option (VoidageGroup ℚ)) oilCell with
  | error e =>
    rw [hstart] at h₃
    cases h₃
  | ok t₃ =>
    have hlt : 0 < assembledCapped.model.units.length := by decide +kernel
    have hupdates := h.1 _ _ (run_ok_of_toOption h₁)
    have hreservoir := h.2.1 _ _ (run_ok_of_toOption h₂)
    have hcontrols := (h.2.2.2 _ (run_ok_of_toOption h₄) 0 hlt).resolve_left fun hsame => hswitch hsame.1
    exact ⟨_, _, t₃, _, run_ok_of_toOption h₁, hupdates, run_ok_of_toOption h₂, hreservoir, rfl,
      fun u hu => h.2.2.1 _ _ _ hstart 0 u hu, run_ok_of_toOption h₄, hcontrols⟩

/-- The tubing-head pressure that the slot of the first well implies. -/
def firstImpliedHead (s : Session ℚ (Option (VoidageGroup ℚ))) : Outcome ℚ (Option ℚ) := do
  let u ← s.model.unit 0
  let c ← (s.flow.slot 0).currentControl u.well
  u.impliedHead s.model.setup c (s.flow.slot 0)

private theorem not_headsInStep {s : Session ℚ (Option (VoidageGroup ℚ))} {x : ℚ}
    (h : (firstImpliedHead s).toOption = some (some x)) (hx : (s.flow.slot 0).thp ≠ some x) : ¬s.HeadsInStep := by
  intro hstep
  obtain ⟨u, hu, h⟩ := Outcome.bind_ok.1 (Outcome.ok_of_toOption h)
  obtain ⟨c, hc, h⟩ := Outcome.bind_ok.1 h
  obtain ⟨c', p, hc', hp, hthp⟩ := hstep 0 u (Model.getElem?_of_unit hu)
  rw [hc] at hc'
  cases hc'
  rw [h] at hp
  cases hp
  exact hx (hthp x rfl)

/-- The switch leaves the pressure that was the target before, and a start on the rate leaves zero.  The first
tubing-head constraint gives 29 and 58 there. -/
theorem not_headsInStep_cappedProducer :
    (∃ t, updateControls oilCell (cappedProducer 0) = (.ok ⟨⟩, t) ∧ ¬t.HeadsInStep) ∧
    ∃ t : Session ℚ (Option (VoidageGroup ℚ)), (cappedProducer 1).model.start none oilCell = .ok t ∧
      ¬t.HeadsInStep := by
  constructor
  · have hrun : (updateControls oilCell (cappedProducer 0)).1.toOption = some ⟨⟩ := by decide +kernel
    refine ⟨_, run_ok_of_toOption hrun, not_headsInStep (x := 29) ?_ ?_⟩ <;> decide +kernel
  · have hstart : (((cappedProducer 1).model.start (none : Option (VoidageGroup ℚ)) oilCell).map fun t =>
        ((firstImpliedHead t).toOption, (t.flow.slot 0).thp)).toOption = some (some (some 58), some 0) := by
      decide +kernel
    cases h : (cappedProducer 1).model.start (none : Option (VoidageGroup ℚ)) oilCell with
    | error e =>
      rw [h] at hstart
      cases hstart
    | ok t =>
      rw [h] at hstart
      obtain ⟨himplied, hthp⟩ := Prod.mk.inj (Option.some.inj hstart)
      refine ⟨t, rfl, not_headsInStep himplied ?_⟩
      rw [hthp]
      decide

end Session

end BlackOilWells
