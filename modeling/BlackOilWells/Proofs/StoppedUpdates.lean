import BlackOilWells.Proofs.LocalSolution
import BlackOilWells.Proofs.NewtonSteps

/-!
# Newton steps that stop

The wells take their Newton steps one after the other.  A step writes the bottom-hole pressure, the unknowns and the
rates of its well, and comes to the tubing-head pressure last.  Where a step stops, nothing of what was written before
is undone: the wells before have taken their steps, the well itself is as it was or lacks nothing but its tubing-head
pressure (`WellUnit.applyUpdate_error`), and the wells after it are as they were (`Model.StoppedAt`).

So the state is the one on entry where the first well stops before it has written (`Session.stopped_updates`), and it is
not in general (`Session.not_restored_fadingPair`).
-/

namespace BlackOilWells

open Attempt

variable {α γ : Type} [Scalar α]

/-! ### The step of one well -/

namespace WellUnit

variable {u : WellUnit α} {setup : Setup α} {c : Control α} {dx : Vec3 α} {s t : Slot α} {e : Fault α}

private theorem updateThp_error (h : u.updateThp setup c s = (.error e, t)) : t = s := by
  unfold updateThp at h
  cases hk : c.kind with
  | thp table lift =>
    rw [hk] at h
    exact (Slot.putThp_error h).2
  | _ =>
    rw [hk] at h
    dsimp only at h
    cases hlift : u.well.controls.firstLift? with
    | none =>
      rw [hlift] at h
      cases h
    | some tl =>
      rw [hlift] at h
      dsimp only at h
      rw [run_get_bind] at h
      rcases need_bind_error h with hs | ⟨rates, -, h⟩
      · exact hs
      rcases need_bind_error h with hs | ⟨bhp, -, h⟩
      · exact hs
      rcases outcome_bind_error.1 h with ⟨-, hs⟩ | ⟨thp, -, h⟩
      · exact hs
      exact (Slot.putThp_error h).2

/-- A Newton step that stops has written nothing, or all but the tubing-head pressure. -/
theorem applyUpdate_error (h : u.applyUpdate setup dx s = (.error e, t)) : t = s ∨
    ∃ c, s.currentControl u.well = .ok c ∧ u.Writes setup dx c s t ∧ u.updateThp setup c t = (.error e, t) := by
  unfold applyUpdate at h
  by_cases hfinite : dx.all Scalar.isFinite = true
  · rw [if_neg (not_not_intro hfinite)] at h
    rcases bind_error.1 h with h | ⟨_, _, hget, h⟩
    · cases h
    cases hget
    rcases outcome_bind_error.1 h with ⟨-, hs⟩ | ⟨c, hc, h⟩
    · exact .inl hs
    rcases need_bind_error h with hs | ⟨old, hold, h⟩
    · exact .inl hs
    rcases need_bind_error h with hs | ⟨rates, hrates, h⟩
    · exact .inl hs
    rcases outcome_bind_error.1 h with ⟨-, hs⟩ | ⟨bhp, hbhp, h⟩
    · exact .inl hs
    rcases bind_error.1 h with h | ⟨_, s₁, hput, h⟩
    · exact .inl (Slot.putBhp_error h).2
    obtain ⟨hplace, rfl⟩ := Slot.putBhp_ok.1 hput
    -- unknowns and rates have been read, so that writing them does not stop
    rcases bind_error.1 h with h | ⟨_, s₂, hput, h⟩
    · cases hold.symm.trans (Slot.putUnknowns_error h).1
    obtain ⟨-, rfl⟩ := Slot.putUnknowns_ok.1 hput
    rcases bind_error.1 h with h | ⟨_, s₃, hput, h⟩
    · cases hrates.symm.trans (Slot.putRates_error h).1
    obtain ⟨-, rfl⟩ := Slot.putRates_ok.1 hput
    have ht := updateThp_error h
    subst ht
    exact .inr ⟨c, hc, ⟨old, rates, bhp, hold, hrates, hplace, hbhp, rfl⟩, h⟩
  · rw [if_pos hfinite] at h
    cases h
    exact .inl rfl

end WellUnit

/-! ### The steps of all wells -/

/-- What is left of a state where the Newton steps of a model have stopped at a well. -/
structure Model.StoppedAt (m : Model α) (updates : List (Vec3 α)) (w : Nat) (e : Fault α) (s t : FlowState α) :
    Prop where
  /-- The wells before have taken their steps. -/
  before : ∀ v < w, ∃ u dx, m.units[v]? = some u ∧ updates[v]? = some dx ∧
    u.applyUpdate m.setup dx (s.slot v) = (.ok ⟨⟩, t.slot v)
  /-- The well is as it was, or it has stopped at its tubing-head pressure with all else written. -/
  stopped : ∃ u dx, m.units[w]? = some u ∧ updates[w]? = some dx ∧
    u.applyUpdate m.setup dx (s.slot w) = (.error e, t.slot w) ∧
    (t.slot w = s.slot w ∨ ∃ c, (s.slot w).currentControl u.well = .ok c ∧
      u.Writes m.setup dx c (s.slot w) (t.slot w) ∧ u.updateThp m.setup c (t.slot w) = (.error e, t.slot w))
  after : ∀ v, w < v → t.slot v = s.slot v
  moves : s.MovesOnly t
  /-- Without anything written the state is the one on entry. -/
  kept : (∀ v ≤ w, t.slot v = s.slot v) → t = s

namespace Model

variable {m : Model α} {updates : List (Vec3 α)} {e : Fault α} {s t : FlowState α}

/-- Wells that have taken their steps, and one that stops. -/
private theorem stoppedAt_of_steppedTo {before after : List (WellUnit α × Vec3 α)} {u : WellUnit α} {dx : Vec3 α}
    {x : FlowState α} {y : Slot α} (hsteps : m.units.zip updates = before ++ (u, dx) :: after)
    (hbefore : s.SteppedTo m.setup before x) (hstep : u.applyUpdate m.setup dx (s.slot before.length) = (.error e, y)) :
    m.StoppedAt updates before.length e s (x.putSlot before.length y) := by
  have hahead : x.slot before.length = s.slot before.length := hbefore.ahead _ (Nat.le_refl _)
  have hrefilled : (x.slot before.length).Refilled y := by
    have hr : (s.slot before.length).Refilled (u.applyUpdate m.setup dx (s.slot before.length)).2 :=
      u.applyUpdate_refilled dx _
    rwa [hstep, ← hahead] at hr
  have hself : (x.putSlot before.length y).slot before.length = y := FlowState.slot_putSlot_self hrefilled
  have hothers (v : Nat) (hv : v ≠ before.length) : (x.putSlot before.length y).slot v = x.slot v :=
    FlowState.slot_putSlot_of_ne x hv.symm y
  refine ⟨fun v hv => ?before, ?stopped, fun v hv => ?after, hbefore.moves.putSlot hrefilled, fun hsame => ?kept⟩
  case before =>
    have hget : (m.units.zip updates)[v]? = some before[v] := by
      rw [hsteps, List.getElem?_append_left hv, List.getElem?_eq_getElem hv]
    obtain ⟨hu, hdx⟩ := List.getElem?_zip_eq_some.1 hget
    refine ⟨before[v].1, before[v].2, hu, hdx, ?_⟩
    rw [hothers v (by omega)]
    exact hbefore.taken v before[v] (List.getElem?_eq_getElem hv)
  case stopped =>
    have hget : (m.units.zip updates)[before.length]? = some (u, dx) := by
      rw [hsteps, List.getElem?_append_right (Nat.le_refl _), Nat.sub_self, List.getElem?_cons_zero]
    obtain ⟨hu, hdx⟩ := List.getElem?_zip_eq_some.1 hget
    rw [hself]
    exact ⟨u, dx, hu, hdx, hstep, WellUnit.applyUpdate_error hstep⟩
  case after =>
    rw [hothers v (by omega)]
    exact hbefore.ahead v (by omega)
  case kept =>
    have hx : x = s := by
      refine hbefore.kept fun v hv => ?_
      rw [← hothers v (by omega)]
      exact hsame v (by omega)
    have hw := hsame before.length (Nat.le_refl _)
    rw [hself] at hw
    rw [hx, hw]
    exact s.putSlot_slot _

/-- Newton steps that stop have changed nothing, or have come to one of the wells. -/
theorem applyUpdates_error (h : m.applyUpdates updates s = (.error e, t)) :
    t = s ∨ ∃ w, m.StoppedAt updates w e s t := by
  unfold applyUpdates at h
  rw [run_get_bind] at h
  rcases outcome_bind_error.1 h with ⟨-, hs⟩ | ⟨_, -, h⟩
  · exact .inl hs
  by_cases hlength : (updates.length != m.units.length) = true
  · rw [if_pos hlength] at h
    cases h
    exact .inl rfl
  rw [if_neg hlength] at h
  rcases bind_error.1 h with h | ⟨_, x, -, hcount⟩
  · obtain ⟨_, _, _, x, hsplit, hbefore, hstep⟩ := forM_error h
    obtain ⟨before, rest, hsteps, rfl, hrest⟩ := List.zipIdx_eq_append_iff.1 hsplit
    obtain ⟨⟨u, dx⟩, after, rfl, rfl, -⟩ := List.zipIdx_eq_cons_iff.1 hrest.symm
    have hbefore := FlowState.steppedTo_of_forM hbefore
    dsimp only at hstep
    rw [Nat.zero_add, FlowState.run_onSlot, hbefore.ahead _ (Nat.le_refl _)] at hstep
    obtain ⟨he, rfl⟩ := Prod.mk.inj hstep
    exact .inr ⟨before.length, stoppedAt_of_steppedTo hsteps hbefore (Prod.ext he rfl)⟩
  · cases hcount

end Model

namespace Session

/-- Newton steps that stop, and steps recovered from a reservoir update that stop, leave the session as it was, or a flow
state in which the wells before the one that stops have taken their steps. -/
theorem stopped_updates (s : Session α γ) :
    (∀ updates e t, applyUpdates updates s = (.error e, t) →
      t = s ∨ ∃ w f, t = { s with flow := f } ∧ s.model.StoppedAt updates w e s.flow f) ∧
    ∀ x e t, applyReservoirUpdate x s = (.error e, t) →
      t = s ∨ ∃ updates w f, s.model.recover x = .ok updates ∧ t = { s with flow := f } ∧
        s.model.StoppedAt updates w e s.flow f := by
  have hupdates (updates) (e) (t) (h : applyUpdates updates s = (.error e, t)) :
      t = s ∨ ∃ w f, t = { s with flow := f } ∧ s.model.StoppedAt updates w e s.flow f := by
    unfold applyUpdates at h
    rw [run_get_bind, run_onFlow] at h
    rcases hrun : s.model.applyUpdates updates s.flow with ⟨o, f⟩
    rw [hrun] at h
    obtain ⟨rfl, rfl⟩ := Prod.mk.inj h
    rcases Model.applyUpdates_error hrun with rfl | ⟨w, hw⟩
    · exact .inl rfl
    · exact .inr ⟨w, f, rfl, hw⟩
  refine ⟨hupdates, fun x e t h => ?_⟩
  unfold applyReservoirUpdate at h
  rw [run_get_bind] at h
  rcases outcome_bind_error.1 h with ⟨-, hs⟩ | ⟨updates, hrecover, h⟩
  · exact .inl hs
  rcases hupdates updates e t h with hs | ⟨w, f, ht, hw⟩
  · exact .inl hs
  · exact .inr ⟨updates, w, f, hrecover, ht, hw⟩

/-! ### Producers of which one fades -/

/-- Two producers on their bottom-hole pressures in a cell each.  Above a flow of eleven their lift table cannot be
inverted. -/
def fadingPair : Session ℚ (Option (VoidageGroup ℚ)) where
  model :=
    { setup := { (oilProducer 15).model.setup with lift := ⟨[⟨1, 0, .oil, [0, 10], [10, 20], [[50, 60], [70, 71]]⟩]⟩ }
      units := [("P", 0), ("Q", 1)].map fun (name, cell) =>
        { WellUnit.create (.producer name 0 [⟨cell, 2, 0, 1⟩]
            ⟨[⟨.bhp, 90, .replicate 0⟩, ⟨.thp 1 0, 10, .replicate 0⟩], 0⟩) with
          unknowns := WellUnit.seeded ⟨0, 0, 0⟩ } }
  flow := ⟨[90, 90], [0, 0], .replicate 6 0, .replicate 6 0, [0, 0], [90, 90], .replicate 6 0, .replicate 6 0, 0⟩
  groups := none
  notices := []

/-- The producers just assembled. -/
def assembledPair : Session ℚ (Option (VoidageGroup ℚ)) := (assembleWells (oilCell ++ oilCell) 1 fadingPair).2

/-- Whether an outcome is that a lift table cannot be inverted. -/
def isFaded (o : Outcome ℚ Unit) : Bool :=
  match o with
  | .error (.error (.numerical (.liftNotInvertible _ _))) => true
  | _ => false

private theorem exists_of_isFaded {x : Outcome ℚ Unit × Session ℚ (Option (VoidageGroup ℚ))}
    (h : isFaded x.1 = true) : ∃ table flow, x = (.error (.numerical (.liftNotInvertible table flow)), x.2) := by
  rcases x with ⟨o, t⟩
  unfold isFaded at h
  split at h
  · rename_i table flow ho
    exact ⟨table, flow, Prod.ext ho rfl⟩
  · cases h

/-- The first producer takes its step and the second one stops, whether the steps are given or recovered. -/
theorem stopped_updates_fadingPair :
    (∃ e t w f, applyUpdates [⟨1, 0, 0⟩, ⟨20, 0, 0⟩] fadingPair = (.error e, t) ∧ t = { fadingPair with flow := f } ∧
      fadingPair.model.StoppedAt [⟨1, 0, 0⟩, ⟨20, 0, 0⟩] w e fadingPair.flow f) ∧
    ∃ e t updates w f, applyReservoirUpdate [⟨1, 0, 0⟩, 0] assembledPair = (.error e, t) ∧
      assembledPair.model.recover [⟨1, 0, 0⟩, 0] = .ok updates ∧ t = { assembledPair with flow := f } ∧
      assembledPair.model.StoppedAt updates w e assembledPair.flow f := by
  constructor
  · obtain ⟨table, flow, he⟩ := exists_of_isFaded (x := applyUpdates [⟨1, 0, 0⟩, ⟨20, 0, 0⟩] fadingPair)
      (by decide +kernel)
    have hmoved : (applyUpdates [⟨1, 0, 0⟩, ⟨20, 0, 0⟩] fadingPair).2.flow.rates ≠ fadingPair.flow.rates := by
      decide +kernel
    rcases (stopped_updates fadingPair).1 _ _ _ he with hs | ⟨w, f, ht, hw⟩
    · exact absurd (congrArg (·.flow.rates) hs) hmoved
    · exact ⟨_, _, w, f, he, ht, hw⟩
  · obtain ⟨table, flow, he⟩ := exists_of_isFaded (x := applyReservoirUpdate [⟨1, 0, 0⟩, 0] assembledPair)
      (by decide +kernel)
    have hmoved : (applyReservoirUpdate [⟨1, 0, 0⟩, 0] assembledPair).2.flow.rates ≠ assembledPair.flow.rates := by
      decide +kernel
    rcases (stopped_updates assembledPair).2 _ _ _ he with hs | ⟨updates, w, f, hrecover, ht, hw⟩
    · exact absurd (congrArg (·.flow.rates) hs) hmoved
    · exact ⟨_, _, updates, w, f, he, hrecover, ht, hw⟩

/-- The steps of both producers stay written, although the second one has failed. -/
theorem not_restored_fadingPair :
    (∃ table flow t, applyUpdates [⟨1, 0, 0⟩, ⟨20, 0, 0⟩] fadingPair =
      (.error (.numerical (.liftNotInvertible table flow)), t) ∧ t.flow.rates = [0, -1, 0, 0, -20, 0] ∧
      t.flow ≠ fadingPair.flow) ∧
    ∃ table flow t, applyReservoirUpdate [⟨1, 0, 0⟩, 0] assembledPair =
      (.error (.numerical (.liftNotInvertible table flow)), t) ∧ t.flow ≠ assembledPair.flow := by
  constructor
  · obtain ⟨table, flow, he⟩ := exists_of_isFaded (x := applyUpdates [⟨1, 0, 0⟩, ⟨20, 0, 0⟩] fadingPair)
      (by decide +kernel)
    have hrates : (applyUpdates [⟨1, 0, 0⟩, ⟨20, 0, 0⟩] fadingPair).2.flow.rates = [0, -1, 0, 0, -20, 0] := by
      decide +kernel
    refine ⟨table, flow, _, he, hrates, fun hs => ?_⟩
    rw [hs] at hrates
    exact absurd hrates (by decide)
  · obtain ⟨table, flow, he⟩ := exists_of_isFaded (x := applyReservoirUpdate [⟨1, 0, 0⟩, 0] assembledPair)
      (by decide +kernel)
    have hmoved : (applyReservoirUpdate [⟨1, 0, 0⟩, 0] assembledPair).2.flow.rates ≠ assembledPair.flow.rates := by
      decide +kernel
    exact ⟨table, flow, _, he, fun hs => hmoved (congrArg FlowState.rates hs)⟩

end Session

end BlackOilWells
