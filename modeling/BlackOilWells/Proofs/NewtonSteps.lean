import BlackOilWells.Proofs.Sessions
import BlackOilWells.Proofs.Slots

/-!
# What Newton steps leave

A Newton step that succeeds has written the unknowns, the rates and the pressures of a well from the unknowns before it
and the current control (`WellUnit.applyUpdate_ok`).  Steps for all wells do that well by well
(`Model.applyUpdates_slot`), and the model can take the unknowns that they leave (`Session.takeUnknowns_of_updates`).
-/

namespace BlackOilWells

open Attempt

variable {α γ : Type} [Scalar α]

namespace WellUnit

variable {u : WellUnit α} {setup : Setup α} {c : Control α} {s t : Slot α}

/-- Keeping the tubing-head pressure in step writes nothing else. -/
theorem updateThp_frame (h : u.updateThp setup c s = (.ok ⟨⟩, t)) : t = { s with thp := t.thp } := by
  unfold updateThp at h
  cases hk : c.kind with
  | thp table lift =>
    rw [hk] at h
    obtain ⟨-, rfl⟩ := Slot.putThp_ok.1 h
    rfl
  | _ =>
    rw [hk] at h
    dsimp only at h
    cases hlift : u.well.controls.firstLift? with
    | none =>
      rw [hlift] at h
      cases h
      rfl
    | some tl =>
      rw [hlift] at h
      dsimp only at h
      rw [run_get_bind] at h
      obtain ⟨rates, -, h⟩ := need_bind_ok.1 h
      obtain ⟨bhp, -, h⟩ := need_bind_ok.1 h
      obtain ⟨thp, -, h⟩ := outcome_bind_ok.1 h
      obtain ⟨-, rfl⟩ := Slot.putThp_ok.1 h
      rfl

/-- The unknowns after a Newton step. -/
def steppedUnknowns (setup : Setup α) (c : Control α) (old : Unknowns α) (dx : Vec3 α) : Unknowns α :=
  ⟨stepLead setup c old dx, (stepFractions setup old dx).water, (stepFractions setup old dx).gas⟩

/-- The well with the unknowns after a Newton step. -/
def stepped (u : WellUnit α) (setup : Setup α) (c : Control α) (old : Unknowns α) (dx : Vec3 α) : WellUnit α :=
  { u with unknowns := seeded (steppedUnknowns setup c old dx) }

/-- The rates after a Newton step, from those before it. -/
def steppedRates (u : WellUnit α) (setup : Setup α) (c : Control α) (old : Unknowns α) (dx : Vec3 α)
    (rates : PerPhase α) : PerPhase α :=
  ratesOf u.well setup.phases c (stepLead setup c old dx) (unscaled setup.phases c (stepFractions setup old dx)) rates

/-- What a Newton step under a control writes to a slot before it comes to the tubing-head pressure. -/
def Writes (u : WellUnit α) (setup : Setup α) (dx : Vec3 α) (c : Control α) (s t : Slot α) : Prop :=
  ∃ old rates bhp, s.unknowns = some old ∧ s.rates = some rates ∧ s.bhp.isSome ∧
    u.bhpOf setup c (stepLead setup c old dx) (u.steppedRates setup c old dx rates) = .ok bhp ∧
    t = { s with
      bhp := some bhp
      unknowns := some (steppedUnknowns setup c old dx)
      rates := some (u.steppedRates setup c old dx rates) }

/-- A Newton step writes, and then keeps the tubing-head pressure in step. -/
theorem applyUpdate_eq {dx : Vec3 α} (hdx : dx.all Scalar.isFinite = true) (hc : s.currentControl u.well = .ok c)
    (h : u.Writes setup dx c s t) : u.applyUpdate setup dx s = u.updateThp setup c t := by
  obtain ⟨old, rates, bhp, hold, hrates, hplace, hbhp, rfl⟩ := h
  unfold applyUpdate
  rw [if_neg (not_not_intro hdx)]
  change (get >>= _ : Attempt α (Slot α) Unit) s = _
  rw [run_get_bind, run_outcome_bind, hc]
  dsimp only
  rw [hold, hrates]
  change (liftM (u.bhpOf setup c (stepLead setup c old dx) (u.steppedRates setup c old dx rates)) >>= _ :
    Attempt α (Slot α) Unit) s = _
  rw [run_outcome_bind, hbhp]
  refine (bind_of_ok (Slot.putBhp_ok.2 ⟨hplace, rfl⟩)).trans ?_
  -- unknowns and rates have been read, so that they can be written
  refine (bind_of_ok (Slot.putUnknowns_ok.2 ⟨by exact Option.isSome_of_eq_some hold, rfl⟩)).trans ?_
  exact bind_of_ok (Slot.putRates_ok.2 ⟨by exact Option.isSome_of_eq_some hrates, rfl⟩)

/-- A Newton step that succeeds has written under the current control. -/
theorem applyUpdate_ok {dx : Vec3 α} (h : u.applyUpdate setup dx s = (.ok ⟨⟩, t)) :
    ∃ c x, s.currentControl u.well = .ok c ∧ u.Writes setup dx c s x ∧ u.updateThp setup c x = (.ok ⟨⟩, t) := by
  unfold applyUpdate at h
  obtain ⟨s', hs, h⟩ := when_ok h
  have hsame : s' = s := by
    split at hs
    · cases hs
    · exact hs
  rw [hsame] at h
  obtain ⟨_, _, hget, h⟩ := bind_ok.1 h
  cases hget
  obtain ⟨c, hc, h⟩ := outcome_bind_ok.1 h
  obtain ⟨old, hold, h⟩ := need_bind_ok.1 h
  obtain ⟨rates, hrates, h⟩ := need_bind_ok.1 h
  obtain ⟨bhp, hbhp, h⟩ := outcome_bind_ok.1 h
  obtain ⟨_, s₁, hput, h⟩ := bind_ok.1 h
  obtain ⟨hplace, rfl⟩ := Slot.putBhp_ok.1 hput
  obtain ⟨_, s₂, hput, h⟩ := bind_ok.1 h
  obtain ⟨-, rfl⟩ := Slot.putUnknowns_ok.1 hput
  obtain ⟨_, s₃, hput, h⟩ := bind_ok.1 h
  obtain ⟨-, rfl⟩ := Slot.putRates_ok.1 hput
  exact ⟨c, _, hc, ⟨old, rates, bhp, hold, hrates, hplace, hbhp, rfl⟩, h⟩

/-- The unknowns and rates that a Newton step leaves belong to the current control. -/
theorem stepped_of_applyUpdate {dx : Vec3 α} (h : u.applyUpdate setup dx s = (.ok ⟨⟩, t)) :
    ∃ c old rates, t.currentControl u.well = .ok c ∧ t.unknowns = some (steppedUnknowns setup c old dx) ∧
      t.rates = some (u.steppedRates setup c old dx rates) := by
  obtain ⟨c, x, hc, ⟨old, rates, bhp, -, -, -, -, rfl⟩, hthp⟩ := applyUpdate_ok h
  rw [updateThp_frame hthp]
  exact ⟨c, old, rates, hc, rfl, rfl⟩

end WellUnit

/-! ### Steps of all wells -/

namespace FlowState

/-- Whether two states of as many wells differ at most in pressures, rates and unknowns of the wells. -/
structure MovesOnly (s t : FlowState α) : Prop where
  length_bhp : t.bhp.length = s.bhp.length
  control : t.control = s.control
  connectionPressure : t.connectionPressure = s.connectionPressure
  connectionRates : t.connectionRates = s.connectionRates
  potentials : t.potentials = s.potentials
  revision : t.revision = s.revision

/-- What Newton steps for the first wells make of a state: each of these wells takes its step, and nothing else
changes. -/
structure SteppedTo (setup : Setup α) (steps : List (WellUnit α × Vec3 α)) (s t : FlowState α) : Prop where
  taken : ∀ (w : Nat) p, steps[w]? = some p → p.1.applyUpdate setup p.2 (s.slot w) = (.ok ⟨⟩, t.slot w)
  ahead : ∀ w, steps.length ≤ w → t.slot w = s.slot w
  moves : s.MovesOnly t
  kept : (∀ w < steps.length, t.slot w = s.slot w) → t = s

variable {setup : Setup α} {steps : List (WellUnit α × Vec3 α)} {s t : FlowState α}

omit [Scalar α] in
theorem MovesOnly.putSlot (h : s.MovesOnly t) {w : Nat} {x : Slot α} (hx : (t.slot w).Refilled x) :
    s.MovesOnly (t.putSlot w x) where
  length_bhp := by
    rw [← h.length_bhp]
    change (x.bhp.elim t.bhp (t.bhp.set w)).length = t.bhp.length
    cases x.bhp with
    | none => rfl
    | some b => exact List.length_set
  control := (control_putSlot hx.control).trans h.control
  connectionPressure := h.connectionPressure
  connectionRates := h.connectionRates
  potentials := h.potentials
  revision := h.revision

theorem steppedTo_of_forM
    (h : steps.zipIdx.forM (fun p => onSlot p.2 (p.1.1.applyUpdate setup p.1.2)) s = (.ok ⟨⟩, t)) :
    s.SteppedTo setup steps t := by
  -- the step of a well writes its own slot only, so that no later one undoes what it has left
  have hall := forM_places (g := fun w x => x.slot w)
    (C := fun n u => (∀ w, n ≤ w → u.slot w = s.slot w) ∧ s.MovesOnly u ∧ ((∀ w < n, u.slot w = s.slot w) → u = s))
    (R := fun _ p before after => p.1.1.applyUpdate setup p.1.2 before = (.ok ⟨⟩, after)) h
    ⟨fun _ _ => rfl, ⟨rfl, rfl, rfl, rfl, rfl, rfl⟩, fun _ => rfl⟩ ?_
  · obtain ⟨⟨hahead, hmoves, hkept⟩, hslots⟩ := hall
    rw [List.length_zipIdx] at hahead hkept
    refine ⟨fun w p hp => hslots w (p, w) ?_, hahead, hmoves, hkept⟩
    rw [List.getElem?_zipIdx, hp, Option.map_some, Nat.zero_add]
  intro i p x y hp hx hstep
  obtain ⟨hahead, hmoves, hkept⟩ := hx
  rw [List.getElem?_zipIdx, Option.map_eq_some_iff] at hp
  obtain ⟨⟨u, dx⟩, -, rfl⟩ := hp
  rw [Nat.zero_add] at hstep ⊢
  rw [run_onSlot] at hstep
  obtain ⟨ho, rfl⟩ := Prod.mk.inj hstep
  have hrefilled : (x.slot i).Refilled (u.applyUpdate setup dx (x.slot i)).2 := u.applyUpdate_refilled dx _
  have hself : (x.putSlot i (u.applyUpdate setup dx (x.slot i)).2).slot i = (u.applyUpdate setup dx (x.slot i)).2 :=
    slot_putSlot_self hrefilled
  have hothers (w : Nat) (hw : w ≠ i) :
      (x.putSlot i (u.applyUpdate setup dx (x.slot i)).2).slot w = x.slot w :=
    slot_putSlot_of_ne _ (fun hiw => hw hiw.symm) _
  refine ⟨⟨fun w hw => ?_, hmoves.putSlot hrefilled, fun hsame => ?_⟩, ?_, hothers⟩
  · rw [hothers w (by omega)]
    exact hahead w (by omega)
  · have hx : x = s := by
      refine hkept fun w hw => ?_
      rw [← hothers w (by omega)]
      exact hsame w (by omega)
    have hi := hsame i (Nat.lt_succ_self i)
    rw [hself] at hi
    subst hx
    rw [hi]
    exact putSlot_slot x i
  · rw [hself]
    exact Prod.ext ho rfl

end FlowState

namespace Model

variable {m : Model α} {updates : List (Vec3 α)} {f f' : FlowState α}

/-- Newton steps for all wells that succeed, and the count of the change. -/
theorem applyUpdates_ok (h : m.applyUpdates updates f = (.ok ⟨⟩, f')) :
    m.checkState f = .ok ⟨⟩ ∧ updates.length = m.units.length ∧
      ∃ g, f.SteppedTo m.setup (m.units.zip updates) g ∧ f' = { g with revision := g.revision + 1 } := by
  unfold applyUpdates at h
  rw [run_get_bind] at h
  obtain ⟨_, hcheck, h⟩ := outcome_bind_ok.1 h
  obtain ⟨f₀, hlength, h⟩ := when_ok h
  split at hlength
  · cases hlength
  next hn =>
  have hlen : updates.length = m.units.length := by
    by_contra hne
    exact hn (bne_iff_ne.2 hne)
  rw [hlength] at h
  obtain ⟨_, g, hloop, h⟩ := bind_ok.1 h
  cases h
  exact ⟨hcheck, hlen, g, FlowState.steppedTo_of_forM hloop, rfl⟩

/-- Newton steps for all wells that succeed are a step of each well on its own slot. -/
theorem applyUpdates_slot (h : m.applyUpdates updates f = (.ok ⟨⟩, f')) {w : Nat} {u : WellUnit α}
    (hu : m.units[w]? = some u) :
    ∃ dx, updates[w]? = some dx ∧ u.applyUpdate m.setup dx (f.slot w) = (.ok ⟨⟩, f'.slot w) := by
  obtain ⟨-, hlen, g, hg, rfl⟩ := applyUpdates_ok h
  have hlt : w < updates.length := by
    rw [hlen]
    exact (List.getElem?_eq_some_iff.1 hu).1
  have hdx : updates[w]? = some updates[w] := List.getElem?_eq_getElem hlt
  exact ⟨updates[w], hdx, hg.taken w (u, updates[w]) (List.getElem?_zip_eq_some.2 ⟨hu, hdx⟩)⟩

end Model

namespace Session

omit [Scalar α] in
private theorem onFlow_ok {β : Type} {act : Attempt α (FlowState α) β} {s t : Session α γ} {b : β} :
    onFlow act s = (.ok b, t) ↔ ∃ f, act s.flow = (.ok b, f) ∧ t = { s with flow := f } := by
  rw [run_onFlow]
  constructor
  · intro h
    obtain ⟨ho, rfl⟩ := Prod.mk.inj h
    exact ⟨_, Prod.ext ho rfl, rfl⟩
  · rintro ⟨f, hf, rfl⟩
    rw [hf]

theorem applyUpdates_ok {updates : List (Vec3 α)} {s t : Session α γ} : applyUpdates updates s = (.ok ⟨⟩, t) ↔
    ∃ f, s.model.applyUpdates updates s.flow = (.ok ⟨⟩, f) ∧ t = { s with flow := f } := by
  unfold applyUpdates
  rw [run_get_bind]
  exact onFlow_ok

/-- After Newton steps that succeed the model can take the unknowns.  Then each of its wells has those that its step has
left, and the rates in its slot are those that the step has left with them. -/
theorem takeUnknowns_of_updates {updates : List (Vec3 α)} {s t : Session α γ}
    (h : applyUpdates updates s = (.ok ⟨⟩, t)) : ∃ t', takeUnknowns t = (.ok ⟨⟩, t') ∧ t'.flow = t.flow ∧
      ∀ (w : Nat) u', t'.model.units[w]? = some u' → ∃ (u : WellUnit α) (c : Control α) (old : Unknowns α)
        (dx : Vec3 α) (rates : PerPhase α),
        u' = u.stepped t'.model.setup c old dx ∧
        (t'.flow.slot w).currentControl u.well = .ok c ∧
        (t'.flow.slot w).rates = some (u.steppedRates t'.model.setup c old dx rates) := by
  obtain ⟨f, hf, rfl⟩ := applyUpdates_ok.1 h
  have hstep (w : Nat) (u : WellUnit α) (hu : s.model.units[w]? = some u) : ∃ (c : Control α) (old : Unknowns α)
      (dx : Vec3 α) (rates : PerPhase α), (f.slot w).currentControl u.well = .ok c ∧
        (f.slot w).rates = some (u.steppedRates s.model.setup c old dx rates) ∧
        u.setUnknowns (f.slot w) = .ok (u.stepped s.model.setup c old dx) := by
    obtain ⟨dx, -, hrun⟩ := Model.applyUpdates_slot hf hu
    obtain ⟨c, old, rates, hc, hunknowns, hrates⟩ := WellUnit.stepped_of_applyUpdate hrun
    exact ⟨c, old, dx, rates, hc, hrates, Outcome.bind_ok.2 ⟨_, Outcome.need_ok.2 hunknowns, rfl⟩⟩
  obtain ⟨units, hunits⟩ : ∃ units,
      s.model.units.zipIdx.mapM (fun p => p.1.setUnknowns (f.slot p.2)) = .ok units := by
    cases hunits : s.model.units.zipIdx.mapM fun p => p.1.setUnknowns (f.slot p.2) with
    | ok units => exact ⟨units, rfl⟩
    | error e =>
      obtain ⟨i, p, hp, herror⟩ := Outcome.exists_error hunits
      obtain ⟨c, old, dx, rates, -, -, htake⟩ := hstep p.2 p.1 (List.mem_zipIdx_iff_getElem?.1 (List.mem_of_getElem? hp))
      cases htake.symm.trans herror
  have hm : s.model.setUnknowns f = .ok { s.model with units := units } := Model.setUnknowns_ok.2 ⟨rfl, hunits⟩
  obtain ⟨hlength, hunits⟩ := Outcome.mapM_zipIdx.1 hunits
  refine ⟨_, takeUnknowns_ok.2 ⟨_, hm, rfl⟩, rfl, fun w u' hu' => ?_⟩
  obtain ⟨hw', rfl⟩ := List.getElem?_eq_some_iff.1 hu'
  have hw : w < s.model.units.length := hlength ▸ hw'
  obtain ⟨c, old, dx, rates, hc, hrates, htake⟩ := hstep w _ (List.getElem?_eq_getElem hw)
  exact ⟨_, c, old, dx, rates, Except.ok.inj ((hunits w hw hw').symm.trans htake), hc, hrates⟩

end Session

end BlackOilWells
