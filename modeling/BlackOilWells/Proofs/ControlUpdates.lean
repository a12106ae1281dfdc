import BlackOilWells.Proofs.Sessions
import BlackOilWells.Proofs.Slots

/-!
# The course of a switch of controls

What each part of a switch has done if the switch succeeds.  The group learns the voidage and takes over injectors
(`Session.replaceVoidage_ok`); every well is put on its next control (`Session.putControls_ok`), which a look at its
slot has found (`Well.nextControl_ok`); the group assigns its targets (`Session.takeTargets_ok`); and the state of the
wells that have switched moves (`Session.followSwitches_ok`).  Up to the last part nothing but the indices of the
controls changes in the flow state.  `Session.updateControls_ok` puts the parts in order.
-/

namespace BlackOilWells

open Attempt

variable {α γ : Type} [Scalar α]

/-- The control that a well is to be on, and whether it is the one of its group. -/
theorem Well.nextControl_ok {w : Well α} {s : Slot α} {g : Option Nat} {i : Nat} {b : Bool}
    (h : w.nextControl s g = .ok (i, b)) :
    b = decide (g = some i) ∧ ∃ current, s.control = some current ∧ (g = some current → i = current) := by
  obtain ⟨current, hcurrent, h⟩ := Outcome.bind_ok.1 h
  rw [Outcome.need_ok] at hcurrent
  by_cases hg : g = some current
  · rw [if_pos hg] at h
    cases h
    exact ⟨(decide_eq_true hg).symm, _, hcurrent, fun _ => rfl⟩
  · rw [if_neg hg] at h
    obtain ⟨broken, -, h⟩ := Outcome.bind_ok.1 h
    cases broken with
    | none =>
      cases h
      exact ⟨(decide_eq_false hg).symm, _, hcurrent, fun _ => rfl⟩
    | some j =>
      cases h
      exact ⟨rfl, _, hcurrent, fun hc => absurd hc hg⟩

/-- The controls that a group takes over from a well at this moment. -/
def GroupControl.takenOver? [GroupControl α γ] (groups : γ) (w : Well α) : Option Nat :=
  if w.isInjector && !isIndividual groups w.name then controlIndex groups w.name else none

theorem Model.moveToTarget_ok {m : Model α} {w : Nat} {f f' : FlowState α} : m.moveToTarget w f = (.ok ⟨⟩, f') ↔
    ∃ u x, m.units[w]? = some u ∧ u.moveToTarget m.setup (f.slot w) = (.ok ⟨⟩, x) ∧ f' = f.putSlot w x := by
  unfold moveToTarget
  rw [outcome_bind_ok]
  constructor
  · rintro ⟨u, hu, h⟩
    rw [FlowState.run_onSlot] at h
    obtain ⟨ho, rfl⟩ := Prod.mk.inj h
    exact ⟨u, _, getElem?_of_unit hu, Prod.ext ho rfl, rfl⟩
  · rintro ⟨u, x, hu, hx, rfl⟩
    refine ⟨u, by rw [unit, hu], ?_⟩
    rw [FlowState.run_onSlot, hx]

namespace Session

/-- The session with other indices of the current controls and other groups. -/
def reassign (s : Session α γ) (control : List Nat) (groups : γ) : Session α γ :=
  { s with flow := { s.flow with control := control }, groups := groups }

omit [Scalar α] in
private theorem putControl_flow_ok {w i : Nat} {s t : Session α γ} :
    onFlow (FlowState.onSlot w (Slot.putControl i)) s = (.ok ⟨⟩, t) ↔
      w < s.flow.control.length ∧ t = s.reassign (s.flow.control.set w i) s.groups := by
  rw [run_onFlow, FlowState.run_putControl]
  by_cases hw : w < s.flow.control.length
  · rw [if_pos hw]
    constructor
    · intro h
      cases h
      exact ⟨hw, rfl⟩
    · rintro ⟨-, rfl⟩
      rfl
  · rw [if_neg hw]
    constructor
    · intro h
      cases h
    · intro h
      exact absurd h.1 hw

variable [GroupControl α γ]

/-! ### Injectors under their group -/

omit [Scalar α] in
private theorem followGroup_ok {u : WellUnit α} {w : Nat} {s t : Session α γ} (h : followGroup u w s = (.ok ⟨⟩, t)) :
    match GroupControl.takenOver? s.groups u.well with
    | some i => w < s.flow.control.length ∧ t = s.reassign (s.flow.control.set w i) s.groups
    | none => t = s := by
  unfold followGroup at h
  rw [run_get_bind] at h
  unfold GroupControl.takenOver?
  by_cases hc : (u.well.isInjector && !GroupControl.isIndividual s.groups u.well.name) = true
  · rw [if_pos hc] at h ⊢
    cases hi : GroupControl.controlIndex s.groups u.well.name with
    | none =>
      rw [hi] at h
      cases h
      rfl
    | some i =>
      rw [hi] at h
      obtain ⟨c, -, h⟩ := outcome_bind_ok.1 h
      exact putControl_flow_ok.1 h
  · rw [if_neg hc] at h ⊢
    cases h
    rfl

omit [Scalar α] in
private theorem followGroups_ok {units : List (WellUnit α)} {s t : Session α γ}
    (h : (units.zipIdx.forM fun p => followGroup p.1 p.2 : Step Id α γ PUnit) s = (.ok ⟨⟩, t)) :
    t = s.reassign t.flow.control s.groups ∧ ∀ (w : Nat) u, units[w]? = some u →
      t.flow.control[w]? = (GroupControl.takenOver? s.groups u.well).or s.flow.control[w]? := by
  have hall := forM_places (g := fun w u => u.flow.control[w]?) (C := fun _ u => u = s.reassign u.flow.control s.groups)
    (R := fun _ p before after => after = (GroupControl.takenOver? s.groups p.1.well).or before) h rfl ?_
  · refine ⟨hall.1, fun w u hu => hall.2 w (u, w) ?_⟩
    rw [List.getElem?_zipIdx, hu, Option.map_some, Nat.zero_add]
  intro i p u v hp hframe hstep
  rw [List.getElem?_zipIdx, Option.map_eq_some_iff] at hp
  obtain ⟨x, -, rfl⟩ := hp
  rw [Nat.zero_add] at hstep ⊢
  have hgroups : u.groups = s.groups := by rw [hframe]; rfl
  have hfollow := followGroup_ok hstep
  rw [hgroups] at hfollow
  cases htaken : GroupControl.takenOver? s.groups x.well with
  | none =>
    rw [htaken] at hfollow
    dsimp only at hfollow
    subst hfollow
    exact ⟨hframe, Option.none_or.symm, fun _ _ => rfl⟩
  | some j =>
    rw [htaken] at hfollow
    obtain ⟨hlt, rfl⟩ := hfollow
    refine ⟨by rw [hframe]; rfl, ?_, fun w hw => List.getElem?_set_ne fun hiw => hw hiw.symm⟩
    rw [Option.some_or]
    exact List.getElem?_set_self hlt

/-- What the group has done once it has learnt the voidage: the wells that it takes over are on its control. -/
theorem replaceVoidage_ok {cells : List (Cell α)} {s t : Session α γ} (h : replaceVoidage cells s = (.ok ⟨⟩, t)) :
    ∃ vs, s.model.voidage cells s.flow = .ok vs ∧
      t = s.reassign t.flow.control (GroupControl.takeVoidage s.groups vs.unzip.1 vs.unzip.2) ∧
      ∀ (w : Nat) u, s.model.units[w]? = some u →
        t.flow.control[w]? = (GroupControl.takenOver? t.groups u.well).or s.flow.control[w]? := by
  unfold replaceVoidage at h
  rw [run_get_bind] at h
  obtain ⟨vs, hv, h⟩ := outcome_bind_ok.1 h
  have hloop : (s.model.units.zipIdx.forM fun p => followGroup p.1 p.2 : Step Id α γ PUnit)
    { s with groups := GroupControl.takeVoidage s.groups vs.unzip.1 vs.unzip.2 } = (.ok ⟨⟩, t) := h
  obtain ⟨hframe, hcontrol⟩ := followGroups_ok hloop
  refine ⟨vs, hv, hframe, fun w u hu => ?_⟩
  have hgroups : t.groups = GroupControl.takeVoidage s.groups vs.unzip.1 vs.unzip.2 := by rw [hframe]; rfl
  rw [hcontrol w u hu, hgroups]

/-! ### The next controls -/

omit [Scalar α] in
private theorem putControl_ok {active : Bool} {name : String} {w : Nat} {next : Nat × Bool} {s t : Session α γ}
    (h : putControl active name w next s = (.ok ⟨⟩, t)) : w < s.flow.control.length ∧
      t = s.reassign (s.flow.control.set w next.1)
        (if active then GroupControl.setIndividual s.groups name !next.2 else s.groups) := by
  obtain ⟨_, u, hput, h⟩ := bind_ok.1 h
  obtain ⟨hlt, rfl⟩ := putControl_flow_ok.1 hput
  refine ⟨hlt, ?_⟩
  cases active with
  | false =>
    cases h
    rfl
  | true =>
    cases h
    rfl

omit [Scalar α] in
/-- Once all wells are on their next controls, nothing else has changed but the groups.  What holds of the groups
before a well is put on its control, and is passed on, holds after all of them. -/
theorem putControls_ok {active : Bool} {units : List (WellUnit α)} {next : List (Nat × Bool)} {s t : Session α γ}
    {G : Nat → γ → Prop}
    (h : ((units.zip next).zipIdx.forM fun ((u, next), w) => putControl active u.well.name w next :
      Step Id α γ PUnit) s = (.ok ⟨⟩, t))
    (hlength : units.length = next.length) (h0 : G 0 s.groups)
    (hG : ∀ (w : Nat) u n g, units[w]? = some u → next[w]? = some n → G w g →
      G (w + 1) (if active then GroupControl.setIndividual g u.well.name !n.2 else g)) :
    t = s.reassign t.flow.control t.groups ∧ G units.length t.groups ∧
      ∀ (w : Nat) n, next[w]? = some n → t.flow.control[w]? = some n.1 := by
  have hall := forM_places (g := fun w u => u.flow.control[w]?)
    (C := fun k u => u = s.reassign u.flow.control u.groups ∧ G k u.groups) (R := fun _ p _ after => after = some p.1.2.1)
    h ⟨rfl, h0⟩ ?_
  · have hn : (units.zip next).zipIdx.length = units.length := by
      rw [List.length_zipIdx, List.length_zip, ← hlength, Nat.min_self]
    obtain ⟨⟨hframe, hg⟩, hcontrol⟩ := hall
    refine ⟨hframe, hn ▸ hg, fun w n hw => ?_⟩
    have hlt : w < units.length := by
      rw [hlength]
      exact (List.getElem?_eq_some_iff.1 hw).1
    have hpair : (units.zip next)[w]? = some (units[w], n) :=
      List.getElem?_zip_eq_some.2 ⟨List.getElem?_eq_getElem hlt, hw⟩
    refine hcontrol w ((units[w], n), w) ?_
    rw [List.getElem?_zipIdx, hpair, Option.map_some, Nat.zero_add]
  rintro i p u v hp ⟨hframe, hg⟩ hstep
  rw [List.getElem?_zipIdx, Option.map_eq_some_iff] at hp
  obtain ⟨⟨x, n⟩, hx, rfl⟩ := hp
  obtain ⟨hunit, hnext⟩ := List.getElem?_zip_eq_some.1 hx
  rw [Nat.zero_add] at hstep ⊢
  obtain ⟨hlt, rfl⟩ := putControl_ok hstep
  refine ⟨⟨by rw [hframe]; rfl, hG i x n u.groups hunit hnext hg⟩, List.getElem?_set_self hlt, fun w hw => ?_⟩
  exact List.getElem?_set_ne fun hiw => hw hiw.symm

/-! ### The targets of the group -/

omit [Scalar α] [GroupControl α γ] in
theorem takeTarget_ok {a : AssignedTarget α} {s t : Session α γ} (h : takeTarget a s = (.ok ⟨⟩, t)) :
    ∃ w m, s.model.wells.indexOf? a.well = some w ∧ s.model.setTarget w a.control a.target = .ok m ∧
      t = { s with model := m } := by
  unfold takeTarget at h
  rw [run_get_bind] at h
  cases hw : s.model.wells.indexOf? a.well with
  | none =>
    rw [hw] at h
    cases h
  | some w =>
    rw [hw] at h
    obtain ⟨m, hm, h⟩ := outcome_bind_ok.1 h
    cases h
    exact ⟨w, m, rfl, hm, rfl⟩

omit [Scalar α] [GroupControl α γ] in
/-- Targets change nothing but the model. -/
private theorem takeTarget_frame {as : List (AssignedTarget α)} {s t : Session α γ}
    (h : (as.forM takeTarget : Step Id α γ PUnit) s = (.ok ⟨⟩, t)) : t = { s with model := t.model } := by
  refine forM_ok (I := fun _ u => u = { s with model := u.model }) h rfl ?_
  intro i a u v _ hu hstep
  obtain ⟨w, m, -, -, rfl⟩ := takeTarget_ok hstep
  rw [hu]

omit [Scalar α] in
theorem takeTargets_ok {s t : Session α γ} (h : takeTargets s = (.ok ⟨⟩, t)) :
    (((GroupControl.distribute s.groups s.flow.rates).1.forM takeTarget : Step Id α γ PUnit)
      { s with groups := (GroupControl.distribute s.groups s.flow.rates).2 } = (.ok ⟨⟩, t)) ∧
    t = { s with groups := (GroupControl.distribute s.groups s.flow.rates).2, model := t.model } :=
  ⟨h, takeTarget_frame h⟩

/-! ### Wells that have switched -/

omit [GroupControl α γ] in
theorem followSwitch_ok {previous : List Nat} {w : Nat} {s t : Session α γ}
    (h : followSwitch previous w s = (.ok ⟨⟩, t)) :
    (∃ i, previous[w]? = some i ∧ s.flow.control[w]? = some i ∧ t = s) ∨
      ∃ i j u old new f, previous[w]? = some i ∧ s.flow.control[w]? = some j ∧ i ≠ j ∧ s.model.units[w]? = some u ∧
        u.well.controls.list[i]? = some old ∧ u.well.controls.list[j]? = some new ∧
        s.model.moveToTarget w s.flow = (.ok ⟨⟩, f) ∧
        t = { s with flow := f, notices := s.notices ++ [.switched u.well.name old.kind new.kind] } := by
  unfold followSwitch at h
  rw [run_get_bind] at h
  obtain ⟨i, hi, h⟩ := need_bind_ok.1 h
  obtain ⟨j, hj, h⟩ := need_bind_ok.1 h
  by_cases hne : i = j
  · rw [if_neg (not_not_intro hne)] at h
    cases h
    exact .inl ⟨i, hi, hne ▸ hj, rfl⟩
  · rw [if_pos hne] at h
    obtain ⟨u, hu, h⟩ := outcome_bind_ok.1 h
    obtain ⟨old, hold, h⟩ := outcome_bind_ok.1 h
    obtain ⟨new, hnew, h⟩ := outcome_bind_ok.1 h
    obtain ⟨_, v, hnote, hmove⟩ := bind_ok.1 h
    cases hnote
    rw [run_onFlow] at hmove
    obtain ⟨hrun, rfl⟩ := Prod.mk.inj hmove
    exact .inr ⟨i, j, u, old, new, _, hi, hj, hne, Model.getElem?_of_unit hu, Controls.getElem?_of_get hold,
      Controls.getElem?_of_get hnew, Prod.ext hrun rfl, rfl⟩

omit [GroupControl α γ] in
/-- Once the state has followed the switches, a well with another control than before has been moved to its target, and
any other well is where it was. -/
theorem followSwitches_ok {previous : List Nat} {n : Nat} {s t : Session α γ}
    (h : ((List.range n).forM (followSwitch previous) : Step Id α γ PUnit) s = (.ok ⟨⟩, t)) :
    t.model = s.model ∧ t.groups = s.groups ∧ t.flow.control = s.flow.control ∧ ∀ w < n,
      (previous[w]? = s.flow.control[w]? ∧ t.flow.slot w = s.flow.slot w) ∨
      (previous[w]? ≠ s.flow.control[w]? ∧ ∃ u, s.model.units[w]? = some u ∧
        u.moveToTarget s.model.setup (s.flow.slot w) = (.ok ⟨⟩, t.flow.slot w)) := by
  have hall := forM_places (g := fun w u => u.flow.slot w)
    (C := fun _ u => u.model = s.model ∧ u.groups = s.groups ∧ u.flow.control = s.flow.control)
    (R := fun _ w before after => (previous[w]? = s.flow.control[w]? ∧ after = before) ∨
      (previous[w]? ≠ s.flow.control[w]? ∧ ∃ u, s.model.units[w]? = some u ∧
        u.moveToTarget s.model.setup before = (.ok ⟨⟩, after))) h ⟨rfl, rfl, rfl⟩ ?_
  · obtain ⟨⟨hmodel, hgroups, hcontrol⟩, hslots⟩ := hall
    exact ⟨hmodel, hgroups, hcontrol, fun w hw => hslots w w (List.getElem?_range hw)⟩
  rintro i j u v hj ⟨hmodel, hgroups, hcontrol⟩ hstep
  obtain ⟨hi, rfl⟩ := List.getElem?_eq_some_iff.1 hj
  rw [List.getElem_range] at hstep ⊢
  rw [← hcontrol]
  rcases followSwitch_ok hstep with ⟨k, hbefore, hafter, rfl⟩ |
    ⟨before, after, -, -, -, f, hbefore, hafter, hne, -, -, -, hmove, rfl⟩
  · exact ⟨⟨hmodel, hgroups, rfl⟩, .inl ⟨hbefore.trans hafter.symm, rfl⟩, fun _ _ => rfl⟩
  have hswitched : previous[i]? ≠ u.flow.control[i]? := by
    rw [hbefore, hafter]
    exact fun heq => hne (Option.some.inj heq)
  obtain ⟨x, y, hx, hy, rfl⟩ := Model.moveToTarget_ok.1 hmove
  rw [hmodel] at hx hy
  have hrefilled : (u.flow.slot i).Refilled y := by
    have hr : (u.flow.slot i).Refilled (x.moveToTarget s.model.setup (u.flow.slot i)).2 :=
      WellUnit.moveToTarget_refilled _
    rwa [hy] at hr
  refine ⟨⟨hmodel, hgroups, FlowState.control_putSlot hrefilled.control⟩, .inr ⟨hswitched, x, hx, ?_⟩, fun w hw => ?_⟩
  · rw [hy]
    exact congrArg _ (FlowState.slot_putSlot_self hrefilled).symm
  · exact FlowState.slot_putSlot_of_ne _ (fun hiw => hw hiw.symm) _

/-! ### The whole course -/

/-- A switch of controls that succeeds: the sessions that its parts leave, and the controls that the wells are put on. -/
structure Course (cells : List (Cell α)) (s led put assigned followed t : Session α γ) (next : List (Nat × Bool)) :
    Prop where
  lead : if GroupControl.isActive s.groups && GroupControl.replacesVoidage s.groups then
    replaceVoidage cells s = (.ok ⟨⟩, led) else led = s
  length_next : s.model.units.length = next.length
  choose : ∀ (w : Nat) u n, s.model.units[w]? = some u → next[w]? = some n → u.well.nextControl (led.flow.slot w)
    (if GroupControl.isActive s.groups then GroupControl.controlIndex led.groups u.well.name else none) = .ok n
  place : ((s.model.units.zip next).zipIdx.forM fun ((u, next), w) =>
    putControl (GroupControl.isActive s.groups) u.well.name w next : Step Id α γ PUnit) led = (.ok ⟨⟩, put)
  assign : if GroupControl.isActive s.groups then takeTargets put = (.ok ⟨⟩, assigned) else assigned = put
  follow : ((List.range s.model.units.length).forM (followSwitch s.flow.control) : Step Id α γ PUnit) assigned =
    (.ok ⟨⟩, followed)
  count : t = { followed with flow := { followed.flow with revision := followed.flow.revision + 1 } }

theorem updateControls_ok {cells : List (Cell α)} {s t : Session α γ} (h : updateControls cells s = (.ok ⟨⟩, t)) :
    ∃ led put assigned followed next, Course cells s led put assigned followed t next := by
  unfold updateControls at h
  rw [run_get_bind] at h
  obtain ⟨_, -, h⟩ := outcome_bind_ok.1 h
  obtain ⟨led, hled, h⟩ := when_ok h
  obtain ⟨_, _, hget, h⟩ := bind_ok.1 h
  cases hget
  obtain ⟨next, _, hchoose, h⟩ := bind_ok.1 h
  obtain ⟨hnext, rfl⟩ := Prod.mk.inj ((run_mapM_outcome _ _ _).symm.trans hchoose)
  obtain ⟨_, put, hput, h⟩ := bind_ok.1 h
  obtain ⟨assigned, hassigned, h⟩ := when_ok h
  obtain ⟨_, followed, hfollowed, h⟩ := bind_ok.1 h
  cases h
  obtain ⟨hlength, hall⟩ := Outcome.mapM_zipIdx.1 hnext
  refine ⟨led, put, assigned, followed, next, hled, hlength, fun w u n hu hn => ?_, hput, hassigned, hfollowed, rfl⟩
  obtain ⟨hw, rfl⟩ := List.getElem?_eq_some_iff.1 hu
  obtain ⟨hw', rfl⟩ := List.getElem?_eq_some_iff.1 hn
  exact hall w hw hw'

namespace Course

variable {cells : List (Cell α)} {s led put assigned followed t : Session α γ} {next : List (Nat × Bool)}
  (h : Course cells s led put assigned followed t next)

include h

theorem led_eq : led = s.reassign led.flow.control led.groups := by
  have hlead := h.lead
  split at hlead
  · obtain ⟨vs, -, hframe, -⟩ := replaceVoidage_ok hlead
    rw [hframe]
    rfl
  · rw [hlead]
    rfl

theorem put_eq : put = led.reassign put.flow.control put.groups :=
  (putControls_ok (G := fun _ _ => True) h.place h.length_next trivial fun _ _ _ _ _ _ _ => trivial).1

theorem assigned_eq : assigned = { put with groups := assigned.groups, model := assigned.model } := by
  have hassign := h.assign
  split at hassign
  · obtain ⟨-, hframe⟩ := takeTargets_ok hassign
    rw [hframe]
  · rw [hassign]

theorem model_eq : t.model = assigned.model := by
  rw [h.count]
  exact (followSwitches_ok h.follow).1

theorem groups_eq : t.groups = assigned.groups := by
  rw [h.count]
  exact (followSwitches_ok h.follow).2.1

theorem control_eq : t.flow.control = put.flow.control := by
  rw [h.count]
  have hcontrol := (followSwitches_ok h.follow).2.2.1
  rw [h.assigned_eq] at hcontrol
  exact hcontrol

/-- Every well ends on its next control. -/
theorem getElem?_control {w : Nat} {n : Nat × Bool} (hn : next[w]? = some n) : t.flow.control[w]? = some n.1 := by
  rw [h.control_eq]
  exact (putControls_ok (G := fun _ _ => True) h.place h.length_next trivial fun _ _ _ _ _ _ _ => trivial).2.2 w n hn

/-- A well has moved if it is on another control than before, and otherwise it is where it was. -/
theorem slot {w : Nat} (hw : w < s.model.units.length) :
    (t.flow.control[w]? = s.flow.control[w]? ∧ t.flow.slot w = s.flow.slot w) ∨
      (t.flow.control[w]? ≠ s.flow.control[w]? ∧ ∃ u, t.model.units[w]? = some u ∧
        u.moveToTarget t.model.setup { s.flow.slot w with control := t.flow.control[w]? } =
          (.ok ⟨⟩, t.flow.slot w)) := by
  obtain ⟨hmodel, -, hcontrol, hall⟩ := followSwitches_ok h.follow
  have hslot : assigned.flow.slot w = { s.flow.slot w with control := t.flow.control[w]? } := by
    rw [h.assigned_eq, h.put_eq, h.led_eq, h.control_eq]
    rfl
  have hassigned : assigned.flow.control = t.flow.control := by
    rw [h.assigned_eq, h.control_eq]
  have hfollowed : followed.flow.slot w = t.flow.slot w := by
    rw [h.count]
    rfl
  rcases hall w hw with ⟨hsame, hx⟩ | ⟨hne, u, hu, hx⟩
  · left
    rw [hassigned] at hsame
    rw [hfollowed, hslot, ← hsame] at hx
    exact ⟨hsame.symm, hx⟩
  · right
    rw [hassigned] at hne
    rw [hfollowed, hslot] at hx
    rw [h.model_eq]
    exact ⟨fun he => hne he.symm, u, hu, hx⟩

end Course

end Session

end BlackOilWells
