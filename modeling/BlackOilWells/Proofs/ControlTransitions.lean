import BlackOilWells.Proofs.Consistency
import BlackOilWells.Proofs.Rollback
import BlackOilWells.Proofs.Settling
import BlackOilWells.Report.Log

/-!
# The transition of a switch of controls

A switch of controls passes over the wells five times, and what it makes of a session is the outcome of all passes
together (`Session.Transition`).  Each well is scanned from the control on which its group has left it.  A well under its
group stays there, and every other well follows its scan (`Well.ScansTo`), which looks at the pressures, rates and
targets from before the switch.  Only the wells that end on another control than before move, and each of them is
reported once (`Session.updateControls_transition`).
-/

namespace BlackOilWells

open Attempt

variable {α γ : Type} [Scalar α]

/-! ### Scans -/

/-- Where the scan of a well leads from a control: to the first other one that the slot violates, and without such a
violation nowhere else. -/
inductive Well.ScansTo (w : Well α) (s : Slot α) (current : Nat) : Nat → Prop
  | switch {i c} : i ≠ current → w.controls.list[i]? = some c → c.IsViolated w.type s →
      (∀ (j : Nat) d, j < i → j ≠ current → w.controls.list[j]? = some d → d.IsMet w.type s) → ScansTo w s current i
  | stay : (∀ (j : Nat) d, j ≠ current → w.controls.list[j]? = some d → d.IsMet w.type s) → ScansTo w s current current

private theorem Well.scansTo_of_scan {w : Well α} {s : Slot α} {current i : Nat}
    (h : (w.scan s current = .ok none ∧ i = current) ∨ w.scan s current = .ok (some i)) : w.ScansTo s current i := by
  rcases h with ⟨hnone, rfl⟩ | hsome
  · exact .stay fun j d hne hd => Well.isMet_of_scan hnone hd hne
  · obtain ⟨hne, ⟨c, hc, hviolated⟩, hbefore⟩ := Well.firstViolated_of_scan hsome
    exact .switch hne hc hviolated hbefore

/-- A scan does not look at the control in the slot. -/
private theorem Well.ScansTo.of_control {w : Well α} {s : Slot α} {c : Option Nat} {current i : Nat}
    (h : w.ScansTo { s with control := c } current i) : w.ScansTo s current i := by
  cases h with
  | switch hne hc hviolated hbefore => exact .switch hne hc hviolated hbefore
  | stay hmet => exact .stay hmet

/-! ### Reports -/

/-- The level at which a notice is logged. -/
def Notice.level : Notice α → LogLevel
  | .localSolveConverged _ | .localSolveFailed _ => .debug
  | .normHeading _ | .norms _ _ => .note
  | .threePhaseRate _ | .potentialLimit _ | .reservoirVolumeLimit | .ratioLimit _ | .waterCutWithoutConnection _ _
  | .endRun _ | .followOn => .warning
  | .switched _ _ _ | .wellShut _ | .wellStopped _ | .connectionClosed _ _ | .lastConnectionClosed _ => .info

/-- The level of a notice is that of the entry it makes in the log. -/
theorem Notice.level_entry (n : Notice Float) : n.entry.level = n.level := by
  cases n <;> rfl

/-- The constraints of a well without targets bound what those with targets do. -/
private theorem Well.getElem?_of_untargeted {w w' : Well α} (h : w'.untargeted = w.untargeted) {i : Nat}
    {c' : Control α}
    (hc' : w'.controls.list[i]? = some c') : ∃ c, w.controls.list[i]? = some c ∧ c.kind = c'.kind := by
  have hi : w'.untargeted.controls.list[i]? = some { c' with target := 0 } := by
    rw [untargeted, List.getElem?_map, hc', Option.map_some]
  rw [h, untargeted, List.getElem?_map, Option.map_eq_some_iff] at hi
  obtain ⟨c, hc, heq⟩ := hi
  exact ⟨c, hc, (congrArg Control.kind heq :)⟩

namespace Session

/-- Whether a notice reports, for information, that a well has changed between two lists of controls, by its name and the
kinds of its controls. -/
def Reports (m : Model α) (before after : List Nat) (w : Nat) (n : Notice α) : Prop :=
  ∃ u i j old new, m.units[w]? = some u ∧ before[w]? = some i ∧ after[w]? = some j ∧
    u.well.controls.list[i]? = some old ∧ u.well.controls.list[j]? = some new ∧
    n = .switched u.well.name old.kind new.kind ∧ n.level = .info

/-- The wells among the first ones on which two lists of controls differ, in order. -/
def changedWells (n : Nat) (before after : List Nat) : List Nat :=
  (List.range n).filter fun w => before[w]? != after[w]?

private theorem changedWells_succ_of_eq {n : Nat} {before after : List Nat} (h : before[n]? = after[n]?) :
    changedWells (n + 1) before after = changedWells n before after := by
  simp [changedWells, List.range_succ, h]

private theorem changedWells_succ_of_ne {n : Nat} {before after : List Nat} (h : before[n]? ≠ after[n]?) :
    changedWells (n + 1) before after = changedWells n before after ++ [n] := by
  simp [changedWells, List.range_succ, h]

private theorem Reports.of_untargeted {m m' : Model α} {before after : List Nat} {w : Nat} {n : Notice α}
    (hm : m'.wells.untargeted = m.wells.untargeted) (h : Reports m' before after w n) :
    Reports m before after w n := by
  obtain ⟨u', i, j, old', new', hu', hi, hj, hold', hnew', rfl, hlevel⟩ := h
  have hwell : m'.wells.untargeted[w]? = some u'.well.untargeted := by
    rw [Wells.untargeted, Model.wells, List.getElem?_map, List.getElem?_map, hu', Option.map_some, Option.map_some]
  rw [hm, Wells.untargeted, Model.wells, List.getElem?_map, List.getElem?_map, Option.map_eq_some_iff] at hwell
  obtain ⟨v, hv, huntargeted⟩ := hwell
  obtain ⟨u, hu, rfl⟩ := Option.map_eq_some_iff.1 hv
  obtain ⟨old, hold, hkind⟩ := Well.getElem?_of_untargeted huntargeted.symm hold'
  obtain ⟨new, hnew, hkind'⟩ := Well.getElem?_of_untargeted huntargeted.symm hnew'
  refine ⟨u, i, j, old, new, hu, hi, hj, hold, hnew, ?_, hlevel⟩
  rw [hkind, hkind', Well.name_of_untargeted huntargeted]

end Session

/-- Whether a flow state has the connections of another one. -/
structure FlowState.SameConnections (s t : FlowState α) : Prop where
  pressure : t.connectionPressure = s.connectionPressure
  rates : t.connectionRates = s.connectionRates
  potentials : t.potentials = s.potentials

omit [Scalar α] in
private theorem FlowState.SameConnections.trans {s₁ s₂ s₃ : FlowState α} (h : s₁.SameConnections s₂)
    (h' : s₂.SameConnections s₃) : s₁.SameConnections s₃ :=
  ⟨h'.pressure.trans h.pressure, h'.rates.trans h.rates, h'.potentials.trans h.potentials⟩

namespace Session

/-- What the pass that moves the wells which have changed has done once it has come to a place: it knew where the wells
up to there had been, and it has reported each of them that has changed once, in order.  The connections stay. -/
structure Followed (previous : List Nat) (n : Nat) (s t : Session α γ) : Prop where
  model : t.model = s.model
  control : t.flow.control = s.flow.control
  known : ∀ w < n, ∃ i, previous[w]? = some i
  connections : s.flow.SameConnections t.flow
  notices : ∃ ns, t.notices = s.notices ++ ns ∧
    List.Forall₂ (Reports s.model previous s.flow.control) (changedWells n previous s.flow.control) ns
  revision : t.flow.revision = s.flow.revision

private theorem Followed.step {previous : List Nat} {n : Nat} {s u v : Session α γ} (h : Followed previous n s u)
    (hstep : followSwitch previous n u = (.ok ⟨⟩, v)) : Followed previous (n + 1) s v := by
  obtain ⟨ns, hns, hreports⟩ := h.notices
  have hknown {i : Nat} (hi : previous[n]? = some i) : ∀ w < n + 1, ∃ i, previous[w]? = some i := by
    intro w hw
    rcases Nat.lt_succ_iff_lt_or_eq.1 hw with hlt | rfl
    · exact h.known w hlt
    · exact ⟨i, hi⟩
  rcases followSwitch_ok hstep with ⟨i, hi, hj, rfl⟩ | ⟨i, j, x, old, new, f, hi, hj, hne, hx, hold, hnew, hmove, rfl⟩
  · rw [h.control] at hj
    refine ⟨h.model, h.control, hknown hi, h.connections, ⟨ns, hns, ?_⟩, h.revision⟩
    rwa [changedWells_succ_of_eq (hi.trans hj.symm)]
  · obtain ⟨y, z, hy, hz, rfl⟩ := Model.moveToTarget_ok.1 hmove
    have hkept : z.control = u.flow.control[n]? := by
      have hrefilled : (u.flow.slot n).Refilled (y.moveToTarget u.model.setup (u.flow.slot n)).2 :=
        WellUnit.moveToTarget_refilled _
      rw [hz] at hrefilled
      exact hrefilled.control
    rw [h.control] at hj
    rw [h.model] at hx
    have hchanged : previous[n]? ≠ s.flow.control[n]? := by
      rw [hi, hj]
      exact fun heq => hne (Option.some.inj heq)
    refine ⟨h.model, (FlowState.control_putSlot hkept).trans h.control, hknown hi,
      ⟨h.connections.pressure, h.connections.rates, h.connections.potentials⟩,
      ⟨ns ++ [.switched x.well.name old.kind new.kind], ?_, ?_⟩, h.revision⟩
    · dsimp only
      rw [hns, List.append_assoc]
    · rw [changedWells_succ_of_ne hchanged]
      exact List.rel_append hreports (.cons ⟨x, i, j, old, new, hx, hi, hj, hold, hnew, rfl, rfl⟩ .nil)

private theorem followSwitches_followed {previous : List Nat} {n : Nat} {s t : Session α γ}
    (h : ((List.range n).forM (followSwitch previous) : Step Id α γ PUnit) s = (.ok ⟨⟩, t)) :
    Followed previous n s t := by
  have hall := forM_ok (I := fun k u => Followed previous k s u) h
    ⟨rfl, rfl, fun w hw => absurd hw (Nat.not_lt_zero w), ⟨rfl, rfl, rfl⟩, ⟨[], (List.append_nil _).symm, .nil⟩, rfl⟩ ?_
  · rwa [List.length_range] at hall
  intro k w u v hw hu hstep
  obtain ⟨hk, rfl⟩ := List.getElem?_eq_some_iff.1 hw
  rw [List.getElem_range] at hstep
  exact hu.step hstep

/-! ### The whole transition -/

variable [GroupControl α γ]

/-- The groups when the wells are scanned: they have learnt the voidage if they are to replace it. -/
def scanningGroups (cells : List (Cell α)) (s : Session α γ) : Outcome α γ :=
  if GroupControl.isActive s.groups && GroupControl.replacesVoidage s.groups then do
    let (voidage, coefficients) := (← s.model.voidage cells s.flow).unzip
    return GroupControl.takeVoidage s.groups voidage coefficients
  else return s.groups

/-- The control from which a well is scanned under given groups: the one that they take over, or where it was. -/
def scannedFrom (s : Session α γ) (groups : γ) (w : Well α) (before : Nat) : Nat :=
  if GroupControl.isActive s.groups && GroupControl.replacesVoidage s.groups then
    (GroupControl.takenOver? groups w).getD before
  else before

/-- The control that given groups assign to a well in effect. -/
def assigned? (s : Session α γ) (groups : γ) (w : Well α) : Option Nat :=
  if GroupControl.isActive s.groups then GroupControl.controlIndex groups w.name else none

/-- What a switch of controls makes of a session, with the groups under which the wells are scanned. -/
structure Transition (groups : γ) (s t : Session α γ) : Prop where
  /-- A well under its group stays on the control of the group.  Any other one follows its scan. -/
  control : ∀ (w : Nat) u, s.model.units[w]? = some u → ∃ before after,
    s.flow.control[w]? = some before ∧ t.flow.control[w]? = some after ∧
    if s.assigned? groups u.well = some (s.scannedFrom groups u.well before) then
      after = s.scannedFrom groups u.well before
    else u.well.ScansTo (s.flow.slot w) (s.scannedFrom groups u.well before) after
  /-- A well that ends where it was keeps its state. -/
  kept : ∀ w < s.model.units.length, t.flow.control[w]? = s.flow.control[w]? → t.flow.slot w = s.flow.slot w
  connections : s.flow.SameConnections t.flow
  /-- Every well that ends elsewhere is reported once. -/
  notices : ∃ ns, t.notices = s.notices ++ ns ∧ List.Forall₂ (Reports s.model s.flow.control t.flow.control)
    (changedWells s.model.units.length s.flow.control t.flow.control) ns
  revision : t.flow.revision = s.flow.revision + 1

namespace Course

variable {cells : List (Cell α)} {s led put assigned followed t : Session α γ} {next : List (Nat × Bool)}
  (h : Course cells s led put assigned followed t next)

include h

private theorem scanningGroups_eq : s.scanningGroups cells = .ok led.groups := by
  have hlead := h.lead
  unfold scanningGroups
  split at hlead
  · rename_i hc
    obtain ⟨vs, hvs, hled, -⟩ := replaceVoidage_ok hlead
    rw [if_pos hc, hvs, hled]
    rfl
  · rename_i hc
    rw [if_neg hc, hlead]
    rfl

/-- The control from which a well is scanned. -/
private theorem led_control {w before : Nat} {u : WellUnit α} (hu : s.model.units[w]? = some u)
    (hbefore : s.flow.control[w]? = some before) :
    led.flow.control[w]? = some (s.scannedFrom led.groups u.well before) := by
  have hlead := h.lead
  unfold scannedFrom
  split at hlead
  · rename_i hc
    obtain ⟨vs, -, -, hcontrol⟩ := replaceVoidage_ok hlead
    rw [if_pos hc, hcontrol w u hu, hbefore]
    cases GroupControl.takenOver? led.groups u.well <;> rfl
  · rename_i hc
    rw [if_neg hc, hlead, hbefore]

/-- Before the state follows the switches, it differs from the one at the start in the controls only. -/
private theorem assigned_flow : assigned.flow = { s.flow with control := t.flow.control } := by
  rw [h.assigned_eq, h.put_eq, h.led_eq, h.control_eq]
  rfl

private theorem assigned_notices : assigned.notices = s.notices := by
  rw [h.assigned_eq, h.put_eq, h.led_eq]
  rfl

private theorem wells_untargeted : assigned.model.wells.untargeted = s.model.wells.untargeted := by
  have hput : put.model = s.model := by
    rw [h.put_eq, h.led_eq]
    rfl
  have hassign := h.assign
  split at hassign
  · refine forM_ok (I := fun _ u => u.model.wells.untargeted = s.model.wells.untargeted) (takeTargets_ok hassign).1
      (congrArg (·.wells.untargeted) hput) ?_
    intro i a u v _ hu hstep
    obtain ⟨w, m, -, hm, rfl⟩ := takeTarget_ok hstep
    exact (Model.untargeted_of_setTarget hm).trans hu
  · rw [hassign, hput]

end Course

/-- What a switch of controls that succeeds makes of a session. -/
theorem updateControls_transition {cells : List (Cell α)} {s t : Session α γ}
    (h : updateControls cells s = (.ok ⟨⟩, t)) :
    ∃ groups, s.scanningGroups cells = .ok groups ∧ Transition groups s t := by
  obtain ⟨led, put, assigned, followed, next, hcourse⟩ := updateControls_ok h
  have hfollowed := followSwitches_followed hcourse.follow
  have hassigned : s.flow.SameConnections assigned.flow := by
    rw [hcourse.assigned_flow]
    exact ⟨rfl, rfl, rfl⟩
  have hcounted : followed.flow.SameConnections t.flow := by
    rw [hcourse.count]
    exact ⟨rfl, rfl, rfl⟩
  refine ⟨led.groups, hcourse.scanningGroups_eq, ?control, ?kept, ?connections, ?notices, ?revision⟩
  case control =>
    intro w u hu
    obtain ⟨hw, -⟩ := List.getElem?_eq_some_iff.1 hu
    obtain ⟨before, hbefore⟩ := hfollowed.known w hw
    obtain ⟨n, hn⟩ : ∃ n, next[w]? = some n := ⟨_, List.getElem?_eq_getElem (hcourse.length_next ▸ hw)⟩
    refine ⟨before, n.1, hbefore, hcourse.getElem?_control hn, ?_⟩
    obtain ⟨current, hcurrent, hscan⟩ := Well.nextControl_scan (hcourse.choose w u n hu hn)
    have hfrom : s.scannedFrom led.groups u.well before = current :=
      Option.some.inj ((hcourse.led_control hu hbefore).symm.trans hcurrent)
    rw [hfrom, assigned?]
    rcases hscan with ⟨hgroup, hstay⟩ | ⟨hgroup, hscan⟩
    · rwa [if_pos hgroup]
    · rw [if_neg hgroup]
      have hto := Well.scansTo_of_scan hscan
      rw [hcourse.led_eq] at hto
      exact hto.of_control
  case kept =>
    intro w hw hsame
    rcases hcourse.slot hw with ⟨-, hslot⟩ | ⟨hne, -⟩
    · exact hslot
    · exact absurd hsame hne
  case connections => exact (hassigned.trans hfollowed.connections).trans hcounted
  case notices =>
    obtain ⟨ns, hns, hreports⟩ := hfollowed.notices
    rw [hcourse.assigned_flow] at hreports
    refine ⟨ns, ?_, hreports.imp fun w n hn => hn.of_untargeted hcourse.wells_untargeted⟩
    rw [hcourse.count, ← hcourse.assigned_notices]
    exact hns
  case revision =>
    have hrevision := hfollowed.revision
    rw [hcourse.assigned_flow] at hrevision
    rw [hcourse.count]
    exact congrArg (· + 1) hrevision

/-- The group takes over the injector, which is reported; the producer stays where it is. -/
theorem updateControls_transition_replacingPair : ∃ groups t,
    updateControls pairCell replacingPair = (.ok ⟨⟩, t) ∧ replacingPair.scanningGroups pairCell = .ok groups ∧
    Transition groups replacingPair t ∧ t.flow.control = [0, 1] ∧ t.notices.length = 1 ∧
    t.flow.slot 0 = replacingPair.flow.slot 0 := by
  have hrun : (updateControls pairCell replacingPair).1.toOption = some ⟨⟩ := by decide +kernel
  have hcontrol : (updateControls pairCell replacingPair).2.flow.control = [0, 1] := by decide +kernel
  have hnotices : (updateControls pairCell replacingPair).2.notices.length = 1 := by decide +kernel
  obtain ⟨groups, hgroups, htransition⟩ := updateControls_transition (run_ok_of_toOption hrun)
  refine ⟨groups, _, run_ok_of_toOption hrun, hgroups, htransition, hcontrol, hnotices, ?_⟩
  exact htransition.kept 0 (by decide) (by rw [hcontrol]; rfl)

end Session

end BlackOilWells
