import BlackOilWells.Proofs.Bounds
import BlackOilWells.Proofs.ControlUpdates
import BlackOilWells.Proofs.Rollback

/-!
# The flags of a group and the controls of the wells

A voidage replacement group notes of each member whether the well stands for itself.  The flags are written twice in a
switch of controls: the group takes over its injectors, and then every well reports the control that it is put on.  At
the end they agree with the controls, whatever they were before: a well stands for itself exactly if it is not on its
group control, and an injector with a group control is on it (`Session.flags_agree`).

Of a group nothing but flags, target and coefficients changes in a switch, which is best said of the group without its
flags (`VoidageGroup.unflagged`).
-/

namespace BlackOilWells

open Attempt

variable {α : Type}

/-! ### Groups without their flags -/

/-- The member as if it were under the group. -/
def GroupMember.unflagged (m : GroupMember α) : GroupMember α := { m with individual := false }

namespace VoidageGroup

/-- The group as if all members were under it. -/
def unflagged (g : VoidageGroup α) : VoidageGroup α := { g with members := g.members.map .unflagged }

private theorem member?_unflagged (g : VoidageGroup α) (x : String) :
    g.unflagged.member? x = (g.member? x).map .unflagged := by
  rw [member?, member?, unflagged, List.find?_map]
  rfl

private theorem find?_setFlag (x y : String) (b : Bool) (ms : List (GroupMember α)) :
    (setFlag x b ms).find? (·.well == y) =
      if y = x then (ms.find? (·.well == y)).map ({ · with individual := b }) else ms.find? (·.well == y) := by
  induction ms with
  | nil => rw [setFlag, List.find?_nil, Option.map_none, ite_self]
  | cons m ms ih =>
    by_cases hx : m.well = x
    · have hset : setFlag x b (m :: ms) = { m with individual := b } :: ms := by
        rw [setFlag, if_pos (beq_iff_eq.2 hx)]
      rw [hset, List.find?_cons, List.find?_cons]
      by_cases hy : y = x
      · have hm : (m.well == y) = true := beq_iff_eq.2 (hx.trans hy.symm)
        rw [if_pos hy, hm]
        rfl
      · have hm : (m.well == y) = false := beq_eq_false_iff_ne.2 fun h => hy (h.symm.trans hx)
        rw [if_neg hy, hm]
    · have hset : setFlag x b (m :: ms) = m :: setFlag x b ms := by
        rw [setFlag, if_neg fun h => hx (beq_iff_eq.1 h)]
      rw [hset, List.find?_cons, List.find?_cons]
      by_cases hm : m.well = y
      · have hy : y ≠ x := fun h => hx (hm.trans h)
        have hbeq : (m.well == y) = true := beq_iff_eq.2 hm
        rw [if_neg hy, hbeq]
      · have hbeq : (m.well == y) = false := beq_eq_false_iff_ne.2 hm
        rw [hbeq]
        exact ih

private theorem map_unflagged_setFlag (x : String) (b : Bool) (ms : List (GroupMember α)) :
    (setFlag x b ms).map GroupMember.unflagged = ms.map GroupMember.unflagged := by
  induction ms with
  | nil => rfl
  | cons m ms ih =>
    rw [setFlag]
    by_cases hx : (m.well == x) = true
    · rw [if_pos hx]
      rfl
    · rw [if_neg hx, List.map_cons, List.map_cons, ih]

variable [Scalar α] (g : VoidageGroup α)

private theorem controlIndex_unflagged (x : String) :
    GroupControl.controlIndex g.unflagged x = GroupControl.controlIndex g x := by
  change (g.unflagged.member? x).bind _ = (g.member? x).bind _
  rw [member?_unflagged]
  cases g.member? x <;> rfl

private theorem unflagged_setIndividual (x : String) (b : Bool) :
    (GroupControl.setIndividual g x b).unflagged = g.unflagged := by
  change { g with members := (setFlag x b g.members).map .unflagged } = g.unflagged
  rw [map_unflagged_setFlag, unflagged]

private theorem isIndividual_setIndividual (x y : String) (b : Bool) :
    GroupControl.isIndividual (GroupControl.setIndividual g x b) y =
      if y = x then (g.member? y).all fun _ => b else GroupControl.isIndividual g y := by
  change ((setFlag x b g.members).find? (·.well == y)).all (·.individual) = _
  rw [find?_setFlag]
  by_cases hy : y = x
  · rw [if_pos hy, if_pos hy, Option.all_map]
    rfl
  · rw [if_neg hy, if_neg hy]
    rfl

private theorem member?_takeVoidage (v : List α) (c : List (PerPhase α)) (x : String) :
    (g.takeVoidage v c).member? x =
      (g.member? x).map fun m => if m.isEligible then { m with individual := false } else m := by
  let taken (m : GroupMember α) : GroupMember α := if m.isEligible then { m with individual := false } else m
  have hwell : (fun m : GroupMember α => m.well == x) ∘ taken = fun m => m.well == x := by
    funext m
    dsimp only [Function.comp_apply, taken]
    split <;> rfl
  change (g.members.map taken).find? _ = (g.members.find? _).map taken
  rw [List.find?_map, hwell]

theorem unflagged_takeVoidage (v : List α) (c : List (PerPhase α)) :
    (g.takeVoidage v c).unflagged =
      { g.unflagged with reservoirTarget := g.fraction * g.produced v * g.efficiency, coefficients := c } := by
  have hmembers : (g.takeVoidage v c).members.map GroupMember.unflagged = g.members.map GroupMember.unflagged := by
    rw [takeVoidage, List.map_map]
    refine List.map_congr_left fun m _ => ?_
    rw [Function.comp_apply]
    split <;> rfl
  rw [unflagged, hmembers, unflagged]
  rfl

private theorem controlIndex_takeVoidage (v : List α) (c : List (PerPhase α)) (x : String) :
    GroupControl.controlIndex (g.takeVoidage v c) x = GroupControl.controlIndex g x := by
  rw [← controlIndex_unflagged, unflagged_takeVoidage, ← controlIndex_unflagged g]
  rfl

/-- The group has taken over a well if its entry is an injector with a group control. -/
private theorem isIndividual_takeVoidage (v : List α) (c : List (PerPhase α)) {x : String} {m : GroupMember α}
    (hm : g.member? x = some m) (he : m.isEligible = true) :
    GroupControl.isIndividual (g.takeVoidage v c) x = false := by
  change ((g.takeVoidage v c).member? x).all (·.individual) = false
  rw [member?_takeVoidage, hm, Option.map_some, if_pos he]
  rfl

end VoidageGroup

/-! ### The flags in a switch of controls -/

/-- Where names are distinct, a name says where its bearer is. -/
theorem index_eq_of_nodup_map {β δ : Type} {xs : List β} {name : β → δ} (hnames : (xs.map name).Nodup) {i j : Nat}
    {x y : β} (hx : xs[i]? = some x) (hy : xs[j]? = some y) (h : name x = name y) : i = j := by
  have hi : (xs.map name)[i]? = some (name x) := by rw [List.getElem?_map, hx, Option.map_some]
  have hj : (xs.map name)[j]? = some (name y) := by rw [List.getElem?_map, hy, Option.map_some]
  have hlt : i < (xs.map name).length := (List.getElem?_eq_some_iff.1 hi).1
  exact (List.getElem?_inj hlt hnames).1 (by rw [hi, hj, h])

variable [Scalar α]

namespace Session

namespace Course

variable {cells : List (Cell α)} {s led put assigned followed t : Session α (VoidageGroup α)} {next : List (Nat × Bool)}
  (h : Course cells s led put assigned followed t next)

include h

theorem replaceVoidage_eq : replaceVoidage cells s = (.ok ⟨⟩, led) := h.lead

/-- The group ends with the flags that the wells have reported. -/
theorem groups_eq_put : t.groups = put.groups := by
  obtain ⟨-, hframe⟩ := takeTargets_ok h.assign
  rw [h.groups_eq, hframe]
  rfl

private theorem nextControl {w : Nat} {u : WellUnit α} (hu : s.model.units[w]? = some u) :
    ∃ n, next[w]? = some n ∧ u.well.nextControl (led.flow.slot w) (GroupControl.controlIndex led.groups u.well.name) =
      .ok n := by
  have hw : w < next.length := h.length_next ▸ (List.getElem?_eq_some_iff.1 hu).1
  exact ⟨next[w], List.getElem?_eq_getElem hw, h.choose w u next[w] hu (List.getElem?_eq_getElem hw)⟩

/-- A well without a control from its group does not report that it is on it. -/
private theorem not_reported {w : Nat} {u : WellUnit α} {n : Nat × Bool} (hu : s.model.units[w]? = some u)
    (hn : next[w]? = some n) (hnone : GroupControl.controlIndex led.groups u.well.name = none) : n.2 = false := by
  obtain ⟨n', hn', hnext⟩ := h.nextControl hu
  rw [hn, Option.some.injEq] at hn'
  subst hn'
  rw [(Well.nextControl_ok hnext).1, hnone]
  rfl

/-- Each flag is what its well has reported, if no two wells share a name. -/
theorem flags (hnames : (s.model.wells.list.map (·.name)).Nodup) :
    put.groups.unflagged = led.groups.unflagged ∧
      ∀ (w : Nat) u n, s.model.units[w]? = some u → next[w]? = some n →
        GroupControl.isIndividual put.groups u.well.name = !n.2 := by
  let G (k : Nat) (g : VoidageGroup α) : Prop :=
    g.unflagged = led.groups.unflagged ∧
      ∀ (w : Nat) u n, w < k → s.model.units[w]? = some u → next[w]? = some n →
        GroupControl.isIndividual g u.well.name = !n.2
  have hG : G s.model.units.length put.groups := by
    refine (putControls_ok h.place h.length_next ⟨rfl, fun w _ _ hw => absurd hw (Nat.not_lt_zero w)⟩ ?_).2.1
    intro i u n g hu hn hg
    obtain ⟨hunflagged, hbefore⟩ := hg
    have hactive : GroupControl.isActive s.groups = true := rfl
    rw [if_pos hactive]
    refine ⟨(g.unflagged_setIndividual _ _).trans hunflagged, fun w u' n' hw hu' hn' => ?_⟩
    rw [VoidageGroup.isIndividual_setIndividual]
    by_cases hwi : w = i
    · subst hwi
      rw [hu, Option.some.injEq] at hu'
      rw [hn, Option.some.injEq] at hn'
      subst hu' hn'
      rw [if_pos rfl]
      cases hm : g.member? u.well.name with
      | some m => rfl
      | none =>
        -- a well without an entry has no group control to report
        have hnone : GroupControl.controlIndex led.groups u.well.name = none := by
          rw [← led.groups.controlIndex_unflagged, ← hunflagged, g.controlIndex_unflagged]
          change (g.member? u.well.name).bind _ = none
          rw [hm, Option.bind_none]
        rw [h.not_reported hu hn hnone]
        rfl
    · have hne : u'.well.name ≠ u.well.name := by
        intro heq
        exact hwi (index_eq_of_nodup_map hnames (Model.getElem?_wells hu') (Model.getElem?_wells hu) heq)
      rw [if_neg hne]
      exact hbefore w u' n' (by omega) hu' hn'
  exact ⟨hG.1, fun w u n hu hn => hG.2 w u n (List.getElem?_eq_some_iff.1 hu).1 hu hn⟩

private theorem controlIndex_eq (hnames : (s.model.wells.list.map (·.name)).Nodup) (x : String) :
    GroupControl.controlIndex t.groups x = GroupControl.controlIndex led.groups x := by
  rw [h.groups_eq_put, ← put.groups.controlIndex_unflagged, (h.flags hnames).1, led.groups.controlIndex_unflagged]

/-- What the control of a well says about its flag, and where a well stays that is on its group control when it is
looked at. -/
private theorem report (hnames : (s.model.wells.list.map (·.name)).Nodup) {w : Nat} {u : WellUnit α}
    (hu : s.model.units[w]? = some u) : ∃ c, t.flow.control[w]? = some c ∧
      (GroupControl.isIndividual t.groups u.well.name = true ↔
        GroupControl.controlIndex t.groups u.well.name ≠ some c) ∧
      (led.flow.control[w]? = GroupControl.controlIndex led.groups u.well.name → some c = led.flow.control[w]?) := by
  obtain ⟨n, hn, hnext⟩ := h.nextControl hu
  obtain ⟨hreport, current, hcurrent, hstays⟩ := Well.nextControl_ok hnext
  have hcontrol : led.flow.control[w]? = some current := hcurrent
  refine ⟨n.1, h.getElem?_control hn, ?_, fun hled => ?_⟩
  · rw [h.controlIndex_eq hnames, h.groups_eq_put, (h.flags hnames).2 w u n hu hn, hreport]
    simp only [Bool.not_eq_true', decide_eq_false_iff_not, ne_eq]
  · rw [hcontrol] at hled ⊢
    rw [hstays hled.symm]

/-- The group has put the injectors that it takes over on its control before the others are looked at. -/
private theorem control_of_eligible {w : Nat} {u : WellUnit α} (hu : s.model.units[w]? = some u)
    (hinjector : u.well.isInjector = true) {m : GroupMember α} (hm : s.groups.member? u.well.name = some m)
    (he : m.isEligible = true) :
    led.flow.control[w]? = m.groupControl ∧ GroupControl.controlIndex led.groups u.well.name = m.groupControl := by
  obtain ⟨vs, -, hframe, hcontrol⟩ := replaceVoidage_ok h.replaceVoidage_eq
  have hgroups : led.groups = s.groups.takeVoidage vs.unzip.1 vs.unzip.2 := by
    rw [hframe]
    rfl
  have hindex : GroupControl.controlIndex led.groups u.well.name = m.groupControl := by
    rw [hgroups, VoidageGroup.controlIndex_takeVoidage]
    change (s.groups.member? u.well.name).bind _ = _
    rw [hm, Option.bind_some]
  have htaken : GroupControl.takenOver? led.groups u.well = m.groupControl := by
    have hflag : GroupControl.isIndividual led.groups u.well.name = false := by
      rw [hgroups]
      exact s.groups.isIndividual_takeVoidage _ _ hm he
    rw [GroupControl.takenOver?, hinjector, hflag, hindex]
    rfl
  obtain ⟨i, hi⟩ := Option.isSome_iff_exists.1 (Bool.and_eq_true_iff.1 he).2
  refine ⟨?_, hindex⟩
  rw [hcontrol w u hu, htaken, hi, Option.some_or]

/-- So such an injector ends on the control of its group, and under the group. -/
theorem led_of_eligible (hnames : (s.model.wells.list.map (·.name)).Nodup) {w : Nat} {u : WellUnit α}
    (hu : s.model.units[w]? = some u) (hinjector : u.well.isInjector = true) {m : GroupMember α}
    (hm : s.groups.member? u.well.name = some m) (he : m.isEligible = true) :
    t.flow.control[w]? = m.groupControl ∧ GroupControl.isIndividual t.groups u.well.name = false := by
  obtain ⟨hcontrol, hindex⟩ := h.control_of_eligible hu hinjector hm he
  obtain ⟨c, hc, hflag, hled⟩ := h.report hnames hu
  have hgroup : some c = m.groupControl := (hled (hcontrol.trans hindex.symm)).trans hcontrol
  refine ⟨hc.trans hgroup, ?_⟩
  rw [h.controlIndex_eq hnames, hindex, ← hgroup] at hflag
  exact Bool.eq_false_iff.2 fun hi => hflag.1 hi rfl

end Course

/-- After a switch of controls that succeeds, a well stands for itself exactly if it is not on the control that its
group has for it, and an injector whose entry is an injector with a group control is on that control. -/
theorem flags_agree {cells : List (Cell α)} {s t : Session α (VoidageGroup α)}
    (hnames : (s.model.wells.list.map (·.name)).Nodup) (h : updateControls cells s = (.ok ⟨⟩, t)) (w : Nat) (v : Well α)
    (hv : s.model.wells.list[w]? = some v) : ∃ c, t.flow.control[w]? = some c ∧
      (GroupControl.isIndividual t.groups v.name = true ↔ GroupControl.controlIndex t.groups v.name ≠ some c) ∧
      ∀ m, v.isInjector = true → s.groups.member? v.name = some m → m.isEligible = true → m.groupControl = some c := by
  obtain ⟨led, put, assigned, followed, next, hcourse⟩ := updateControls_ok h
  rw [Model.wells, List.getElem?_map] at hv
  obtain ⟨u, hu, rfl⟩ := Option.map_eq_some_iff.1 hv
  obtain ⟨c, hc, hflag, -⟩ := hcourse.report hnames hu
  refine ⟨c, hc, hflag, fun m hinjector hm he => ?_⟩
  rw [← (hcourse.led_of_eligible hnames hu hinjector hm he).1, hc]

/-- The injector of a pair comes under its group, and the producer stands for itself. -/
theorem flags_agree_replacingPair : (replacingPair.model.wells.list.map (·.name)).Nodup ∧
    ∃ t, updateControls pairCell replacingPair = (.ok ⟨⟩, t) ∧
      (∃ c, t.flow.control[0]? = some c ∧
        (GroupControl.isIndividual t.groups "P" = true ↔ GroupControl.controlIndex t.groups "P" ≠ some c)) ∧
      ∃ c, t.flow.control[1]? = some c ∧
        (GroupControl.isIndividual t.groups "I" = true ↔ GroupControl.controlIndex t.groups "I" ≠ some c) ∧
        some 1 = some c := by
  have hnames : (replacingPair.model.wells.list.map (·.name)).Nodup := by decide
  have hrun : (updateControls pairCell replacingPair).1.toOption = some ⟨⟩ := by decide +kernel
  have h := flags_agree hnames (run_ok_of_toOption hrun)
  obtain ⟨c, hc, hproducer, -⟩ := h 0 _ rfl
  obtain ⟨d, hd, hinjector, hgroup⟩ := h 1 _ rfl
  exact ⟨hnames, _, run_ok_of_toOption hrun, ⟨c, hc, hproducer⟩, d, hd, hinjector, hgroup _ rfl rfl rfl⟩

end Session

end BlackOilWells
