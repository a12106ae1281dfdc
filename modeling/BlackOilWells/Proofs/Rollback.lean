import BlackOilWells.Proofs.Cooperation
import BlackOilWells.Proofs.Exact

/-!
# What a failed local solution restores

A local solution that stops or does not converge goes back to the flow state on entry, and to nothing else: the targets
that the group has written to its injectors and the flags that tell which wells stand for themselves stay as the rounds
have left them (`Session.solve_rollback`).

What the rounds may have done to them is bounded.  A group writes only to the controls that it takes over from its
injectors (`VoidageGroup.Assigns`), so a well differs at most in these targets (`Well.Retargeted`); of its members it
changes nothing but the flags (`VoidageGroup.Reflagged`).
-/

namespace BlackOilWells

open Attempt

variable {ω α : Type}

/-! ### Wells with other targets -/

/-- Two descriptions of a well that agree in everything but the targets of some constraints. -/
structure Well.Retargeted (free : Nat → Prop) (w w' : Well α) : Prop where
  frame : { w' with controls := w.controls } = w
  initial : w'.controls.initial = w.controls.initial
  shape : ∀ i : Nat, w'.controls.list[i]?.map (fun c : Control α => (c.kind, c.weights)) =
    w.controls.list[i]?.map fun c : Control α => (c.kind, c.weights)
  kept : ∀ i : Nat, ¬free i → w'.controls.list[i]? = w.controls.list[i]?

namespace Well.Retargeted

variable {free : Nat → Prop} {w w' : Well α}

private theorem refl (free : Nat → Prop) (w : Well α) : Retargeted free w w := ⟨rfl, rfl, fun _ => rfl, fun _ _ => rfl⟩

private theorem name_eq (h : Retargeted free w w') : w'.name = w.name := (congrArg Well.name h.frame :)

private theorem setTarget (h : Retargeted free w w') {i : Nat} {target : α} {cs : Controls α}
    (hc : w'.controls.setTarget i target = .ok cs) (hi : free i) : Retargeted free w { w' with controls := cs } := by
  unfold Controls.setTarget at hc
  cases hget : w'.controls.list[i]? with
  | none =>
    rw [hget] at hc
    cases hc
  | some c =>
    rw [hget] at hc
    cases hc
    refine ⟨h.frame, h.initial, fun j => ?_, fun j hj => ?_⟩
    · rw [← h.shape j]
      by_cases hji : i = j
      · subst hji
        have hlt := (List.getElem?_eq_some_iff.1 hget).1
        simp only [List.getElem?_set_self hlt, hget, Option.map_some]
      · simp only [List.getElem?_set_ne hji]
    · have hji : i ≠ j := by
        rintro rfl
        exact hj hi
      simp only [List.getElem?_set_ne hji]
      exact h.kept j hj

end Well.Retargeted

/-! ### Groups with other flags -/

/-- A member of a group whose flag may have changed.  Without a control for the group to take over, it still stands for
itself if it did before. -/
structure GroupMember.Reflagged (m m' : GroupMember α) : Prop where
  frame : { m' with individual := m.individual } = m
  individual : m.groupControl = none → m.individual = true → m'.individual = true

namespace GroupMember.Reflagged

variable {m m' : GroupMember α}

private theorem refl (m : GroupMember α) : m.Reflagged m := ⟨rfl, fun _ h => h⟩

private theorem groupControl_eq (h : m.Reflagged m') : m'.groupControl = m.groupControl :=
  (congrArg GroupMember.groupControl h.frame :)

private theorem well_eq (h : m.Reflagged m') : m'.well = m.well := (congrArg GroupMember.well h.frame :)

private theorem isEligible_eq (h : m.Reflagged m') : m'.isEligible = m.isEligible :=
  (congrArg GroupMember.isEligible h.frame :)

end GroupMember.Reflagged

namespace VoidageGroup

/-- Whether the group gives targets to a control of a well: it takes the control over from an injector. -/
def Assigns (g : VoidageGroup α) (well : String) (i : Nat) : Prop :=
  ∃ m ∈ g.members, m.well = well ∧ m.isEligible = true ∧ m.groupControl = some i

/-- Two states of a group that agree in everything but the flags of the members, the target and the coefficients. -/
structure Reflagged (g g' : VoidageGroup α) : Prop where
  frame : { g' with members := g.members, reservoirTarget := g.reservoirTarget, coefficients := g.coefficients } = g
  members : List.Forall₂ GroupMember.Reflagged g.members g'.members

namespace Reflagged

variable {g g' : VoidageGroup α}

private theorem refl (g : VoidageGroup α) : g.Reflagged g := ⟨rfl, List.forall₂_same.2 fun m _ => .refl m⟩

private theorem assigns_of_mem (h : g.Reflagged g') {m' : GroupMember α} (hm : m' ∈ g'.members) {i : Nat}
    (he : m'.isEligible = true) (hi : m'.groupControl = some i) : g.Assigns m'.well i := by
  obtain ⟨k, hk, rfl⟩ := List.mem_iff_getElem.1 hm
  obtain ⟨hlen, hall⟩ := List.forall₂_iff_get.1 h.members
  have hf := hall k (hlen ▸ hk) hk
  exact ⟨_, List.get_mem _ ⟨k, hlen ▸ hk⟩, hf.well_eq.symm, hf.isEligible_eq ▸ he, hf.groupControl_eq ▸ hi⟩

private theorem find?_groupControl {ms ms' : List (GroupMember α)} (h : List.Forall₂ GroupMember.Reflagged ms ms')
    (well : String) : (ms'.find? (·.well == well)).bind (·.groupControl) =
      (ms.find? (·.well == well)).bind (·.groupControl) := by
  induction h with
  | nil => rfl
  | @cons m m' ms ms' hm _ ih =>
    rw [List.find?_cons, List.find?_cons, hm.well_eq]
    cases m.well == well
    · exact ih
    · exact hm.groupControl_eq

private theorem setFlag {b : Bool} {well : String} {ms ms' : List (GroupMember α)}
    (h : List.Forall₂ GroupMember.Reflagged ms ms')
    (hb : b = false → ∃ i, (ms.find? (·.well == well)).bind (·.groupControl) = some i) :
    List.Forall₂ GroupMember.Reflagged ms (VoidageGroup.setFlag well b ms') := by
  induction h with
  | nil => exact .nil
  | @cons m m' ms ms' hm hms ih =>
    have heq : (m'.well == well) = (m.well == well) := by rw [hm.well_eq]
    rw [VoidageGroup.setFlag, heq]
    rw [List.find?_cons] at hb
    cases hw : m.well == well with
    | false =>
      rw [hw] at hb
      exact .cons hm (ih hb)
    | true =>
      rw [hw] at hb
      refine .cons ⟨hm.frame, fun hc _ => ?_⟩ hms
      -- a member that comes under the group has a control to take over
      cases b with
      | true => rfl
      | false =>
        obtain ⟨i, hi⟩ := hb rfl
        exact absurd (hc.symm.trans hi) nofun

variable [Scalar α]

private theorem takeVoidage (h : g.Reflagged g') (v : List α) (c : List (PerPhase α)) :
    g.Reflagged (g'.takeVoidage v c) := by
  refine ⟨h.frame, ?_⟩
  rw [VoidageGroup.takeVoidage, List.forall₂_map_right_iff]
  refine h.members.imp fun m m' hm => ?_
  by_cases he : m'.isEligible = true
  · rw [if_pos he]
    refine ⟨hm.frame, fun hc _ => ?_⟩
    rw [GroupMember.isEligible, hm.groupControl_eq, hc] at he
    simp at he
  · rw [if_neg he]
    exact hm

private theorem assigns_of_mem_targets (h : g.Reflagged g') {t : AssignedTarget α} (ht : t ∈ g'.targets) :
    g.Assigns t.well t.control := by
  unfold targets at ht
  dsimp only at ht
  split at ht
  · cases ht
  · obtain ⟨m, hm, ht⟩ := List.mem_filterMap.1 ht
    obtain ⟨hm, hl⟩ := List.mem_filter.1 hm
    obtain ⟨i, hi, ht⟩ := Option.bind_eq_some_iff.1 ht
    dsimp only at ht
    split at ht
    · cases ht
    · cases ht
      exact h.assigns_of_mem hm (Bool.and_eq_true_iff.1 hl).1 hi

end Reflagged

end VoidageGroup

/-! ### Sessions under a group -/

variable [Scalar α]

/-- What a group may have done to the wells and to itself since a session. -/
structure Session.Led (s t : Session α (VoidageGroup α)) : Prop where
  groups : s.groups.Reflagged t.groups
  wells : List.Forall₂ (fun v v' => v.Retargeted (s.groups.Assigns v.name) v') s.model.wells.list t.model.wells.list

namespace Session

omit [Scalar α] in
private theorem Led.refl (s : Session α (VoidageGroup α)) :
    s.Led s := ⟨.refl _, List.forall₂_same.2 fun _ _ => .refl _ _⟩

/-- A target that the group assigns goes to a control that it takes over. -/
private theorem Led.setTarget {s t t₁ : Session α (VoidageGroup α)} (h : s.Led t) (h₁ : s.Led t₁)
    {a : AssignedTarget α} (ha : a ∈ t₁.groups.targets) {w : Nat} {m : Model α}
    (hw : t.model.wells.indexOf? a.well = some w) (hm : t.model.setTarget w a.control a.target = .ok m) :
    s.Led { t with model := m } := by
  refine ⟨h.groups, ?_⟩
  have hassigns := h₁.groups.assigns_of_mem_targets ha
  obtain ⟨v, cs, hv, hcs, hset⟩ := Model.wells_of_setTarget hm
  obtain ⟨hlen, hall⟩ := List.forall₂_iff_get.1 h.wells
  have hname : v.name = a.well := by
    obtain ⟨hlt, hn, -⟩ := List.findIdx?_eq_some_iff_getElem.1 hw
    rw [List.getElem?_eq_getElem hlt, Option.some.injEq] at hv
    rw [← hv]
    exact beq_iff_eq.1 hn
  dsimp only
  rw [hset, List.forall₂_iff_get]
  refine ⟨by rw [List.length_set, hlen], fun i hi hi' => ?_⟩
  rw [List.length_set] at hi'
  have hr := hall i hi hi'
  rw [List.get_eq_getElem, List.get_eq_getElem] at hr ⊢
  rw [List.getElem_set]
  by_cases hwi : w = i
  · subst hwi
    rw [List.getElem?_eq_getElem hi', Option.some.injEq] at hv
    rw [hv] at hr
    rw [if_pos rfl]
    refine hr.setTarget hcs ?_
    rwa [← hr.name_eq, hname]
  · rwa [if_neg hwi]

private theorem stable_led (s : Session α (VoidageGroup α)) : Stable s.Led where
  flow _ h := ⟨h.groups, h.wells⟩
  notices _ h := ⟨h.groups, h.wells⟩
  model _ hm h := ⟨h.groups, by rw [Model.wells_of_outline hm]; exact h.wells⟩
  voidage v c _ _ h := ⟨h.groups.takeVoidage v c, h.wells⟩
  individual u b _ _ _ h₁ hb h := by
    refine ⟨⟨h.groups.frame, ?_⟩, h.wells⟩
    refine VoidageGroup.Reflagged.setFlag h.groups.members fun hf => ?_
    obtain ⟨i, hi⟩ := hb hf
    have hc := VoidageGroup.Reflagged.find?_groupControl h₁.groups.members u.well.name
    exact ⟨i, hc.symm.trans hi⟩
  distribute _ _ h := ⟨h.groups, h.wells⟩
  target _ _ _ _ _ h₁ ht hw hm h := h.setTarget h₁ ht hw hm

/-- Going back to a flow state keeps what the group has done. -/
private theorem led_of_restore {s t : Session α (VoidageGroup α)} (h : s.Led t) (flow : FlowState α) :
    s.Led (restore flow t).2 := by
  rw [run_restore]
  exact takeUnknowns_maintains (stable_led s) _ ((stable_led s).flow flow h)

/-- The rounds leave what the group may do, however they end. -/
private theorem iterate_led (comm : Communicator (StateM ω) α) (cells : List (Cell α)) (dt : α) (k i : Nat)
    (s : Session α (VoidageGroup α)) : Ensures s.Led (iterate comm cells dt k i) fun _ t => s.Led t := by
  have hP := stable_led s
  refine iterate_ensures (I := s.Led) (J := s.Led) (E := fun _ => s.Led) ?_ ?_ ?_ (fun _ _ h => h) (fun _ _ h => h)
    (fun _ _ h => h) k i
  · exact fun t ht => .of_all (assembleWells_maintains hP cells dt t ht) _
  · exact fun j t w ht => .of_all (check_ensures hP.notices comm cells j t w ht) _
  · exact fun t ht => .of_all (advance_maintains hP cells t ht) _

/-- A local solution under a voidage replacement group that stops or does not converge restores the flow state.  The
wells differ at most in targets of controls that the group takes over, and the group in its target, its coefficients
and the flags of its members. -/
theorem solve_rollback (comm : Communicator (StateM ω) α) (cells : List (Cell α)) (dt : α)
    (s : Session α (VoidageGroup α)) (w : ω)
    (hr : ∀ r, (solve comm cells dt s w).1.1 = .ok r → r.converged = false) :
    (solve comm cells dt s w).1.2.flow = s.flow ∧ s.groups.Reflagged (solve comm cells dt s w).1.2.groups ∧
      List.Forall₂ (fun v v' => v.Retargeted (s.groups.Assigns v.name) v') s.model.wells.list
        (solve comm cells dt s w).1.2.model.wells.list := by
  suffices h : (solve comm cells dt s w).1.2.flow = s.flow ∧ s.Led (solve comm cells dt s w).1.2 from
    ⟨h.1, h.2.groups, h.2.wells⟩
  have hl := iterate_led comm cells dt s.model.setup.settings.maxLocalIterations 0 s s w (.refl s)
  rcases hi : (iterate comm cells dt s.model.setup.settings.maxLocalIterations 0 s w).1 with ⟨o, t⟩
  rw [hi] at hl
  rcases solve_cases hi with ⟨r, ns, hc, -, hs⟩ | ⟨ns, -, hs, -⟩
  · rw [hs] at hr
    rw [hr r rfl] at hc
    cases hc
  · rw [hs]
    exact ⟨flow_of_restore _ _, led_of_restore ((stable_led s).notices ns hl) _⟩

/-! ### A producer and an injector -/

/-- A reservoir of one cell with oil and water. -/
def pairCell : List (Cell ℚ) :=
  [{ Cell.still (.seed 100 0) 300 with mobility := ⟨.const 1, .const 1, .const 0⟩ }]

/-- A producer and a water injector on bottom-hole pressures.  A group is to take over the rate of the injector, so that
it replaces what the producer takes out; a single round is permitted. -/
def replacingPair : Session ℚ (VoidageGroup ℚ) where
  model :=
    { setup :=
        { phases := .oilWater
          settings := { Settings.standard with maxLocalIterations := 1 }
          pvt := ⟨"constant", 1, fun _ _ => .ok 1, fun _ _ _ _ _ => .ok (.const 1), fun _ _ _ => .ok (.const 0),
            fun _ _ _ => .ok (.const 0)⟩
          lift := ⟨[]⟩
          converter := some ⟨fun _ _ => .ok ⟨1, 1, 0⟩⟩ }
      units :=
        [Well.producer "P" 0 [⟨0, 2, 0, 1⟩] ⟨[⟨.bhp, 90, .replicate 0⟩], 0⟩,
          Well.injector "I" 0 .water [⟨0, 2, 0, 1⟩]
            ⟨[⟨.bhp, 120, .replicate 0⟩, ⟨.surfaceRate, 1, ⟨1, 0, 0⟩⟩], 0⟩].map
          fun w => { WellUnit.create w with unknowns := WellUnit.seeded ⟨0, 0, 0⟩ } }
  flow := ⟨[90, 120], [0, 0], [0, -3, 0, 0, 0, 0], [0, 0, 0, 0, 0, 0], [0, 0], [90, 120], [0, 0, 0, 0, 0, 0],
    [0, 0, 0, 0, 0, 0], 0⟩
  groups :=
    { VoidageGroup.create "G" 1 .water with
      members := [⟨"P", 0, .producer, none, 1, 1, true⟩, ⟨"I", 1, .injector, some 1, 1, 1, true⟩] }
  notices := []

private theorem run_replacingPair :
    (solve (.serial : Communicator (StateM Unit) ℚ) pairCell 1 replacingPair ()).1.1.toOption = some ⟨false, 1⟩ := by
  decide +kernel

/-- A round does not solve the pair, and is undone as far as the flow state goes. -/
theorem solve_rollback_replacingPair :
    (∀ r, (solve (.serial : Communicator (StateM Unit) ℚ) pairCell 1 replacingPair ()).1.1 = .ok r →
      r.converged = false) ∧
    (solve (.serial : Communicator (StateM Unit) ℚ) pairCell 1 replacingPair ()).1.2.flow = replacingPair.flow ∧
    replacingPair.groups.Reflagged
      (solve (.serial : Communicator (StateM Unit) ℚ) pairCell 1 replacingPair ()).1.2.groups ∧
    List.Forall₂ (fun v v' => v.Retargeted (replacingPair.groups.Assigns v.name) v') replacingPair.model.wells.list
      (solve (.serial : Communicator (StateM Unit) ℚ) pairCell 1 replacingPair ()).1.2.model.wells.list := by
  have hr : ∀ r, (solve (.serial : Communicator (StateM Unit) ℚ) pairCell 1 replacingPair ()).1.1 = .ok r →
      r.converged = false := by
    intro r h
    have hs := run_replacingPair
    rw [h, Except.toOption, Option.some.injEq] at hs
    rw [hs]
  exact ⟨hr, solve_rollback .serial pairCell 1 replacingPair () hr⟩

/-- The target that the group has given to the injector in that round stays, and so does the flag of the injector. -/
theorem solve_keeps_target : ∃ t,
    solve (.serial : Communicator (StateM Unit) ℚ) pairCell 1 replacingPair () = ((.ok ⟨false, 1⟩, t), ()) ∧
      t.model.wells.list.map (fun v => v.controls.list.map (·.target)) ≠
        replacingPair.model.wells.list.map (fun v => v.controls.list.map (·.target)) ∧
      t.groups.members.map (·.individual) ≠ replacingPair.groups.members.map (·.individual) := by
  refine ⟨_, Prod.ext (run_ok_of_toOption run_replacingPair) rfl, ?_, ?_⟩ <;> decide +kernel

end Session

end BlackOilWells
