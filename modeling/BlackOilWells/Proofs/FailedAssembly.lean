import BlackOilWells.Proofs.Cooperation
import BlackOilWells.Proofs.LocalSolution
import BlackOilWells.Proofs.Switches

/-!
# Assemblies that fail

An assembly that fails keeps the switches of controls that it made before: only a failed local solution goes back to an
earlier flow state, and not past the preparation.  A well whose control is what it was on entry is where it was on entry
(`Session.assemble_failed`), because nothing but a switch writes to it for good.

A failure of a peer is different.  It makes an assembly fail that has succeeded here, after a local solution that has
moved the wells.
-/

namespace BlackOilWells

open Attempt

variable {ω α γ : Type}

/-! ### States without a switch -/

namespace FlowState

/-- Two states that agree in pressures, rates and unknowns of the wells. -/
structure AgreesOffControl (s t : FlowState α) : Prop where
  bhp : t.bhp = s.bhp
  thp : t.thp = s.thp
  rates : t.rates = s.rates
  unknowns : t.unknowns = s.unknowns

/-- Two states that agree at the wells that have the same control in both, and altogether if all wells have. -/
structure AgreesUnswitched (s t : FlowState α) : Prop where
  slot : ∀ w : Nat, t.control[w]? = s.control[w]? → t.slot w = s.slot w
  all : t.control = s.control → s.AgreesOffControl t

variable {s t : FlowState α}

private theorem AgreesOffControl.unswitched (h : s.AgreesOffControl t) : s.AgreesUnswitched t := by
  refine ⟨fun w hw => ?_, fun _ => h⟩
  unfold slot
  rw [h.bhp, h.thp, h.rates, h.unknowns, hw]

private theorem AgreesUnswitched.of_atWells (h : s.AgreesUnswitched t) {t' : FlowState α}
    (ht : t'.atWells = t.atWells) :
    s.AgreesUnswitched t' := by
  have hc : t'.control = t.control := (congrArg FlowState.control ht :)
  have hb : t'.bhp = t.bhp := (congrArg FlowState.bhp ht :)
  have hp : t'.thp = t.thp := (congrArg FlowState.thp ht :)
  have hr : t'.rates = t.rates := (congrArg FlowState.rates ht :)
  have hu : t'.unknowns = t.unknowns := (congrArg FlowState.unknowns ht :)
  refine ⟨fun w hw => ?_, fun hs => ?_⟩
  · rw [slot_of_atWells ht]
    exact h.slot w (hc ▸ hw)
  · have ho := h.all (hc.symm.trans hs)
    exact ⟨hb.trans ho.bhp, hp.trans ho.thp, hr.trans ho.rates, hu.trans ho.unknowns⟩

/-- A well that has switched may be moved. -/
private theorem AgreesUnswitched.putSlot (h : s.AgreesUnswitched t) {w : Nat} {x : Slot α}
    (hx : x.control = t.control[w]?)
    (hw : s.control[w]? ≠ t.control[w]?) : s.AgreesUnswitched (t.putSlot w x) := by
  have hc := control_putSlot hx
  refine ⟨fun v hv => ?_, fun hs => ?_⟩
  · rw [hc] at hv
    have hne : w ≠ v := by
      rintro rfl
      exact hw hv.symm
    rw [slot_putSlot_of_ne _ hne]
    exact h.slot v hv
  · rw [hc] at hs
    exact absurd (congrArg (·[w]?) hs).symm hw

end FlowState

variable [Scalar α]

/-- Moving a well to the target of its control keeps all controls. -/
private theorem Model.moveToTarget_putSlot (m : Model α) (w : Nat) (s : FlowState α) :
    ∃ x : Slot α, x.control = s.control[w]? ∧ (m.moveToTarget w s).2 = s.putSlot w x := by
  unfold moveToTarget
  rw [run_outcome_bind]
  cases m.unit w with
  | error e => exact ⟨s.slot w, rfl, (s.putSlot_slot w).symm⟩
  | ok u =>
    have hP : Slot.Closed u.well m.setup.phases (fun x : Slot α => x.control = s.control[w]?) fun _ => True :=
      ⟨fun _ _ => trivial, fun h => ⟨fun _ => trivial, fun _ _ _ => h⟩, fun h => ⟨fun _ => trivial, fun _ _ _ => h⟩,
        fun h => ⟨fun _ => trivial, fun _ _ _ => h⟩, fun h => ⟨fun _ => trivial, fun _ _ _ _ => h⟩,
        fun _ _ _ => trivial⟩
    exact ⟨_, (WellUnit.moveToTarget_keeps hP (m.setup.lift.serves_true u.well) (s.slot w) rfl).1, rfl⟩

namespace Session

variable [GroupControl α γ]

/-! ### The preparation -/

private theorem switchable_agreesOffControl (f : FlowState α) (cells : List (Cell α)) :
    Switchable cells (fun s : Session α γ => f.AgreesOffControl s.flow) (fun _ _ => True) fun _ => True where
  size _ _ _ := trivial
  voidage _ _ _ _ := trivial
  takeVoidage _ _ h := h
  setIndividual _ _ h := h
  distribute h := h
  target {_ s t} _ _ h := takeTarget_keeps (A := fun s : Session α γ => f.AgreesOffControl s.flow)
    (F := fun _ => True) (fun _ => trivial) (fun _ h => h) t s h
  follow _ _ _ _ _ := trivial
  get _ := trivial
  next _ _ _ := ⟨fun _ _ => trivial, fun _ _ _ => trivial⟩
  put {s w i u} h _ _ := by
    rw [run_onFlow, FlowState.run_putControl]
    split
    · exact ⟨⟨h.bhp, h.thp, h.rates, h.unknowns⟩, fun _ _ => trivial⟩
    · exact ⟨h, fun _ _ => trivial⟩

/-- A switch of controls moves the wells that switch. -/
theorem updateControls_unswitched (cells : List (Cell α)) (s : Session α γ) :
    s.flow.AgreesUnswitched (updateControls cells s).2.flow := by
  have hA := switchable_agreesOffControl (γ := γ) s.flow cells
  refine (updateControls_keeps (B := fun t => s.flow.AgreesUnswitched t.flow) hA (fun _ h => h.unswitched)
    ⟨rfl, rfl, rfl, rfl⟩ (fun w _ => ?_) fun h => ?_).1
  · refine followSwitch_keeps (fun _ => trivial) (fun _ _ _ => trivial) (fun _ _ _ _ => trivial)
      (fun _ _ _ _ _ _ _ _ => trivial) (fun _ h => h) fun t ht hw => ?_
    obtain ⟨x, hx, hm⟩ := t.model.moveToTarget_putSlot w t.flow
    refine ⟨?_, fun _ _ => trivial⟩
    rw [run_onFlow, hm]
    exact ht.putSlot hx hw
  · exact ⟨h.slot, fun hc => ⟨(h.all hc).bhp, (h.all hc).thp, (h.all hc).rates, (h.all hc).unknowns⟩⟩

/-- What follows a preparation finds the wells that have not switched where they were. -/
private theorem prepare_unswitched (cells : List (Cell α)) (dt : α) (i : Nat) (s : Session α γ) :
    s.flow.AgreesUnswitched (prepare cells dt i s).2.flow := by
  refine (prepare_keeps (A := fun t => t.flow = s.flow) (B := fun t => s.flow.AgreesUnswitched t.flow)
    (F := fun _ => True) (fun t ht => ?_) i (fun _ => trivial) (fun _ _ _ _ => trivial) (fun _ ht => ht)
    (fun t ht => ?_) ?_ ?_ (fun _ ht => ht) ?_ rfl).1
  · rw [ht]
    exact FlowState.AgreesOffControl.unswitched ⟨rfl, rfl, rfl, rfl⟩
  · have hswitch := updateControls_unswitched cells t
    rw [ht] at hswitch
    exact ⟨hswitch, fun _ _ => trivial⟩
  · refine .of_maintains fun t ht => ?_
    rw [run_takeUnknowns]
    cases t.model.setUnknowns t.flow <;> exact ht
  · refine .of_maintains fun t ht => ?_
    rw [run_refreshDensities]
    cases t.model.setDensities cells t.flow <;> exact ht
  · exact .of_maintains (warnThreePhaseRates_maintains fun _ ht => ht)

/-! ### The local solution -/

/-- Whether the wells have just been assembled: at the state that a session has, an assembly has given its model. -/
def Fresh (cells : List (Cell α)) (dt : α) (s : Session α γ) : Prop :=
  ∃ (m : Model α) (f : FlowState α), m.assemble cells dt f = (.ok s.model, s.flow)

variable {cells : List (Cell α)} {dt : α} {s : Session α γ}

omit [GroupControl α γ] in
/-- Wells that have just been assembled can be assembled. -/
theorem Fresh.assembleWells_ok (h : Fresh cells dt s) : ∃ t, assembleWells cells dt s = (.ok ⟨⟩, t) := by
  obtain ⟨m, f, h⟩ := h
  obtain ⟨m', f', h'⟩ := Model.assemble_again_ok h
  exact ⟨_, Session.assembleWells_ok.2 ⟨m', f', h', rfl⟩⟩

private theorem iterate_fresh (comm : Communicator (StateM ω) α) (cells : List (Cell α)) (dt : α) (k i : Nat) :
    Ensures (fun _ : Session α γ => True) (iterate comm cells dt k i) fun o t =>
      ∀ r, o = .ok r → r.converged = true → Fresh cells dt t := by
  refine iterate_ensures (I := fun _ => True) (J := Fresh cells dt) (E := fun _ _ => True) ?_ ?_ ?_ ?_ ?_ ?_ k i
  · intro s _
    rcases ha : assembleWells cells dt s with ⟨_ | _, t⟩
    · trivial
    · obtain ⟨m, f, hm, rfl⟩ := assembleWells_ok.1 ha
      exact ⟨_, _, hm⟩
  · intro j s w hs
    have hc := check_ensures (fun _ h => h) comm cells j s w hs
    rcases h : check comm cells j s w with ⟨⟨_ | _, t⟩, w'⟩
    · trivial
    · rw [h] at hc
      exact hc
  · intro s _
    rcases advance cells s with ⟨_ | _, t⟩ <;> trivial
  · exact fun _ _ _ _ h => nomatch h
  · exact fun _ _ h _ _ _ => h
  · intro _ _ _ r h hr
    cases h
    cases hr

/-- A local solution leaves the flow state on entry, or wells that have just been assembled. -/
theorem solve_restores (comm : Communicator (StateM ω) α) (cells : List (Cell α)) (dt : α) (s : Session α γ) (w : ω) :
    (solve comm cells dt s w).1.2.flow = s.flow ∨
      (∃ r, (solve comm cells dt s w).1.1 = .ok r) ∧ Fresh cells dt (solve comm cells dt s w).1.2 := by
  have hfresh := iterate_fresh comm cells dt s.model.setup.settings.maxLocalIterations 0 s w trivial
  rcases hi : (iterate comm cells dt s.model.setup.settings.maxLocalIterations 0 s w).1 with ⟨o, t⟩
  rcases solve_cases hi with ⟨r, ns, hc, rfl, hs⟩ | ⟨ns, -, hs, -⟩
  · rw [hi] at hfresh
    rw [hs]
    exact .inr ⟨⟨r, rfl⟩, hfresh r rfl hc⟩
  · rw [hs]
    exact .inl (flow_of_restore _ _)

/-! ### The assembly -/

omit [GroupControl α γ] in
/-- Sharing a failure adds no errors but that of an aborted step. -/
private theorem error_of_shareFailure {β : Type} {comm : Communicator (StateM ω) α} {r : Outcome α β} {w : ω}
    {e : Fault α} (h : (comm.shareFailure r w).1 = .error e) : r = .error e ∨ ∃ c, e = .error (.aborted c) := by
  rcases r with (e' | _) | b
  · exact .inl h
  · exact .inl h
  · have hr : comm.shareFailure (.ok b : Outcome α β) w = (if 0 < (comm.max 0 w).1 then
        (.error (.error (.aborted (.peerFailed comm.rank))), (comm.max 0 w).2) else (.ok b, (comm.max 0 w).2)) := by
      change (if 0 < (comm.max 0 w).1 then _ else _ : StateM ω (Outcome α β)) (comm.max 0 w).2 = _
      split <;> rfl
    rw [hr] at h
    right
    split at h
    · exact ⟨_, (Except.error.inj h).symm⟩
    · cases h

private theorem assembleLocally_unswitched (comm : Communicator (StateM ω) α) (cells : List (Cell α)) (dt : α) (i : Nat)
    (s : Session α γ) : Ensures (· = s) (assembleLocally comm cells dt i) fun o t =>
      ∀ e, o = .error e → s.flow.AgreesUnswitched t.flow := by
  have hassemble (u : Session α γ) (hu : s.flow.AgreesUnswitched u.flow ∨ Fresh cells dt u) e
      (he : (assembleWells cells dt u).1 = .error e) : s.flow.AgreesUnswitched (assembleWells cells dt u).2.flow := by
    rcases hu with hu | hu
    · have hf : (assembleWells cells dt u).2.flow.atWells = u.flow.atWells := by
        have hk := u.model.atWells_of_assemble cells dt u.flow
        rw [run_assembleWells]
        rcases ha : u.model.assemble cells dt u.flow with ⟨_ | _, f⟩ <;> rw [ha] at hk <;> exact hk
      exact hu.of_atWells hf
    · obtain ⟨t, ht⟩ := hu.assembleWells_ok
      rw [ht] at he
      cases he
  have hrest (r : SolveReport) : Ensures (fun u => s.flow.AgreesUnswitched u.flow ∨ Fresh cells dt u)
      (Attempt.lift (assembleWells cells dt >>= fun _ => onFlow FlowState.countChange) >>= fun _ => pure r :
        Step (StateM ω) α γ SolveReport) fun o t => ∀ e, o = .error e → s.flow.AgreesUnswitched t.flow := by
    intro u w hu
    have he := hassemble u hu
    rw [runOn_bind, runOn_lift, run_bind]
    rcases ha : assembleWells cells dt u with ⟨e | _, v⟩
    · rw [ha] at he
      exact fun _ _ => he e rfl
    · exact fun _ h => nomatch h
  refine .bind (S := fun _ t => s.flow.AgreesUnswitched t.flow) (.of_lift ?_) (fun _ _ h _ _ => h) fun _ => ?_
  · rintro t rfl
    exact prepare_unswitched cells dt i t
  refine .get_bind fun p hp => .ite (fun _ => ?_) fun _ => ?_
  · refine .bind (S := fun o u => s.flow.AgreesUnswitched u.flow ∨ (∃ r, o = .ok r) ∧ Fresh cells dt u) ?_ ?_
      fun r => ?_
    · rintro t w rfl
      rcases solve_restores comm cells dt t w with h | h
      · exact .inl (h ▸ hp)
      · exact .inr h
    · rintro e t (h | ⟨⟨r, hr⟩, -⟩) _ _
      · exact h
      · cases hr
    · intro u w hu
      exact hrest r u w (hu.imp_right And.right)
  · rintro t w rfl
    exact hrest _ t w (.inl hp)

/-- An assembly that fails here, and not only because a peer has failed, leaves the wells that have the control on entry
where they were: pressures, rates and unknowns of each of them, and all of them if no well has switched. -/
theorem assemble_failed (comm : Communicator (StateM ω) α) (cells : List (Cell α)) (dt : α) (i : Nat) (s : Session α γ)
    (w : ω) {e : Fault α} (he : (assemble comm cells dt i s w).1.1 = .error e) (hp : ∀ c, e ≠ .error (.aborted c)) :
    (∀ v : Nat, (assemble comm cells dt i s w).1.2.flow.control[v]? = s.flow.control[v]? →
        (assemble comm cells dt i s w).1.2.flow.slot v = s.flow.slot v) ∧
      ((assemble comm cells dt i s w).1.2.flow.control = s.flow.control →
        (assemble comm cells dt i s w).1.2.flow.bhp = s.flow.bhp ∧
        (assemble comm cells dt i s w).1.2.flow.thp = s.flow.thp ∧
        (assemble comm cells dt i s w).1.2.flow.rates = s.flow.rates ∧
        (assemble comm cells dt i s w).1.2.flow.unknowns = s.flow.unknowns) := by
  have hl := assembleLocally_unswitched comm cells dt i s s w rfl
  have hrun : (assemble comm cells dt i s w).1 =
      ((comm.shareFailure (assembleLocally comm cells dt i s w).1.1 (assembleLocally comm cells dt i s w).2).1,
        (assembleLocally comm cells dt i s w).1.2) := rfl
  rw [hrun] at he ⊢
  rcases error_of_shareFailure he with h | ⟨c, rfl⟩
  · have ha := hl e h
    exact ⟨ha.slot, fun hc => ⟨(ha.all hc).bhp, (ha.all hc).thp, (ha.all hc).rates, (ha.all hc).unknowns⟩⟩
  · exact absurd rfl (hp c)

/-! ### A producer that cannot flow -/

/-- A producer in oil that does not move.  It is limited by its bottom-hole pressure and its rate. -/
def stuckProducer (control : Nat) (rate : ℚ) : Session ℚ (Option (VoidageGroup ℚ)) where
  model :=
    { setup := (oilProducer 15).model.setup
      units := [.create (.producer "P" 0 [⟨0, 2, 0, 1⟩]
        ⟨[⟨.bhp, 90, .replicate 0⟩, ⟨.surfaceRate, -1, ⟨0, 1, 0⟩⟩], 0⟩)] }
  flow := ⟨[95], [0], [0, rate, 0], [0, 0, 0], [control], [95], [0, 0, 0], [0, 0, 0], 0⟩
  groups := none
  notices := []

/-- The first assembly of the producer in a time step. -/
def assembleStuck (control : Nat) (rate : ℚ) : Outcome ℚ SolveReport × Session ℚ (Option (VoidageGroup ℚ)) :=
  (assemble (.serial : Communicator (StateM Unit) ℚ) [Cell.still (.seed 100 0) 300] 1 0
    (stuckProducer control rate) ()).1

private def isNumerical {β : Type} : Outcome ℚ β → Bool
  | .error (.error (.numerical _)) => true
  | _ => false

private theorem exists_of_isNumerical {β : Type} {o : Outcome ℚ β} (h : isNumerical o = true) :
    ∃ c, o = .error (.numerical c) := by
  rcases o with ((c | _ | _ | _ | _) | _) | _
  · exact ⟨c, rfl⟩
  all_goals cases h

/-- On its rate limit the Jacobian of the producer is singular, and the producer stays where it is. -/
theorem assemble_failed_stuckProducer : ∃ c, (assembleStuck 1 (-1)).1 = .error (.numerical c) ∧
    (∀ a, Fault.numerical c ≠ .error (.aborted a)) ∧
    (assembleStuck 1 (-1)).2.flow.control = (stuckProducer 1 (-1)).flow.control ∧
    (assembleStuck 1 (-1)).2.flow.slot 0 = (stuckProducer 1 (-1)).flow.slot 0 ∧
    (assembleStuck 1 (-1)).2.flow.bhp = [95] ∧ (assembleStuck 1 (-1)).2.flow.thp = [0] ∧
    (assembleStuck 1 (-1)).2.flow.rates = [0, -1, 0] ∧ (assembleStuck 1 (-1)).2.flow.unknowns = [0, 0, 0] := by
  obtain ⟨c, hc⟩ := exists_of_isNumerical (o := (assembleStuck 1 (-1)).1) (by decide +kernel)
  have hcontrol : (assembleStuck 1 (-1)).2.flow.control = (stuckProducer 1 (-1)).flow.control := by decide +kernel
  have h := assemble_failed .serial [Cell.still (.seed 100 0) 300] 1 0 (stuckProducer 1 (-1)) () hc fun _ => nofun
  exact ⟨c, hc, fun _ => nofun, hcontrol, h.1 0 (congrArg (·[0]?) hcontrol), h.2 hcontrol⟩

/-- A producer above its rate limit is put on the limit first, and this switch is not undone. -/
theorem assemble_failed_keeps_switch : ∃ c, (assembleStuck 0 (-5)).1 = .error (.numerical c) ∧
    (assembleStuck 0 (-5)).2.flow.control ≠ (stuckProducer 0 (-5)).flow.control ∧
    (assembleStuck 0 (-5)).2.flow.rates ≠ (stuckProducer 0 (-5)).flow.rates := by
  obtain ⟨c, hc⟩ := exists_of_isNumerical (o := (assembleStuck 0 (-5)).1) (by decide +kernel)
  refine ⟨c, hc, ?_, ?_⟩ <;> decide +kernel

end Session

end BlackOilWells
