import BlackOilWells.Model.Update
import BlackOilWells.Proofs.Attempts

/-!
# What operations on a slot keep

An update and a change of control write the pressures, the rates and the unknowns of one well, each only where the slot
has it, and they write no unknowns but such with closed fractions (`Unknowns.Normal`).  So they keep every property of
slots that does not depend on these values beyond that.  What they stop for comes from the numbers, from a lift table,
from a control that the well does not have, or from something that the slot lacks (`Slot.Closed`).

On a flow state an operation on the slot of one well leaves the slots of all others as they are.
-/

namespace BlackOilWells

open Attempt

variable {α : Type}

/-! ### Slots in a flow state -/

/-- A slot that has what another one has, on the same control. -/
structure Slot.Refilled (s t : Slot α) : Prop where
  bhp : t.bhp.isSome = s.bhp.isSome
  thp : t.thp.isSome = s.thp.isSome
  rates : t.rates.isSome = s.rates.isSome
  unknowns : t.unknowns.isSome = s.unknowns.isSome
  control : t.control = s.control

private theorem Slot.Refilled.refl (s : Slot α) : s.Refilled s := ⟨rfl, rfl, rfl, rfl, rfl⟩

namespace FlowState

theorem slot_putSlot_of_ne (s : FlowState α) {w v : Nat} (h : w ≠ v) (t : Slot α) :
    (s.putSlot w t).slot v = s.slot v := by
  obtain ⟨bhp, thp, rates, unknowns, control⟩ := t
  unfold slot putSlot
  congr 1
  · cases bhp
    · rfl
    · exact List.getElem?_set_ne h
  · cases thp
    · rfl
    · exact List.getElem?_set_ne h
  · cases rates
    · rfl
    · exact congrArg _ (Stride.get?_set_of_ne _ h _)
  · cases unknowns
    · rfl
    · exact congrArg _ (Stride.get?_set_of_ne _ h _)
  · cases control
    · rfl
    · exact List.getElem?_set_ne h

private theorem set_of_getElem? {β : Type} {xs : List β} {i : Nat} {b : β} (h : xs[i]? = some b) : xs.set i b = xs := by
  obtain ⟨_, rfl⟩ := List.getElem?_eq_some_iff.1 h
  exact List.set_getElem_self _

/-- Writing another control into the slot that is there changes nothing but the control. -/
private theorem putSlot_control (s : FlowState α) (w : Nat) (c : Option Nat) :
    s.putSlot w { s.slot w with control := c } = { s with control := c.elim s.control (s.control.set w) } := by
  unfold putSlot slot
  congr 1
  · dsimp only
    cases h : s.bhp[w]? with
    | none => rfl
    | some b => exact set_of_getElem? h
  · dsimp only
    cases h : s.thp[w]? with
    | none => rfl
    | some b => exact set_of_getElem? h
  · dsimp only
    cases h : Stride.get? s.rates w with
    | none => rfl
    | some v => exact Stride.set_of_get? h
  · dsimp only
    cases h : Stride.get? s.unknowns w with
    | none => rfl
    | some v => exact Stride.set_of_get? h

theorem control_putSlot {s : FlowState α} {w : Nat} {t : Slot α} (h : t.control = s.control[w]?) :
    (s.putSlot w t).control = s.control := by
  change t.control.elim s.control (s.control.set w) = s.control
  rw [h]
  cases hc : s.control[w]? with
  | none => rfl
  | some c => exact set_of_getElem? hc

theorem putSlot_slot (s : FlowState α) (w : Nat) : s.putSlot w (s.slot w) = s := by
  have hc : (s.putSlot w (s.slot w)).control = s.control := control_putSlot rfl
  have h := putSlot_control s w s.control[w]?
  change s.putSlot w (s.slot w) = _ at h
  rw [h]
  rw [h] at hc
  dsimp only at hc
  rw [hc]

private theorem getElem?_elim_set {β : Type} {xs : List β} {i : Nat} {b : Option β} (h : b.isSome = xs[i]?.isSome) :
    (b.elim xs (xs.set i))[i]? = b := by
  cases b with
  | none => exact Option.not_isSome_iff_eq_none.1 (h ▸ Bool.false_ne_true)
  | some b =>
    obtain ⟨c, hc⟩ := Option.isSome_iff_exists.1 h.symm
    exact List.getElem?_set_self (List.getElem?_eq_some_iff.1 hc).1

private theorem get?_elim_set {β : Type} (f : β → Vec3 α) (g : Vec3 α → β) (hg : ∀ b, g (f b) = b) {xs : List α}
    {i : Nat}
    {b : Option β} (h : b.isSome = ((Stride.get? xs i).map g).isSome) :
    (Stride.get? (b.elim xs fun q => Stride.set xs i (f q)) i).map g = b := by
  cases b with
  | none => exact Option.not_isSome_iff_eq_none.1 (h ▸ Bool.false_ne_true)
  | some b =>
    have hi := h.symm
    rw [Option.isSome_map, Option.isSome_some, Stride.get?_isSome_iff] at hi
    rw [Option.elim_some, Stride.get?_set_self hi, Option.map_some, hg]

/-- A slot that has what was there before is what is read back. -/
theorem slot_putSlot_self {s : FlowState α} {w : Nat} {t : Slot α} (h : (s.slot w).Refilled t) :
    (s.putSlot w t).slot w = t := by
  have hcontrol : t.control.isSome = s.control[w]?.isSome := congrArg Option.isSome h.control
  have hb := getElem?_elim_set h.bhp
  have hp := getElem?_elim_set h.thp
  have hr := get?_elim_set PerPhase.toVec PerPhase.ofVec PerPhase.ofVec_toVec h.rates
  have hu := get?_elim_set Unknowns.toVec Unknowns.ofVec Unknowns.ofVec_toVec h.unknowns
  have hc := getElem?_elim_set hcontrol
  unfold slot putSlot
  dsimp only
  rw [hb, hp, hr, hu, hc]

theorem run_onSlot {β : Type} (w : Nat) (act : Attempt α (Slot α) β) (s : FlowState α) :
    onSlot w act s = ((act (s.slot w)).1, s.putSlot w (act (s.slot w)).2) := rfl

/-- Putting a well on a control changes nothing but the control of the well. -/
theorem run_putControl (w i : Nat) (s : FlowState α) : onSlot w (Slot.putControl i) s =
    if w < s.control.length then (.ok ⟨⟩, { s with control := s.control.set w i }) else (.error .outOfRange, s) := by
  rw [run_onSlot]
  unfold Slot.putControl
  rw [run_get_bind]
  have hget : (s.slot w).control = s.control[w]? := rfl
  rw [hget]
  by_cases hw : w < s.control.length
  · rw [if_pos hw, List.getElem?_eq_getElem hw]
    exact Prod.ext rfl (putSlot_control s w (some i))
  · rw [if_neg hw, List.getElem?_eq_none (Nat.le_of_not_lt hw)]
    exact Prod.ext rfl (putSlot_slot s w)

end FlowState

variable [Scalar α]

/-! ### Unknowns with closed fractions -/

/-- Unknowns with the fractions that come out of `closeFractions`. -/
def Unknowns.Normal (phases : PhaseSet) (u : Unknowns α) : Prop :=
  ∃ water gas, u.water = (closeFractions phases water gas).water ∧ u.gas = (closeFractions phases water gas).gas

private theorem Outcome.finite_ok {x y : α} {quantity : String} (h : Outcome.finite x quantity = .ok y) : y = x := by
  unfold finite at h
  split at h
  · exact (Except.ok.inj h).symm
  · cases h

theorem Well.normal_of_encode {w : Well α} {phases : PhaseSet} {control : Control α} {rates : PerPhase α}
    {bhp : Outcome α α} {u : Unknowns α} (h : w.encode phases control rates bhp = .ok u) : u.Normal phases := by
  obtain ⟨_, -, h⟩ := Outcome.bind_ok.1 h
  obtain ⟨_, -, h⟩ := Outcome.bind_ok.1 h
  obtain ⟨water, hw, h⟩ := Outcome.bind_ok.1 h
  obtain ⟨gas, hg, h⟩ := Outcome.bind_ok.1 h
  cases h
  exact ⟨_, _, Outcome.finite_ok hw, Outcome.finite_ok hg⟩

/-! ### Stops -/

/-- Whether a fault lies in computed values: a numerical problem or an error of the fluid model. -/
def Fault.Computational : Fault α → Prop
  | .error (.numerical _) | .error (.fluid _) => True
  | _ => False

omit [Scalar α] in
theorem Fault.computational_iff {e : Fault α} :
    e.Computational ↔ (∃ c, e = .numerical c) ∨ ∃ c, e = .error (.fluid c) := by
  constructor
  · intro h
    unfold Computational at h
    split at h
    · exact .inl ⟨_, rfl⟩
    · exact .inr ⟨_, rfl⟩
    · exact h.elim
  · rintro (⟨c, rfl⟩ | ⟨c, rfl⟩) <;> trivial

section Stops

variable {F : Fault α → Prop}

/-- What reading the lift tables of a model may stop for. -/
structure LiftTables.Stops (F : Fault α → Prop) (ts : LiftTables α) : Prop where
  bhp : ∀ t ∈ ts.list, ∀ rates thp, (t.bhp rates thp).Stops F
  thp : ∀ t ∈ ts.list, ∀ rates bhp, (t.thp rates bhp).Stops F

/-- What looking up and reading the lift tables of the constraints of a well may stop for. -/
structure LiftTables.Serves (F : Fault α → Prop) (w : Well α) (ts : LiftTables α) : Prop where
  find : ∀ c ∈ w.controls.list, ∀ id x, c.kind = .thp id x → (ts.get id).Stops F
  read : ts.Stops F

theorem LiftTables.serves_true (ts : LiftTables α) (w : Well α) : ts.Serves (fun _ => True) w :=
  ⟨fun _ _ _ _ _ _ _ => trivial, fun _ _ _ _ _ _ => trivial, fun _ _ _ _ _ _ => trivial⟩

omit [Scalar α] in
private theorem LiftTables.get_ok {ts : LiftTables α} {id : Nat} {t : LiftTable α} (h : ts.get id = .ok t) :
    t ∈ ts.list := by
  unfold get at h
  cases hf : ts.list.find? (·.id == id) with
  | none =>
    rw [hf] at h
    cases h
  | some t' =>
    rw [hf] at h
    cases h
    exact List.mem_of_find?_eq_some hf

omit [Scalar α] in
theorem Controls.getElem?_of_get {cs : Controls α} {i : Nat} {c : Control α} (h : cs.get i = .ok c) :
    cs.list[i]? = some c := by
  unfold get at h
  cases hc : cs.list[i]? with
  | none =>
    rw [hc] at h
    cases h
  | some c' =>
    rw [hc] at h
    cases h
    rfl

/-- Constraints that are accepted. -/
theorem Controls.create_ok {list : List (Control α)} {i : Nat} {cs : Controls α}
    (h : Controls.create list i = .ok cs) : cs = ⟨list, i⟩ ∧ i < list.length ∧
      ∀ c ∈ list, Scalar.isFinite c.target = true ∧ ∀ d ∈ c.weights.toList, ¬d < 0 ∧ Scalar.isFinite d = true := by
  unfold create at h
  by_cases hempty : list.isEmpty = true
  · rw [if_pos hempty] at h
    cases h
  rw [if_neg hempty] at h
  by_cases hi : list.length ≤ i
  · rw [if_pos hi] at h
    cases h
  rw [if_neg hi] at h
  obtain ⟨_, hall, h⟩ := Outcome.bind_ok.1 h
  cases h
  refine ⟨rfl, Nat.lt_of_not_le hi, fun c hc => ?_⟩
  have hcheck := Outcome.forM_ok hall hc
  by_cases htarget : Scalar.isFinite c.target = true
  · refine ⟨htarget, fun d hd => ?_⟩
    rw [if_neg (not_not_intro htarget)] at hcheck
    by_cases hweights : (c.weights.toList.any fun d => decide (d < 0) || !Scalar.isFinite d) = true
    · rw [if_pos hweights] at hcheck
      cases hcheck
    · rw [List.any_eq_true, not_exists] at hweights
      simpa [hd] using hweights d
  · rw [if_pos htarget] at hcheck
    cases hcheck

omit [Scalar α] in
private theorem Controls.mem_of_firstLift? {cs : Controls α} {id : Nat} {x : α} (h : cs.firstLift? = some (id, x)) :
    ∃ c ∈ cs.list, c.kind = .thp id x := by
  obtain ⟨c, hc, hlift⟩ := List.exists_of_findSome?_eq_some h
  refine ⟨c, hc, ?_⟩
  unfold ControlKind.lift? at hlift
  split at hlift
  · cases hlift
    assumption
  · cases hlift

omit [Scalar α] in
theorem Slot.mem_of_currentControl {s : Slot α} {w : Well α} {c : Control α} (h : s.currentControl w = .ok c) :
    c ∈ w.controls.list := by
  obtain ⟨i, -, h⟩ := Outcome.bind_ok.1 h
  exact List.mem_of_getElem? (Controls.getElem?_of_get h)

section Lookup

variable (hF : ∀ e, F (.error e))

include hF

omit [Scalar α] in
theorem LiftTables.get_stops (ts : LiftTables α) (id : Nat) : (ts.get id).Stops F := by
  unfold get
  cases ts.list.find? (·.id == id) with
  | none => exact .error (hF _)
  | some t => exact .ok t

omit [Scalar α] in
theorem Controls.get_stops (cs : Controls α) (i : Nat) : (cs.get i).Stops F := by
  unfold get
  cases cs.list[i]? with
  | none => exact .error (hF _)
  | some c => exact .ok c

omit [Scalar α] in
theorem Controls.setTarget_stops (cs : Controls α) (i : Nat) (target : α) : (cs.setTarget i target).Stops F := by
  unfold setTarget
  cases cs.list[i]? with
  | none => exact .error (hF _)
  | some c => exact .ok _

end Lookup

section Encode

variable (hF : ∀ e, Fault.Computational e → F e)

include hF

theorem Outcome.finite_stops (x : α) (quantity : String) : (Outcome.finite x quantity).Stops F :=
  .ite (fun _ => .ok x) fun _ => .error (hF _ trivial)

theorem Well.encode_stops (w : Well α) (phases : PhaseSet) (control : Control α) (rates : PerPhase α)
    {bhp : Outcome α α} (h : bhp.Stops F) : (w.encode phases control rates bhp).Stops F := by
  refine Outcome.Stops.bind (.ite (fun _ => .ok _) fun _ => h) fun lead _ => ?_
  refine (Outcome.finite_stops hF _ _).bind fun _ _ => (Outcome.finite_stops hF _ _).bind fun _ _ => ?_
  exact (Outcome.finite_stops hF _ _).bind fun _ _ => .ok _

end Encode

namespace WellUnit

variable {setup : Setup α} (u : WellUnit α) (hl : setup.lift.Stops F)

include hl

theorem bhpOfThp_stops {table : Nat} (ht : (setup.lift.get table).Stops F) (rates : PerPhase (WellDual α)) (thp : α) :
    (u.bhpOfThp setup table rates thp).Stops F :=
  ht.bind fun t ht => (hl.bhp t (LiftTables.get_ok ht) rates thp).bind fun _ _ => .ok _

private theorem thpOfBhp_stops {table : Nat} (ht : (setup.lift.get table).Stops F) (rates : PerPhase α) (bhp : α) :
    (u.thpOfBhp setup table rates bhp).Stops F :=
  ht.bind fun t ht => hl.thp t (LiftTables.get_ok ht) rates _

omit hl in
private theorem bhpOf_stops (hl : setup.lift.Serves F u.well) {control : Control α}
    (hc : control ∈ u.well.controls.list)
    (lead : α) (rates : PerPhase α) : (u.bhpOf setup control lead rates).Stops F := by
  unfold bhpOf
  cases hk : control.kind with
  | thp table lift => exact (u.bhpOfThp_stops hl.read (hl.find control hc table lift hk) _ _).bind fun _ _ => .ok _
  | bhp => exact .ok _
  | surfaceRate => exact .ok _
  | reservoirRate => exact .ok _

end WellUnit

end Stops

/-! ### Operations on a slot -/

namespace Slot

/-- Properties of the slot of a well that depend on its control and on what it has, but not on its pressures and rates,
and on its unknowns only as far as these are normal; and for what operations on such slots may stop. -/
structure Closed (w : Well α) (phases : PhaseSet) (P : Slot α → Prop) (F : Fault α → Prop) : Prop where
  computational : ∀ e, Fault.Computational e → F e
  bhp : ∀ {s}, P s → (s.bhp = none → F .outOfRange) ∧ ∀ b x, s.bhp = some b → P { s with bhp := some x }
  thp : ∀ {s}, P s → (s.thp = none → F .outOfRange) ∧ ∀ b x, s.thp = some b → P { s with thp := some x }
  rates : ∀ {s}, P s → (s.rates = none → F .outOfRange) ∧ ∀ b x, s.rates = some b → P { s with rates := some x }
  unknowns : ∀ {s}, P s →
    (s.unknowns = none → F .outOfRange) ∧
      ∀ b x, s.unknowns = some b → x.Normal phases → P { s with unknowns := some x }
  control : ∀ {s : Slot α}, P s → (s.currentControl w).Stops F

variable {w : Well α} {phases : PhaseSet} {P : Slot α → Prop} {F : Fault α → Prop}

omit [Scalar α] in
/-- Writing to a place that may be absent. -/
private theorem write_keeps {β : Type} {place : Slot α → Option β} {put : Slot α → Slot α}
    (h : ∀ {s}, P s → (place s = none → F .outOfRange) ∧ ∀ b, place s = some b → P (put s)) :
    Keeps P F (get >>= fun s => Attempt.need (place s) >>= fun _ => modify put : Attempt α (Slot α) PUnit) := by
  refine .get_bind fun s hs => ?_
  cases hb : place s with
  | none => exact ⟨hs, .error ((h hs).1 hb)⟩
  | some b => exact ⟨(h hs).2 b hb, .ok _⟩

/-! A write that succeeds has found its place. -/

omit [Scalar α] in
private theorem write_ok {β : Type} {place : Slot α → Option β} {put : Slot α → Slot α} {s t : Slot α} :
    (get >>= fun s => Attempt.need (place s) >>= fun _ => modify put : Attempt α (Slot α) PUnit) s = (.ok ⟨⟩, t) ↔
      (place s).isSome ∧ t = put s := by
  rw [run_get_bind, need_bind_ok, Option.isSome_iff_exists]
  constructor
  · rintro ⟨b, hb, h⟩
    cases h
    exact ⟨⟨b, hb⟩, rfl⟩
  · rintro ⟨⟨b, hb⟩, rfl⟩
    exact ⟨b, hb, rfl⟩

omit [Scalar α] in
theorem putBhp_ok {x : α} {s t : Slot α} : putBhp x s = (.ok ⟨⟩, t) ↔ s.bhp.isSome ∧ t = { s with bhp := some x } :=
  write_ok

omit [Scalar α] in
theorem putThp_ok {x : α} {s t : Slot α} : putThp x s = (.ok ⟨⟩, t) ↔ s.thp.isSome ∧ t = { s with thp := some x } :=
  write_ok

omit [Scalar α] in
theorem putRates_ok {q : PerPhase α} {s t : Slot α} :
    putRates q s = (.ok ⟨⟩, t) ↔ s.rates.isSome ∧ t = { s with rates := some q } := write_ok

omit [Scalar α] in
theorem putUnknowns_ok {x : Unknowns α} {s t : Slot α} :
    putUnknowns x s = (.ok ⟨⟩, t) ↔ s.unknowns.isSome ∧ t = { s with unknowns := some x } := write_ok

/-! A write that stops has not found its place, and has written nothing. -/

omit [Scalar α] in
private theorem write_error {β : Type} {place : Slot α → Option β} {put : Slot α → Slot α} {s t : Slot α} {e : Fault α}
    (h : (get >>= fun s => Attempt.need (place s) >>= fun _ => modify put : Attempt α (Slot α) PUnit) s =
      (.error e, t)) : place s = none ∧ t = s := by
  rw [run_get_bind] at h
  cases hb : place s with
  | none =>
    rw [hb] at h
    cases h
    exact ⟨rfl, rfl⟩
  | some b =>
    rw [hb] at h
    cases h

omit [Scalar α] in
theorem putBhp_error {x : α} {s t : Slot α} {e : Fault α} (h : putBhp x s = (.error e, t)) : s.bhp = none ∧ t = s :=
  write_error h

omit [Scalar α] in
theorem putThp_error {x : α} {s t : Slot α} {e : Fault α} (h : putThp x s = (.error e, t)) : s.thp = none ∧ t = s :=
  write_error h

omit [Scalar α] in
theorem putRates_error {q : PerPhase α} {s t : Slot α} {e : Fault α} (h : putRates q s = (.error e, t)) :
    s.rates = none ∧ t = s := write_error h

omit [Scalar α] in
theorem putUnknowns_error {x : Unknowns α} {s t : Slot α} {e : Fault α} (h : putUnknowns x s = (.error e, t)) :
    s.unknowns = none ∧ t = s := write_error h

theorem seed_ok {s t : Slot α} (h : Slot.seed phases w s = (.ok ⟨⟩, t)) : ∃ x, t = { s with unknowns := some x } := by
  unfold Slot.seed at h
  rw [run_get_bind] at h
  obtain ⟨control, -, h⟩ := outcome_bind_ok.1 h
  obtain ⟨rates, -, h⟩ := need_bind_ok.1 h
  obtain ⟨x, -, h⟩ := outcome_bind_ok.1 h
  exact ⟨x, (putUnknowns_ok.1 h).2⟩

private theorem putBhp_keeps (hP : Closed w phases P F) (x : α) : Keeps P F (putBhp x) :=
  write_keeps fun hs => ⟨(hP.bhp hs).1, fun b => (hP.bhp hs).2 b x⟩

private theorem putThp_keeps (hP : Closed w phases P F) (x : α) : Keeps P F (putThp x) :=
  write_keeps fun hs => ⟨(hP.thp hs).1, fun b => (hP.thp hs).2 b x⟩

private theorem putRates_keeps (hP : Closed w phases P F) (q : PerPhase α) : Keeps P F (putRates q) :=
  write_keeps fun hs => ⟨(hP.rates hs).1, fun b => (hP.rates hs).2 b q⟩

private theorem putUnknowns_keeps (hP : Closed w phases P F) {u : Unknowns α} (hu : u.Normal phases) :
    Keeps P F (putUnknowns u) :=
  write_keeps fun hs => ⟨(hP.unknowns hs).1, fun b hb => (hP.unknowns hs).2 b u hb hu⟩

private theorem seed_keeps (hP : Closed w phases P F) : Keeps P F (Slot.seed phases w) := by
  refine .get_bind fun s hs => ?_
  refine Keeps.bind (.outcome (hP.control hs)) (fun control => ?_) s hs
  refine Keeps.bind (.need (hP.rates hs).1) fun rates => ?_
  refine Keeps.outcome_bind (Well.encode_stops hP.computational w phases control rates ?_) fun u hu => ?_
  · exact .need (hP.bhp hs).1
  · exact putUnknowns_keeps hP (Well.normal_of_encode hu)

private theorem closed_refilled (s : Slot α) (w : Well α) (phases : PhaseSet) :
    Closed w phases s.Refilled fun _ => True where
  computational _ _ := trivial
  bhp h := ⟨fun _ => trivial, fun _ _ hb => { h with bhp := (congrArg Option.isSome hb).symm.trans h.bhp }⟩
  thp h := ⟨fun _ => trivial, fun _ _ hb => { h with thp := (congrArg Option.isSome hb).symm.trans h.thp }⟩
  rates h := ⟨fun _ => trivial, fun _ _ hb => { h with rates := (congrArg Option.isSome hb).symm.trans h.rates }⟩
  unknowns h :=
    ⟨fun _ => trivial, fun _ _ hb _ => { h with unknowns := (congrArg Option.isSome hb).symm.trans h.unknowns }⟩
  control _ _ _ := trivial
end Slot

namespace WellUnit

variable {setup : Setup α} {P : Slot α → Prop} {F : Fault α → Prop} {u : WellUnit α}
  (hP : Slot.Closed u.well setup.phases P F) (hl : setup.lift.Serves F u.well)

include hP hl

private theorem updateThp_keeps (control : Control α) : Keeps P F (u.updateThp setup control) := by
  unfold updateThp
  cases control.kind with
  | thp => exact Slot.putThp_keeps hP _
  | _ =>
    dsimp only
    cases hlift : u.well.controls.firstLift? with
    | none => exact .pure _
    | some table =>
      obtain ⟨c, hc, hk⟩ := Controls.mem_of_firstLift? hlift
      refine .get_bind fun s hs => ?_
      refine Keeps.bind (.need (hP.rates hs).1) (fun rates => ?_) s hs
      refine Keeps.bind (.need (hP.bhp hs).1) fun bhp => ?_
      refine Keeps.bind (.outcome (u.thpOfBhp_stops hl.read (hl.find c hc _ _ hk) _ _)) fun thp => ?_
      exact Slot.putThp_keeps hP _

theorem applyUpdate_keeps (dx : Vec3 α) : Keeps P F (u.applyUpdate setup dx) := by
  refine Keeps.when (fun _ => .throw (hP.computational _ trivial)) fun _ => .get_bind fun s hs => ?_
  refine Keeps.outcome_bind (hP.control hs) (fun control hc => ?_) s hs
  have hmem := Slot.mem_of_currentControl hc
  refine Keeps.bind (.need (hP.unknowns hs).1) fun old => ?_
  refine Keeps.bind (.need (hP.rates hs).1) fun rates => ?_
  refine Keeps.bind (.outcome (u.bhpOf_stops hl hmem _ _)) fun bhp => ?_
  refine Keeps.bind (Slot.putBhp_keeps hP _) fun _ => ?_
  refine Keeps.bind (Slot.putUnknowns_keeps hP ⟨_, _, rfl, rfl⟩) fun _ => ?_
  exact Keeps.bind (Slot.putRates_keeps hP _) fun _ => updateThp_keeps hP hl control

theorem moveToTarget_keeps : Keeps P F (u.moveToTarget setup) := by
  refine .get_bind fun s hs => ?_
  refine Keeps.outcome_bind (hP.control hs) (fun control hc => ?_) s hs
  have hseed := Slot.seed_keeps hP
  cases hk : control.kind with
  | bhp => exact Keeps.bind (Slot.putBhp_keeps hP _) fun _ => hseed
  | thp table lift =>
    have htable := hl.find control (Slot.mem_of_currentControl hc) table lift hk
    refine Keeps.bind (.need (hP.rates hs).1) fun rates => ?_
    refine Keeps.bind (.outcome (u.bhpOfThp_stops hl.read htable _ _)) fun bhp => ?_
    exact Keeps.bind (Slot.putBhp_keeps hP _) fun _ => Keeps.bind (Slot.putThp_keeps hP _) fun _ => hseed
  | reservoirRate => exact hseed
  | surfaceRate =>
    refine Keeps.bind (.need (hP.rates hs).1) fun rates => ?_
    exact Keeps.bind (Slot.putRates_keeps hP _) fun _ => hseed

omit hP hl in
theorem applyUpdate_refilled (dx : Vec3 α) (s : Slot α) : s.Refilled (u.applyUpdate setup dx s).2 :=
  (applyUpdate_keeps (s.closed_refilled u.well setup.phases) (setup.lift.serves_true _) dx s (.refl s)).1

omit hP hl in
theorem moveToTarget_refilled (s : Slot α) : s.Refilled (u.moveToTarget setup s).2 :=
  (moveToTarget_keeps (s.closed_refilled u.well setup.phases) (setup.lift.serves_true _) s (.refl s)).1

end WellUnit

end BlackOilWells
