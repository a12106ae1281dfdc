import Mathlib.Tactic.LinearCombination
import Mathlib.Tactic.Linarith
import BlackOilWells.Proofs.FlowInvariants

/-!
# Fractions of the well stream

The water and gas fractions of a well are among its unknowns, and oil closes them.  They are written on two ways, by a
Newton step and from rates after a change of control, and both pass through `closeFractions`.  That function returns
fractions that are not negative and sum to one, whatever it is given, and zero for an absent phase
(`closeFractions_isMix`).  So the unknowns of every well of every run have such fractions (`Session.run_fractions`).

Whether unknowns are normal does not depend on the numbers being exact; only what that says about their fractions does.
-/

namespace BlackOilWells

open Attempt

/-! ### Closing fractions in exact arithmetic -/

section Exact

variable {K : Type} [Field K] [LinearOrder K] [IsStrictOrderedRing K]

/-- Whether fractions are those of a mix of given phases. -/
structure PerPhase.IsMix (phases : PhaseSet) (f : PerPhase K) : Prop where
  nonneg : ∀ p, 0 ≤ f.get p
  sum : f.water + f.oil + f.gas = 1
  absent : ∀ p, p ≠ .oil → phases.isActive p = false → f.get p = 0

/-- Dropping a negative fraction keeps the sum. -/
theorem sum_dropNegative {f : PerPhase K} (h : f.water + f.oil + f.gas = 1) (p : Phase) :
    (dropNegative f p).water + (dropNegative f p).oil + (dropNegative f p).gas = 1 := by
  unfold dropNegative
  split
  case isFalse => exact h
  case isTrue hp =>
    have hscale : 1 - f.get p ≠ 0 := by linarith
    cases p with
    | water =>
      dsimp only [PerPhase.get] at hscale
      change 0 + f.oil / (1 - f.water) + f.gas / (1 - f.water) = 1
      rw [zero_add, ← add_div, div_eq_one_iff_eq hscale]
      linear_combination h
    | oil =>
      dsimp only [PerPhase.get] at hscale
      change f.water / (1 - f.oil) + 0 + f.gas / (1 - f.oil) = 1
      rw [add_zero, ← add_div, div_eq_one_iff_eq hscale]
      linear_combination h
    | gas =>
      dsimp only [PerPhase.get] at hscale
      change f.water / (1 - f.gas) + f.oil / (1 - f.gas) + 0 = 1
      rw [add_zero, ← add_div, div_eq_one_iff_eq hscale]
      linear_combination h

omit [IsStrictOrderedRing K] in
theorem get_dropNegative (f : PerPhase K) (p r : Phase) : (dropNegative f p).get r =
    if f.get p < 0 then if r = p then 0 else f.get r / (1 - f.get p) else f.get r := by
  unfold dropNegative
  split
  · exact PerPhase.get_ofFn _ r
  · rfl

private theorem nonneg_dropNegative {f : PerPhase K} {p r : Phase} (h : r = p ∨ 0 ≤ f.get r) :
    0 ≤ (dropNegative f p).get r := by
  rw [get_dropNegative]
  split
  case isFalse hp =>
    rcases h with rfl | h
    · exact not_lt.1 hp
    · exact h
  case isTrue hp =>
    split
    · exact le_refl 0
    · have hscale : 0 < 1 - f.get p := by linarith
      exact div_nonneg (h.resolve_left ‹_›) hscale.le

omit [IsStrictOrderedRing K] in
private theorem dropNegative_eq_zero {f : PerPhase K} {p r : Phase} (h : f.get r = 0) :
    (dropNegative f p).get r = 0 := by
  rw [get_dropNegative, h, zero_div, ite_self, ite_self]

/-- Closed fractions are those of a mix. -/
theorem closeFractions_isMix (phases : PhaseSet) (water gas : K) : (closeFractions phases water gas).IsMix phases where
  nonneg
    | .water => nonneg_dropNegative (.inr (nonneg_dropNegative (.inr (nonneg_dropNegative (.inl rfl)))))
    | .gas => nonneg_dropNegative (.inr (nonneg_dropNegative (.inl rfl)))
    | .oil => nonneg_dropNegative (.inl rfl)
  sum := sum_dropNegative (sum_dropNegative (sum_dropNegative (by dsimp only; ring) _) _) _
  absent p hp ha := by
    refine dropNegative_eq_zero (dropNegative_eq_zero (dropNegative_eq_zero ?_))
    cases p with
    | water => exact if_neg (Bool.eq_false_iff.1 ha)
    | gas => exact if_neg (Bool.eq_false_iff.1 ha)
    | oil => exact absurd rfl hp

/-- The fractions of water, oil and gas that unknowns stand for. -/
def Unknowns.fractions (u : Unknowns K) : PerPhase K := ⟨u.water, 1 - u.water - u.gas, u.gas⟩

private theorem Unknowns.Normal.isMix {phases : PhaseSet} {u : Unknowns K} (h : u.Normal phases) :
    u.fractions.IsMix phases := by
  obtain ⟨water, gas, hw, hg⟩ := h
  have hmix := closeFractions_isMix phases water gas
  have hf : u.fractions = closeFractions phases water gas := by
    have hoil : 1 - u.water - u.gas = (closeFractions phases water gas).oil := by
      rw [hw, hg]
      linear_combination -hmix.sum
    rw [fractions, hoil, hw, hg]
  rwa [hf]

end Exact

variable {ω α γ : Type} [Scalar α]

/-! ### Normal states -/

/-- Whether a slot has normal unknowns. -/
def Slot.Normal (phases : PhaseSet) (s : Slot α) : Prop := ∃ u, s.unknowns = some u ∧ u.Normal phases

private theorem Slot.closed_normal (w : Well α) (phases : PhaseSet) :
    Slot.Closed w phases (Slot.Normal phases) fun _ => True where
  computational _ _ := trivial
  bhp h := ⟨fun _ => trivial, fun _ _ _ => h⟩
  thp h := ⟨fun _ => trivial, fun _ _ _ => h⟩
  rates h := ⟨fun _ => trivial, fun _ _ _ => h⟩
  unknowns _ := ⟨fun _ => trivial, fun _ x _ hx => ⟨x, rfl, hx⟩⟩
  control _ _ _ := trivial

private theorem Stride.get?_flatMap {β δ : Type} (f : β → Vec3 δ) (bs : List β) (i : Nat) :
    Stride.get? (bs.flatMap fun b => (f b).toList) i = bs[i]?.map f := by
  induction bs generalizing i with
  | nil => rw [Stride.get?_eq]; rfl
  | cons b bs ih =>
    cases i with
    | zero => rfl
    | succ i => exact ih i

namespace FlowState

/-- Whether the first `n` wells have normal unknowns. -/
def Normal (phases : PhaseSet) (n : Nat) (s : FlowState α) : Prop := ∀ w < n, (s.slot w).Normal phases

variable {phases : PhaseSet} {n : Nat} {s : FlowState α}

/-- Of the state only what it holds for the wells matters. -/
private theorem Normal.of_slots (h : s.Normal phases n) {t : FlowState α} (ht : ∀ w, t.slot w = s.slot w) :
    t.Normal phases n := fun w hw => ht w ▸ h w hw

omit [Scalar α] in
private theorem unknowns_putSlot {w : Nat} (h : (s.slot w).unknowns.isSome) {t : Slot α} {u : Unknowns α}
    (ht : t.unknowns = some u) : ((s.putSlot w t).slot w).unknowns = some u := by
  unfold slot putSlot at *
  rw [Option.isSome_map, Stride.get?_isSome_iff] at h
  dsimp only
  rw [ht, Option.elim_some, Stride.get?_set_self h]
  rfl

private theorem Normal.onSlot {β : Type} {act : Attempt α (Slot α) β} (hact : Maintains (Slot.Normal phases) act)
    (w : Nat) :
    Maintains (Normal phases n) (onSlot w act) := by
  intro s hs v hv
  rw [run_onSlot]
  by_cases hwv : w = v
  · subst hwv
    obtain ⟨u, hu, hnormal⟩ := hact _ (hs w hv)
    obtain ⟨u₀, hu₀, -⟩ := hs w hv
    exact ⟨u, unknowns_putSlot (hu₀ ▸ rfl) hu, hnormal⟩
  · rw [slot_putSlot_of_ne _ hwv]
    exact hs v hv

private theorem Normal.putControl (w i : Nat) :
    Maintains (Normal (α := α) phases n) (FlowState.onSlot w (Slot.putControl i)) := by
  refine .onSlot (.get_bind fun s hs => ?_) w
  cases s.control <;> exact hs

/-- A start has normal unknowns. -/
theorem normal_of_init {ws : Wells α} {cells : List (Cell α)} (h : FlowState.init ws cells phases = .ok s) :
    s.Normal phases ws.list.length := by
  obtain ⟨starts, hstarts, h⟩ := Outcome.bind_ok.1 h
  cases h
  intro w hw
  have hlt : w < starts.length := (Outcome.mapM_ok.1 hstarts).length_eq ▸ hw
  refine ⟨starts[w].unknowns, ?_, ?_⟩
  · change (Stride.get? (starts.flatMap fun t => t.unknowns.toVec.toList) w).map _ = _
    rw [Stride.get?_flatMap fun t : WellStart α => t.unknowns.toVec, List.getElem?_eq_getElem hlt]
    rfl
  · have hstart := Outcome.ok_of_getElem? hstarts (List.getElem?_eq_getElem hw) (List.getElem?_eq_getElem hlt)
    obtain ⟨control, -, h⟩ := Outcome.bind_ok.1 hstart
    obtain ⟨pressures, -, h⟩ := Outcome.bind_ok.1 h
    obtain ⟨top, -, h⟩ := Outcome.bind_ok.1 h
    obtain ⟨unknowns, hu, h⟩ := Outcome.bind_ok.1 h
    rw [← Except.ok.inj h]
    exact Well.normal_of_encode hu

end FlowState

namespace Model

variable {n : Nat} (m : Model α)

private theorem applyUpdates_normal (updates : List (Vec3 α)) :
    Maintains (FlowState.Normal m.setup.phases n) (m.applyUpdates updates) := by
  refine .get_bind fun s hs => Maintains.bind (.outcome _) (fun _ => ?_) s hs
  refine Maintains.when (fun _ => .throw _) fun _ => Maintains.bind (.forM fun p _ => ?_) fun _ => .modify fun _ h => h
  exact .onSlot (WellUnit.applyUpdate_keeps (Slot.closed_normal _ _) (m.setup.lift.serves_true _) _).maintains _

private theorem moveToTarget_normal (w : Nat) : Maintains (FlowState.Normal m.setup.phases n) (m.moveToTarget w) :=
  Maintains.bind (.outcome _) fun u =>
    .onSlot (WellUnit.moveToTarget_keeps (Slot.closed_normal _ _) (m.setup.lift.serves_true u.well)).maintains w

private theorem putPotentials_normal (phases : PhaseSet) (cells : List (Cell α)) :
    Maintains (FlowState.Normal phases n) (m.putPotentials cells) := by
  refine .get_bind fun s hs => Maintains.bind (.outcome _) (fun _ => .forM fun p _ => ?_) s hs
  refine .get_bind fun s hs => Maintains.bind (.need _) (fun rates => ?_) s hs
  refine Maintains.bind (.outcome _) fun limit => Maintains.bind (.outcome _) fun crossFlow => .forM fun link _ => ?_
  refine Maintains.bind (.outcome _) fun flux => .get_bind fun s hs => Maintains.bind (.need _) (fun _ => ?_) s hs
  exact fun _ _ => hs

private theorem assemble_normal (phases : PhaseSet) (cells : List (Cell α)) (dt : α) :
    Maintains (FlowState.Normal phases n) (m.assemble cells dt) := fun s hs =>
  hs.of_slots (FlowState.slot_of_atWells (m.atWells_of_assemble cells dt s))

end Model

/-- Models with given phases keep the unknowns of a number of wells normal. -/
theorem flowInvariant_normal (phases : PhaseSet) (n : Nat) :
    FlowInvariant (fun m : Model α => m.setup.phases = phases ∧ m.units.length = n) (FlowState.Normal phases n) where
  model {m m'} hm hsetup hwells := by
    have hlength : m'.wells.untargeted.length = m.wells.untargeted.length := by rw [hwells]
    simp only [Wells.untargeted, Model.wells, List.length_map] at hlength
    exact ⟨hsetup ▸ hm.1, hlength.trans hm.2⟩
  init {m _ _} hm h := by
    have hf := FlowState.normal_of_init h
    rwa [hm.1, Model.wells, List.length_map, hm.2] at hf
  revision _ h := h
  putControl w i := .putControl w i
  moveToTarget {m} w hm := hm.1 ▸ m.moveToTarget_normal w
  applyUpdates {m} updates hm := hm.1 ▸ m.applyUpdates_normal updates
  assemble {m} cells dt _ := m.assemble_normal phases cells dt
  putPotentials {m} cells _ := m.putPotentials_normal phases cells

namespace Session

/-! ### Normal sessions -/

/-- Whether the wells of a session, `n` of them, have normal unknowns. -/
structure Normal (phases : PhaseSet) (n : Nat) (s : Session α γ) : Prop where
  phases_eq : s.model.setup.phases = phases
  length_units : s.model.units.length = n
  flow : s.flow.Normal phases n

variable {phases : PhaseSet} {n : Nat}

private theorem normal_eq : Normal (γ := γ) (α := α) phases n =
    Meets (fun m => m.setup.phases = phases ∧ m.units.length = n) (FlowState.Normal phases n) := by
  funext s
  exact propext ⟨fun h => ⟨⟨h.phases_eq, h.length_units⟩, h.flow⟩, fun h => ⟨h.model.1, h.model.2, h.flow⟩⟩

/-- A start has normal unknowns. -/
theorem normal_of_start {m : Model α} {groups : γ} {cells : List (Cell α)} {s : Session α γ}
    (h : m.start groups cells = .ok s) : s.Normal m.setup.phases m.units.length := by
  rw [normal_eq]
  exact (flowInvariant_normal m.setup.phases m.units.length).of_start ⟨rfl, rfl⟩ h

/-- Every operation keeps a session normal, whether it succeeds or stops. -/
theorem lasting_normal [GroupControl α γ] : Lasting (Normal (γ := γ) (α := α) phases n) fun _ => True := by
  rw [normal_eq]
  exact (flowInvariant_normal phases n).lasting

section Exact

variable {K : Type} [Field K] [LinearOrder K] [IsStrictOrderedRing K] [GroupControl K γ]

/-- Work on accepted wells, with an accepted model: after the start and any operations, whether they have succeeded or
stopped, each well has a water and a gas fraction that are not negative and add up to one at most, so that oil closes
them, and the fraction of an absent phase is zero.  Oil is absent from no model that has the phases of its wells. -/
theorem run_fractions {list : List (Well K)} {phases : PhaseSet} {numCells : Nat} {ws : Wells K} {setup : Setup K}
    {m : Model K} (hws : Wells.create list phases numCells = .ok ws) (hm : Model.create ws setup = .ok m)
    (comm : Communicator (StateM ω) K) {groups : γ} {cells : List (Cell K)} {s : Session K γ}
    (hs : m.start groups cells = .ok s) (ops : List (Operation K γ)) (w : ω) :
    ∀ v < ws.list.length, ∃ u, ((run comm ops s w).2.1.flow.slot v).unknowns = some u ∧
      0 ≤ u.water ∧ 0 ≤ u.gas ∧ u.water + u.gas ≤ 1 ∧
      (∀ p, 0 ≤ u.fractions.get p) ∧ u.fractions.water + u.fractions.oil + u.fractions.gas = 1 ∧
      ∀ p, setup.phases.isActive p = false → p ≠ .oil ∨ setup.phases = phases → u.fractions.get p = 0 := by
  have hstart := normal_of_start hs
  rw [Model.eq_of_create hm, List.length_map] at hstart
  obtain ⟨hrun, -⟩ := run_keeps (fun op _ => lasting_normal.operation comm op) hstart w
  intro v hv
  obtain ⟨u, hu, hnormal⟩ := hrun.flow v hv
  have hmix := hnormal.isMix
  have hoil : 0 ≤ 1 - u.water - u.gas := hmix.nonneg .oil
  refine ⟨u, hu, hmix.nonneg .water, hmix.nonneg .gas, by linarith, hmix.nonneg, hmix.sum, fun p ha hp => ?_⟩
  refine hmix.absent p (hp.elim id ?_) ha
  rintro hphases rfl
  rw [hphases] at ha
  exact absurd (Wells.oil_of_create hws) (Bool.eq_false_iff.1 ha)

end Exact

/-- The setup of a producer of oil and water. -/
def wateredSetup : Setup ℚ := { (oilProducer 15).model.setup with phases := .oilWater }

/-- Three Newton steps that would take the water fraction below zero, and an assembly without cells. -/
def drainingOperations : List (Operation ℚ (Option (VoidageGroup ℚ))) :=
  [.applyUpdates [⟨0, 9, 9⟩], .applyUpdates [⟨0, 9, 9⟩], .applyUpdates [⟨0, 9, 9⟩], .assemble [] 1 0]

/-- Which of the operations succeed, and the water fraction before and after each of them. -/
def drainingRun : Outcome ℚ (List Bool × List (Option ℚ)) := do
  let ws ← Wells.create [.producer "P" 0 [⟨0, 2, 0, 1⟩] ⟨[⟨.bhp, 90, .replicate 0⟩], 0⟩] .oilWater 1
  let m ← Model.create ws wateredSetup
  let s ← m.start none oilCell
  let after (n : Nat) := run (.serial : Communicator (StateM Unit) ℚ) (drainingOperations.take n) s ()
  return ((after 4).1.map (·.toBool), (List.range 5).map fun n => ((after n).2.1.flow.slot 0).unknowns.map (·.water))

/-- The third step is cut off at zero. -/
theorem run_fractions_draining : ∃ ws m, ∃ s : Session ℚ (Option (VoidageGroup ℚ)),
    Wells.create [.producer "P" 0 [⟨0, 2, 0, 1⟩] ⟨[⟨.bhp, 90, .replicate 0⟩], 0⟩] .oilWater 1 = .ok ws ∧
    Model.create ws wateredSetup = .ok m ∧ m.start none oilCell = .ok s ∧ 0 < ws.list.length ∧
    (run (.serial : Communicator (StateM Unit) ℚ) drainingOperations s ()).1.map (·.toBool) =
      [true, true, true, false] ∧
    (List.range 5).map (fun n => ((run (.serial : Communicator (StateM Unit) ℚ) (drainingOperations.take n) s
      ()).2.1.flow.slot 0).unknowns.map (·.water)) = [some (1 / 2), some (3 / 10), some (1 / 10), some 0, some 0] ∧
    ∃ u, ((run (.serial : Communicator (StateM Unit) ℚ) drainingOperations s ()).2.1.flow.slot 0).unknowns = some u ∧
      0 ≤ u.water ∧ 0 ≤ u.gas ∧ u.water + u.gas ≤ 1 ∧ u.fractions.get .gas = 0 := by
  have hrun : (drainingRun, ()) = (.ok ([true, true, true, false],
      [some (1 / 2), some (3 / 10), some (1 / 10), some 0, some 0]), ()) := run_ok_of_toOption (by decide +kernel)
  obtain ⟨ws, hws, h⟩ := Outcome.bind_ok.1 (Prod.mk.inj hrun).1
  obtain ⟨m, hm, h⟩ := Outcome.bind_ok.1 h
  obtain ⟨s, hs, h⟩ := Outcome.bind_ok.1 h
  obtain ⟨hops, hwater⟩ := Prod.mk.inj (Except.ok.inj h)
  have hlength : 0 < ws.list.length := by
    rw [Wells.length_of_create hws]
    exact Nat.zero_lt_one
  obtain ⟨u, hu, hnonneg, hgas, hsum, -, -, habsent⟩ :=
    run_fractions hws hm (.serial : Communicator (StateM Unit) ℚ) hs drainingOperations () 0 hlength
  exact ⟨ws, m, s, hws, hm, hs, hlength, hops, hwater, u, hu, hnonneg, hgas, hsum, habsent .gas rfl (.inr rfl)⟩

end Session

end BlackOilWells
