import BlackOilWells.Proofs.Exact
import BlackOilWells.Proofs.Fractions
import BlackOilWells.Proofs.InflowDerivatives

/-!
# Absent phases in the flow state

Rates of wells, rates and potentials of connections are kept for all three phases; an absent phase is to have zeros.
Newton steps write it in active phases only, or with the composition of an injector, in which no absent phase remains
after the wells were accepted; and no flow through a connection contains it (`ConnectionInput.flux_absent`).

A start and a change of control, however, write the target of a surface rate control to the phases that the control of a
producer gives a weight, and neither wells nor models are refused for a weight of an absent phase.  Unless a phase has
such a weight, its entries are zero in all states of all runs (`Session.run_lacks`), in exact arithmetic.
-/

namespace BlackOilWells

open Attempt

/-! ### Lists in groups of three -/

namespace Stride

variable {β δ : Type} [Zero β]

/-- Whether the entries of a phase are zero. -/
def Lacks (p : Phase) (xs : List β) : Prop := ∀ i x, xs[3 * i + p.index]? = some x → x = 0

variable {p : Phase}

theorem Lacks.get? {xs : List β} (h : Lacks p xs) {i : Nat} {v : Vec3 β} (hv : Stride.get? xs i = some v) :
    (PerPhase.ofVec v).get p = 0 := by
  obtain ⟨hx, hy, hz⟩ := get?_eq_some_iff.1 hv
  cases p with
  | water => exact h i v.x hx
  | oil => exact h i v.y hy
  | gas => exact h i v.z hz

private theorem Lacks.set {xs : List β} (h : Lacks p xs) (i : Nat) {q : PerPhase β} (hq : q.get p = 0) :
    Lacks p (Stride.set xs i q.toVec) := by
  intro j x hx
  by_cases hij : i = j
  · have hself : q.get p = x := by
      subst hij
      cases p <;> simp [Stride.set, Phase.index, PerPhase.toVec, List.getElem?_set] at hx <;> exact hx.2
    rw [← hself, hq]
  · have hindex : p.index < 3 := by cases p <;> decide
    rw [getElem?_set_of_ne xs hij hindex] at hx
    exact h j x hx

theorem Lacks.flatMap {bs : List δ} {f : δ → PerPhase β} (h : ∀ b ∈ bs, (f b).get p = 0) :
    Lacks p (bs.flatMap fun b => (f b).toList) := by
  induction bs with
  | nil => exact fun _ _ hx => nomatch hx
  | cons b bs ih =>
    obtain ⟨hb, hbs⟩ := List.forall_mem_cons.1 h
    intro i x hx
    cases i with
    | zero =>
      rw [← hb]
      cases p <;> exact (Option.some.inj hx).symm
    | succ i =>
      refine ih hbs i x ?_
      rw [← hx, List.flatMap_cons, show 3 * (i + 1) + p.index = (f b).toList.length + (3 * i + p.index) by
        change _ = 3 + _
        omega, List.getElem?_append_right (Nat.le_add_right ..), Nat.add_sub_cancel_left]

private theorem Lacks.flatMap_flatMap {ε : Type} {bs : List δ} {f : δ → PerPhase β} (g : δ → List ε)
    (h : ∀ b ∈ bs, (f b).get p = 0) : Lacks p (bs.flatMap fun b => (g b).flatMap fun _ => (f b).toList) := by
  have hflat : (bs.flatMap fun b => (g b).flatMap fun _ => (f b).toList) =
      (bs.flatMap fun b => (g b).map fun _ => f b).flatMap (·.toList) := by
    simp only [List.flatMap_assoc, List.flatMap_map]
  rw [hflat]
  refine .flatMap fun q hq => ?_
  obtain ⟨b, hb, hq⟩ := List.mem_flatMap.1 hq
  obtain ⟨_, -, rfl⟩ := List.mem_map.1 hq
  exact h b hb

end Stride

/-! ### Slots -/

variable {α : Type} [Scalar α] {p : Phase}

namespace Slot

/-- Whether the slot of a well has no rate of a phase. -/
def Lacks (p : Phase) (s : Slot α) : Prop := ∀ q, s.rates = some q → q.get p = 0

private theorem write_lacks {β : Type} {place : Slot α → Option β} {put : Slot α → Slot α}
    (h : ∀ s, s.Lacks p → (put s).Lacks p) : Maintains (Lacks p)
      (get >>= fun s => Attempt.need (place s) >>= fun _ => modify put : Attempt α (Slot α) PUnit) := by
  refine .get_bind fun s hs => ?_
  cases place s with
  | none => exact hs
  | some b => exact h s hs

private theorem putBhp_lacks (x : α) : Maintains (Lacks p) (putBhp x) := write_lacks fun _ hs => hs

private theorem putThp_lacks (x : α) : Maintains (Lacks p) (putThp x) := write_lacks fun _ hs => hs

private theorem putUnknowns_lacks (u : Unknowns α) : Maintains (Lacks p) (putUnknowns u) := write_lacks fun _ hs => hs

private theorem putControl_lacks (i : Nat) : Maintains (Lacks (α := α) p) (putControl i) := write_lacks fun _ hs => hs

private theorem putRates_lacks {q : PerPhase α} (hq : q.get p = 0) : Maintains (Lacks p) (putRates q) :=
  write_lacks fun _ _ _ h => by cases h; exact hq

private theorem seed_lacks (phases : PhaseSet) (w : Well α) : Maintains (Lacks p) (Slot.seed phases w) := by
  refine .get_bind fun s hs => ?_
  refine Maintains.bind (.outcome _) (fun control => ?_) s hs
  exact Maintains.bind (.need _) fun rates => Maintains.bind (.outcome _) fun u => putUnknowns_lacks u

end Slot

/-! ### Flow states -/

/-- Whether the rates and potentials of a phase are zero throughout. -/
structure FlowState.Lacks (p : Phase) (s : FlowState α) : Prop where
  rates : Stride.Lacks p s.rates
  connectionRates : Stride.Lacks p s.connectionRates
  potentials : Stride.Lacks p s.potentials

namespace FlowState

variable {s : FlowState α}

private theorem Lacks.slot (h : s.Lacks p) (w : Nat) : (s.slot w).Lacks p := by
  intro q hq
  obtain ⟨v, hv, rfl⟩ := Option.map_eq_some_iff.1 hq
  exact h.rates.get? hv

private theorem Lacks.putSlot (h : s.Lacks p) (w : Nat) {t : Slot α} (ht : t.Lacks p) : (s.putSlot w t).Lacks p := by
  refine ⟨?_, h.connectionRates, h.potentials⟩
  cases hr : t.rates with
  | none =>
    rw [FlowState.putSlot, hr]
    exact h.rates
  | some q =>
    rw [FlowState.putSlot, hr]
    exact h.rates.set w (ht q hr)

private theorem onSlot_lacks {β : Type} {act : Attempt α (Slot α) β} (hact : Maintains (Slot.Lacks p) act) (w : Nat) :
    Maintains (Lacks p) (onSlot w act) := by
  intro s hs
  rw [run_onSlot]
  exact hs.putSlot w (hact _ (hs.slot w))

private theorem putConnection_lacks (i : Nat) (pressure : α) {q : PerPhase α} (hq : q.get p = 0) :
    Maintains (Lacks p) (putConnection i pressure q) := by
  refine .get_bind fun s hs => ?_
  refine Maintains.bind (.outcome _) (fun _ => Maintains.bind (.outcome _) fun _ => ?_) s hs
  exact fun _ _ => ⟨hs.rates, hs.connectionRates.set i hq, hs.potentials⟩

private theorem putPotential_lacks (i : Nat) {q : PerPhase α} (hq : q.get p = 0) :
    Maintains (Lacks p) (putPotential i q) := by
  refine .get_bind fun s hs => ?_
  refine Maintains.bind (.need _) (fun _ => ?_) s hs
  exact fun _ _ => ⟨hs.rates, hs.connectionRates, hs.potentials.set i hq⟩

end FlowState

/-! ### Flow through connections -/

private theorem PerPhase.value_absent {q : PerPhase (WellDual α)} (h : q.get p = 0) : (q.map (·.value)).get p = 0 := by
  rw [PerPhase.get_map, h]
  rfl

namespace WellUnit

variable {setup : Setup α} (hp : setup.phases.isActive p = false)

include hp

private theorem connectionFlux_absent {u : WellUnit α} {cells : List (Cell α)} {crossFlow : Bool} {bhp : WellDual α}
    {link : Connection α × Segment α} {f : PerPhase (WellDual α)}
    (h : u.connectionFlux setup cells crossFlow bhp link = .ok f) : f.get p = 0 := by
  obtain ⟨cell, -, h⟩ := Outcome.bind_ok.1 h
  exact ConnectionInput.flux_absent h hp

theorem flux_of_connectionFlows {u : WellUnit α} {cells : List (Cell α)} {s : Slot α} {control : Control α}
    {flows : List (ConnectionFlow α)} (h : u.connectionFlows setup cells s control = .ok flows) :
    ∀ f ∈ flows, f.flux.get p = 0 := by
  obtain ⟨bhp, -, hflows⟩ := Outcome.bind_ok.1 h
  obtain ⟨crossFlow, -, hflows⟩ := Outcome.bind_ok.1 hflows
  intro f hf
  obtain ⟨link, -, hlink⟩ := Outcome.exists_of_mem_ok hflows hf
  obtain ⟨flux, hflux, hlink⟩ := Outcome.bind_ok.1 hlink
  obtain ⟨reported, -, hlink⟩ := Outcome.bind_ok.1 hlink
  cases hlink
  exact connectionFlux_absent hp hflux

private theorem flux_of_assemble {u u' : WellUnit α} {cells : List (Cell α)} {dt : α} {s : Slot α}
    {flows : List (ConnectionFlow α)} (h : u.assemble setup cells dt s = .ok (u', flows)) :
    ∀ f ∈ flows, f.flux.get p = 0 := by
  obtain ⟨control, -, h⟩ := Outcome.bind_ok.1 h
  obtain ⟨flows, hflows, h⟩ := Outcome.bind_ok.1 h
  obtain ⟨system, -, h⟩ := Outcome.bind_ok.1 h
  cases h
  exact flux_of_connectionFlows hp hflows

end WellUnit

namespace Model

variable {m : Model α} (hp : m.setup.phases.isActive p = false)

include hp

private theorem assemble_lacks (cells : List (Cell α)) (dt : α) :
    Maintains (FlowState.Lacks p) (m.assemble cells dt) := by
  intro s hs
  rw [assemble_eq]
  cases hw : m.assembled cells dt s with
  | error e => exact hs
  | ok wells =>
    -- whatever is written are flows of a well that has been assembled
    have hput : Maintains (FlowState.Lacks p) (m.putAllFlows wells) := by
      refine .forM ?_
      rintro ⟨place, u', flows⟩ hflows
      obtain ⟨⟨u, w⟩, -, hu⟩ := Outcome.exists_of_mem_ok hw (List.of_mem_zip hflows).2
      have habsent := WellUnit.flux_of_assemble hp hu
      refine .forM ?_
      rintro ⟨f, k⟩ hf
      exact FlowState.putConnection_lacks _ _ (PerPhase.value_absent (habsent f (List.fst_mem_of_mem_zipIdx hf)))
    have ht := hput s hs
    dsimp only
    rcases hrun : m.putAllFlows wells s with ⟨_ | _, t⟩ <;> rw [hrun] at ht <;> exact ht

private theorem putPotentials_lacks (cells : List (Cell α)) :
    Maintains (FlowState.Lacks p) (m.putPotentials cells) := by
  refine .get_bind fun s hs => Maintains.bind (.outcome _) (fun _ => .forM fun place _ => ?_) s hs
  refine .get_bind fun s hs => Maintains.bind (.need _) (fun rates => ?_) s hs
  refine Maintains.bind (.outcome _) fun limit => Maintains.bind (.outcome _) fun crossFlow => .forM fun link _ => ?_
  exact Maintains.outcome_bind fun flux hflux =>
    FlowState.putPotential_lacks _ (PerPhase.value_absent (WellUnit.connectionFlux_absent hp hflux))

end Model

/-! ### Wells without a phase -/

/-- Whether a well has no part of a phase in its composition, and as a producer no weight of it in a limit to a surface
rate. -/
structure Well.Avoids (p : Phase) (w : Well α) : Prop where
  composition : w.composition.get p = 0
  weights : w.type = .producer → ∀ c ∈ w.controls.list, c.kind = .surfaceRate → ¬0 < c.weights.get p

private theorem Well.Avoids.of_untargeted {w w' : Well α} (hw : w.Avoids p) (h : w'.untargeted = w.untargeted) :
    w'.Avoids p := by
  have hcomposition : w'.composition = w.composition := (congrArg Well.composition h :)
  have htype : w'.type = w.type := (congrArg Well.type h :)
  refine ⟨hcomposition ▸ hw.composition, fun ht c hc hk => ?_⟩
  obtain ⟨d, hd, hkind, hweights⟩ := exists_control_of_untargeted h hc
  rw [← hweights]
  exact hw.weights (htype ▸ ht) d hd (hkind.trans hk)

omit [Scalar α] in
private theorem Well.producer_of_not_injector {w : Well α} (h : ¬w.isInjector = true) : w.type = .producer := by
  unfold isInjector at h
  cases ht : w.type with
  | injector => simp [ht] at h
  | producer => rfl

private theorem WellUnit.updateThp_lacks {u : WellUnit α} (setup : Setup α) (control : Control α) :
    Maintains (Slot.Lacks p) (u.updateThp setup control) := by
  unfold updateThp
  cases control.kind with
  | thp => exact Slot.putThp_lacks _
  | _ =>
    dsimp only
    cases u.well.controls.firstLift? with
    | none => exact .pure _
    | some table =>
      refine .get_bind fun s hs => ?_
      refine Maintains.bind (.need _) (fun rates => Maintains.bind (.need _) fun bhp => ?_) s hs
      exact Maintains.bind (.outcome _) fun thp => Slot.putThp_lacks _

section Exact

variable {K : Type} [Field K] [LinearOrder K]

theorem PhaseSet.count_ne_zero {phases : PhaseSet} (h : phases.oil = true) : phases.count ≠ 0 := by
  have hmem : Phase.oil ∈ phases.active := List.mem_filter.2 ⟨by decide, h⟩
  exact (List.length_pos_of_mem hmem).ne'

theorem Well.composition_of_accept {w w' : Well K} {phases : PhaseSet} {n : Nat} (h : w.accept phases n = .ok w')
    (hp : phases.isActive p = false) : w'.composition.get p = 0 := by
  have hgiven : (phases.select w.composition (.replicate 0)).get p = 0 := by
    rw [PhaseSet.get_select_absent hp, PerPhase.get_replicate]
  obtain ⟨-, -, q, rfl, ⟨-, rfl⟩ | ⟨-, rfl⟩⟩ := accept_ok h
  · dsimp only
    rw [PerPhase.get_map, hgiven, zero_div]
  · dsimp only
    rw [PhaseSet.get_select_absent hp, hgiven]

namespace Well

variable {w : Well K} (hw : w.Avoids p) {c : Control K} (hc : c ∈ w.controls.list)

include hw hc

private theorem startRates_absent : (w.startRates c).get p = 0 := by
  unfold startRates
  cases hk : c.kind with
  | surfaceRate =>
    dsimp only
    by_cases hi : w.isInjector = true
    · rw [if_pos hi, PerPhase.get_map, hw.composition, mul_zero]
    · rw [if_neg hi, PerPhase.get_map, if_neg (hw.weights (producer_of_not_injector hi) c hc hk)]
  | _ => exact PerPhase.get_replicate 0 p

private theorem targetRates_absent (hk : c.kind = .surfaceRate) {old : PerPhase K} (hold : old.get p = 0) :
    (WellUnit.targetRates w c old).get p = 0 := by
  unfold WellUnit.targetRates
  by_cases hi : w.isInjector = true
  · rw [if_pos hi, PerPhase.get_map, hw.composition, mul_zero]
  · rw [if_neg hi]
    split
    · rw [PerPhase.get_zipWith, if_neg (hw.weights (producer_of_not_injector hi) c hc hk), hold]
    · exact hold

omit hc in
/-- Newton steps look at no weights of absent phases. -/
private theorem ratesOf_absent {phases : PhaseSet} (hp : phases.isActive p = false) (c : Control K) (lead : K)
    (scaled : PerPhase K) {old : PerPhase K} (hold : old.get p = 0) :
    (WellUnit.ratesOf w phases c lead scaled old).get p = 0 := by
  have hselect (q : PerPhase K) : (phases.select q old).get p = 0 := by
    rw [PhaseSet.get_select_absent hp, hold]
  unfold WellUnit.ratesOf
  cases c.kind with
  | surfaceRate =>
    dsimp only
    by_cases hi : w.isInjector = true
    · rw [if_pos hi, PerPhase.get_map, hw.composition, zero_mul]
    · rw [if_neg hi]
      split
      · exact hold
      · exact hselect _
  | _ => exact hselect _

end Well

namespace WellUnit

variable {u : WellUnit K} (hu : u.well.Avoids p) {setup : Setup K}

include hu

private theorem applyUpdate_lacks (hp : setup.phases.isActive p = false) (dx : Vec3 K) :
    Maintains (Slot.Lacks p) (u.applyUpdate setup dx) := by
  refine .when (fun _ => .throw _) fun _ => .get_bind fun s hs => ?_
  refine Maintains.bind (.outcome _) (fun control => Maintains.bind (.need _) fun old => ?_) s hs
  refine Maintains.need_bind fun rates hrates => Maintains.bind (.outcome _) fun bhp => ?_
  refine Maintains.bind (Slot.putBhp_lacks _) fun _ => Maintains.bind (Slot.putUnknowns_lacks _) fun _ => ?_
  have hzero := Well.ratesOf_absent hu hp control (stepLead setup control old dx)
    (unscaled setup.phases control (stepFractions setup old dx)) (hs rates hrates)
  exact Maintains.bind (Slot.putRates_lacks hzero) fun _ => updateThp_lacks setup control

private theorem moveToTarget_lacks : Maintains (Slot.Lacks p) (u.moveToTarget setup) := by
  refine .get_bind fun s hs => ?_
  refine Maintains.outcome_bind (fun control hc => ?_) s hs
  have hseed := Slot.seed_lacks (p := p) setup.phases u.well
  cases hk : control.kind with
  | bhp => exact Maintains.bind (Slot.putBhp_lacks _) fun _ => hseed
  | thp table lift =>
    refine Maintains.bind (.need _) fun rates => Maintains.bind (.outcome _) fun bhp => ?_
    exact Maintains.bind (Slot.putBhp_lacks _) fun _ => Maintains.bind (Slot.putThp_lacks _) fun _ => hseed
  | reservoirRate => exact hseed
  | surfaceRate =>
    refine Maintains.need_bind fun rates hrates => ?_
    have hzero := Well.targetRates_absent hu (Slot.mem_of_currentControl hc) hk (hs rates hrates)
    exact Maintains.bind (Slot.putRates_lacks hzero) fun _ => hseed

end WellUnit

/-! ### Runs -/

private theorem FlowState.lacks_of_init {ws : Wells K} (hws : ∀ w ∈ ws.list, w.Avoids p) {cells : List (Cell K)}
    {phases : PhaseSet} {s : FlowState K} (h : FlowState.init ws cells phases = .ok s) : s.Lacks p := by
  obtain ⟨starts, hstarts, h⟩ := Outcome.bind_ok.1 h
  cases h
  have hstart : ∀ t ∈ starts, t.rates.get p = 0 ∧ t.share.get p = 0 := by
    intro t ht
    obtain ⟨w, hw, ht⟩ := Outcome.exists_of_mem_ok hstarts ht
    obtain ⟨control, hc, ht⟩ := Outcome.bind_ok.1 ht
    obtain ⟨pressures, -, ht⟩ := Outcome.bind_ok.1 ht
    obtain ⟨top, -, ht⟩ := Outcome.bind_ok.1 ht
    obtain ⟨unknowns, -, ht⟩ := Outcome.bind_ok.1 ht
    cases ht
    have hzero := Well.startRates_absent (hws w hw) (List.mem_of_getElem? (Controls.getElem?_of_get hc))
    refine ⟨hzero, ?_⟩
    rw [PerPhase.get_map, hzero, zero_mul]
  refine ⟨.flatMap fun t ht => (hstart t ht).1, ?_, ?_⟩
  · exact .flatMap_flatMap _ fun t ht => (hstart t ht).2
  · exact .flatMap_flatMap (f := fun _ => .replicate 0) _ fun t _ => PerPhase.get_replicate 0 p

/-- Whether a phase takes no part in a model, and its wells avoid it. -/
structure Model.Avoids (p : Phase) (m : Model K) : Prop where
  absent : m.setup.phases.isActive p = false
  wells : ∀ w ∈ m.wells.list, w.Avoids p

namespace Model

variable {m : Model K} (hm : m.Avoids p)

include hm

private theorem Avoids.unit {u : WellUnit K} (hu : u ∈ m.units) :
    u.well.Avoids p := hm.wells u.well (List.mem_map_of_mem hu)

private theorem applyUpdates_lacks (updates : List (Vec3 K)) :
    Maintains (FlowState.Lacks p) (m.applyUpdates updates) := by
  refine .get_bind fun s hs => Maintains.bind (.outcome _) (fun _ => ?_) s hs
  refine Maintains.when (fun _ => .throw _) fun _ => Maintains.bind (.forM ?_) fun _ => ?_
  · rintro ⟨⟨u, dx⟩, w⟩ hmem
    have hu := (List.of_mem_zip (List.fst_mem_of_mem_zipIdx hmem)).1
    exact FlowState.onSlot_lacks (WellUnit.applyUpdate_lacks (hm.unit hu) hm.absent dx) w
  · exact .modify fun _ ht => ⟨ht.rates, ht.connectionRates, ht.potentials⟩

private theorem moveToTarget_lacks (w : Nat) : Maintains (FlowState.Lacks p) (m.moveToTarget w) :=
  Maintains.outcome_bind fun _ hu =>
    FlowState.onSlot_lacks (WellUnit.moveToTarget_lacks (hm.unit (List.mem_of_getElem? (getElem?_of_unit hu)))) w

end Model

/-- A phase that takes no part and that all wells avoid stays away. -/
theorem flowInvariant_lacks (p : Phase) : FlowInvariant (Model.Avoids (K := K) p) (FlowState.Lacks p) where
  model hm hsetup hwells := by
    refine ⟨hsetup ▸ hm.absent, fun w hw => ?_⟩
    obtain ⟨v, hv, hsame⟩ := Wells.exists_of_untargeted hwells hw
    exact (hm.wells v hv).of_untargeted hsame
  init hm h := FlowState.lacks_of_init hm.wells h
  revision _ h := ⟨h.rates, h.connectionRates, h.potentials⟩
  putControl w i := FlowState.onSlot_lacks (Slot.putControl_lacks i) w
  moveToTarget w hm := Model.moveToTarget_lacks hm w
  applyUpdates updates hm := Model.applyUpdates_lacks hm updates
  assemble cells dt hm := Model.assemble_lacks hm.absent cells dt
  putPotentials cells hm := Model.putPotentials_lacks hm.absent cells

namespace Session

variable {ω γ : Type} [GroupControl K γ]

/-- Work on accepted wells, with an accepted model, where no limit to the surface rate of a producer gives an absent
phase a weight: after the start and any operations, whether they have succeeded or stopped, the rates of the wells and
the rates and potentials of the connections are zero for that phase.

The numbers are those of an ordered field.  On doubles this takes finite targets besides: a group may set an infinite
one, and its product with the zero of a composition is not a number. -/
theorem run_lacks {list : List (Well K)} {phases : PhaseSet} {numCells : Nat} {ws : Wells K} {setup : Setup K}
    {m : Model K} (hws : Wells.create list phases numCells = .ok ws) (hm : Model.create ws setup = .ok m)
    (hwells : phases.isActive p = false) (hmodel : setup.phases.isActive p = false)
    (hweights : ∀ w ∈ list, w.type = .producer → ∀ c ∈ w.controls.list, c.kind = .surfaceRate → ¬0 < c.weights.get p)
    (comm : Communicator (StateM ω) K) {groups : γ} {cells : List (Cell K)} {s : Session K γ}
    (hs : m.start groups cells = .ok s) (ops : List (Operation K γ)) (w : ω) :
    (run comm ops s w).2.1.flow.Lacks p := by
  have havoids : m.Avoids p := by
    rw [Model.eq_of_create hm]
    refine ⟨hmodel, fun w hw => ?_⟩
    rw [Model.wells, List.map_map] at hw
    obtain ⟨v, hv, rfl⟩ := List.mem_map.1 hw
    obtain ⟨v₀, hv₀, haccept⟩ := Outcome.exists_of_mem_ok (Wells.create_ok hws).1 hv
    have hcomposition := Well.composition_of_accept haccept hwells
    obtain ⟨-, -, q, rfl, -⟩ := Well.accept_ok haccept
    exact ⟨hcomposition, hweights v₀ hv₀⟩
  exact (flowInvariant_lacks p).run havoids comm hs ops w

end Session

end Exact

namespace Session

/-! ### A producer of oil and water on its rate -/

/-- A cell in which all phases could move. -/
def mobileCell : List (Cell ℚ) := [{ Cell.still (.seed 100 0) 300 with mobility := .replicate (.const 1) }]

/-- A producer on a surface rate of oil, in which gas has a given weight, and with a limit to its pressure. -/
def ratedProducer (gas : ℚ) : List (Well ℚ) :=
  [.producer "P" 0 [⟨0, 2, 0, 1⟩] ⟨[⟨.surfaceRate, -6, ⟨0, 1, gas⟩⟩, ⟨.bhp, 90, .replicate 0⟩], 0⟩]

/-- Operations on the producer. -/
def ratedOperations : List (Operation ℚ (Option (VoidageGroup ℚ))) :=
  [.assemble mobileCell 1 1, .applyUpdates [⟨30, 0, 1⟩], .putPotentials mobileCell]

/-- Which of some operations on the producer succeed, and the rates and potentials that they leave. -/
def ratedRun (gas : ℚ) (ops : List (Operation ℚ (Option (VoidageGroup ℚ)))) :
    Outcome ℚ (List Bool × List ℚ × List ℚ) := do
  let ws ← Wells.create (ratedProducer gas) .oilWater 1
  let m ← Model.create ws wateredSetup
  let s ← m.start none mobileCell
  let (os, t, _) := run (.serial : Communicator (StateM Unit) ℚ) ops s ()
  return (os.map (·.toBool), t.flow.rates, t.flow.potentials)

/-- Without a weight of gas there are rates and potentials of the other two phases only. -/
theorem run_lacks_ratedProducer : ∃ ws m, ∃ s : Session ℚ (Option (VoidageGroup ℚ)),
    Wells.create (ratedProducer 0) .oilWater 1 = .ok ws ∧ Model.create ws wateredSetup = .ok m ∧
    m.start none mobileCell = .ok s ∧ PhaseSet.oilWater.isActive .gas = false ∧
    (∀ w ∈ ratedProducer 0, w.type = .producer → ∀ c ∈ w.controls.list, c.kind = .surfaceRate →
      ¬0 < c.weights.get .gas) ∧
    (run (.serial : Communicator (StateM Unit) ℚ) ratedOperations s ()).1.map (·.toBool) = [true, true, true] ∧
    (run (.serial : Communicator (StateM Unit) ℚ) ratedOperations s ()).2.1.flow.potentials = [-20, -20, 0] ∧
    (run (.serial : Communicator (StateM Unit) ℚ) ratedOperations s ()).2.1.flow.Lacks .gas := by
  have hrun : (ratedRun 0 ratedOperations, ()) = (.ok ([true, true, true], [0, -6, 0], [-20, -20, 0]), ()) :=
    run_ok_of_toOption (by decide +kernel)
  obtain ⟨ws, hws, h⟩ := Outcome.bind_ok.1 (Prod.mk.inj hrun).1
  obtain ⟨m, hm, h⟩ := Outcome.bind_ok.1 h
  obtain ⟨s, hs, h⟩ := Outcome.bind_ok.1 h
  obtain ⟨hops, h⟩ := Prod.mk.inj (Except.ok.inj h)
  obtain ⟨-, hpotentials⟩ := Prod.mk.inj h
  have hweights : ∀ w ∈ ratedProducer 0, w.type = .producer → ∀ c ∈ w.controls.list, c.kind = .surfaceRate →
      ¬0 < c.weights.get .gas := by
    intro w hw _ c hc _
    rw [List.mem_singleton.1 hw] at hc
    obtain rfl | rfl : c = _ ∨ c = _ := by simpa [Well.producer] using hc
    · exact lt_irrefl 0
    · exact lt_irrefl 0
  have hlacks := run_lacks hws hm rfl rfl hweights (.serial : Communicator (StateM Unit) ℚ) hs ratedOperations ()
  exact ⟨ws, m, s, hws, hm, hs, rfl, hweights, hops, hpotentials, hlacks⟩

/-- The same limit with a weight of gas is accepted, and a start splits the target between oil and the absent gas. -/
theorem not_lacks_ratedProducer : ∃ cs ws m, ∃ s : Session ℚ (Option (VoidageGroup ℚ)),
    Controls.create [⟨.surfaceRate, -6, ⟨0, 1, 1⟩⟩, ⟨.bhp, 90, .replicate 0⟩] 0 = .ok cs ∧
    (ratedProducer 1).map (·.controls) = [cs] ∧ Wells.create (ratedProducer 1) .oilWater 1 = .ok ws ∧
    Model.create ws wateredSetup = .ok m ∧ m.start none mobileCell = .ok s ∧ wateredSetup.phases = .oilWater ∧
    s.flow.rates = [0, -3, -3] ∧ ¬s.flow.Lacks .gas := by
  have hcontrols : Controls.create [⟨.surfaceRate, (-6 : ℚ), ⟨0, 1, 1⟩⟩, ⟨.bhp, 90, .replicate 0⟩] 0 =
      .ok ⟨[⟨.surfaceRate, -6, ⟨0, 1, 1⟩⟩, ⟨.bhp, 90, .replicate 0⟩], 0⟩ := rfl
  have hrun : (ratedRun 1 [], ()) = (.ok ([], [0, -3, -3], [0, 0, 0]), ()) := run_ok_of_toOption (by decide +kernel)
  obtain ⟨ws, hws, h⟩ := Outcome.bind_ok.1 (Prod.mk.inj hrun).1
  obtain ⟨m, hm, h⟩ := Outcome.bind_ok.1 h
  obtain ⟨s, hs, h⟩ := Outcome.bind_ok.1 h
  obtain ⟨-, h⟩ := Prod.mk.inj (Except.ok.inj h)
  obtain ⟨hrates, -⟩ := Prod.mk.inj h
  refine ⟨_, ws, m, s, hcontrols, rfl, hws, hm, hs, rfl, hrates, fun hlacks => ?_⟩
  have hgas : (-3 : ℚ) = 0 := hlacks.rates 0 (-3) (by rw [hrates]; rfl)
  norm_num at hgas

end Session

end BlackOilWells
