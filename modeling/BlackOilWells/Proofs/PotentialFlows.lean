import BlackOilWells.Proofs.FlowDirections
import BlackOilWells.Proofs.Runs

/-!
# Potentials as flows

The potentials of a well are the flows through its connections at its tightest pressure limit, the least one for an
injector and the greatest one for a producer in whatever order the limits stand (`WellType.IsTightest`).  Whether
connections may flow against the type of the well is however not decided at the limit, but at the pressure under the
current control.  Where the two decisions agree, the potentials are what an assembly of the well computes if it is held
at the limit (`WellUnit.heldAt`).

They agree for a well that permits cross flow.  For any other well the current decision is at least as strict as that
at the limit as long as the current pressure is not tighter, because a connection that would flow forward at the limit
then flows forward already.  `Model.putPotentials_flows` says all of this for every well of a model.
-/

namespace BlackOilWells

/-! ### Writing potentials -/

namespace FlowState

variable {α : Type}

/-- The potential rates of a connection. -/
def potentialAt (s : FlowState α) (i : Nat) : Option (PerPhase α) := (Stride.get? s.potentials i).map .ofVec

private theorem putPotential_ok {i : Nat} {q : PerPhase α} {s t : FlowState α} (h : putPotential i q s = (.ok ⟨⟩, t)) :
    t = { s with potentials := t.potentials } ∧ t.potentialAt i = some q ∧
      ∀ j, j ≠ i → t.potentialAt j = s.potentialAt j := by
  unfold putPotential at h
  rw [Attempt.run_get_bind] at h
  obtain ⟨v, hv, h⟩ := Attempt.need_bind_ok.1 h
  cases h
  have hlength : 3 * i + 2 < s.potentials.length := (Stride.get?_isSome_iff _ _).1 (hv ▸ rfl)
  refine ⟨rfl, ?_, fun j hj => ?_⟩
  · unfold potentialAt
    rw [Stride.get?_set_self hlength]
    rfl
  · unfold potentialAt
    rw [Stride.get?_set_of_ne _ hj.symm]

end FlowState

namespace WellUnit

variable {α : Type} [Scalar α]

/-- Whether rates by connection are the flows of a well at a bottom-hole pressure. -/
def AreFlows (u : WellUnit α) (setup : Setup α) (cells : List (Cell α)) (crossFlow : Bool) (bhp : α)
    (q : Nat → Option (PerPhase α)) : Prop :=
  ∀ k link, u.links[k]? = some link → ∃ flux, u.connectionFlux setup cells crossFlow (.const bhp) link = .ok flux ∧
    q k = some (flux.map (·.value))

private theorem putPotentials_ok {p : Placed (WellUnit α)} {setup : Setup α} {cells : List (Cell α)} {s t : FlowState α}
    (h : putPotentials p setup cells s = (.ok ⟨⟩, t)) : ∃ rates limit crossFlow, (s.slot p.index).rates = some rates ∧
      p.item.tightestLimit setup rates = .ok limit ∧
      p.item.admitsCrossFlow setup cells ((s.slot p.index).currentControl p.item.well) = .ok crossFlow ∧
      t = { s with potentials := t.potentials } ∧
      p.item.AreFlows setup cells crossFlow limit (fun k => t.potentialAt (p.first + k)) ∧
      ∀ j, (j < p.first ∨ p.first + p.item.links.length ≤ j) → t.potentialAt j = s.potentialAt j := by
  unfold putPotentials at h
  rw [Attempt.run_get_bind] at h
  obtain ⟨rates, hrates, h⟩ := Attempt.need_bind_ok.1 h
  obtain ⟨limit, hlimit, h⟩ := Attempt.outcome_bind_ok.1 h
  obtain ⟨crossFlow, hcross, h⟩ := Attempt.outcome_bind_ok.1 h
  refine ⟨rates, limit, crossFlow, hrates, hlimit, hcross, ?_⟩
  have hall := Attempt.forM_places (g := fun k u => u.potentialAt (p.first + k))
    (C := fun n u => u = { s with potentials := u.potentials } ∧
      ∀ j, (j < p.first ∨ p.first + n ≤ j) → u.potentialAt j = s.potentialAt j)
    (R := fun _ b _ q => ∃ flux, p.item.connectionFlux setup cells crossFlow (.const limit) b.1 = .ok flux ∧
      q = some (flux.map (·.value))) h ⟨rfl, fun _ _ => rfl⟩ ?_
  · obtain ⟨⟨hrest, houtside⟩, hflows⟩ := hall
    rw [List.length_zipIdx] at houtside
    refine ⟨hrest, fun k link hlink => hflows k (link, k) ?_, houtside⟩
    rw [List.getElem?_zipIdx, hlink, Option.map_some, Nat.zero_add]
  · intro k b u v hb hu hstep
    rw [List.getElem?_zipIdx, Option.map_eq_some_iff] at hb
    obtain ⟨link, -, rfl⟩ := hb
    obtain ⟨flux, hflux, hput⟩ := Attempt.outcome_bind_ok.1 hstep
    rw [Nat.zero_add] at hput
    obtain ⟨hrest, hself, hothers⟩ := FlowState.putPotential_ok hput
    refine ⟨⟨?_, fun j hj => ?_⟩, ⟨flux, hflux, hself⟩, fun w hw => hothers _ (by omega)⟩
    · rw [hrest, hu.1]
    · rw [hothers j (by omega)]
      exact hu.2 j (by omega)

end WellUnit

/-- Each well of a model gets its own potentials. -/
private theorem Model.putPotentials_places {α : Type} [Scalar α] {m : Model α} {cells : List (Cell α)}
    {s t : FlowState α}
    (h : m.putPotentials cells s = (.ok ⟨⟩, t)) {p : Placed (WellUnit α)} (hp : p ∈ m.placed) :
    ∃ rates limit crossFlow, (s.slot p.index).rates = some rates ∧ p.item.tightestLimit m.setup rates = .ok limit ∧
      p.item.admitsCrossFlow m.setup cells ((s.slot p.index).currentControl p.item.well) = .ok crossFlow ∧
      p.item.AreFlows m.setup cells crossFlow limit (fun k => t.potentialAt (p.first + k)) := by
  unfold putPotentials at h
  rw [Attempt.run_get_bind] at h
  obtain ⟨_, -, h⟩ := Attempt.outcome_bind_ok.1 h
  -- a well sees its own connections only
  let own (i : Nat) (u : FlowState α) (k : Nat) : Option (PerPhase α) :=
    if k < ((m.units[i]?).map (·.well.connections.length)).getD 0 then
      u.potentialAt (Placed.offset (·.well.connections.length) m.units i + k)
    else none
  have hall := Attempt.forM_places (g := own) (C := fun _ u => u = { s with potentials := u.potentials })
    (R := fun i p _ q => ∃ rates limit crossFlow, (s.slot i).rates = some rates ∧
      p.item.tightestLimit m.setup rates = .ok limit ∧
      p.item.admitsCrossFlow m.setup cells ((s.slot i).currentControl p.item.well) = .ok crossFlow ∧
      p.item.AreFlows m.setup cells crossFlow limit q) h rfl ?_
  · obtain ⟨hunit, hfirst⟩ := Placed.mem_ofList _ hp
    have hplace : m.placed[p.index]? = some p := by
      rw [Model.placed, Placed.getElem?_ofList, hunit, Option.map_some, ← hfirst]
    obtain ⟨rates, limit, crossFlow, hrates, hlimit, hcross, hflows⟩ := hall.2 p.index p hplace
    refine ⟨rates, limit, crossFlow, hrates, hlimit, hcross, fun k link hlink => ?_⟩
    obtain ⟨flux, hflux, hq⟩ := hflows k link hlink
    have hk : k < p.item.well.connections.length :=
      (List.getElem?_eq_some_iff.1 hlink).1.trans_le p.item.length_links_le
    refine ⟨flux, hflux, ?_⟩
    rw [← hq, hfirst]
    exact (if_pos (by rwa [hunit])).symm
  · intro i p u v hb hu hstep
    rw [Model.placed, Placed.getElem?_ofList, Option.map_eq_some_iff] at hb
    obtain ⟨unit, hunit, rfl⟩ := hb
    obtain ⟨rates, limit, crossFlow, hrates, hlimit, hcross, hrest, hflows, houtside⟩ := WellUnit.putPotentials_ok hstep
    have hslot : u.slot i = s.slot i := by
      rw [hu]
      rfl
    rw [hslot] at hrates hcross
    refine ⟨?_, ⟨rates, limit, crossFlow, hrates, hlimit, hcross, fun k link hlink => ?_⟩, fun w hw => ?_⟩
    · rw [hrest, hu]
    · obtain ⟨flux, hflux, hq⟩ := hflows k link hlink
      have hk : k < unit.well.connections.length :=
        (List.getElem?_eq_some_iff.1 hlink).1.trans_le unit.length_links_le
      exact ⟨flux, hflux, (if_pos (by rwa [hunit])).trans hq⟩
    · funext k
      by_cases hk : k < ((m.units[w]?).map (·.well.connections.length)).getD 0
      · refine (if_pos hk).trans (Eq.trans ?_ (if_pos hk).symm)
        refine houtside _ ?_
        cases hother : m.units[w]? with
        | none =>
          rw [hother] at hk
          exact absurd hk (Nat.not_lt_zero k)
        | some other =>
          rw [hother] at hk
          have hapart := Placed.offset_apart (c := (·.well.connections.length)) hunit hother hw hk
          exact hapart.imp_right (Nat.le_trans (Nat.add_le_add_left unit.length_links_le _))
      · exact (if_neg hk).trans (if_neg hk).symm

/-! ### The tightest limit -/

namespace WellType

variable {K : Type} [LinearOrder K]

/-- Whether a pressure limits a well at least as tightly as another one. -/
def AsTight (type : WellType) (x y : K) : Prop :=
  match type with
  | .injector => x ≤ y
  | .producer => y ≤ x

/-- Whether a pressure is the tightest of a set: the least one for an injector and the greatest one for a producer. -/
def IsTightest (type : WellType) (limits : Set K) (limit : K) : Prop :=
  match type with
  | .injector => IsLeast limits limit
  | .producer => IsGreatest limits limit

private theorem isTightest_iff {type : WellType} {limits : Set K} {limit : K} :
    type.IsTightest limits limit ↔ limit ∈ limits ∧ ∀ x ∈ limits, type.AsTight limit x := by
  cases type <;> exact Iff.rfl

private theorem AsTight.refl (type : WellType) (x : K) : type.AsTight x x := by
  cases type <;> exact le_rfl

private theorem AsTight.trans {type : WellType} {x y z : K} (hxy : type.AsTight x y) (hyz : type.AsTight y z) :
    type.AsTight x z := by
  cases type with
  | injector => exact le_trans (α := K) hxy hyz
  | producer => exact le_trans (α := K) hyz hxy

variable [Field K]

private theorem tighter_eq (type : WellType) (x y : K) :
    WellUnit.tighter type x y = match type with | .injector => min x y | .producer => max x y := by
  cases type with
  | injector => exact Scalar.min_exact x y
  | producer => exact Scalar.max_exact x y

private theorem asTight_tighter (type : WellType) (x y : K) :
    type.AsTight (WellUnit.tighter type x y) x ∧ type.AsTight (WellUnit.tighter type x y) y := by
  rw [tighter_eq]
  cases type with
  | injector => exact ⟨min_le_left x y, min_le_right x y⟩
  | producer => exact ⟨le_max_left x y, le_max_right x y⟩

private theorem tighter_choice (type : WellType) (x y : K) :
    WellUnit.tighter type x y = x ∨ WellUnit.tighter type x y = y := by
  rw [tighter_eq]
  cases type with
  | injector => exact min_choice x y
  | producer => exact max_choice x y

/-- The fold over the limits finds the tightest one, whatever their order. -/
private theorem isTightest_foldl (type : WellType) (limits : List K) (limit : K) :
    type.IsTightest {x | x ∈ limit :: limits} (limits.foldl (WellUnit.tighter type) limit) := by
  induction limits generalizing limit with
  | nil =>
    rw [isTightest_iff]
    refine ⟨List.mem_cons_self .., fun x hx => ?_⟩
    rw [List.mem_singleton.1 hx]
    exact .refl type limit
  | cons y limits ih =>
    rw [List.foldl_cons]
    obtain ⟨hmem, htight⟩ := isTightest_iff.1 (ih (WellUnit.tighter type limit y))
    obtain ⟨hleft, hright⟩ := asTight_tighter type limit y
    have hfold := htight _ (List.mem_cons_self ..)
    refine isTightest_iff.2 ⟨?_, fun x hx => ?_⟩
    · rcases List.mem_cons.1 hmem with heq | hmem
      · rw [heq]
        rcases tighter_choice type limit y with h | h <;> rw [h] <;> simp
      · exact List.mem_cons_of_mem _ (List.mem_cons_of_mem _ hmem)
    · rcases List.mem_cons.1 hx with rfl | hx
      · exact hfold.trans hleft
      rcases List.mem_cons.1 hx with rfl | hx
      · exact hfold.trans hright
      · exact htight x (List.mem_cons_of_mem _ hx)

end WellType

/-! ### A well held at a pressure -/

namespace WellUnit

variable {K : Type} [Field K] [LinearOrder K]

/-- The control that holds a well at a bottom-hole pressure. -/
def holdAt (bhp : K) : Control K := ⟨.bhp, bhp, .replicate 0⟩

/-- The well, held at a bottom-hole pressure. -/
def heldAt (u : WellUnit K) (bhp : K) : WellUnit K := { u with well := { u.well with controls := ⟨[holdAt bhp], 0⟩ } }

/-- The bottom-hole pressures that the constraints of a well permit at rates. -/
def pressureLimits (u : WellUnit K) (setup : Setup K) (rates : PerPhase K) : Set K :=
  {x | ∃ c ∈ u.well.controls.list, u.pressureLimit? setup rates c = .ok (some x)}

variable {u : WellUnit K} {setup : Setup K} {cells : List (Cell K)} {limit : K} {crossFlow : Bool}

private theorem isTightest_of_tightestLimit {rates : PerPhase K} (h : u.tightestLimit setup rates = .ok limit) :
    u.well.type.IsTightest (u.pressureLimits setup rates) limit := by
  obtain ⟨limits, hlimits, h⟩ := Outcome.bind_ok.1 h
  have hset : u.pressureLimits setup rates = {x | x ∈ limits.filterMap id} := by
    ext x
    rw [Set.mem_ofPred_eq, List.mem_filterMap]
    constructor
    · exact fun hx => ⟨some x, (Outcome.mem_mapM_iff hlimits).2 hx, rfl⟩
    · rintro ⟨_, hx, rfl⟩
      exact (Outcome.mem_mapM_iff hlimits).1 hx
  rw [hset]
  cases hlist : limits.filterMap id with
  | nil =>
    rw [hlist] at h
    cases h
  | cons x rest =>
    rw [hlist] at h
    rw [← Except.ok.inj h]
    exact WellType.isTightest_foldl ..

/-- Whether rates by connection are those that an assembly of a well computes, if the well is held at a bottom-hole
pressure. -/
structure AreAssembled (u : WellUnit K) (setup : Setup K) (cells : List (Cell K)) (bhp : K)
    (q : Nat → Option (PerPhase K)) : Prop where
  exists_flows : ∀ s : Slot K, s.bhp.isSome → ∃ flows,
    (u.heldAt bhp).connectionFlows setup cells s (holdAt bhp) = .ok flows ∧ flows.length = u.links.length
  flows : ∀ (s : Slot K) flows, (u.heldAt bhp).connectionFlows setup cells s (holdAt bhp) = .ok flows →
    ∀ (k : Nat) f, flows[k]? = some f → q k = some (f.flux.map (·.value))
  assemble : ∀ dt (s : Slot K) u' flows, s.control = some 0 →
    (u.heldAt bhp).assemble setup cells dt s = .ok (u', flows) → ∀ (k : Nat) f, flows[k]? = some f → q k = some (f.flux.map (·.value))

section

variable {q : Nat → Option (PerPhase K)} (h : u.AreFlows setup cells crossFlow limit q)
  (hcross : (u.heldAt limit).admitsCrossFlow setup cells (.ok (holdAt limit)) = .ok crossFlow)

include h hcross

private theorem AreFlows.of_connectionFlows {s : Slot K} {flows : List (ConnectionFlow K)}
    (hs : (u.heldAt limit).connectionFlows setup cells s (holdAt limit) = .ok flows) {k : Nat} {f : ConnectionFlow K}
    (hf : flows[k]? = some f) : q k = some (f.flux.map (·.value)) := by
  obtain ⟨bhp, hbhp, hs⟩ := Outcome.bind_ok.1 hs
  obtain rfl : .const limit = bhp := Except.ok.inj hbhp
  obtain ⟨crossFlow', hcross', hs⟩ := Outcome.bind_ok.1 hs
  obtain rfl : crossFlow' = crossFlow := Except.ok.inj (hcross'.symm.trans hcross)
  have hlength : u.links.length = flows.length := (Outcome.mapM_ok.1 hs).length_eq
  have hk : k < u.links.length := hlength ▸ (List.getElem?_eq_some_iff.1 hf).1
  obtain ⟨flux, hflux, hq⟩ := h k _ (List.getElem?_eq_getElem hk)
  obtain ⟨flux', hflux', hf⟩ := Outcome.bind_ok.1 (Outcome.ok_of_getElem? hs (List.getElem?_eq_getElem hk) hf)
  obtain rfl : flux = flux' := Except.ok.inj (hflux.symm.trans hflux')
  obtain ⟨_, -, hf⟩ := Outcome.bind_ok.1 hf
  rw [hq, ← Except.ok.inj hf]

private theorem AreFlows.exists_connectionFlows {s : Slot K} (hs : s.bhp.isSome) : ∃ flows,
    (u.heldAt limit).connectionFlows setup cells s (holdAt limit) = .ok flows ∧ flows.length = u.links.length := by
  obtain ⟨b, hb⟩ := Option.isSome_iff_exists.1 hs
  have hlinks : ∀ link ∈ u.links, ∃ f, (do
      let flux ← (u.heldAt limit).connectionFlux setup cells crossFlow (.const limit) link
      let reported ← Outcome.need s.bhp
      return ⟨link.1.cell, link.2.efficiency, reported + link.2.head, flux⟩ : Outcome K (ConnectionFlow K)) = .ok f := by
    intro link hlink
    obtain ⟨k, hk, rfl⟩ := List.mem_iff_getElem.1 hlink
    obtain ⟨flux, hflux, -⟩ := h k _ (List.getElem?_eq_getElem hk)
    exact ⟨_, Outcome.bind_ok.2 ⟨flux, hflux, Outcome.bind_ok.2 ⟨b, Outcome.need_ok.2 hb, rfl⟩⟩⟩
  obtain ⟨flows, hall⟩ := Outcome.exists_mapM hlinks
  refine ⟨flows, ?_, (Outcome.mapM_ok.1 hall).length_eq.symm⟩
  exact Outcome.bind_ok.2 ⟨.const limit, rfl, Outcome.bind_ok.2 ⟨crossFlow, hcross, hall⟩⟩

private theorem AreFlows.areAssembled : u.AreAssembled setup cells limit q := by
  refine ⟨fun s hs => h.exists_connectionFlows hcross hs, fun s flows hs k f hf => h.of_connectionFlows hcross hs hf,
    fun dt s u' flows hs hassemble k f hf => ?_⟩
  obtain ⟨control, hcontrol, hassemble⟩ := Outcome.bind_ok.1 hassemble
  obtain rfl : holdAt limit = control := by
    unfold Slot.currentControl at hcontrol
    rw [hs] at hcontrol
    exact Except.ok.inj hcontrol
  obtain ⟨flows', hflows', hassemble⟩ := Outcome.bind_ok.1 hassemble
  obtain ⟨_, -, hassemble⟩ := Outcome.bind_ok.1 hassemble
  cases hassemble
  exact h.of_connectionFlows hcross hflows' hf

end

/-! ### Keeping to the type of the well -/

/-- Whether rates by connection keep to the type of a well at a bottom-hole pressure: none against it in a physical
state, and none at all through a connection whose drawdown has not the direction of the well. -/
structure KeepsType (u : WellUnit K) (setup : Setup K) (cells : List (Cell K)) (bhp : K)
    (q : Nat → Option (PerPhase K)) : Prop where
  opposed : ∀ (k : Nat) link d, u.links[k]? = some link → drawdownAt cells bhp link = .ok d →
    isForward u.well.type d = false → q k = some (.replicate 0)
  injector : u.well.type = .injector → (u.heldAt bhp).IsPhysical setup cells (holdAt bhp) →
    ∀ k < u.links.length, ∃ r, q k = some r ∧ ∀ p, 0 ≤ r.get p
  producer : u.well.type = .producer → (u.heldAt bhp).IsPhysical setup cells (holdAt bhp) →
    ∀ k < u.links.length, ∃ r, q k = some r ∧ ∀ p, r.get p ≤ 0

/-- A connection flows forward at every pressure that is not tighter. -/
private theorem forward_of_asTight {type : WellType} [IsStrictOrderedRing K] {b d : K} {link : Connection K × Segment K}
    (hb : type.AsTight limit b) (hd : drawdownAt cells limit link = .ok d) (hforward : isForward type d = true) :
    ∃ d', drawdownAt cells b link = .ok d' ∧ isForward type d' = true := by
  obtain ⟨cell, hcell, hd⟩ := Outcome.bind_ok.1 hd
  cases hd
  refine ⟨_, Outcome.bind_ok.2 ⟨cell, hcell, rfl⟩, ?_⟩
  cases type with
  | injector =>
    have hlt := of_decide_eq_true hforward
    exact decide_eq_true ((sub_le_sub_left (add_le_add_left hb _) _).trans_lt hlt)
  | producer =>
    have hlt := of_decide_eq_true hforward
    exact decide_eq_true (hlt.trans_le (sub_le_sub_left (add_le_add_left hb _) _))

/-- A single connection that flows forward closes a well to cross flow. -/
private theorem closed_of_forward {control : Control K} {bhp : WellDual K} {link : Connection K × Segment K} {d : K}
    (hopen : u.well.crossFlow = false) (hb : u.bottomHole setup control = .ok bhp)
    (hcross : u.admitsCrossFlow setup cells (.ok control) = .ok crossFlow) (hlink : link ∈ u.links)
    (hd : drawdownAt cells bhp.value link = .ok d) (hforward : isForward u.well.type d = true) : crossFlow = false := by
  rw [admitsCrossFlow_eq hopen hb] at hcross
  cases crossFlow with
  | false => rfl
  | true =>
    obtain ⟨cell, hcell, hd⟩ := Outcome.bind_ok.1 hd
    obtain ⟨cell', hcell', hback⟩ := Outcome.bind_ok.1 (Outcome.ok_of_allM hcross hlink)
    obtain rfl : cell = cell' := Except.ok.inj (hcell.symm.trans hcell')
    cases hd
    have hnot := Except.ok.inj hback
    rw [hforward] at hnot
    cases hnot

private theorem AreFlows.keepsType [IsStrictOrderedRing K] {q : Nat → Option (PerPhase K)}
    (h : u.AreFlows setup cells false limit q) : u.KeepsType setup cells limit q := by
  -- each potential is the value of a flow that is held back
  have hflow (k : Nat) (hk : k < u.links.length) : ∃ cell, ∃ f : ConnectionFlow K,
      cellAt cells u.links[k].1.cell = .ok cell ∧ q k = some (f.flux.map (·.value)) ∧
      (u.connectionInput setup false (.const limit) u.links[k] cell).flux setup.phases setup.pvt = .ok f.flux := by
    obtain ⟨flux, hflux, hq⟩ := h k _ (List.getElem?_eq_getElem hk)
    obtain ⟨cell, hcell, hflux⟩ := Outcome.bind_ok.1 hflux
    exact ⟨cell, ⟨0, 0, 0, flux⟩, hcell, hq, hflux⟩
  have hkeeps (hphysical : (u.heldAt limit).IsPhysical setup cells (holdAt limit)) (k : Nat) (hk : k < u.links.length) :
      ∃ f : ConnectionFlow K, ∃ d, q k = some (f.flux.map (·.value)) ∧ f.KeepsType u.well.type d := by
    obtain ⟨cell, f, hcell, hq, hinput⟩ := hflow k hk
    have hlink := hphysical _ (List.getElem_mem hk) cell (.const limit) false hcell rfl
    exact ⟨f, _, hq, ConnectionFlow.keepsType_of_flux hinput hlink rfl⟩
  refine ⟨fun k link d hlink hd hnot => ?_, fun htype hphysical k hk => ?_, fun htype hphysical k hk => ?_⟩
  · obtain ⟨hk, rfl⟩ := List.getElem?_eq_some_iff.1 hlink
    obtain ⟨cell, f, hcell, hq, hinput⟩ := hflow k hk
    obtain ⟨cell', hcell', hd⟩ := Outcome.bind_ok.1 hd
    obtain rfl : cell = cell' := Except.ok.inj (hcell.symm.trans hcell')
    obtain rfl : (u.connectionInput setup false (.const limit) u.links[k] cell).drawdown.value = d := Except.ok.inj hd
    have hzero := ConnectionInput.flux_of_opposed hinput rfl hnot
    rw [hq, Option.some.injEq]
    refine PerPhase.ext_get fun p => ?_
    rw [PerPhase.get_map, PerPhase.get_replicate, hzero p]
  · obtain ⟨f, d, hq, hf⟩ := hkeeps hphysical k hk
    refine ⟨_, hq, fun p => ?_⟩
    rw [PerPhase.get_map]
    exact hf.injector htype p
  · obtain ⟨f, d, hq, hf⟩ := hkeeps hphysical k hk
    refine ⟨_, hq, fun p => ?_⟩
    rw [PerPhase.get_map]
    exact hf.producer htype p

end WellUnit

/-- The potentials of a well are the flows at its tightest pressure limit, with the decision about cross flow at the
pressure under its current control.  If the well permits cross flow, or if the decision at the limit is the same, they
are what an assembly computes for the well held at the limit.  A well that does not permit cross flow and flows forward
through some connection at the limit then has no potential against its type, and nor does it if its current pressure is
not tighter than the limit.

The numbers are those of an ordered field.  On doubles the limit is the tightest one as long as the lift tables give
numbers, because the search passes over a NaN. -/
theorem Model.putPotentials_flows {K : Type} [Field K] [LinearOrder K] [IsStrictOrderedRing K] {m : Model K}
    {cells : List (Cell K)} {s t : FlowState K} (h : m.putPotentials cells s = (.ok ⟨⟩, t)) {p : Placed (WellUnit K)}
    (hp : p ∈ m.placed) :
    ∃ rates limit crossFlow, (s.slot p.index).rates = some rates ∧
      p.item.well.type.IsTightest (p.item.pressureLimits m.setup rates) limit ∧
      p.item.admitsCrossFlow m.setup cells ((s.slot p.index).currentControl p.item.well) = .ok crossFlow ∧
      p.item.AreFlows m.setup cells crossFlow limit (fun k => t.potentialAt (p.first + k)) ∧
      (p.item.well.crossFlow = true ∨
          (p.item.heldAt limit).admitsCrossFlow m.setup cells (.ok (WellUnit.holdAt limit)) = .ok crossFlow →
        p.item.AreAssembled m.setup cells limit (fun k => t.potentialAt (p.first + k))) ∧
      (p.item.well.crossFlow = false →
        (∃ link ∈ p.item.links, ∃ d, WellUnit.drawdownAt cells limit link = .ok d ∧
          WellUnit.isForward p.item.well.type d = true) →
        ((p.item.heldAt limit).admitsCrossFlow m.setup cells (.ok (WellUnit.holdAt limit)) = .ok crossFlow ∨
          ∃ control bhp, (s.slot p.index).currentControl p.item.well = .ok control ∧
            p.item.bottomHole m.setup control = .ok bhp ∧ p.item.well.type.AsTight limit bhp.value) →
        p.item.KeepsType m.setup cells limit (fun k => t.potentialAt (p.first + k))) := by
  obtain ⟨rates, limit, crossFlow, hrates, hlimit, hcross, hflows⟩ := m.putPotentials_places h hp
  refine ⟨rates, limit, crossFlow, hrates, WellUnit.isTightest_of_tightestLimit hlimit, hcross, hflows, ?_, ?_⟩
  · rintro (hopen | hsame)
    · refine hflows.areAssembled ?_
      have hheld : (p.item.heldAt limit).admitsCrossFlow m.setup cells (.ok (WellUnit.holdAt limit)) = .ok true :=
        if_pos hopen
      have hcurrent : p.item.admitsCrossFlow m.setup cells ((s.slot p.index).currentControl p.item.well) = .ok true :=
        if_pos hopen
      rw [hheld, ← hcurrent, hcross]
    · exact hflows.areAssembled hsame
  · rintro hclosed ⟨link, hlink, d, hd, hforward⟩ hsame
    have hdecision : crossFlow = false := by
      rcases hsame with hheld | ⟨control, bhp, hcontrol, hbhp, htight⟩
      · exact WellUnit.closed_of_forward (u := p.item.heldAt limit) hclosed rfl hheld hlink hd hforward
      · obtain ⟨d', hd', hforward'⟩ := WellUnit.forward_of_asTight htight hd hforward
        rw [hcontrol] at hcross
        exact WellUnit.closed_of_forward hclosed hbhp hcross hlink hd' hforward'
    rw [hdecision] at hflows
    exact hflows.keepsType

/-! ### A well between cells of different pressures -/

/-- A producer without cross flow, limited by its oil rate and by its bottom-hole pressure, through connections to two
cells. -/
def drainedProducer (current : Nat) : Well ℚ :=
  { Well.producer "P" 0 [⟨0, 2, 0, 1⟩, ⟨1, 2, 0, 1⟩]
      ⟨[⟨.surfaceRate, -1, ⟨0, 1, 0⟩⟩, ⟨.bhp, 15, .replicate 0⟩], current⟩ with
    crossFlow := false }

/-- Cells of given pressures, in which oil is mobile. -/
def drainedCells (pressures : List ℚ) : List (Cell ℚ) :=
  pressures.map fun p => { Cell.still (.seed p 0) 300 with mobility := ⟨.const 0, .const 1, .const 0⟩ }

/-- The producer, held at its pressure limit. -/
def drainedModel : Model ℚ := ⟨(Session.oilProducer 15).model.setup, [.create (drainedProducer 1)]⟩

/-- A state of the producer. -/
def drainedFlow : FlowState ℚ :=
  ⟨[15], [0], [0, -1, 0], [0, 0, 0], [1], [15, 15], [0, -1, 0, 0, 0, 0], [0, 0, 0, 0, 0, 0], 0⟩

/-- On its pressure limit the producer has no potential into the second cell. -/
theorem Model.putPotentials_flows_drainedProducer :
    ∃ t p, drainedModel.putPotentials (drainedCells [20, 10]) drainedFlow = (.ok ⟨⟩, t) ∧ p ∈ drainedModel.placed ∧
      p.item.KeepsType drainedModel.setup (drainedCells [20, 10]) 15 (fun k => t.potentialAt (p.first + k)) := by
  have hrun : drainedModel.putPotentials (drainedCells [20, 10]) drainedFlow =
      (.ok ⟨⟩, (drainedModel.putPotentials (drainedCells [20, 10]) drainedFlow).2) :=
    Attempt.run_ok_of_toOption (by decide +kernel)
  obtain ⟨rates, limit, crossFlow, hrates, hlimit, -, -, -, hkeeps⟩ :=
    drainedModel.putPotentials_flows hrun (List.mem_cons_self ..)
  obtain rfl : ⟨0, -1, 0⟩ = rates := Option.some.inj hrates
  have hfifteen : (WellUnit.create (drainedProducer 1)).tightestLimit drainedModel.setup ⟨0, -1, 0⟩ = .ok 15 :=
    Outcome.ok_of_toOption (by decide +kernel)
  obtain rfl : limit = 15 := IsGreatest.unique hlimit (WellUnit.isTightest_of_tightestLimit hfifteen)
  have hforward : WellUnit.drawdownAt (drainedCells [20, 10]) 15 (⟨0, 2, 0, 1⟩, ⟨0, 0, 1⟩) = .ok 5 :=
    Outcome.ok_of_toOption (by decide +kernel)
  refine ⟨_, _, hrun, List.mem_cons_self .., hkeeps rfl ⟨_, List.mem_cons_self .., 5, hforward, ?_⟩ (.inr ?_)⟩
  · decide +kernel
  · exact ⟨_, _, rfl, rfl, le_rfl⟩

/-- What the producer has for a limit, what it would flow if it were held there, and its potentials, after the
pressures of the cells have fallen from those it has started from. -/
def drainedRun : Outcome ℚ (Bool × Bool × ℚ × List (List ℚ) × List ℚ) := do
  let ws ← Wells.create [drainedProducer 0] (.single .oil) 2
  let m ← Model.create ws (Session.oilProducer 15).model.setup
  let s ← m.start (none : Option (VoidageGroup ℚ)) (drainedCells [30, 30])
  let u ← s.model.unit 0
  let limit ← u.tightestLimit s.model.setup (← Outcome.need (s.flow.slot 0).rates)
  let flows ← (u.heldAt limit).connectionFlows s.model.setup (drainedCells [20, 10]) (s.flow.slot 0)
    (WellUnit.holdAt limit)
  let _ ← (s.model.putPotentials (drainedCells [20, 10]) s.flow).1
  return (u.well.type == .producer, u.well.crossFlow, limit, flows.map (·.flux.map (·.value) |>.toList),
    (s.model.putPotentials (drainedCells [20, 10]) s.flow).2.potentials)

/-- On its rate limit the pressure in the producer is above those of both cells, so that cross flow is admitted.  At its
pressure limit the producer has a potential into the second cell, which does not flow if the well is held there. -/
theorem not_areAssembled_drainedProducer : ∃ ws m, ∃ s : Session ℚ (Option (VoidageGroup ℚ)), ∃ u rates t,
    Wells.create [drainedProducer 0] (.single .oil) 2 = .ok ws ∧
    Model.create ws (Session.oilProducer 15).model.setup = .ok m ∧ m.start none (drainedCells [30, 30]) = .ok s ∧
    s.model.putPotentials (drainedCells [20, 10]) s.flow = (.ok ⟨⟩, t) ∧ s.model.unit 0 = .ok u ∧
    u.well.type = .producer ∧ u.well.crossFlow = false ∧ (s.flow.slot 0).rates = some rates ∧
    u.well.type.IsTightest (u.pressureLimits s.model.setup rates) 15 ∧
    t.potentialAt 0 = some ⟨0, -10, 0⟩ ∧ t.potentialAt 1 = some ⟨0, 10, 0⟩ ∧
    ¬u.AreAssembled s.model.setup (drainedCells [20, 10]) 15 t.potentialAt := by
  have hrun : drainedRun = .ok (true, false, 15, [[0, -10, 0], [0, 0, 0]], [0, -10, 0, 0, 10, 0]) :=
    Outcome.ok_of_toOption (by decide +kernel)
  obtain ⟨ws, hws, h⟩ := Outcome.bind_ok.1 hrun
  obtain ⟨m, hm, h⟩ := Outcome.bind_ok.1 h
  obtain ⟨s, hs, h⟩ := Outcome.bind_ok.1 h
  obtain ⟨u, hu, h⟩ := Outcome.bind_ok.1 h
  obtain ⟨rates, hrates, h⟩ := Outcome.bind_ok.1 h
  obtain ⟨limit, hlimit, h⟩ := Outcome.bind_ok.1 h
  obtain ⟨flows, hflows, h⟩ := Outcome.bind_ok.1 h
  obtain ⟨_, hput, h⟩ := Outcome.bind_ok.1 h
  have hresult := Except.ok.inj h
  generalize ht : (s.model.putPotentials (drainedCells [20, 10]) s.flow).2 = t at hresult
  simp only [Prod.mk.injEq] at hresult
  obtain ⟨htype, hclosed, rfl, hvalues, hpotentials⟩ := hresult
  have hfirst : t.potentialAt 0 = some ⟨0, -10, 0⟩ := by
    unfold FlowState.potentialAt
    rw [hpotentials]
    rfl
  have hsecond : t.potentialAt 1 = some ⟨0, 10, 0⟩ := by
    unfold FlowState.potentialAt
    rw [hpotentials]
    rfl
  refine ⟨ws, m, s, u, rates, t, hws, hm, hs, Prod.ext hput ht, hu, eq_of_beq htype, hclosed, Outcome.need_ok.1 hrates,
    WellUnit.isTightest_of_tightestLimit hlimit, hfirst, hsecond, fun hassembled => ?_⟩
  have hheld : (flows.map (·.flux.map (·.value) |>.toList))[1]? = some [0, 0, 0] := by
    rw [hvalues]
    rfl
  rw [List.getElem?_map, Option.map_eq_some_iff] at hheld
  obtain ⟨f, hf, hvalue⟩ := hheld
  have hsame := Option.some.inj (hsecond.symm.trans (hassembled.flows _ _ hflows 1 f hf))
  rw [← hsame] at hvalue
  revert hvalue
  decide +kernel

end BlackOilWells
