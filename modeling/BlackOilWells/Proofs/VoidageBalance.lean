import Mathlib.Algebra.BigOperators.Group.List.Lemmas
import Mathlib.Algebra.Order.Ring.Rat
import BlackOilWells.Proofs.GroupFlags
import BlackOilWells.Proofs.Scenarios

/-!
# The balance of a voidage replacement group

A switch of controls gives the injectors under a group new targets.  What they inject at these targets, weighted by
their voidage coefficients and efficiencies, is the fraction of what the producers take out that the group has to
replace; it is split in proportion to the guide rates; and at these rates the group is on target
(`Session.voidage_balance`).

The targets are written one after the other, each to the well of its name.  As the names are distinct, none is
overwritten (`Session.targets_written`).
-/

namespace BlackOilWells

open Attempt

variable {α γ : Type}

/-! ### Targets in a list of wells -/

namespace Wells

/-- The target of a control of a well. -/
def target? (ws : Wells α) (w i : Nat) : Option α := ws.list[w]?.bind fun v => v.controls.list[i]?.map (·.target)

private theorem indexOf?_of_names {ws ws' : Wells α} (h : ws'.list.map (·.name) = ws.list.map (·.name))
    (name : String) :
    ws'.indexOf? name = ws.indexOf? name := by
  have hfind (ws : Wells α) : ws.indexOf? name = (ws.list.map (·.name)).findIdx? (· == name) := by
    rw [indexOf?, List.findIdx?_map]
    rfl
  rw [hfind, hfind, h]

private theorem eq_of_indexOf? {ws : Wells α} {x y : String} {w : Nat} (hx : ws.indexOf? x = some w)
    (hy : ws.indexOf? y = some w) : x = y := by
  obtain ⟨v, hv, hvx⟩ := exists_of_indexOf? hx
  obtain ⟨v', hv', hvy⟩ := exists_of_indexOf? hy
  rw [hv, Option.some.injEq] at hv'
  rw [← hvx, hv', hvy]

end Wells

namespace Model

variable {m m' : Model α} {w i : Nat} {x : α}

private theorem names_of_setTarget (h : m.setTarget w i x = .ok m') :
    m'.wells.list.map (·.name) = m.wells.list.map (·.name) := by
  obtain ⟨v, cs, hv, -, hlist⟩ := wells_of_setTarget h
  have hname : (m.wells.list.map (·.name))[w]? = some v.name := by rw [List.getElem?_map, hv, Option.map_some]
  obtain ⟨hw, hget⟩ := List.getElem?_eq_some_iff.1 hname
  rw [hlist, List.map_set, ← hget]
  exact List.set_getElem_self hw

private theorem target?_setTarget_self (h : m.setTarget w i x = .ok m') : m'.wells.target? w i = some x := by
  obtain ⟨v, cs, hv, hcs, hlist⟩ := wells_of_setTarget h
  have hw : w < m.wells.list.length := (List.getElem?_eq_some_iff.1 hv).1
  have hcontrol : cs.list[i]?.map (·.target) = some x := by
    unfold Controls.setTarget at hcs
    cases hc : v.controls.list[i]? with
    | none =>
      rw [hc] at hcs
      cases hcs
    | some c =>
      rw [hc] at hcs
      cases hcs
      have hi : i < v.controls.list.length := (List.getElem?_eq_some_iff.1 hc).1
      dsimp only
      rw [List.getElem?_set_self hi, Option.map_some]
  rw [Wells.target?, hlist, List.getElem?_set_self hw, Option.bind_some]
  exact hcontrol

private theorem target?_setTarget_of_ne (h : m.setTarget w i x = .ok m') {v : Nat} (hv : w ≠ v) (j : Nat) :
    m'.wells.target? v j = m.wells.target? v j := by
  obtain ⟨_, _, -, -, hlist⟩ := wells_of_setTarget h
  rw [Wells.target?, Wells.target?, hlist, List.getElem?_set_ne hv]

end Model

/-- Targets for distinct wells are all there in the end. -/
theorem Session.targets_written {as : List (AssignedTarget α)} {s t : Session α γ}
    (hdistinct : (as.map (·.well)).Nodup) (h : (as.forM takeTarget : Step Id α γ PUnit) s = (.ok ⟨⟩, t)) :
    ∀ a ∈ as, ∃ w, s.model.wells.indexOf? a.well = some w ∧ t.model.wells.target? w a.control = some a.target := by
  let I (k : Nat) (u : Session α γ) : Prop :=
    u.model.wells.list.map (·.name) = s.model.wells.list.map (·.name) ∧
      ∀ j a, j < k → as[j]? = some a → ∃ w, s.model.wells.indexOf? a.well = some w ∧
        u.model.wells.target? w a.control = some a.target
  have hI : I as.length t := by
    refine forM_ok h ⟨rfl, fun j _ hj => absurd hj (Nat.not_lt_zero j)⟩ ?_
    intro i b u v hb hu hstep
    obtain ⟨hnames, hwritten⟩ := hu
    obtain ⟨w, m, hw, hm, rfl⟩ := takeTarget_ok hstep
    rw [Wells.indexOf?_of_names hnames] at hw
    refine ⟨(Model.names_of_setTarget hm).trans hnames, fun j a hj ha => ?_⟩
    by_cases hji : j = i
    · subst hji
      rw [hb, Option.some.injEq] at ha
      subst ha
      exact ⟨w, hw, Model.target?_setTarget_self hm⟩
    · obtain ⟨w', hw', htarget⟩ := hwritten j a (by omega) ha
      -- an earlier target stays, as it is that of another well
      have hne : w ≠ w' := by
        rintro rfl
        exact hji (index_eq_of_nodup_map hdistinct ha hb (Wells.eq_of_indexOf? hw' hw))
      refine ⟨w', hw', ?_⟩
      rw [← htarget]
      exact Model.target?_setTarget_of_ne hm hne _
  intro a ha
  obtain ⟨j, hj, rfl⟩ := List.mem_iff_getElem.1 ha
  exact hI.2 j _ hj (List.getElem?_eq_getElem hj)

/-! ### Members and their places -/

namespace VoidageGroup

/-- The injectors with a group control. -/
def injectors (g : VoidageGroup α) : List (GroupMember α) := g.members.filter (·.isEligible)

/-- The producers. -/
def producers (g : VoidageGroup α) : List (GroupMember α) := g.members.filter (·.type = .producer)

/-- Whether the members are distinct wells, each with the index and the type that it has among given wells. -/
structure Locates (ws : Wells α) (g : VoidageGroup α) : Prop where
  distinct : (g.members.map (·.well)).Nodup
  place : ∀ m ∈ g.members, ∃ v, ws.list[m.index]? = some v ∧ v.name = m.well ∧ v.type = m.type

private theorem member?_of_mem {g : VoidageGroup α} (hdistinct : (g.members.map (·.well)).Nodup) {m : GroupMember α}
    (hm : m ∈ g.members) : g.member? m.well = some m := by
  cases hfind : g.member? m.well with
  | none => exact absurd (List.find?_eq_none.1 hfind m hm) (by simp)
  | some m' =>
    have hbeq := List.find?_some hfind
    have hwell : m'.well = m.well := beq_iff_eq.1 hbeq
    rw [List.inj_on_of_nodup_map hdistinct (List.mem_of_find?_eq_some hfind) hm hwell]

/-- What does not look at flags is the same for the injectors of two groups that differ in their flags. -/
private theorem map_injectors {β : Type} {g g' : VoidageGroup α} (h : g'.unflagged.members = g.unflagged.members)
    {f : GroupMember α → β} (hf : ∀ m, f m.unflagged = f m) : g'.injectors.map f = g.injectors.map f := by
  have hmap (ms : List (GroupMember α)) :
      (ms.filter (·.isEligible)).map f = ((ms.map GroupMember.unflagged).filter (·.isEligible)).map f := by
    rw [List.filter_map, List.map_map]
    exact List.map_congr_left fun m _ => (hf m).symm
  have hmembers : g'.members.map GroupMember.unflagged = g.members.map GroupMember.unflagged := h
  rw [injectors, hmap, hmembers, ← hmap, injectors]

private theorem forall_injectors {g g' : VoidageGroup α} (h : g'.unflagged.members = g.unflagged.members)
    {P : GroupMember α → Prop} (hP : ∀ m, P m.unflagged ↔ P m) (hg : ∀ m ∈ g.injectors, P m) :
    ∀ m ∈ g'.injectors, P m := by
  intro m hm
  have hmap := map_injectors h (f := GroupMember.unflagged) fun _ => rfl
  have hmem : m.unflagged ∈ g.injectors.map GroupMember.unflagged := hmap ▸ List.mem_map_of_mem hm
  obtain ⟨m₀, hm₀, hsame⟩ := List.mem_map.1 hmem
  rw [← hP m, ← hsame, hP m₀]
  exact hg m₀ hm₀

end VoidageGroup

section Build

variable [Scalar α] {ws : Wells α}

omit [Scalar α] in
private theorem Scenario.place_of_buildMember {group : String} {spec : MemberSpec α} {m : GroupMember α}
    (h : Scenario.buildMember ws group spec = .ok m) :
    m.well = spec.well ∧ ∃ v, ws.list[m.index]? = some v ∧ v.name = m.well ∧ v.type = m.type := by
  unfold Scenario.buildMember at h
  split at h
  · cases h
  rename_i index hindex
  obtain ⟨w, hw, h⟩ := Outcome.bind_ok.1 h
  obtain ⟨v, hv, hname⟩ := Wells.exists_of_indexOf? hindex
  have hget := Wells.getElem?_of_get (Scenario.mapError_ok.1 hw)
  obtain rfl : v = w := Option.some.inj (hv.symm.trans hget)
  dsimp only at h
  cases hcontrol : spec.groupControl with
  | none =>
    rw [hcontrol] at h
    cases h
    exact ⟨rfl, v, hv, hname, rfl⟩
  | some control =>
    rw [hcontrol] at h
    obtain ⟨c, -, h⟩ := Outcome.bind_ok.1 h
    cases h
    exact ⟨rfl, v, hv, hname, rfl⟩

/-- The members of a group that is built from a description are where the description says, if it names no well
twice. -/
theorem Scenario.locates_of_buildGroup {spec : GroupSpec α} {g : VoidageGroup α}
    (h : Scenario.buildGroup ws spec = .ok g) (hdistinct : (spec.members.map (·.well)).Nodup) : g.Locates ws := by
  obtain ⟨members, hm, h⟩ := Outcome.bind_ok.1 h
  cases h
  have hwells : members.map (·.well) = spec.members.map (·.well) := by
    have hall := (Outcome.mapM_ok.1 hm).imp fun _ _ hb => (place_of_buildMember hb).1.symm
    exact (List.forall₂_eq_eq_eq ▸ List.forall₂_map_left_iff.2 (List.forall₂_map_right_iff.2 hall)).symm
  refine ⟨?_, fun m hmem => ?_⟩
  · dsimp only
    rw [hwells]
    exact hdistinct
  · obtain ⟨spec', -, hspec⟩ := Outcome.exists_of_mem_ok hm hmem
    exact (place_of_buildMember hspec).2

end Build

/-! ### The group after a switch of controls -/

section Course

variable [Scalar α] {cells : List (Cell α)} {s led put assigned followed t : Session α (VoidageGroup α)}
  {next : List (Nat × Bool)}

namespace Session.Course

/-- Up to its flags the group is what it was, but for the target and the coefficients that it has learnt. -/
private theorem groups_unflagged (h : Course cells s led put assigned followed t next)
    (hnames : (s.model.wells.list.map (·.name)).Nodup) {vs : List (α × PerPhase α)}
    (hv : s.model.voidage cells s.flow = .ok vs) :
    t.groups.unflagged = { s.groups.unflagged with
      reservoirTarget := s.groups.fraction * s.groups.produced vs.unzip.1 * s.groups.efficiency
      coefficients := vs.unzip.2 } := by
  obtain ⟨vs', hv', hframe, -⟩ := replaceVoidage_ok h.replaceVoidage_eq
  rw [hv] at hv'
  cases hv'
  have hgroups : led.groups = s.groups.takeVoidage vs.unzip.1 vs.unzip.2 := by
    rw [hframe]
    rfl
  rw [h.groups_eq_put, (h.flags hnames).1, hgroups, VoidageGroup.unflagged_takeVoidage]

/-- All injectors with a group control are under the group. -/
private theorem led_eq_injectors (h : Course cells s led put assigned followed t next)
    (hnames : (s.model.wells.list.map (·.name)).Nodup) (hplaces : s.groups.Locates s.model.wells) :
    t.groups.led = t.groups.injectors := by
  obtain ⟨vs, hv, -⟩ := replaceVoidage_ok h.replaceVoidage_eq
  have hunflagged : t.groups.members.map GroupMember.unflagged = s.groups.members.map GroupMember.unflagged :=
    congrArg VoidageGroup.members (h.groups_unflagged hnames hv)
  have hwells : t.groups.members.map (·.well) = s.groups.members.map (·.well) := by
    have hmap := congrArg (List.map GroupMember.well) hunflagged
    rwa [List.map_map, List.map_map] at hmap
  refine List.filter_congr fun m hm => ?_
  rw [GroupMember.isLed]
  cases he : m.isEligible with
  | false => rfl
  | true =>
    have hmem : m.unflagged ∈ s.groups.members.map GroupMember.unflagged := hunflagged ▸ List.mem_map_of_mem hm
    obtain ⟨m₀, hm₀, hsame⟩ := List.mem_map.1 hmem
    have hwell : m₀.well = m.well := (congrArg GroupMember.well hsame :)
    have he₀ : m₀.isEligible = true := (congrArg GroupMember.isEligible hsame :).trans he
    obtain ⟨v, hv, hname, htype⟩ := hplaces.place m₀ hm₀
    rw [Model.wells, List.getElem?_map] at hv
    obtain ⟨u, hu, rfl⟩ := Option.map_eq_some_iff.1 hv
    have hinjector : u.well.isInjector = true := by
      rw [Well.isInjector, htype]
      exact (Bool.and_eq_true_iff.1 he₀).1
    have hentry : s.groups.member? u.well.name = some m₀ := by
      rw [hname]
      exact VoidageGroup.member?_of_mem hplaces.distinct hm₀
    have hflag := (h.led_of_eligible hnames hu hinjector hentry he₀).2
    have hm' : t.groups.member? u.well.name = some m := by
      rw [hname, hwell]
      exact VoidageGroup.member?_of_mem (hwells ▸ hplaces.distinct) hm
    change (t.groups.member? u.well.name).all (·.individual) = false at hflag
    rw [hm', Option.all_some] at hflag
    rw [hflag]
    rfl

end Session.Course

end Course

/-! ### Shares in exact arithmetic -/

section Exact

variable {K : Type} [Field K] [LinearOrder K]

private theorem foldl_add_exact (f : GroupMember K → K) (ms : List (GroupMember K)) (a : K) :
    ms.foldl (fun acc m => acc + f m) a = a + (ms.map f).sum := by
  induction ms generalizing a with
  | nil => rw [List.foldl_nil, List.map_nil, List.sum_nil, add_zero]
  | cons m ms ih => rw [List.foldl_cons, ih, List.map_cons, List.sum_cons, add_assoc]

/-- Shares in proportion to guide rates add up to the whole. -/
private theorem sum_shares (total : K) {guide : GroupMember K → K} {ms : List (GroupMember K)}
    (h : (ms.map guide).sum ≠ 0) : (ms.map fun m => total * guide m / (ms.map guide).sum).sum = total := by
  have hdiv : (fun m => total * guide m / (ms.map guide).sum) = fun m => total / (ms.map guide).sum * guide m := by
    funext m
    ring
  rw [hdiv, List.sum_map_mul_left]
  exact div_mul_cancel₀ total h

namespace GroupMember

/-- The voidage of a member, given voidage and coefficients of all wells. -/
def voidageIn (m : GroupMember K) (vs : List (K × PerPhase K)) : K := (vs[m.index]?.map (·.1)).getD 0

/-- The voidage coefficient of a member for a phase, given voidage and coefficients of all wells. -/
def coefficientIn (m : GroupMember K) (vs : List (K × PerPhase K)) (p : Phase) : K :=
  (vs[m.index]?.map (·.2.get p)).getD 0

end GroupMember

namespace VoidageGroup

/-- The reservoir volume rate that the injectors have to inject: the fraction of the voidage of the producers. -/
def required (g : VoidageGroup K) (vs : List (K × PerPhase K)) : K :=
  g.fraction * g.efficiency * (g.producers.map fun m => m.efficiency * m.voidageIn vs).sum

/-- The share of an injector in what the group has to inject. -/
def shareOf (g : VoidageGroup K) (vs : List (K × PerPhase K)) (m : GroupMember K) : K :=
  g.required vs * m.guideRate / (g.injectors.map (·.guideRate)).sum

/-- The surface rate at which an injector injects its share. -/
def rateOf (g : VoidageGroup K) (vs : List (K × PerPhase K)) (m : GroupMember K) : K :=
  g.shareOf vs m / (m.coefficientIn vs g.phase * m.efficiency * g.efficiency)

private theorem produced_exact (g : VoidageGroup K) (vs : List (K × PerPhase K)) :
    g.fraction * g.produced vs.unzip.1 * g.efficiency = g.required vs := by
  have hterm : (fun m : GroupMember K => vs.unzip.1[m.index]?.getD 0 * m.efficiency) =
      fun m => m.efficiency * m.voidageIn vs := by
    funext m
    rw [GroupMember.voidageIn, List.unzip_fst, List.getElem?_map, mul_comm]
  rw [produced, Scalar.sum_exact, hterm, required, producers]
  ring

/-- Whether a group is another one that has learnt the voidage of the wells and leads all injectors with a group
control. -/
structure Informed (vs : List (K × PerPhase K)) (g g' : VoidageGroup K) : Prop where
  unflagged : g'.unflagged = { g.unflagged with reservoirTarget := g.required vs, coefficients := vs.unzip.2 }
  led : g'.led = g'.injectors

namespace Informed

variable {vs : List (K × PerPhase K)} {g g' : VoidageGroup K} (h : Informed vs g g')

include h

private theorem members_eq : g'.unflagged.members = g.unflagged.members :=
  (congrArg VoidageGroup.members h.unflagged :)

private theorem phase_eq : g'.phase = g.phase := (congrArg VoidageGroup.phase h.unflagged :)

private theorem efficiency_eq : g'.efficiency = g.efficiency := (congrArg VoidageGroup.efficiency h.unflagged :)

private theorem tolerance_eq : g'.tolerance = g.tolerance := (congrArg VoidageGroup.tolerance h.unflagged :)

private theorem reservoirTarget_eq : g'.reservoirTarget = g.required vs :=
  (congrArg VoidageGroup.reservoirTarget h.unflagged :)

private theorem coefficient_eq (m : GroupMember K) : g'.coefficient m.index = m.coefficientIn vs g.phase := by
  have hcoefficients : g'.coefficients = vs.unzip.2 := (congrArg VoidageGroup.coefficients h.unflagged :)
  rw [coefficient, GroupMember.coefficientIn, hcoefficients, h.phase_eq, List.unzip_snd, List.getElem?_map,
    Option.map_map]
  rfl

private theorem sum_guideRate : Scalar.sum (g'.led.map (·.guideRate)) = (g.injectors.map (·.guideRate)).sum := by
  rw [Scalar.sum_exact, h.led, map_injectors h.members_eq fun _ => rfl]

private theorem targetOf?_eq {m : GroupMember K} {i : Nat} (hi : m.groupControl = some i)
    (hm : 0 < m.coefficientIn vs g.phase) :
    g'.targetOf? (g.injectors.map (·.guideRate)).sum m = some ⟨m.well, i, g.rateOf vs m⟩ := by
  have hpos : ¬m.coefficientIn vs g.phase ≤ 0 := not_le.2 hm
  rw [targetOf?, hi, Option.bind_some, h.coefficient_eq, h.reservoirTarget_eq, h.efficiency_eq]
  dsimp only
  rw [if_neg hpos]
  rfl

/-- Every injector gets the rate of its share. -/
private theorem targets_eq (hguide : 0 < (g.injectors.map (·.guideRate)).sum)
    (hc : ∀ m ∈ g.injectors, 0 < m.coefficientIn vs g.phase) :
    g'.targets = g'.injectors.map fun m => ⟨m.well, m.groupControl.getD 0, g.rateOf vs m⟩ := by
  have hpos : ¬(g.injectors.map (·.guideRate)).sum ≤ 0 := not_le.2 hguide
  have hc' : ∀ m ∈ g'.injectors, 0 < m.coefficientIn vs g.phase :=
    forall_injectors h.members_eq (fun _ => Iff.rfl) hc
  let target (m : GroupMember K) : AssignedTarget K := ⟨m.well, m.groupControl.getD 0, g.rateOf vs m⟩
  have hall : g'.injectors.filterMap (g'.targetOf? (g.injectors.map (·.guideRate)).sum) =
      g'.injectors.filterMap (some ∘ target) := by
    refine List.filterMap_congr fun m hm => ?_
    have he : m.isEligible = true := (List.mem_filter.1 hm).2
    obtain ⟨i, hi⟩ := Option.isSome_iff_exists.1 (Bool.and_eq_true_iff.1 he).2
    rw [h.targetOf?_eq hi (hc' m hm), Function.comp_apply]
    dsimp only [target]
    rw [hi, Option.getD_some]
  rw [targets, h.sum_guideRate, if_neg hpos, h.led, hall, List.filterMap_eq_map]

end Informed

section Balance

variable {vs : List (K × PerPhase K)} {g : VoidageGroup K}

/-- At its rate an injector injects its share. -/
private theorem rateOf_mul {m : GroupMember K} (hc : m.coefficientIn vs g.phase ≠ 0)
    (he : m.efficiency * g.efficiency ≠ 0) :
    g.rateOf vs m * m.coefficientIn vs g.phase * (m.efficiency * g.efficiency) = g.shareOf vs m := by
  have hm : m.efficiency ≠ 0 := left_ne_zero_of_mul he
  have hg : g.efficiency ≠ 0 := right_ne_zero_of_mul he
  rw [rateOf]
  field_simp

/-- At their rates the injectors inject what the group has to inject. -/
theorem sum_rateOf (hguide : 0 < (g.injectors.map (·.guideRate)).sum)
    (hc : ∀ m ∈ g.injectors, 0 < m.coefficientIn vs g.phase)
    (he : ∀ m ∈ g.injectors, m.efficiency * g.efficiency ≠ 0) :
    (g.injectors.map fun m => g.rateOf vs m * m.coefficientIn vs g.phase * (m.efficiency * g.efficiency)).sum =
      g.required vs := by
  have hshare : g.injectors.map (fun m =>
      g.rateOf vs m * m.coefficientIn vs g.phase * (m.efficiency * g.efficiency)) = g.injectors.map (g.shareOf vs) :=
    List.map_congr_left fun m hm => rateOf_mul (hc m hm).ne' (he m hm)
  rw [hshare]
  exact sum_shares (g.required vs) hguide.ne'

/-- A group whose injectors have their rates is on target. -/
private theorem Informed.isOnTarget [IsStrictOrderedRing K] {g' : VoidageGroup K} (h : Informed vs g g')
    (hguide : 0 < (g.injectors.map (·.guideRate)).sum) (hc : ∀ m ∈ g.injectors, 0 < m.coefficientIn vs g.phase)
    (he : ∀ m ∈ g.injectors, m.efficiency * g.efficiency ≠ 0) (htolerance : 0 ≤ g.tolerance) {rates : List K}
    (hrates : ∀ m ∈ g.injectors, rates[3 * m.index + g.phase.index]? = some (g.rateOf vs m)) :
    g'.isOnTarget rates = true := by
  let term (m : GroupMember K) : K :=
    rates[3 * m.index + g.phase.index]?.getD 0 * m.coefficientIn vs g.phase * m.efficiency * g.efficiency
  have hinjected : g'.injected rates = g.required vs := by
    calc g'.injected rates = g'.led.foldl (fun acc m => acc + term m) 0 := by
          simp only [injected, h.coefficient_eq, h.phase_eq, h.efficiency_eq, term]
      _ = (g'.injectors.map term).sum := by rw [foldl_add_exact, zero_add, h.led]
      _ = (g.injectors.map term).sum := by rw [map_injectors h.members_eq fun _ => rfl]
      _ = (g.injectors.map fun m =>
            g.rateOf vs m * m.coefficientIn vs g.phase * (m.efficiency * g.efficiency)).sum := by
          refine congrArg List.sum (List.map_congr_left fun m hm => ?_)
          dsimp only [term]
          rw [hrates m hm, Option.getD_some]
          ring
      _ = g.required vs := sum_rateOf hguide hc he
  -- the deviation is none, so that any scale will do that is not negative
  have hmax : 0 ≤ Scalar.max |g.required vs| (1.0e-12 : K) := by
    change 0 ≤ if false = true then (1.0e-12 : K) else if |g.required vs| < 1.0e-12 then 1.0e-12 else |g.required vs|
    rw [if_neg Bool.false_ne_true]
    have habs := abs_nonneg (g.required vs)
    split
    · exact habs.trans (le_of_lt ‹_›)
    · exact habs
  unfold VoidageGroup.isOnTarget
  rw [hinjected, h.reservoirTarget_eq, h.tolerance_eq, Bool.or_eq_true, decide_eq_true_iff]
  right
  change |g.required vs - g.required vs| ≤ g.tolerance * Scalar.max |g.required vs| 1.0e-12
  rw [sub_self, abs_zero]
  exact mul_nonneg htolerance hmax

end Balance

end VoidageGroup

namespace Session

variable {cells : List (Cell K)} {s t : Session K (VoidageGroup K)} {vs : List (K × PerPhase K)}

private theorem Course.informed {led put assigned followed : Session K (VoidageGroup K)} {next : List (Nat × Bool)}
    (h : Course cells s led put assigned followed t next) (hnames : (s.model.wells.list.map (·.name)).Nodup)
    (hplaces : s.groups.Locates s.model.wells) (hv : s.model.voidage cells s.flow = .ok vs) :
    s.groups.Informed vs t.groups := by
  refine ⟨?_, h.led_eq_injectors hnames hplaces⟩
  rw [h.groups_unflagged hnames hv, VoidageGroup.produced_exact]

/-- Every injector with a group control has got the rate of its share as the target of that control. -/
private theorem Course.target?_eq {led put assigned followed : Session K (VoidageGroup K)} {next : List (Nat × Bool)}
    (h : Course cells s led put assigned followed t next) (hnames : (s.model.wells.list.map (·.name)).Nodup)
    (hplaces : s.groups.Locates s.model.wells) (hv : s.model.voidage cells s.flow = .ok vs)
    (hguide : 0 < (s.groups.injectors.map (·.guideRate)).sum)
    (hc : ∀ m ∈ s.groups.injectors, 0 < m.coefficientIn vs s.groups.phase) {m : GroupMember K}
    (hm : m ∈ s.groups.injectors) {i : Nat} (hi : m.groupControl = some i) :
    t.model.wells.target? m.index i = some (s.groups.rateOf vs m) := by
  have hinformed := h.informed hnames hplaces hv
  have htargets := hinformed.targets_eq hguide hc
  have hput : put.groups = t.groups := h.groups_eq_put.symm
  have hassign := (takeTargets_ok h.assign).1
  change (put.groups.targets.forM takeTarget : Step Id K (VoidageGroup K) PUnit) put = (.ok ⟨⟩, assigned) at hassign
  rw [hput, htargets] at hassign
  have hdistinct : ((t.groups.injectors.map fun m =>
      (⟨m.well, m.groupControl.getD 0, s.groups.rateOf vs m⟩ : AssignedTarget K)).map (·.well)).Nodup := by
    have hwells : t.groups.injectors.map (·.well) = s.groups.injectors.map (·.well) :=
      VoidageGroup.map_injectors hinformed.members_eq fun _ => rfl
    rw [List.map_map]
    change (t.groups.injectors.map (·.well)).Nodup
    rw [hwells]
    exact hplaces.distinct.sublist (List.filter_sublist.map _)
  have hmem : (⟨m.well, i, s.groups.rateOf vs m⟩ : AssignedTarget K) ∈ t.groups.injectors.map fun m =>
      (⟨m.well, m.groupControl.getD 0, s.groups.rateOf vs m⟩ : AssignedTarget K) := by
    rw [VoidageGroup.map_injectors hinformed.members_eq fun _ => rfl]
    refine List.mem_map.2 ⟨m, hm, ?_⟩
    rw [hi, Option.getD_some]
  obtain ⟨w, hw, htarget⟩ := targets_written hdistinct hassign _ hmem
  have hmodel : put.model = s.model := by
    rw [h.put_eq, h.led_eq]
    rfl
  rw [hmodel] at hw
  obtain ⟨v, hv', hname⟩ := Wells.exists_of_indexOf? hw
  obtain ⟨v₀, hv₀, hname₀, -⟩ := hplaces.place m (List.mem_filter.1 hm).1
  have hindex : w = m.index := index_eq_of_nodup_map hnames hv' hv₀ (hname.trans hname₀.symm)
  rw [h.model_eq, ← hindex]
  exact htarget

/-- The balance of the targets that a switch of controls gives to the injectors under a voidage replacement group. -/
theorem voidage_balance [IsStrictOrderedRing K] (hnames : (s.model.wells.list.map (·.name)).Nodup)
    (hplaces : s.groups.Locates s.model.wells) (h : updateControls cells s = (.ok ⟨⟩, t))
    (hv : s.model.voidage cells s.flow = .ok vs) (hguide : 0 < (s.groups.injectors.map (·.guideRate)).sum)
    (hc : ∀ m ∈ s.groups.injectors, 0 < m.coefficientIn vs s.groups.phase)
    (he : ∀ m ∈ s.groups.injectors, m.efficiency * s.groups.efficiency ≠ 0) : ∃ T : GroupMember K → K,
      (∀ m ∈ s.groups.injectors, ∀ i, m.groupControl = some i → t.model.wells.target? m.index i = some (T m)) ∧
      (s.groups.injectors.map fun m =>
        T m * m.coefficientIn vs s.groups.phase * (m.efficiency * s.groups.efficiency)).sum = s.groups.required vs ∧
      (∀ m ∈ s.groups.injectors,
        T m * m.coefficientIn vs s.groups.phase * (m.efficiency * s.groups.efficiency) *
          (s.groups.injectors.map (·.guideRate)).sum = s.groups.required vs * m.guideRate) ∧
      ∀ rates, 0 ≤ s.groups.tolerance →
        (∀ m ∈ s.groups.injectors, rates[3 * m.index + s.groups.phase.index]? = some (T m)) →
        t.groups.isOnTarget rates = true := by
  obtain ⟨led, put, assigned, followed, next, hcourse⟩ := updateControls_ok h
  refine ⟨s.groups.rateOf vs, fun m hm i hi => ?_, ?_, fun m hm => ?_, fun rates htolerance hrates => ?_⟩
  · exact hcourse.target?_eq hnames hplaces hv hguide hc hm hi
  · exact VoidageGroup.sum_rateOf hguide hc he
  · rw [VoidageGroup.rateOf_mul (hc m hm).ne' (he m hm), VoidageGroup.shareOf]
    exact div_mul_cancel₀ _ hguide.ne'
  · exact (hcourse.informed hnames hplaces hv).isOnTarget hguide hc he htolerance hrates

end Session

end Exact

/-! ### Two injectors that replace what a producer takes out -/

namespace Session

/-- A producer and two water injectors.  The group is to replace nine tenths of what the producer takes out, and the
second injector has three times the guide rate of the first. -/
def replacingTrio : Session ℚ (VoidageGroup ℚ) where
  model :=
    { setup := replacingPair.model.setup
      units := replacingPair.model.units ++ [{ WellUnit.create (.injector "J" 0 .water [⟨0, 2, 0, 1⟩]
        ⟨[⟨.bhp, 120, .replicate 0⟩, ⟨.surfaceRate, 1, ⟨1, 0, 0⟩⟩], 0⟩) with
        unknowns := WellUnit.seeded ⟨0, 0, 0⟩ }] }
  flow := ⟨[90, 120, 120], [0, 0, 0], [0, -3, 0, 0, 0, 0, 0, 0, 0], [0, 0, 0, 0, 0, 0, 0, 0, 0], [0, 0, 0],
    [90, 120, 120], [0, 0, 0, 0, 0, 0, 0, 0, 0], [0, 0, 0, 0, 0, 0, 0, 0, 0], 0⟩
  groups :=
    { VoidageGroup.create "G" (9 / 10) .water with
      efficiency := 4 / 5
      members := [⟨"P", 0, .producer, none, 1 / 2, 1, true⟩, ⟨"I", 1, .injector, some 1, 1 / 2, 1, true⟩,
        ⟨"J", 2, .injector, some 1, 1, 3, true⟩] }
  notices := []

/-- The voidage and the coefficients of the three wells. -/
def trioVoidage : List (ℚ × PerPhase ℚ) := [(3, ⟨1, 1, 0⟩), (0, ⟨1, 1, 0⟩), (0, ⟨1, 1, 0⟩)]

theorem voidage_balance_replacingTrio : (replacingTrio.model.wells.list.map (·.name)).Nodup ∧
    replacingTrio.groups.Locates replacingTrio.model.wells ∧
    replacingTrio.model.voidage pairCell replacingTrio.flow = .ok trioVoidage ∧
    (replacingTrio.groups.injectors.map (·.guideRate)).sum = 4 ∧
    (∀ m ∈ replacingTrio.groups.injectors, m.coefficientIn trioVoidage .water = 1) ∧
    (∀ m ∈ replacingTrio.groups.injectors, m.efficiency * replacingTrio.groups.efficiency ≠ 0) ∧
    ∃ t, updateControls pairCell replacingTrio = (.ok ⟨⟩, t) ∧ ∃ T : GroupMember ℚ → ℚ,
      (∀ m ∈ replacingTrio.groups.injectors, ∀ i, m.groupControl = some i →
        t.model.wells.target? m.index i = some (T m)) ∧
      (replacingTrio.groups.injectors.map fun m =>
        T m * m.coefficientIn trioVoidage .water * (m.efficiency * (4 / 5))).sum = 27 / 25 ∧
      ∀ rates, (∀ m ∈ replacingTrio.groups.injectors, rates[3 * m.index + 0]? = some (T m)) →
        t.groups.isOnTarget rates = true := by
  have hnames : (replacingTrio.model.wells.list.map (·.name)).Nodup := by decide
  have hplaces : replacingTrio.groups.Locates replacingTrio.model.wells := by
    refine ⟨by decide, ?_⟩
    rintro m hm
    rcases List.mem_cons.1 hm with rfl | hm
    · exact ⟨_, rfl, rfl, rfl⟩
    rcases List.mem_cons.1 hm with rfl | hm
    · exact ⟨_, rfl, rfl, rfl⟩
    rw [List.mem_singleton] at hm
    subst hm
    exact ⟨_, rfl, rfl, rfl⟩
  have hv : replacingTrio.model.voidage pairCell replacingTrio.flow = .ok trioVoidage :=
    Outcome.ok_of_toOption (by decide +kernel)
  have hrun : (updateControls pairCell replacingTrio).1.toOption = some ⟨⟩ := by decide +kernel
  have hguide : (replacingTrio.groups.injectors.map (·.guideRate)).sum = 4 := by decide +kernel
  have hc : ∀ m ∈ replacingTrio.groups.injectors, m.coefficientIn trioVoidage .water = 1 := by decide +kernel
  have he : ∀ m ∈ replacingTrio.groups.injectors, m.efficiency * replacingTrio.groups.efficiency ≠ 0 := by
    decide +kernel
  have hrequired : replacingTrio.groups.required trioVoidage = 27 / 25 := by decide +kernel
  have htolerance : 0 ≤ replacingTrio.groups.tolerance := by decide +kernel
  obtain ⟨T, htargets, hsum, -, hconverged⟩ := voidage_balance hnames hplaces (run_ok_of_toOption hrun) hv
    (hguide ▸ by decide) (fun m hm => (hc m hm) ▸ by decide) he
  exact ⟨hnames, hplaces, hv, hguide, hc, he, _, run_ok_of_toOption hrun, T, htargets, hsum.trans hrequired,
    fun rates hrates => hconverged rates htolerance hrates⟩

end Session

end BlackOilWells
