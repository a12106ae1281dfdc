import BlackOilWells.Model.Solve
import BlackOilWells.Proofs.Places
import BlackOilWells.Proofs.Reassembly

/-!
# What operations on a session keep

Each operation on a session changes a part of it, and everything else stays.  A property of sessions that does not
depend on the parts that an operation changes is kept by it, also where the operation stops (`Attempt.Maintains`).
`Session.Stable` collects what a property must not depend on to be kept by the local solution; without a group in
effect the groups and the targets of the wells are not touched.
-/

namespace BlackOilWells

open Attempt

variable {α γ : Type} [Scalar α]

/-! ### The model without its unknowns -/

namespace WellUnit

/-- The well without its unknowns and before any assembly. -/
def outline (u : WellUnit α) : WellUnit α := { u.bare with unknowns := ⟨0, 0, 0⟩ }

private theorem outline_of_setUnknowns {u u' : WellUnit α} {s : Slot α} (h : u.setUnknowns s = .ok u') :
    u'.outline = u.outline := by
  obtain ⟨x, -, h⟩ := Outcome.bind_ok.1 h
  cases h
  rfl

end WellUnit

namespace Model

/-- The model without the unknowns of its wells and before any assembly. -/
def outline (m : Model α) : Model α := { m with units := m.units.map .outline }

private theorem outline_bare (m : Model α) : m.bare.outline = m.outline := by
  simp only [outline, bare, List.map_map]
  rfl

theorem outline_of_assemble {m m' : Model α} {cells : List (Cell α)} {dt : α} {s s' : FlowState α}
    (h : m.assemble cells dt s = (.ok m', s')) : m'.outline = m.outline := by
  rw [← outline_bare, bare_of_assemble h, outline_bare]

theorem setUnknowns_ok {m m' : Model α} {s : FlowState α} :
    m.setUnknowns s = .ok m' ↔
      m'.setup = m.setup ∧ m.units.zipIdx.mapM (fun (u, w) => u.setUnknowns (s.slot w)) = .ok m'.units := by
  constructor
  · intro h
    obtain ⟨units, hu, h⟩ := Outcome.bind_ok.1 h
    cases h
    exact ⟨rfl, hu⟩
  · rintro ⟨hs, hu⟩
    refine Outcome.bind_ok.2 ⟨m'.units, hu, ?_⟩
    rw [← hs]
    rfl

theorem outline_of_setUnknowns {m m' : Model α} {s : FlowState α} (h : m.setUnknowns s = .ok m') :
    m'.outline = m.outline := by
  obtain ⟨hs, hu⟩ := setUnknowns_ok.1 h
  have ho : m'.units.map WellUnit.outline = m.units.map .outline :=
    Outcome.map_of_mapM_zipIdx (fun _ _ _ => WellUnit.outline_of_setUnknowns) hu
  rw [outline, outline, hs, ho]

theorem wells_of_outline {m m' : Model α} (h : m'.outline = m.outline) : m'.wells = m.wells := by
  have hw (m : Model α) : m.outline.wells = m.wells := by
    rw [wells, wells, outline, List.map_map]
    rfl
  rw [← hw m', h, hw m]

omit [Scalar α] in
theorem getElem?_of_unit {m : Model α} {w : Nat} {u : WellUnit α} (h : m.unit w = .ok u) : m.units[w]? = some u := by
  unfold unit at h
  cases hget : m.units[w]? with
  | none =>
    rw [hget] at h
    cases h
  | some u' =>
    rw [hget] at h
    cases h
    rfl

omit [Scalar α] in
theorem wells_of_setTarget {m m' : Model α} {w i : Nat} {target : α} (h : m.setTarget w i target = .ok m') :
    ∃ v cs, m.wells.list[w]? = some v ∧ v.controls.setTarget i target = .ok cs ∧
      m'.wells.list = m.wells.list.set w { v with controls := cs } := by
  obtain ⟨u, hu, h⟩ := Outcome.bind_ok.1 h
  obtain ⟨cs, hcs, h⟩ := Outcome.bind_ok.1 h
  cases h
  have hget := getElem?_of_unit hu
  refine ⟨u.well, cs, ?_, hcs, ?_⟩
  · rw [wells, List.getElem?_map, hget, Option.map_some]
  · rw [wells, wells, List.map_set]

omit [Scalar α] in
theorem setup_of_setTarget {m m' : Model α} {w i : Nat} {target : α} (h : m.setTarget w i target = .ok m') :
    m'.setup = m.setup := by
  obtain ⟨u, -, h⟩ := Outcome.bind_ok.1 h
  obtain ⟨controls, -, h⟩ := Outcome.bind_ok.1 h
  cases h
  rfl

theorem setup_of_setDensities {m m' : Model α} {cells : List (Cell α)} {s : FlowState α}
    (h : m.setDensities cells s = .ok m') : m'.setup = m.setup := by
  obtain ⟨props, -, h⟩ := Outcome.bind_ok.1 h
  obtain ⟨densities, -, h⟩ := Outcome.bind_ok.1 h
  cases h
  rfl

theorem wells_of_setDensities {m m' : Model α} {cells : List (Cell α)} {s : FlowState α}
    (h : m.setDensities cells s = .ok m') : m'.wells = m.wells := by
  obtain ⟨props, -, h⟩ := Outcome.bind_ok.1 h
  obtain ⟨densities, hd, h⟩ := Outcome.bind_ok.1 h
  cases h
  have hlength := (Outcome.mapM_ok.1 hd).length_eq
  rw [Wells.placed, Placed.length_ofList, wells, List.length_map] at hlength
  rw [wells, wells, List.map_zipWith]
  refine congrArg Wells.mk (List.ext_getElem ?_ fun i _ _ => ?_)
  · rw [List.length_zipWith, List.length_map, ← hlength, Nat.min_self]
  · rw [List.getElem_zipWith, List.getElem_map]
    rfl

end Model

/-- A well that is to be under its group has a group control. -/
private theorem Well.isSome_of_nextControl {w : Well α} {s : Slot α} {g : Option Nat} {i : Nat}
    (h : w.nextControl s g = .ok (i, true)) : ∃ i, g = some i := by
  obtain ⟨current, -, h⟩ := Outcome.bind_ok.1 h
  split at h
  · exact ⟨_, ‹_›⟩
  · obtain ⟨broken, -, h⟩ := Outcome.bind_ok.1 h
    cases broken with
    | none => cases h
    | some j =>
      have hb : decide (g = some j) = true := congrArg Prod.snd (Except.ok.inj h)
      exact ⟨j, of_decide_eq_true hb⟩

namespace Session

/-! ### Runs of the operations -/

omit [Scalar α] in
theorem run_onFlow {β : Type} (act : Attempt α (FlowState α) β) (s : Session α γ) :
    onFlow act s = ((act s.flow).1, { s with flow := (act s.flow).2 }) := rfl

theorem run_takeUnknowns (s : Session α γ) :
    takeUnknowns s = match s.model.setUnknowns s.flow with
      | .ok m => (.ok ⟨⟩, { s with model := m })
      | .error e => (.error e, s) := by
  change ((liftM (s.model.setUnknowns s.flow) >>= fun m => set { s with model := m }) :
    Attempt α (Session α γ) PUnit) s = _
  rw [run_bind, run_outcome]
  cases s.model.setUnknowns s.flow <;> rfl

theorem run_assembleWells (cells : List (Cell α)) (dt : α) (s : Session α γ) :
    assembleWells cells dt s = match s.model.assemble cells dt s.flow with
      | (.ok m, f) => (.ok ⟨⟩, { s with model := m, flow := f })
      | (.error e, f) => (.error e, { s with flow := f }) := by
  change ((onFlow (s.model.assemble cells dt) >>= fun m => modify fun s => { s with model := m }) :
    Attempt α (Session α γ) PUnit) s = _
  rw [run_bind, run_onFlow]
  rcases s.model.assemble cells dt s.flow with ⟨_ | _, f⟩ <;> rfl

theorem run_refreshDensities (cells : List (Cell α)) (s : Session α γ) :
    refreshDensities cells s = match s.model.setDensities cells s.flow with
      | .ok m => (.ok ⟨⟩, { s with model := m })
      | .error e => (.error e, s) := by
  change ((liftM (s.model.setDensities cells s.flow) >>= fun m => set { s with model := m }) :
    Attempt α (Session α γ) PUnit) s = _
  rw [run_bind, run_outcome]
  cases s.model.setDensities cells s.flow <;> rfl

theorem takeUnknowns_ok {s t : Session α γ} : takeUnknowns s = (.ok ⟨⟩, t) ↔
    ∃ m, s.model.setUnknowns s.flow = .ok m ∧ t = { s with model := m } := by
  rw [run_takeUnknowns]
  rcases s.model.setUnknowns s.flow with _ | m
  · exact ⟨nofun, nofun⟩
  · constructor
    · intro h
      cases h
      exact ⟨m, rfl, rfl⟩
    · rintro ⟨_, h, rfl⟩
      cases h
      rfl

theorem assembleWells_ok {cells : List (Cell α)} {dt : α} {s t : Session α γ} : assembleWells cells dt s = (.ok ⟨⟩, t) ↔
    ∃ m f, s.model.assemble cells dt s.flow = (.ok m, f) ∧ t = { s with model := m, flow := f } := by
  rw [run_assembleWells]
  rcases s.model.assemble cells dt s.flow with ⟨_ | m, f⟩
  · exact ⟨nofun, nofun⟩
  · constructor
    · intro h
      cases h
      exact ⟨m, f, rfl, rfl⟩
    · rintro ⟨_, _, h, rfl⟩
      cases h
      rfl

theorem run_check (comm : Communicator Id α) (cells : List (Cell α)) (i : Nat) (s : Session α γ) :
    check comm cells i s = match s.model.convergence (m := Id) comm cells i with
      | .ok (c, ns) => (.ok c, { s with notices := s.notices ++ ns })
      | .error e => (.error e, s) := by
  change ((liftM (m := Outcome α) (s.model.convergence (m := Id) comm cells i) >>= fun x =>
    Attempt.lift (note x.2) >>= fun _ => pure x.1) : Attempt α (Session α γ) Bool) s = _
  rw [run_bind, run_outcome]
  cases s.model.convergence (m := Id) comm cells i <;> rfl

/-! ### What the operations keep -/

section Keeps

variable {P : Session α γ → Prop} {F : Fault α → Prop}

/-- The unknowns of the state change no outline. -/
theorem takeUnknowns_keeps (hstops : ∀ s, P s → (s.model.setUnknowns s.flow).Stops F)
    (hP : ∀ {s m}, m.outline = s.model.outline → P s → P { s with model := m }) : Keeps P F takeUnknowns := by
  intro s hs
  have hF := hstops s hs
  rw [run_takeUnknowns]
  cases h : s.model.setUnknowns s.flow with
  | error e => exact ⟨hs, .error (hF e h)⟩
  | ok m => exact ⟨hP (Model.outline_of_setUnknowns h) hs, .ok _⟩

theorem refreshDensities_keeps {cells : List (Cell α)}
    (hstops : ∀ s, P s → (s.model.setDensities cells s.flow).Stops F)
    (hP : ∀ {s m}, s.model.setDensities cells s.flow = .ok m → P s → P { s with model := m }) :
    Keeps P F (refreshDensities cells) := by
  intro s hs
  have hF := hstops s hs
  rw [run_refreshDensities]
  cases h : s.model.setDensities cells s.flow with
  | error e => exact ⟨hs, .error (hF e h)⟩
  | ok m => exact ⟨hP h hs, .ok _⟩

/-- An assembly changes no outline.  It writes to the state even if it stops. -/
theorem assembleWells_keeps {cells : List (Cell α)} {dt : α}
    (hflow : ∀ s, P s → P { s with flow := (s.model.assemble cells dt s.flow).2 } ∧
      Outcome.Stops F (s.model.assemble cells dt s.flow).1)
    (hP : ∀ {s m}, m.outline = s.model.outline → P s → P { s with model := m }) :
    Keeps P F (assembleWells cells dt) := by
  intro s hs
  obtain ⟨ht, hF⟩ := hflow s hs
  rw [run_assembleWells]
  rcases h : s.model.assemble cells dt s.flow with ⟨e | m, f⟩
  · rw [h] at ht hF
    exact ⟨ht, .error (hF e rfl)⟩
  · rw [h] at ht
    exact ⟨hP (s := { s with flow := f }) (Model.outline_of_assemble h) ht, .ok _⟩

end Keeps

/-! ### Stable properties -/

variable [GroupControl α γ]

/-- Properties of a session that the local solution keeps.  What a group does to the session must keep the property
too, but only once a group is in effect; `s₀` is a session in which it is, and `s₁` one that the group was asked in. -/
structure Stable (P : Session α γ → Prop) : Prop where
  /-- The flow state does not matter. -/
  flow : ∀ {s} f, P s → P { s with flow := f }
  /-- The notices do not matter. -/
  notices : ∀ {s} ns, P s → P { s with notices := ns }
  /-- The unknowns, systems and sources of the wells do not matter. -/
  model : ∀ {s} m, m.outline = s.model.outline → P s → P { s with model := m }
  /-- The group learns about the voidage. -/
  voidage : ∀ {s₀ s} v c, P s₀ → GroupControl.isActive s₀.groups = true → P s →
    P { s with groups := GroupControl.takeVoidage s.groups v c }
  /-- The group learns whether a well stands for itself.  A well comes under the group only on its group control. -/
  individual : ∀ {s₀ s₁ s} u b, P s₀ → GroupControl.isActive s₀.groups = true → u ∈ s₀.model.units → P s₁ →
    (b = false → ∃ i, GroupControl.controlIndex s₁.groups u.well.name = some i) → P s →
    P { s with groups := GroupControl.setIndividual s.groups u.well.name b }
  /-- The group distributes its targets. -/
  distribute : ∀ {s₀ s}, P s₀ → GroupControl.isActive s₀.groups = true → P s →
    P { s with groups := (GroupControl.distribute s.groups s.flow.rates).2 }
  /-- A well takes a target of the group. -/
  target : ∀ {s₀ s₁ s} t w m, P s₀ → GroupControl.isActive s₀.groups = true → P s₁ →
    t ∈ (GroupControl.distribute s₁.groups s₁.flow.rates).1 → s.model.wells.indexOf? t.well = some w →
    s.model.setTarget w t.control t.target = .ok m → P s → P { s with model := m }

/-- A property is kept if, once a group is in effect, neither the groups nor the wells matter. -/
theorem Stable.of_led {P : Session α γ → Prop} (flow : ∀ {s} f, P s → P { s with flow := f })
    (notices : ∀ {s} ns, P s → P { s with notices := ns })
    (model : ∀ {s} m, m.outline = s.model.outline → P s → P { s with model := m })
    (led : ∀ {s₀ s} g m, P s₀ → GroupControl.isActive s₀.groups = true → m.setup = s.model.setup → P s →
      P { s with groups := g, model := m }) : Stable P where
  flow := flow
  notices := notices
  model := model
  voidage _ _ h₀ ha h := led _ _ h₀ ha rfl h
  individual _ _ h₀ ha _ _ _ h := led _ _ h₀ ha rfl h
  distribute h₀ ha h := led _ _ h₀ ha rfl h
  target _ _ _ h₀ ha _ _ _ hm h := led _ _ h₀ ha (Model.setup_of_setTarget hm) h

variable {P : Session α γ → Prop}

theorem onFlow_maintains {β : Type} (hP : Stable P) (act : Attempt α (FlowState α) β) : Maintains P (onFlow act) :=
  fun _ hs => hP.flow _ hs

theorem note_maintains (hP : Stable P) (ns : List (Notice α)) : Maintains P (note ns) := fun _ hs => hP.notices _ hs

theorem takeUnknowns_maintains (hP : Stable P) : Maintains P takeUnknowns :=
  (takeUnknowns_keeps (fun _ _ => .any _) fun hm hs => hP.model _ hm hs).maintains

theorem restore_maintains (hP : Stable P) (flow : FlowState α) : Maintains P (restore flow) :=
  (Maintains.modify fun _ hs => hP.flow flow hs).bind fun _ => takeUnknowns_maintains hP

theorem assembleWells_maintains (hP : Stable P) (cells : List (Cell α)) (dt : α) :
    Maintains P (assembleWells cells dt) :=
  (assembleWells_keeps (fun _ hs => ⟨hP.flow _ hs, .any _⟩) fun hm hs => hP.model _ hm hs).maintains

private theorem check_maintains (hP : Stable P) (comm : Communicator Id α) (cells : List (Cell α)) (i : Nat) :
    Maintains P (check comm cells i) := by
  intro s hs
  rw [run_check]
  rcases s.model.convergence (m := Id) comm cells i with _ | ⟨c, ns⟩
  · exact hs
  · exact hP.notices _ hs

private theorem applyUpdates_maintains (hP : Stable P) (updates : List (Vec3 α)) : Maintains P (applyUpdates updates) :=
  .get_bind fun _ hs => hP.flow _ hs

/-! ### Control switching -/

private theorem followGroup_maintains (hP : Stable P) (u : WellUnit α) (w : Nat) : Maintains P (followGroup u w) := by
  refine .get_bind fun s hs => Maintains.ite (fun _ => ?_) (fun _ => .pure _) s hs
  cases GroupControl.controlIndex s.groups u.well.name with
  | none => exact .pure _
  | some i => exact (Maintains.outcome _).bind fun _ => onFlow_maintains hP _

private theorem replaceVoidage_maintains (hP : Stable P) {s₀ : Session α γ} (h₀ : P s₀)
    (ha : GroupControl.isActive s₀.groups = true) (cells : List (Cell α)) : Maintains P (replaceVoidage cells) := by
  refine .get_bind fun s hs => ?_
  refine Maintains.bind (.outcome _) (fun vs => ?_) s hs
  refine Maintains.bind ?_ fun _ => Maintains.forM fun p _ => followGroup_maintains hP p.1 p.2
  exact fun _ _ => hP.voidage _ _ h₀ ha hs

private theorem takeTarget_maintains (hP : Stable P) {s₀ s₁ : Session α γ} (h₀ : P s₀)
    (ha : GroupControl.isActive s₀.groups = true) (h₁ : P s₁) (t : AssignedTarget α)
    (ht : t ∈ (GroupControl.distribute s₁.groups s₁.flow.rates).1) :
    Maintains P (takeTarget t : Step Id α γ Unit) := by
  refine .get_bind fun s hs => ?_
  cases hw : s.model.wells.indexOf? t.well with
  | none => exact hs
  | some w =>
    change P ((liftM (s.model.setTarget w t.control t.target) >>= fun m => set { s with model := m } :
      Attempt α (Session α γ) PUnit) s).2
    rw [run_bind, run_outcome]
    cases h : s.model.setTarget w t.control t.target with
    | error => exact hs
    | ok m => exact hP.target t w m h₀ ha h₁ ht hw h hs

private theorem takeTargets_maintains (hP : Stable P) {s₀ : Session α γ} (h₀ : P s₀)
    (ha : GroupControl.isActive s₀.groups = true) : Maintains P (takeTargets : Step Id α γ Unit) := by
  refine .get_bind fun s hs => ?_
  refine Maintains.bind ?_ (fun _ => Maintains.forM fun t ht => takeTarget_maintains hP h₀ ha hs t ht) s hs
  exact fun _ _ => hP.distribute h₀ ha hs

private theorem putControl_maintains (hP : Stable P) {s₀ s₁ : Session α γ} (h₀ : P s₀) (h₁ : P s₁) {u : WellUnit α}
    (hu : u ∈ s₀.model.units) (w : Nat) (next : Nat × Bool)
    (hn : GroupControl.isActive s₀.groups = true → next.2 = true →
      ∃ i, GroupControl.controlIndex s₁.groups u.well.name = some i) :
    Maintains P (putControl (GroupControl.isActive s₀.groups) u.well.name w next) :=
  (onFlow_maintains hP _).bind fun _ =>
    .ite (fun ha => .modify fun _ hs => hP.individual u _ h₀ ha hu h₁ (fun hb => hn ha (by simpa using hb)) hs)
      fun _ => .pure _

private theorem followSwitch_maintains (hP : Stable P) (previous : List Nat) (w : Nat) :
    Maintains P (followSwitch previous w) := by
  refine .get_bind fun s hs => ?_
  refine Maintains.bind (.need _) (fun before => ?_) s hs
  refine Maintains.bind (.need _) fun after => .ite (fun _ => ?_) fun _ => .pure _
  refine Maintains.bind (.outcome _) fun u => ?_
  refine Maintains.bind (.outcome _) fun old => Maintains.bind (.outcome _) fun new => ?_
  exact (note_maintains hP _).bind fun _ => onFlow_maintains hP _

private theorem updateControls_maintains (hP : Stable P) (cells : List (Cell α)) :
    Maintains P (updateControls cells : Step Id α γ Unit) := by
  refine .get_bind fun s hs => ?_
  refine Maintains.bind (.outcome _) (fun _ => ?_) s hs
  refine Maintains.when (fun h => replaceVoidage_maintains hP hs (Bool.and_eq_true_iff.1 h).1 cells) fun _ => ?_
  refine .get_bind fun s' hs' => ?_
  refine Maintains.mapM_outcome_bind (fun next hnext => ?_) s' hs'
  refine Maintains.bind (Maintains.forM fun p hp => ?_) fun _ => ?_
  · obtain ⟨hu, hd⟩ := Outcome.mapM_zipIdx_of_mem hnext hp
    refine putControl_maintains hP hs hs' hu p.2 p.1.2 fun ha hb => ?_
    obtain ⟨i, hi⟩ := Well.isSome_of_nextControl (hd.trans (congrArg _ (Prod.ext rfl hb)))
    dsimp only at hi
    rw [if_pos ha] at hi
    exact ⟨i, hi⟩
  refine Maintains.when (fun h => takeTargets_maintains hP hs h) fun _ => ?_
  exact (Maintains.forM fun w _ => followSwitch_maintains hP _ w).bind fun _ => onFlow_maintains hP _

/-! ### Iteration -/

theorem advance_maintains (hP : Stable P) (cells : List (Cell α)) : Maintains P (advance cells : Step Id α γ Unit) := by
  refine .get_bind fun s hs => ?_
  refine Maintains.bind (.outcome _) (fun updates => ?_) s hs
  refine (applyUpdates_maintains hP updates).bind fun _ => ?_
  exact (updateControls_maintains hP cells).bind fun _ => takeUnknowns_maintains hP

theorem iterate_maintains (hP : Stable P) (comm : Communicator Id α) (cells : List (Cell α)) (dt : α) (k i : Nat) :
    Maintains P (iterate comm cells dt k i) := by
  induction k generalizing i with
  | zero => exact .pure _
  | succ k ih =>
    refine Maintains.bind (assembleWells_maintains hP cells dt) fun _ => ?_
    refine Maintains.bind (check_maintains hP comm cells i) fun c => .get_bind fun s hs => ?_
    refine Maintains.ite (fun _ => .pure _) (fun _ => ?_) s hs
    exact Maintains.bind (advance_maintains hP cells) fun _ => ih (i + 1)

/-! ### Preparation -/

omit [GroupControl α γ] in
theorem warnThreePhaseRates_maintains (hP : ∀ {s} ns, P s → P { s with notices := ns }) :
    Maintains P (warnThreePhaseRates : Step Id α γ Unit) := by
  refine .get_bind fun s hs => Maintains.forM (fun p _ => ?_) s hs
  refine .ite (fun _ => Maintains.bind (.need _) fun current => ?_) fun _ => .pure _
  rcases p.1.well.controls.list[current]? with _ | ⟨kind, target, weights⟩
  · exact .pure _
  · cases kind
    case surfaceRate => exact .ite (fun _ => .modify fun _ hs => hP _ hs) fun _ => .pure _
    all_goals exact .pure _

/-- The preparation also changes the wells, but not what they share. -/
theorem prepare_maintains (hP : Stable P) (hm : ∀ {s} m, m.setup = s.model.setup → P s → P { s with model := m })
    (cells : List (Cell α)) (dt : α) (i : Nat) : Maintains P (prepare cells dt i : Step Id α γ Unit) := by
  refine Maintains.when (fun _ => .throw _) fun _ => .get_bind fun s hs => ?_
  refine Maintains.bind (.outcome _) (fun _ => ?_) s hs
  refine Maintains.when (fun _ => .modify fun s hs => hm _ rfl hs) fun _ => ?_
  refine Maintains.bind (updateControls_maintains hP cells) fun _ => ?_
  refine Maintains.bind (takeUnknowns_maintains hP) fun _ => ?_
  refine Maintains.ite (fun _ => ?_) fun _ => warnThreePhaseRates_maintains hP.notices
  have hdensities : Maintains P (refreshDensities cells : Step Id α γ Unit) :=
    (refreshDensities_keeps (fun _ _ => .any _) fun h hs => hm _ (Model.setup_of_setDensities h) hs).maintains
  refine hdensities.bind fun _ => ?_
  exact Maintains.bind (.modify fun s hs => hm s.model.setStartFractions rfl hs) fun _ =>
    warnThreePhaseRates_maintains hP.notices

end Session

end BlackOilWells
