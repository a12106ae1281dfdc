import BlackOilWells.Proofs.LocalSolution
import BlackOilWells.Proofs.Shares

/-!
# Independence of wells

Without a group in effect a pass of the local solution does for each well what it does for the well alone: it succeeds
exactly if it succeeds for every well on its own, and leaves the same for it (`Session.pass_separates`).  So what it
leaves for a well depends neither on the other wells nor on the place of the well among them.

No group means that nothing passes between the wells, so that a pass is an operation on the flow state alone
(`Model.pass`).  Each of its phases separates.
-/

namespace BlackOilWells

open Attempt FlowState

variable {α γ : Type} [Scalar α]

/-! ### A pass without groups -/

/-- Move a well to the target of its control if that is not the one before. -/
def WellUnit.follow (u : WellUnit α) (setup : Setup α) (before : Option Nat) : Attempt α (Slot α) Unit := do
  let before ← Attempt.need before
  let after ← Attempt.need (← get).control
  if before ≠ after then
    let _ ← u.well.controls.get before
    let _ ← u.well.controls.get after
    u.moveToTarget setup

namespace Model

/-- Switch the wells that violate a constraint, where no well is under a group. -/
def switch (m : Model α) : Attempt α (FlowState α) Unit := do
  let s ← get
  m.checkState s
  let next ← m.units.zipIdx.mapM fun (u, w) => show Outcome α _ from u.well.nextControl (s.slot w) none
  (m.units.zip next).zipIdx.forM fun ((_, next), w) => onSlot w (Slot.putControl next.1)
  m.units.zipIdx.forM fun (u, w) => onSlot w (u.follow m.setup s.control[w]?)
  countChange

/-- A pass of the local solution, where no well is under a group. -/
def pass (m : Model α) (cells : List (Cell α)) (dt : α) : Attempt α (FlowState α) (Model α) := do
  let m ← m.assemble cells dt
  m.applyUpdates (← m.wellUpdates)
  m.switch
  m.setUnknowns (← get)

/-! ### One well alone -/

/-- The number of connections of each well. -/
def counts (m : Model α) : List Nat := m.units.map (·.well.connections.length)

/-- The model of one well alone. -/
def only (w : Nat) (m : Model α) : Model α := { m with units := window w 1 m.units }

variable {m : Model α} {w : Nat} {u : WellUnit α}

omit [Scalar α] in
private theorem length_counts (m : Model α) : m.counts.length = m.units.length := List.length_map ..

omit [Scalar α] in
private theorem units_only (h : m.units[w]? = some u) : (m.only w).units = [u] := window_one h

omit [Scalar α] in
private theorem getElem?_counts (h : m.units[w]? = some u) : m.counts[w]? = some u.well.connections.length := by
  rw [counts, List.getElem?_map, h, Option.map_some]

omit [Scalar α] in
private theorem exists_unit (h : w < m.counts.length) : ∃ u, m.units[w]? = some u :=
  ⟨_, List.getElem?_eq_getElem (m.length_counts ▸ h)⟩

omit [Scalar α] in
private theorem counts_eq (m : Model α) : m.counts = m.wells.list.map (·.connections.length) := by
  rw [wells, List.map_map]
  rfl

omit [Scalar α] in
private theorem numConnections_eq (m : Model α) : m.wells.numConnections = m.counts.sum := by
  rw [Wells.numConnections_eq_sum, counts_eq]

variable {s : FlowState α}

omit [Scalar α] in
private theorem checkState_iff : m.checkState s = .ok ⟨⟩ ↔ s.Sized m.counts := by
  unfold checkState Sized
  rw [numConnections_eq, length_counts]
  by_cases h : s.bhp.length = m.units.length ∧ s.connectionPressure.length = m.counts.sum
  · rw [if_pos h]
    exact ⟨fun _ => h, fun _ => rfl⟩
  · rw [if_neg h]
    exact ⟨nofun, fun h' => absurd h' h⟩

omit [Scalar α] in
/-- The share of a well has the size of the well. -/
private theorem sized_share (hs : s.Sized m.counts) (hw : w < m.counts.length) :
    (s.share m.counts w).Sized (m.only w).counts := by
  obtain ⟨u, hu⟩ := exists_unit hw
  have hc : m.counts[w]?.getD 0 = u.well.connections.length := by rw [getElem?_counts hu, Option.getD_some]
  have hone : (m.only w).counts = [u.well.connections.length] := by rw [counts, units_only hu, List.map_singleton]
  have hend := Placed.offset_add_le_sum (c := id) (getElem?_counts hu)
  rw [Placed.offset, List.map_id, List.map_id] at hend
  rw [hone]
  refine ⟨(length_window ..).trans ?_, (length_window ..).trans ?_⟩
  · have hb := hs.1
    rw [List.length_singleton]
    omega
  · have hp := hs.2
    rw [hc, hp, List.sum_singleton]
    dsimp only [id] at hend
    omega

omit [Scalar α] in
private theorem checkState_separates (hs : s.Sized m.counts) :
    SeparatesAt m.counts s (liftM (m.checkState s)) (fun w => liftM ((m.only w).checkState (s.share m.counts w)))
      fun _ u => u := by
  refine .of_ok (b := ⟨⟩) (t := s) ?_ hs fun w hw => ?_
  · rw [run_outcome, checkState_iff.2 hs]
  · rw [run_outcome, checkState_iff.2 (sized_share hs hw)]

/-! ### Phases of a pass -/

omit [Scalar α] in
/-- What a numbered traversal by outcomes has for a well. -/
private theorem outcomes_zipIdx {β : Type} (hs : s.Sized m.counts) {f : WellUnit α × Nat → Outcome α β}
    {f₀ : Nat → WellUnit α × Nat → Outcome α β} (h : ∀ (w : Nat) u, m.units[w]? = some u → f₀ w (u, 0) = f (u, w)) :
    SeparatesAt m.counts s (m.units.zipIdx.mapM fun x => liftM (f x))
      (fun w => (m.only w).units.zipIdx.mapM fun x => liftM (f₀ w x)) (fun w ds => window w 1 ds) := by
  refine .mapM_outcome hs (by rw [List.length_zipIdx, length_counts]) fun w x hx => ?_
  rw [List.getElem?_zipIdx, Nat.zero_add] at hx
  obtain ⟨u, hu, rfl⟩ := Option.map_eq_some_iff.1 hx
  exact ⟨(u, 0), by rw [units_only hu]; rfl, h w u hu⟩

private theorem wellUpdates_separates (hs : s.Sized m.counts) :
    SeparatesAt m.counts s (liftM m.wellUpdates) (fun w => liftM (m.only w).wellUpdates) (fun w ds => window w 1 ds) :=
  .outcomes hs m.length_counts.symm fun _ u hu => ⟨u, units_only hu, rfl⟩

omit [Scalar α] in
/-- The flows of a well are written to its own connections. -/
private theorem putFlows_local (hu : m.units[w]? = some u) {flows : List (ConnectionFlow α)}
    (h : flows.length ≤ u.well.connections.length) :
    Local m.counts w (putFlows (Placed.offset (·.well.connections.length) m.units w) flows) (putFlows 0 flows) := by
  refine .forM ?_
  rintro ⟨f, k⟩ hp
  have hk : k < flows.length := (List.getElem?_eq_some_iff.1 (List.mem_zipIdx_iff_getElem?.1 hp)).1
  have hlt : k < m.counts[w]?.getD 0 := by
    rw [getElem?_counts hu, Option.getD_some]
    omega
  have hfirst : Placed.offset (·.well.connections.length) m.units w = (m.counts.take w).sum := by
    rw [Placed.offset, counts, List.map_take]
  dsimp only
  rw [hfirst, Nat.zero_add]
  exact .putConnection hlt _ _

private theorem assemble_separates (hs : s.Sized m.counts) (cells : List (Cell α)) (dt : α) :
    SeparatesAt m.counts s (m.assemble cells dt) (fun w => (m.only w).assemble cells dt) only := by
  refine .get_bind (.bind (outcomes_zipIdx hs fun w u _ => ?_) fun ds t hds ht => ?_)
  · dsimp only
    rw [slot_share]
    rfl
  rw [run_mapM_outcome, Prod.mk.injEq] at hds
  obtain ⟨hds, rfl⟩ := hds
  have hlen := (Outcome.mapM_ok.1 hds).length_eq
  rw [List.length_zipIdx] at hlen
  refine .bind (.forM hs ?_ fun w d hd => ?_) fun _ t _ ht => .pure ht fun w hw => ?_
  · rw [List.length_zip, placed, Placed.length_ofList, length_counts, hlen, Nat.min_self]
  · obtain ⟨p, u', flows⟩ := d
    rw [List.getElem?_zip_eq_some, placed, Placed.getElem?_ofList] at hd
    obtain ⟨hp, hd⟩ := hd
    obtain ⟨u, hu, rfl⟩ := Option.map_eq_some_iff.1 hp
    have hflows := length_of_assembled hds hu hd
    have hplaced : (m.only w).placed = [⟨0, 0, u⟩] := by rw [placed, units_only hu]; rfl
    rw [hplaced, window_one hd, List.zip_cons_cons, List.zip_nil_right, forM_singleton]
    exact putFlows_local hu hflows
  · rw [only, only, map_window]

omit [Scalar α] in
/-- A traversal that does something to the slot of each well. -/
private theorem slots_separate {β : Type} (hs : s.Sized m.counts) {xs : List β} (hlen : xs.length = m.units.length)
    (act : WellUnit α × β → Attempt α (Slot α) PUnit) :
    SeparatesAt m.counts s ((m.units.zip xs).zipIdx.forM fun (p, w) => onSlot w (act p))
      (fun w => ((m.only w).units.zip (window w 1 xs)).zipIdx.forM fun (p, w) => onSlot w (act p)) fun _ u => u := by
  refine .forM hs (by rw [List.length_zipIdx, List.length_zip, hlen, Nat.min_self, length_counts]) fun w d hd => ?_
  rw [List.getElem?_zipIdx, Nat.zero_add] at hd
  obtain ⟨⟨u, x⟩, hz, rfl⟩ := Option.map_eq_some_iff.1 hd
  rw [List.getElem?_zip_eq_some] at hz
  rw [units_only hz.1, window_one hz.2, List.zip_cons_cons, List.zip_nil_right, List.zipIdx_cons, List.zipIdx_nil,
    forM_singleton]
  exact .onSlot ..

omit [Scalar α] in
private theorem countChange_separates {ns : List Nat} (hs : s.Sized ns) :
    SeparatesAt ns s countChange (fun _ => countChange) fun _ u => u :=
  .of_ok rfl hs fun _ _ => rfl

private theorem applyUpdates_separates (hs : s.Sized m.counts) {updates : List (Vec3 α)}
    (hlen : updates.length = m.units.length) :
    SeparatesAt m.counts s (m.applyUpdates updates) (fun w => (m.only w).applyUpdates (window w 1 updates))
      fun _ u => u := by
  refine .get_bind (.bind (checkState_separates hs) fun _ t _ ht => ?_)
  have hone (w : Nat) (hw : w < m.counts.length) : (window w 1 updates).length = (m.only w).units.length := by
    obtain ⟨u, hu⟩ := exists_unit hw
    rw [length_counts] at hw
    rw [length_window, units_only hu, List.length_singleton]
    omega
  have hsteps := (slots_separate ht hlen fun p => p.1.applyUpdate m.setup p.2).bind
    (g := fun _ _ => countChange) fun _ _ _ ht => countChange_separates ht
  refine hsteps.congr ?_ fun w hw => ?_
  · rw [if_neg (by rw [hlen]; simp)]
  · rw [if_neg (by rw [hone w hw]; simp)]
    rfl

private theorem switch_separates (hs : s.Sized m.counts) :
    SeparatesAt m.counts s m.switch (fun w => (m.only w).switch) fun _ u => u := by
  refine .get_bind (.bind (checkState_separates hs) fun _ t _ ht => ?_)
  refine .bind (outcomes_zipIdx ht fun w u _ => ?_) fun next t hnext ht => ?_
  · dsimp only
    rw [slot_share]
  rw [run_mapM_outcome, Prod.mk.injEq] at hnext
  have hlen := (Outcome.mapM_ok.1 hnext.1).length_eq
  rw [List.length_zipIdx] at hlen
  refine .bind (slots_separate ht hlen.symm fun p => Slot.putControl p.2.1) fun _ t _ ht => ?_
  refine .bind (.forM ht (by rw [List.length_zipIdx, length_counts]) fun w d hd => ?_) fun _ t _ ht =>
    countChange_separates ht
  rw [List.getElem?_zipIdx, Nat.zero_add] at hd
  obtain ⟨u, hu, rfl⟩ := Option.map_eq_some_iff.1 hd
  have hcontrol : (s.share m.counts w).control[0]? = s.control[w]? := getElem?_window _ Nat.one_pos
  rw [units_only hu, List.zipIdx_cons, List.zipIdx_nil, forM_singleton]
  dsimp only
  rw [hcontrol]
  exact .onSlot ..

private theorem setUnknowns_separates (hs : s.Sized m.counts) :
    SeparatesAt m.counts s (liftM (m.setUnknowns s)) (fun w => liftM ((m.only w).setUnknowns (s.share m.counts w)))
      only := by
  have hrun (m : Model α) (s t : FlowState α) : (liftM (m.setUnknowns s) : Attempt α (FlowState α) (Model α)) t =
      ((m.units.zipIdx.mapM fun p => liftM (p.1.setUnknowns (s.slot p.2))) >>= fun us => pure { m with units := us } :
        Attempt α (FlowState α) (Model α)) t := by
    rw [run_outcome, run_bind, run_mapM_outcome]
    unfold setUnknowns
    cases m.units.zipIdx.mapM fun p => p.1.setUnknowns (s.slot p.2) <;> rfl
  have hunits : SeparatesAt m.counts s (m.units.zipIdx.mapM fun p => liftM (p.1.setUnknowns (s.slot p.2)))
      (fun w => (m.only w).units.zipIdx.mapM fun p => liftM (p.1.setUnknowns ((s.share m.counts w).slot p.2)))
      fun w us => window w 1 us :=
    outcomes_zipIdx hs fun w u _ => by dsimp only; rw [slot_share]
  refine SeparatesAt.congr (hunits.bind (f := fun us => pure { m with units := us })
    (g := fun w us => pure { m.only w with units := us }) fun us t _ ht => ?_) (hrun ..) fun _ _ => hrun ..
  exact .pure ht fun w _ => rfl

private theorem counts_of_assemble {m' : Model α} {cells : List (Cell α)} {dt : α} {s' : FlowState α}
    (h : m.assemble cells dt s = (.ok m', s')) : m'.counts = m.counts := by
  rw [counts_eq, counts_eq, wells_of_outline (outline_of_assemble h)]

private theorem counts_of_pass {m' : Model α} {cells : List (Cell α)} {dt : α} {s' : FlowState α}
    (h : m.pass cells dt s = (.ok m', s')) : m'.counts = m.counts := by
  obtain ⟨m₁, s₁, ha, h⟩ := bind_ok.1 h
  obtain ⟨updates, s₂, -, h⟩ := bind_ok.1 h
  obtain ⟨-, s₃, -, h⟩ := bind_ok.1 h
  obtain ⟨-, s₄, -, h⟩ := bind_ok.1 h
  have hu : m₁.setUnknowns s₄ = .ok m' := congrArg Prod.fst h
  rw [counts_eq, wells_of_outline (outline_of_setUnknowns hu), ← counts_eq, counts_of_assemble ha]

private theorem pass_separates_flow (hs : s.Sized m.counts) (cells : List (Cell α)) (dt : α) :
    SeparatesAt m.counts s (m.pass cells dt) (fun w => (m.only w).pass cells dt) only := by
  refine .bind (assemble_separates hs cells dt) fun m' t hm ht => ?_
  rw [← counts_of_assemble hm] at ht ⊢
  refine .bind (wellUpdates_separates ht) fun updates t hu ht => ?_
  rw [run_outcome, Prod.mk.injEq] at hu
  have hlen := (Outcome.mapM_ok.1 hu.1).length_eq
  refine .bind (applyUpdates_separates ht hlen.symm) fun _ t _ ht => .bind (switch_separates ht) fun _ t _ ht => ?_
  exact .get_bind (setUnknowns_separates ht)

end Model

/-! ### Sessions without groups -/

namespace Session

variable [GroupControl α γ]

/-- A pass of the local solution: a round without the check. -/
def pass (cells : List (Cell α)) (dt : α) : Step Id α γ Unit := do
  assembleWells cells dt
  advance cells

omit [Scalar α] [GroupControl α γ] in
/-- The session of one well alone. -/
def only (w : Nat) (s : Session α γ) : Session α γ :=
  { s with model := s.model.only w, flow := s.flow.share s.model.counts w }

/-- Whether a session with a given model and without a group in effect has a given flow state. -/
def HasFlow (m : Model α) (s : Session α γ) (f : FlowState α) : Prop :=
  s.flow = f ∧ s.model = m ∧ GroupControl.isActive s.groups = false

variable {m : Model α}

omit [Scalar α] in
private theorem onFlow_agrees {β : Type} (act : Attempt α (FlowState α) β) :
    Agrees (HasFlow (γ := γ) m) (onFlow act) act := by
  rintro s _ ⟨rfl, hm, hg⟩
  exact ⟨rfl, rfl, hm, hg⟩

private theorem followSwitch_agrees {u : WellUnit α} {w : Nat} (hu : m.units[w]? = some u) (previous : List Nat) :
    Agrees (HasFlow (γ := γ) m) (followSwitch previous w) (onSlot w (u.follow m.setup previous[w]?)) := by
  rintro s _ ⟨rfl, rfl, hg⟩
  have hunit : s.model.unit w = .ok u := by rw [Model.unit, hu]
  have hcontrol : (s.flow.slot w).control = s.flow.control[w]? := rfl
  have hstay : HasFlow s.model s (s.flow.putSlot w (s.flow.slot w)) := ⟨(putSlot_slot ..).symm, rfl, hg⟩
  rw [run_onSlot]
  unfold followSwitch WellUnit.follow
  rw [run_get_bind]
  cases previous[w]? with
  | none => exact ⟨rfl, hstay⟩
  | some before =>
  simp only [Attempt.need, pure_bind]
  rw [run_get_bind, hcontrol]
  cases s.flow.control[w]? with
  | none => exact ⟨rfl, hstay⟩
  | some after =>
  simp only [pure_bind]
  by_cases hne : before = after
  · rw [if_neg (not_not_intro hne), if_neg (not_not_intro hne)]
    exact ⟨rfl, hstay⟩
  rw [if_pos hne, if_pos hne, hunit, run_outcome_bind]
  dsimp only
  rw [run_outcome_bind, run_outcome_bind]
  cases u.well.controls.get before with
  | error e => exact ⟨rfl, hstay⟩
  | ok old =>
  dsimp only
  rw [run_outcome_bind, run_outcome_bind]
  cases u.well.controls.get after with
  | error e => exact ⟨rfl, hstay⟩
  | ok new =>
    have hmove : s.model.moveToTarget w = onSlot w (u.moveToTarget s.model.setup) := by
      rw [Model.moveToTarget, hunit]
      rfl
    dsimp only
    rw [hmove]
    exact ⟨rfl, rfl, rfl, hg⟩

private theorem updateControls_agrees (m : Model α) (cells : List (Cell α)) :
    Agrees (HasFlow (γ := γ) m) (updateControls cells) m.switch := by
  refine .get_bind ?_
  rintro s _ ⟨rfl, rfl, hg⟩
  have hput (name : String) (w : Nat) (next : Nat × Bool) :
      (putControl false name w next : Step Id α γ Unit) = onFlow (onSlot w (Slot.putControl next.1)) :=
    bind_pure _
  have hfollow : (List.range s.model.units.length).forM (followSwitch s.flow.control : Nat → Step Id α γ Unit) =
      s.model.units.zipIdx.forM fun p => followSwitch s.flow.control p.2 := by
    rw [List.range_eq_range', ← List.zipIdx_map_snd 0 s.model.units, List.forM_eq_forM, List.forM_map]
    rfl
  -- what concerns groups is left out
  simp only [hg, Bool.false_and, Bool.false_eq_true, if_false, hput]
  rw [run_outcome_bind, run_outcome_bind]
  cases s.model.checkState s.flow with
  | error e => exact ⟨rfl, rfl, rfl, hg⟩
  | ok u =>
  dsimp only
  rw [run_get_bind, hfollow]
  refine (Agrees.mapM_outcome _ _).bind (fun next => ?_) s s.flow ⟨rfl, rfl, hg⟩
  refine Agrees.bind (.forM fun p _ => onFlow_agrees _) fun _ => ?_
  refine Agrees.bind (.forM fun p hp => ?_) fun _ => onFlow_agrees _
  exact followSwitch_agrees (List.mem_zipIdx_iff_getElem?.1 hp) _

/-- Without a group in effect a pass of a session is one of its model. -/
theorem pass_ok_iff {cells : List (Cell α)} {dt : α} {s : Session α γ}
    (hg : GroupControl.isActive s.groups = false) {m : Model α} {f : FlowState α} :
    (∃ t : Session α γ, pass cells dt s = (.ok ⟨⟩, t) ∧ t.model = m ∧ t.flow = f) ↔
      s.model.pass cells dt s.flow = (.ok m, f) := by
  unfold pass Model.pass
  rw [run_bind, run_bind, run_assembleWells]
  rcases s.model.assemble cells dt s.flow with ⟨e | m₁, f₁⟩
  · exact ⟨nofun, nofun⟩
  dsimp only
  unfold advance
  rw [run_get_bind, run_outcome_bind, run_outcome_bind]
  cases m₁.wellUpdates with
  | error e => exact ⟨nofun, nofun⟩
  | ok updates =>
  have happly : Agrees (HasFlow (γ := γ) m₁) (applyUpdates updates) (m₁.applyUpdates updates) := by
    rintro s _ ⟨rfl, rfl, hg⟩
    exact onFlow_agrees _ s s.flow ⟨rfl, rfl, hg⟩
  -- from the assembly on the model stays, up to the unknowns that are taken at the end
  have hstep := happly.bind fun _ => updateControls_agrees (γ := γ) m₁ cells
  dsimp only
  rw [← bind_assoc, ← bind_assoc, run_bind, run_bind _ _ f₁]
  rcases hstep.run (s := { s with model := m₁, flow := f₁ }) ⟨rfl, rfl, hg⟩ with
    ⟨e, s', f', hx, hy⟩ | ⟨_, s', _, hx, hy, rfl, rfl, -⟩
  · rw [hx, hy]
    exact ⟨nofun, nofun⟩
  · rw [hx, hy]
    dsimp only
    rw [run_takeUnknowns, run_get_bind, run_outcome]
    cases s'.model.setUnknowns s'.flow with
    | error e => exact ⟨nofun, nofun⟩
    | ok m₂ =>
      constructor
      · rintro ⟨t, ht, rfl, rfl⟩
        cases ht
        rfl
      · intro h
        cases h
        exact ⟨_, rfl, rfl, rfl⟩

/-- Whether two sessions hold the same for a well of each. -/
def SameAt (w w' : Nat) (s s' : Session α γ) : Prop :=
  (s'.only w').model = (s.only w).model ∧ (s'.only w').flow = (s.only w).flow

/-- What a pass does, it does for each well alone. -/
private theorem pass_only {cells : List (Cell α)} {dt : α} {s t : Session α γ}
    (hg : GroupControl.isActive s.groups = false)
    (hs : s.model.checkState s.flow = .ok ⟨⟩) (h : pass cells dt s = (.ok ⟨⟩, t)) {w : Nat}
    (hw : w < s.model.units.length) :
    (s.only w).model.pass cells dt (s.only w).flow = (.ok (t.only w).model, (t.only w).flow) := by
  have hrun := (pass_ok_iff hg).1 ⟨t, h, rfl, rfl⟩
  have hparts := ((Model.pass_separates_flow (Model.checkState_iff.1 hs) cells dt).ok _ _ hrun).2 w
    (s.model.length_counts.symm ▸ hw)
  have hflow : (t.only w).flow = t.flow.share s.model.counts w := by rw [only, Model.counts_of_pass hrun]
  rw [hflow]
  exact hparts

/-- On a flow state of the right size a pass does for each well what it does for the well alone: it succeeds exactly if
it does so for each of them, and leaves the same.  So it leaves the same for a well in two sessions that hold the same
for it, whatever other wells they have and in whatever order. -/
theorem pass_separates (cells : List (Cell α)) (dt : α) {s : Session α γ} (hg : GroupControl.isActive s.groups = false)
    (hs : s.model.checkState s.flow = .ok ⟨⟩) :
    ((∃ t, pass cells dt s = (.ok ⟨⟩, t)) ↔
      ∀ w < s.model.units.length, ∃ t, pass cells dt (s.only w) = (.ok ⟨⟩, t)) ∧
    ∀ t, pass cells dt s = (.ok ⟨⟩, t) → ∀ w < s.model.units.length,
      (∀ t', pass cells dt (s.only w) = (.ok ⟨⟩, t') →
        t'.model = (t.only w).model ∧ t'.flow = (t.only w).flow) ∧
      ∀ (s' : Session α γ) (w' : Nat) (t' : Session α γ), GroupControl.isActive s'.groups = false →
        s'.model.checkState s'.flow = .ok ⟨⟩ → w' < s'.model.units.length → SameAt w w' s s' →
        pass cells dt s' = (.ok ⟨⟩, t') → SameAt w w' t t' := by
  have hsep := Model.pass_separates_flow (Model.checkState_iff.1 hs) cells dt
  refine ⟨⟨?_, fun hparts => ?_⟩, fun t ht w hw => ⟨fun t' ht' => ?_, fun s' w' t' hg' hs' hw' hsame ht' => ?_⟩⟩
  · rintro ⟨t, ht⟩ w hw
    obtain ⟨t', ht', -⟩ := (pass_ok_iff (s := s.only w) hg).2 (pass_only hg hs ht hw)
    exact ⟨t', ht'⟩
  · obtain ⟨m, f, hrun⟩ := hsep.ok_iff.2 fun w hw => by
      obtain ⟨t, ht⟩ := hparts w (s.model.length_counts ▸ hw)
      exact ⟨_, _, (pass_ok_iff (s := s.only w) hg).1 ⟨t, ht, rfl, rfl⟩⟩
    obtain ⟨t, ht, -⟩ := (pass_ok_iff hg).2 hrun
    exact ⟨t, ht⟩
  · have halone := (pass_ok_iff (s := s.only w) hg).1 ⟨t', ht', rfl, rfl⟩
    rw [pass_only hg hs ht hw, Prod.mk.injEq, Except.ok.injEq] at halone
    exact ⟨halone.1.symm, halone.2.symm⟩
  · have halone := pass_only hg' hs' ht' hw'
    rw [hsame.1, hsame.2, pass_only hg hs ht hw, Prod.mk.injEq, Except.ok.injEq] at halone
    exact ⟨halone.1.symm, halone.2.symm⟩

/-! ### Two producers -/

/-- A reservoir of two cells with oil. -/
def oilCells : List (Cell ℚ) :=
  [100, 110].map fun p => { Cell.still (.seed p 0) 300 with mobility := ⟨.const 0, .const 1, .const 0⟩ }

/-- A producer with two connections. -/
def wideProducer : WellUnit ℚ := .create (.producer "P" 0 [⟨0, 2, 0, 1⟩, ⟨1, 2, 0, 1⟩] ⟨[⟨.bhp, 90, .replicate 0⟩], 0⟩)

/-- A producer with a limit to its rate. -/
def limitedProducer : WellUnit ℚ :=
  .create (.producer "Q" 0 [⟨1, 2, 0, 1⟩] ⟨[⟨.bhp, 80, .replicate 0⟩, ⟨.surfaceRate, -5, ⟨0, 1, 0⟩⟩], 0⟩)

/-- Producers without flow, each at a bottom-hole pressure, with their unknowns taken from the state. -/
def producers (us : List (WellUnit ℚ × ℚ)) : Session ℚ (Option (VoidageGroup ℚ)) where
  model :=
    { setup := (oilProducer 15).model.setup
      units := us.map fun (u, _) => { u with unknowns := WellUnit.seeded ⟨0, 0, 0⟩ } }
  flow :=
    { bhp := us.map (·.2)
      thp := us.map fun _ => 0
      rates := us.flatMap fun _ => [0, 0, 0]
      unknowns := us.flatMap fun _ => [0, 0, 0]
      control := us.map fun _ => 0
      connectionPressure := us.flatMap fun (u, b) => u.well.connections.map fun _ => b
      connectionRates := us.flatMap fun (u, _) => u.well.connections.flatMap fun _ => [0, 0, 0]
      potentials := us.flatMap fun (u, _) => u.well.connections.flatMap fun _ => [0, 0, 0]
      revision := 0 }
  groups := none
  notices := []

/-- In either order the limited producer comes to its limit, and both producers are left with the same. -/
theorem pass_separates_producers :
    ∃ t t', pass oilCells 1 (producers [(wideProducer, 90), (limitedProducer, 80)]) = (.ok ⟨⟩, t) ∧
      pass oilCells 1 (producers [(limitedProducer, 80), (wideProducer, 90)]) = (.ok ⟨⟩, t') ∧
      (∀ w < 2, ∃ u, pass oilCells 1 ((producers [(wideProducer, 90), (limitedProducer, 80)]).only w) = (.ok ⟨⟩, u)) ∧
      SameAt 0 1 t t' ∧ SameAt 1 0 t t' := by
  have hs : (pass oilCells 1 (producers [(wideProducer, 90), (limitedProducer, 80)])).1.toOption = some ⟨⟩ := by
    decide +kernel
  have hs' : (pass oilCells 1 (producers [(limitedProducer, 80), (wideProducer, 90)])).1.toOption = some ⟨⟩ := by
    decide +kernel
  obtain ⟨hiff, hsame⟩ := pass_separates oilCells 1 (s := producers [(wideProducer, 90), (limitedProducer, 80)]) rfl rfl
  have ht := run_ok_of_toOption hs
  have ht' := run_ok_of_toOption hs'
  refine ⟨_, _, ht, ht', hiff.1 ⟨_, ht⟩, ?_, ?_⟩
  · exact (hsame _ ht 0 (by decide)).2 _ 1 _ rfl rfl (by decide) ⟨rfl, rfl⟩ ht'
  · exact (hsame _ ht 1 (by decide)).2 _ 0 _ rfl rfl (by decide) ⟨rfl, rfl⟩ ht'

end Session

end BlackOilWells
