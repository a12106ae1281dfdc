import BlackOilWells.Proofs.Bounds
import BlackOilWells.Proofs.LocalSolution
import BlackOilWells.Scenario.Build

/-!
# Runs

A run is a start followed by operations in any order, each of which succeeds or stops.  It goes on from whatever an
operation has left behind; between operations the groups may become others.  What every operation keeps
(`Session.Lasting`), a run keeps (`Session.run_keeps`).

If the wells, the model and the lift tables were accepted, every state of a run has the right size, every well is on a
control that it has, and no operation accesses an array past its end (`Session.run_bounded`).
-/

namespace BlackOilWells

open Attempt

variable {ω α γ : Type} [Scalar α]

/-! ### Accepted models -/

/-- Accepting a well replaces nothing but its composition, by what is given of the active phases, scaled, or, if that is
nothing, by an even mix of them. -/
theorem Well.accept_ok {w w' : Well α} {phases : PhaseSet} {n : Nat} (h : w.accept phases n = .ok w') :
    w.connections ≠ [] ∧ w.connections.forM (w.checkConnection n) = .ok ⟨⟩ ∧ ∃ q, w' = { w with composition := q } ∧
      ((¬(phases.select w.composition (.replicate 0)).sum ≤ 0 ∧ q = (phases.select w.composition (.replicate 0)).map
          (· / (phases.select w.composition (.replicate 0)).sum)) ∨
        (((phases.select w.composition (.replicate 0)).sum ≤ 0 ∧ ¬w.isInjector = true) ∧ q = phases.select
          (.replicate (1 / (phases.count : α))) (phases.select w.composition (.replicate 0)))) := by
  unfold accept at h
  by_cases hc : w.connections.isEmpty = true
  · rw [if_pos hc] at h
    cases h
  rw [if_neg hc] at h
  obtain ⟨_, hcheck, h⟩ := Outcome.bind_ok.1 h
  refine ⟨fun hn => hc (List.isEmpty_iff.2 hn), hcheck, ?_⟩
  dsimp only at h
  by_cases hgiven : (phases.select w.composition (.replicate 0)).sum ≤ 0
  · rw [if_pos hgiven] at h
    split at h
    · cases h
    · cases h
      exact ⟨_, rfl, .inr ⟨⟨hgiven, ‹_›⟩, rfl⟩⟩
  · rw [if_neg hgiven] at h
    cases h
    exact ⟨_, rfl, .inl ⟨hgiven, rfl⟩⟩

theorem Wells.create_ok {list : List (Well α)} {phases : PhaseSet} {n : Nat} {ws : Wells α}
    (h : Wells.create list phases n = .ok ws) :
    list.mapM (·.accept phases n) = .ok ws.list ∧ duplicate? [] (ws.list.map (·.name)) = none := by
  unfold create at h
  split at h
  · cases h
  obtain ⟨accepted, ha, h⟩ := Outcome.bind_ok.1 h
  split at h
  · cases h
  · cases h
    exact ⟨ha, ‹_›⟩

theorem Wells.connected_of_create {list : List (Well α)} {phases : PhaseSet} {n : Nat} {ws : Wells α}
    (h : Wells.create list phases n = .ok ws) : ∀ w ∈ ws.list, w.connections ≠ [] := by
  intro w hw
  obtain ⟨w', -, hw'⟩ := Outcome.exists_of_mem_ok (create_ok h).1 hw
  obtain ⟨hc, -, q, rfl, -⟩ := Well.accept_ok hw'
  exact hc

theorem Wells.length_of_create {list : List (Well α)} {phases : PhaseSet} {n : Nat} {ws : Wells α}
    (h : Wells.create list phases n = .ok ws) : ws.list.length = list.length :=
  (Outcome.mapM_ok.1 (create_ok h).1).length_eq.symm

theorem Wells.oil_of_create {list : List (Well α)} {phases : PhaseSet} {n : Nat} {ws : Wells α}
    (h : Wells.create list phases n = .ok ws) : phases.oil = true := by
  unfold create at h
  split at h
  · cases h
  · exact not_not.1 ‹_›

theorem Model.eq_of_create {ws : Wells α} {setup : Setup α} {m : Model α} (h : Model.create ws setup = .ok m) :
    m = ⟨setup, ws.list.map .create⟩ := by
  obtain ⟨-, -, h⟩ := Outcome.bind_ok.1 h
  by_cases hi : setup.settings.maxLocalIterations = 0
  · rw [if_pos hi] at h
    cases h
  rw [if_neg hi] at h
  split at h
  · cases h
  · exact (Except.ok.inj h).symm

theorem Model.covers_of_create {ws : Wells α} {setup : Setup α} {m : Model α}
    (hws : ∀ w ∈ ws.list, w.connections ≠ []) (h : Model.create ws setup = .ok m)
    (hlift : ∀ t ∈ setup.lift.list, t.validate = .ok ⟨⟩) : m.Covers ws := by
  rw [Model.eq_of_create h]
  refine ⟨?_, fun n hn => ?_, LiftTables.stops_of_validate Fault.inRange_of_computational hlift⟩
  · rw [sizes, Wells.sizes, List.map_map, List.map_map]
    refine List.map_congr_left fun w _ => ?_
    rw [Function.comp_apply, WellUnit.create, List.length_map]
    rfl
  · obtain ⟨w, hw, rfl⟩ := List.mem_map.1 hn
    exact fun h0 => hws w hw (List.eq_nil_of_length_eq_zero h0)

namespace Model

/-- The session in which the work on a model starts. -/
def start (m : Model α) (groups : γ) (cells : List (Cell α)) : Outcome α (Session α γ) := do
  let flow ← FlowState.init m.wells cells m.setup.phases
  return ⟨← m.setUnknowns flow, flow, groups, []⟩

variable {ws : Wells α} {m : Model α}

private theorem start_inRange (h : m.Covers ws) (groups : γ) (cells : List (Cell α)) :
    (m.start groups cells).Stops Fault.InRange := by
  refine Outcome.Stops.bind (FlowState.init_stops (fun w hw => ?_)
    (fun w _ => Controls.get_stops Fault.inRange_error _ _) (fun w _ => w.reaches_inRange cells)
    fun w _ _ _ _ => w.encode_stops Fault.inRange_of_computational _ _ _ (.ok _)) fun flow hflow => ?_
  · obtain ⟨u, hu, rfl⟩ := List.mem_map.1 hw
    exact h.connections_ne_nil hu
  · exact (m.setUnknowns_stops (FlowState.fits_of_init hflow)).bind fun _ _ => .ok _

theorem start_bounded (h : m.Covers ws) {groups : γ} {cells : List (Cell α)} {s : Session α γ}
    (hs : m.start groups cells = .ok s) : s.Bounded ws := by
  obtain ⟨flow, hflow, hs⟩ := Outcome.bind_ok.1 hs
  obtain ⟨m', hm, hs⟩ := Outcome.bind_ok.1 hs
  cases hs
  exact ⟨h.of_outline (outline_of_setUnknowns hm), h.fits_iff.1 (FlowState.fits_of_init hflow)⟩

end Model

/-- The session in which a simulation starts is that of its model. -/
theorem Simulation.start_eq (s : Simulation α) : s.start = s.model.start s.group s.cells := rfl

/-! ### Operations in any order -/

/-- An operation on wells at work, with what the caller hands in. -/
inductive Operation (α γ : Type) where
  /-- Start over from other cells. -/
  | start (cells : List (Cell α))
  /-- Switch the wells that violate a constraint. -/
  | updateControls (cells : List (Cell α))
  /-- Apply Newton steps. -/
  | applyUpdates (updates : List (Vec3 α))
  /-- Apply the Newton steps that go with a reservoir update. -/
  | applyReservoirUpdate (x : List (Vec3 α))
  /-- Solve the well equations with the reservoir held fixed. -/
  | solve (cells : List (Cell α)) (dt : α)
  /-- Prepare and assemble the wells for an iteration of the reservoir. -/
  | assemble (cells : List (Cell α)) (dt : α) (iteration : Nat)
  /-- Write the potentials of all connections. -/
  | putPotentials (cells : List (Cell α))
  /-- The groups become others. -/
  | regroup (groups : γ)

namespace Session

/-- Start over from other cells. -/
def restart (cells : List (Cell α)) : Step Id α γ Unit := do
  let s ← get
  set { ← s.model.start s.groups cells with notices := s.notices }

end Session

open Session in
/-- What an operation does. -/
def Operation.run [GroupControl α γ] (comm : Communicator (StateM ω) α) : Operation α γ → Step (StateM ω) α γ Unit
  | .start cells => Attempt.lift (restart cells)
  | .updateControls cells => Attempt.lift (Session.updateControls cells)
  | .applyUpdates updates => Attempt.lift (Session.applyUpdates updates)
  | .applyReservoirUpdate x => Attempt.lift (Session.applyReservoirUpdate x)
  | .solve cells dt => do let _ ← Session.solve comm cells dt
  | .assemble cells dt i => do let _ ← Session.assemble comm cells dt i
  | .putPotentials cells => Attempt.lift do onFlow ((← get).model.putPotentials cells)
  | .regroup groups => Attempt.lift (modify fun s => { s with groups := groups })

namespace Session

/-- Operations one after the other, whether they succeed or stop: their outcomes, the session that they leave, and what
the other processes are up to. -/
def run [GroupControl α γ] (comm : Communicator (StateM ω) α) :
    List (Operation α γ) → Session α γ → ω → List (Outcome α Unit) × Session α γ × ω
  | [], s, w => ([], s, w)
  | op :: ops, s, w =>
    let ((o, t), w') := op.run comm s w
    let (os, u, w'') := run comm ops t w'
    (o :: os, u, w'')

variable [GroupControl α γ]

/-! ### Properties that last through a run -/

/-- A property of sessions that every operation keeps, and for what operations stop. -/
structure Lasting (P : Session α γ → Prop) (F : Fault α → Prop) : Prop where
  aborted : ∀ c, F (.error (.aborted c))
  /-- The parts of a local solution. -/
  parts : ∀ cells dt, Invariant cells dt P F
  prepare : ∀ cells dt i, Keeps P F (prepare cells dt i : Step Id α γ Unit)
  restart : ∀ cells, Keeps P F (restart cells : Step Id α γ Unit)
  applyUpdates : ∀ updates, Keeps P F (applyUpdates updates : Step Id α γ Unit)
  recover : ∀ {s} x, P s → (s.model.recover x).Stops F
  putPotentials : ∀ {s} cells, P s →
    Kept P F (onFlow (s.model.putPotentials cells) s).1 (onFlow (s.model.putPotentials cells) s).2
  regroup : ∀ {s} g, P s → P { s with groups := g }

theorem Lasting.operation {P : Session α γ → Prop} {F : Fault α → Prop} (h : Lasting P F)
    (comm : Communicator (StateM ω) α) (op : Operation α γ) : Ensures P (op.run comm) (Kept P F) := by
  cases op with
  | start cells => exact .of_lift (h.restart cells)
  | updateControls cells => exact .of_lift (h.parts cells 0).updateControls
  | applyUpdates updates => exact .of_lift (h.applyUpdates updates)
  | applyReservoirUpdate x =>
    refine .of_lift (Keeps.get_bind fun s hs => ?_)
    exact Keeps.bind (.outcome (h.recover x hs)) (fun updates => h.applyUpdates updates) s hs
  | solve cells dt => exact bind_kept ((h.parts cells dt).solve comm) fun _ => .pure fun _ ht => ⟨ht, .ok _⟩
  | assemble cells dt i =>
    exact bind_kept ((h.parts cells dt).assemble comm (h.aborted _) (h.prepare cells dt i)) fun _ =>
      .pure fun _ ht => ⟨ht, .ok _⟩
  | putPotentials cells => exact .of_lift (Keeps.get_bind fun s hs => h.putPotentials cells hs)
  | regroup groups => exact .of_lift (Keeps.modify fun _ hs => h.regroup groups hs)

/-- What each operation of a run keeps, the run keeps. -/
theorem run_keeps {P : Session α γ → Prop} {F : Fault α → Prop} {comm : Communicator (StateM ω) α}
    {ops : List (Operation α γ)} (h : ∀ op ∈ ops, Ensures P (op.run comm) (Kept P F)) {s : Session α γ} (hs : P s)
    (w : ω) : P (run comm ops s w).2.1 ∧ ∀ o ∈ (run comm ops s w).1, o.Stops F := by
  induction ops generalizing s w with
  | nil => exact ⟨hs, fun _ ho => nomatch ho⟩
  | cons op ops ih =>
    obtain ⟨hop, hops⟩ := List.forall_mem_cons.1 h
    obtain ⟨ht, hstops⟩ := hop s w hs
    obtain ⟨hu, hall⟩ := ih hops ht (op.run comm s w).2
    exact ⟨hu, List.forall_mem_cons.2 ⟨hstops, hall⟩⟩

variable {ws : Wells α}

omit [GroupControl α γ] in
private theorem restart_bounded (cells : List (Cell α)) :
    Keeps (Bounded ws) Fault.InRange (restart cells : Step Id α γ Unit) := by
  refine .get_bind fun s hs => ?_
  have hstops := Model.start_inRange hs.model s.groups cells
  rw [run_outcome_bind]
  cases h : s.model.start s.groups cells with
  | error e => exact ⟨hs, .error (hstops e h)⟩
  | ok t =>
    have ht := Model.start_bounded hs.model h
    exact ⟨⟨ht.model, ht.flow⟩, .ok _⟩

/-- Every operation keeps a session within bounds, whether it succeeds or stops. -/
theorem lasting_bounded (ws : Wells α) : Lasting (Bounded (γ := γ) ws) Fault.InRange where
  aborted _ := Fault.inRange_error _
  parts := invariant_bounded ws
  prepare := prepare_bounded
  restart := restart_bounded
  applyUpdates := applyUpdates_bounded
  recover {s} x _ := s.model.recover_inRange x
  putPotentials {s} cells hs := hs.onFlow (s.model.putPotentials_keeps hs.serves cells)
  regroup _ hs := ⟨hs.model, hs.flow⟩

/-- A run stays within bounds. -/
theorem run_within (comm : Communicator (StateM ω) α) (ops : List (Operation α γ)) {s : Session α γ} (hs : s.Bounded ws)
    (w : ω) : (run comm ops s w).2.1.Bounded ws ∧ ∀ o ∈ (run comm ops s w).1, o.Stops Fault.InRange :=
  run_keeps (fun op _ => (lasting_bounded ws).operation comm op) hs w

/-- Work on accepted wells, with an accepted model and lift tables that were validated: neither the start nor any
operation after it accesses an array past its end.  After each run the state has room for the wells and their
connections, and each well is on a control that it has. -/
theorem run_bounded {list : List (Well α)} {phases : PhaseSet} {numCells : Nat} {ws : Wells α} {setup : Setup α}
    {m : Model α} (hws : Wells.create list phases numCells = .ok ws) (hm : Model.create ws setup = .ok m)
    (hlift : ∀ t ∈ setup.lift.list, t.validate = .ok ⟨⟩) (comm : Communicator (StateM ω) α) (groups : γ)
    (cells : List (Cell α)) :
    m.start groups cells ≠ .error .outOfRange ∧ ∀ s, m.start groups cells = .ok s →
      ∀ (ops : List (Operation α γ)) (w : ω), (∀ o ∈ (run comm ops s w).1, o ≠ .error .outOfRange) ∧
        (run comm ops s w).2.1.flow.Fits ws ∧ (run comm ops s w).2.1.model.wells.sizes = ws.sizes ∧
        ∀ u ∈ (run comm ops s w).2.1.model.units, u.segments.length = u.well.connections.length := by
  have hcovers := Model.covers_of_create (Wells.connected_of_create hws) hm hlift
  refine ⟨fun h => Model.start_inRange hcovers groups cells _ h rfl, fun s hs ops w => ?_⟩
  obtain ⟨hb, hall⟩ := run_within comm ops (Model.start_bounded hcovers hs) w
  exact ⟨fun o ho h => hall o ho _ h rfl, hb.flow, hb.model.wells_sizes, fun _ hu => hb.model.length_segments hu⟩

/-! ### A producer with a lift table -/

/-- A producer through two connections, limited by its bottom-hole pressure and by its tubing-head pressure. -/
def liftedProducer : List (Well ℚ) :=
  [.producer "P" 0 [⟨0, 2, 0, 1⟩, ⟨1, 2, 10, 1⟩] ⟨[⟨.bhp, 90, .replicate 0⟩, ⟨.thp 1 0, 20, .replicate 0⟩], 0⟩]

/-- The setup of the producer. -/
def liftedSetup : Setup ℚ :=
  { (oilProducer 15).model.setup with lift := ⟨[⟨1, 0, .oil, [0, 100], [10, 20], [[50, 60], [70, 80]]⟩]⟩ }

/-- Operations on the producer.  The second one has too few steps and the third one no cells. -/
def liftedOperations : List (Operation ℚ (Option (VoidageGroup ℚ))) :=
  [.assemble (oilCell ++ oilCell) 1 0, .applyUpdates [], .assemble [] 1 1, .putPotentials (oilCell ++ oilCell)]

/-- Which of the operations succeed. -/
def liftedRun : Outcome ℚ (List Bool) := do
  let ws ← Wells.create liftedProducer (.single .oil) 2
  let m ← Model.create ws liftedSetup
  let s ← m.start none (oilCell ++ oilCell)
  return (run (.serial : Communicator (StateM Unit) ℚ) liftedOperations s ()).1.map (·.toBool)

/-- The operations that stop leave a state to go on from. -/
theorem run_bounded_liftedProducer : ∃ ws m, ∃ s : Session ℚ (Option (VoidageGroup ℚ)),
    Wells.create liftedProducer (.single .oil) 2 = .ok ws ∧ Model.create ws liftedSetup = .ok m ∧
    (∀ t ∈ liftedSetup.lift.list, t.validate = .ok ⟨⟩) ∧ m.start none (oilCell ++ oilCell) = .ok s ∧
    (run (.serial : Communicator (StateM Unit) ℚ) liftedOperations s ()).1.map (·.toBool) = [true, false, false, true] ∧
    (∀ o ∈ (run (.serial : Communicator (StateM Unit) ℚ) liftedOperations s ()).1, o ≠ .error .outOfRange) ∧
    (run (.serial : Communicator (StateM Unit) ℚ) liftedOperations s ()).2.1.flow.Fits ws ∧
    (run (.serial : Communicator (StateM Unit) ℚ) liftedOperations s ()).2.1.model.wells.sizes = ws.sizes ∧
    ∀ u ∈ (run (.serial : Communicator (StateM Unit) ℚ) liftedOperations s ()).2.1.model.units,
      u.segments.length = u.well.connections.length := by
  have hrun : (liftedRun, ()) = (.ok [true, false, false, true], ()) := run_ok_of_toOption (by decide +kernel)
  have hlift : ∀ t ∈ liftedSetup.lift.list, t.validate = .ok ⟨⟩ := by
    intro t ht
    rw [List.mem_singleton.1 ht]
    rfl
  obtain ⟨ws, hws, h⟩ := Outcome.bind_ok.1 (Prod.mk.inj hrun).1
  obtain ⟨m, hm, h⟩ := Outcome.bind_ok.1 h
  obtain ⟨s, hs, h⟩ := Outcome.bind_ok.1 h
  have hbounded := run_bounded hws hm hlift (.serial : Communicator (StateM Unit) ℚ) (none : Option (VoidageGroup ℚ))
    (oilCell ++ oilCell)
  exact ⟨ws, m, s, hws, hm, hlift, hs, Except.ok.inj h, hbounded.2 s hs liftedOperations ()⟩

end Session

end BlackOilWells
