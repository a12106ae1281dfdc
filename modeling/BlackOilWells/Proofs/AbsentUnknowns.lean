import BlackOilWells.Proofs.AbsentPhases
import BlackOilWells.Proofs.Jacobian

/-!
# The unknowns of absent phases

The equation of an absent phase contains nothing but the fraction of the phase: its row of the Jacobian is pinned, it
has no residual, and no cell contributes to it (`WellSystem.IsPinned`).  Whatever the other equations say of the
fraction, the solution of the eliminated system does not move it (`WellUnit.keepsAbsent_of_assemble`).

A pinned row has its one in the column of the fraction, which for water is not on the diagonal.
-/

namespace BlackOilWells

variable {K : Type} [Field K]

/-! ### Entries of products -/

theorem Block.ofPhase_mulVec (m : Block K) (v : Vec3 K) (p : Phase) :
    (m.mulVec v).ofPhase p = (m.ofPhase p).dot v := by
  cases p <;> rfl

private theorem Vec3.zero_dot (v : Vec3 K) : (0 : Vec3 K).dot v = 0 := by simp [dot]

private theorem Vec3.ofPhase_sum (vs : List (Vec3 K)) (p : Phase) : vs.sum.ofPhase p = (vs.map (·.ofPhase p)).sum := by
  induction vs with
  | nil => exact Vec3.ofPhase_zero p
  | cons v vs ih => rw [List.sum_cons, Vec3.ofPhase_add, ih, List.map_cons, List.sum_cons]

/-! ### Pinned equations -/

namespace WellSystem

/-- Whether the equation of a phase consists of a row of the Jacobian alone. -/
structure IsPinned (s : WellSystem K) (p : Phase) (row : Vec3 K) : Prop where
  jacobian : s.jacobian.ofPhase p = row
  residual : s.residual.ofPhase p = 0
  toWell : ∀ c ∈ s.couplings, c.toWell.ofPhase p = 0

namespace IsPinned

variable {s : WellSystem K} {p : Phase} {row : Vec3 K}

private theorem reservoirPart (h : s.IsPinned p row) (x : List (Vec3 K)) : (s.reservoirPart x).ofPhase p = 0 := by
  rw [WellSystem.reservoirPart, Vec3.ofPhase_sum, List.map_map]
  refine List.sum_eq_zero fun y hy => ?_
  obtain ⟨c, hc, rfl⟩ := List.mem_map.1 hy
  rw [Function.comp_apply, Block.ofPhase_mulVec, h.toWell c hc, Vec3.zero_dot]

variable [LinearOrder K]

/-- A solution is annihilated by a pinned row, if the right-hand side has nothing there. -/
private theorem dot_solveWell (h : s.IsPinned p row) (hs : s.IsEliminated) {v : Vec3 K} (hv : v.ofPhase p = 0) :
    row.dot (s.solveWell v) = 0 := by
  calc row.dot (s.solveWell v) = (s.jacobian.mulVec (s.solveWell v)).ofPhase p := by
        rw [Block.ofPhase_mulVec, h.jacobian]
    _ = v.ofPhase p := by rw [hs.jacobian_solveWell]
    _ = 0 := hv

private theorem dot_residual (h : s.IsPinned p row) (hs : s.IsEliminated) : row.dot (s.solveWell s.residual) = 0 :=
  h.dot_solveWell hs h.residual

private theorem dot_recovered (h : s.IsPinned p row) (hs : s.IsEliminated) (x : List (Vec3 K)) :
    row.dot (s.solveWell (s.residual - s.reservoirPart x)) = 0 := by
  refine h.dot_solveWell hs ?_
  rw [Vec3.ofPhase_sub, h.residual, h.reservoirPart, sub_zero]

end IsPinned

variable [LinearOrder K]

/-- An elimination stores an inverse and changes nothing else. -/
theorem eliminate_ok {s t : WellSystem K} {well : Option String} (h : s.eliminate well = .ok t) :
    t.IsEliminated ∧ ∃ inv, t = { s with inverse := some inv } := by
  refine ⟨⟨s, well, h⟩, ?_⟩
  unfold eliminate at h
  split at h
  · rename_i inv _
    cases h
    exact ⟨inv, rfl⟩
  · cases h

private theorem IsEliminated.wellUpdate_eq {s : WellSystem K} (h : s.IsEliminated) :
    s.wellUpdate = .ok (s.solveWell s.residual) := by
  rw [wellUpdate, h.getInverse_eq]
  rfl

end WellSystem

/-! ### The system of a well -/

/-- Whether an update of the unknowns of a well moves the fraction of no absent phase. -/
structure Unknowns.KeepsAbsent (phases : PhaseSet) (u : Unknowns K) : Prop where
  water : phases.water = false → u.water = 0
  gas : phases.gas = false → u.gas = 0

namespace WellUnit

variable [LinearOrder K] {u u' : WellUnit K} {setup : Setup K} {control : Control K} {cells : List (Cell K)} {dt : K}
  {s : Slot K} {flows : List (ConnectionFlow K)}

/-- The equation of a phase that is neither stored nor flows, apart from its row of the Jacobian. -/
private theorem isPinned_linearSystem {p : Phase} {row : Vec3 K} (hp : setup.phases.isActive p = false)
    (hf : ∀ f ∈ flows, f.flux.get p = 0)
    (hrow : ∀ d : Block K, d.ofPhase p = 0 → (pinAbsent setup.phases d).ofPhase p = row) :
    (u.linearSystem setup control dt flows).IsPinned p row := by
  refine ⟨?_, u.residual_absent control dt hp hf, fun c hc => ?_⟩
  · obtain ⟨d, hd, hrows⟩ := u.jacobian_rows setup control dt flows
    rw [hd]
    exact hrow d ((hrows p).trans (u.row_absent control dt hp hf))
  · obtain ⟨f, hmem, rfl⟩ := List.mem_map.1 hc
    rw [ConnectionFlow.coupling, Vec3.ofPhase_sub, Vec3.ofPhase_zero, PerPhase.ofPhase_cellRows, hf f hmem, byCell_zero,
      sub_zero]

private theorem cells_of_connectionFlows (h : u.connectionFlows setup cells s control = .ok flows) (dt : K) :
    ∀ c ∈ (u.linearSystem setup control dt flows).cells, c ∈ u.well.cells := by
  intro c hc
  rw [WellSystem.cells, linearSystem, List.map_map] at hc
  obtain ⟨f, hf, rfl⟩ := List.mem_map.1 hc
  obtain ⟨bhp, -, h⟩ := Outcome.bind_ok.1 h
  obtain ⟨crossFlow, -, h⟩ := Outcome.bind_ok.1 h
  obtain ⟨link, hlink, h⟩ := Outcome.exists_of_mem_ok h hf
  obtain ⟨flux, -, h⟩ := Outcome.bind_ok.1 h
  obtain ⟨reported, -, h⟩ := Outcome.bind_ok.1 h
  cases h
  exact List.mem_map_of_mem (List.of_mem_zip hlink).1

/-- What an assembly leaves: the system of the flows, with an inverse. -/
theorem system_of_assemble (h : u.assemble setup cells dt s = .ok (u', flows)) : ∃ control inv,
    u.connectionFlows setup cells s control = .ok flows ∧
      u'.system = { u.linearSystem setup control dt flows with inverse := some inv } ∧ u'.system.IsEliminated := by
  obtain ⟨control, -, h⟩ := Outcome.bind_ok.1 h
  obtain ⟨flows, hf, h⟩ := Outcome.bind_ok.1 h
  obtain ⟨system, hs, h⟩ := Outcome.bind_ok.1 h
  cases h
  obtain ⟨he, inv, hinv⟩ := WellSystem.eliminate_ok hs
  exact ⟨control, inv, hf, hinv, he⟩

/-- The rows of absent phases are pinned to their fractions. -/
private theorem isPinned_of_assemble (h : u.assemble setup cells dt s = .ok (u', flows)) :
    (setup.phases.water = false → u'.system.IsPinned .water ⟨0, 1, 0⟩) ∧
      (setup.phases.gas = false → u'.system.IsPinned .gas ⟨0, 0, 1⟩) := by
  obtain ⟨control, inv, hf, hsystem, -⟩ := system_of_assemble h
  rw [hsystem]
  -- the stored inverse is in none of the equations
  have hpinned {p : Phase} {row : Vec3 K} (h : (u.linearSystem setup control dt flows).IsPinned p row) :
      WellSystem.IsPinned { u.linearSystem setup control dt flows with inverse := some inv } p row :=
    ⟨h.jacobian, h.residual, h.toWell⟩
  constructor
  · intro hw
    have hp : setup.phases.isActive .water = false := hw
    exact hpinned (isPinned_linearSystem hp (flux_of_connectionFlows hp hf) fun d => pinAbsent_water hw)
  · intro hg
    have hp : setup.phases.isActive .gas = false := hg
    exact hpinned (isPinned_linearSystem hp (flux_of_connectionFlows hp hf) fun d => pinAbsent_gas hg)

private theorem cells_of_assemble (h : u.assemble setup cells dt s = .ok (u', flows)) :
    ∀ c ∈ u'.system.cells, c ∈ u.well.cells := by
  obtain ⟨control, inv, hf, hsystem, -⟩ := system_of_assemble h
  rw [hsystem]
  exact cells_of_connectionFlows hf dt

/-- What the pinned rows annihilate has nothing at the fractions of absent phases. -/
private theorem keepsAbsent_of_dot {phases : PhaseSet} {y : Vec3 K}
    (hwater : phases.water = false → Vec3.dot ⟨0, 1, 0⟩ y = 0)
    (hgas : phases.gas = false → Vec3.dot ⟨0, 0, 1⟩ y = 0) : (Unknowns.ofVec y).KeepsAbsent phases := by
  constructor
  · intro hw
    simpa [Vec3.dot, Unknowns.ofVec] using hwater hw
  · intro hg
    simpa [Vec3.dot, Unknowns.ofVec] using hgas hg

/-- The system that an assembly leaves never moves the fraction of an absent phase: neither with the reservoir held
fixed, nor with any update of the cells of the well. -/
theorem keepsAbsent_of_assemble (h : u.assemble setup cells dt s = .ok (u', flows)) :
    (∃ y, u'.system.wellUpdate = .ok y ∧ (Unknowns.ofVec y).KeepsAbsent setup.phases) ∧
      ∀ x : List (Vec3 K), (∀ c ∈ u.well.cells, c < x.length) →
        ∃ y, u'.system.recover x = .ok y ∧ (Unknowns.ofVec y).KeepsAbsent setup.phases := by
  obtain ⟨hwater, hgas⟩ := isPinned_of_assemble h
  obtain ⟨-, -, -, -, he⟩ := system_of_assemble h
  refine ⟨⟨_, he.wellUpdate_eq, ?_⟩, fun x hx => ⟨_, he.recover_eq fun c hc => hx c (cells_of_assemble h c hc), ?_⟩⟩
  · exact keepsAbsent_of_dot (fun hw => (hwater hw).dot_residual he) fun hg => (hgas hg).dot_residual he
  · exact keepsAbsent_of_dot (fun hw => (hwater hw).dot_recovered he x) fun hg => (hgas hg).dot_recovered he x

/-! ### A producer without water or without gas -/

/-- Two cells in which all phases could move. -/
def mobileCells : List (Cell ℚ) :=
  [100, 110].map fun p => { Cell.still (.seed p 0) 300 with mobility := .replicate (.const 1) }

/-- A producer with two connections, on its bottom-hole pressure, whose stream has a part of every phase. -/
def mixedStream : WellUnit ℚ :=
  { WellUnit.create (.producer "P" 0 [⟨0, 2, 0, 1⟩, ⟨1, 1, 0, 1⟩] ⟨[⟨.bhp, 90, .replicate 0⟩], 0⟩) with
    unknowns := seeded ⟨-6, 1 / 4, 1 / 8⟩ }

/-- The assembly of the producer in a model with given phases. -/
def assembleMixedStream (phases : PhaseSet) : Outcome ℚ (WellUnit ℚ × List (ConnectionFlow ℚ)) :=
  mixedStream.assemble { Session.wateredSetup with phases := phases } mobileCells 1
    ⟨some 90, some 0, some (.replicate 0), some ⟨-6, 1 / 4, 1 / 8⟩, some 0⟩

/-- With all phases an update moves both fractions, and without one of them it keeps that one. -/
theorem keepsAbsent_of_assemble_mixedStream :
    (∃ u' flows y, assembleMixedStream .threePhase = .ok (u', flows) ∧
      u'.system.recover [⟨1, 2, 3⟩, ⟨4, 5, 6⟩] = .ok y ∧ y.y ≠ 0 ∧ y.z ≠ 0) ∧
    ∀ phases ∈ [PhaseSet.oilWater, .oilGas, .single .oil],
      ∃ u' flows y, assembleMixedStream phases = .ok (u', flows) ∧ mixedStream.well.cells = [0, 1] ∧
        u'.system.recover [⟨1, 2, 3⟩, ⟨4, 5, 6⟩] = .ok y ∧ (Unknowns.ofVec y).KeepsAbsent phases := by
  constructor
  · have hrun : ((assembleMixedStream .threePhase >>= fun (u', _) => u'.system.recover [⟨1, 2, 3⟩, ⟨4, 5, 6⟩]).map
        fun y => (y.y == 0, y.z == 0)).toOption = some (false, false) := by decide +kernel
    obtain ⟨y, hy, hmoves⟩ := Outcome.map_ok.1 (Outcome.ok_of_toOption hrun)
    obtain ⟨⟨u', flows⟩, h, hy⟩ := Outcome.bind_ok.1 hy
    obtain ⟨hwater, hgas⟩ := Prod.mk.inj hmoves
    exact ⟨u', flows, y, h, hy, ne_of_beq_false hwater, ne_of_beq_false hgas⟩
  · intro phases hphases
    have hcells : mixedStream.well.cells = [0, 1] := rfl
    have hruns : ∀ phases ∈ [PhaseSet.oilWater, .oilGas, .single .oil],
        (assembleMixedStream phases).toOption.isSome = true := by decide +kernel
    obtain ⟨⟨u', flows⟩, h⟩ := Outcome.exists_ok_of_isSome (hruns phases hphases)
    obtain ⟨y, hy, hkeeps⟩ := (keepsAbsent_of_assemble h).2 [⟨1, 2, 3⟩, ⟨4, 5, 6⟩] (by decide)
    exact ⟨u', flows, y, h, hcells, hy, hkeeps⟩

end WellUnit

end BlackOilWells
