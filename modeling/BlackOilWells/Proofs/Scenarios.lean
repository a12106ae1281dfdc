import Mathlib.Algebra.Order.Field.Basic
import Mathlib.Data.List.Nodup
import BlackOilWells.Proofs.Consistency
import BlackOilWells.Proofs.Exact

/-!
# Accepted scenarios

`Scenario.build` checks a scenario before anything runs, and an operation checks its data again and again while it runs.
The first checks are enough for the second ones: the simulation of an accepted scenario is consistent when it starts
(`Simulation.Coherent.consistent_of_start`), and it stays so.  Hence no iteration of it, whatever has failed before,
stops for anything but what the numbers cause (`Scenario.run_computational`).
-/

namespace BlackOilWells

open Attempt

variable {ω α : Type} [Scalar α]

/-! ### Accepted wells -/

/-- A search for duplicates that finds none. -/
theorem Wells.duplicate?_eq_none_iff {seen names : List String} :
    duplicate? seen names = none ↔ names.Nodup ∧ ∀ n ∈ names, n ∉ seen := by
  induction names generalizing seen with
  | nil => exact iff_of_true rfl ⟨List.nodup_nil, nofun⟩
  | cons n ns ih =>
    rw [duplicate?]
    by_cases hn : seen.contains n = true
    · rw [if_pos hn]
      exact iff_of_false nofun fun h => h.2 n (List.mem_cons_self ..) (List.contains_iff_mem.1 hn)
    rw [if_neg hn, ih, List.nodup_cons]
    constructor
    · rintro ⟨hnodup, hseen⟩
      have hfresh : n ∉ ns := fun hmem => hseen n hmem (List.mem_append_right _ (List.mem_singleton_self n))
      refine ⟨⟨hfresh, hnodup⟩, List.forall_mem_cons.2 ⟨fun hmem => hn ?_, fun k hk hmem => ?_⟩⟩
      · exact List.contains_iff_mem.2 hmem
      · exact hseen k hk (List.mem_append_left _ hmem)
    · rintro ⟨⟨hfresh, hnodup⟩, hseen⟩
      refine ⟨hnodup, fun k hk hmem => ?_⟩
      rcases List.mem_append.1 hmem with hmem | hmem
      · exact hseen k (List.mem_cons_of_mem _ hk) hmem
      · exact hfresh (List.mem_singleton.1 hmem ▸ hk)

theorem Wells.create_of_accepted {list accepted : List (Well α)} {phases : PhaseSet} {n : Nat}
    (hoil : phases.oil = true) (haccepted : list.mapM (·.accept phases n) = .ok accepted)
    (hnodup : (accepted.map (·.name)).Nodup) : Wells.create list phases n = .ok ⟨accepted⟩ := by
  have hnames : duplicate? [] (accepted.map (·.name)) = none :=
    duplicate?_eq_none_iff.2 ⟨hnodup, fun _ _ => List.not_mem_nil⟩
  rw [create, if_neg (not_not.2 hoil)]
  refine Outcome.bind_ok.2 ⟨accepted, haccepted, ?_⟩
  rw [hnames]
  rfl

section Wells

variable {list : List (Well α)} {phases : PhaseSet} {n : Nat} {ws : Wells α} (h : Wells.create list phases n = .ok ws)

include h

private theorem Wells.cell_lt_of_create {w : Well α} (hw : w ∈ ws.list) {c : Connection α} (hc : c ∈ w.connections) :
    c.cell < n := by
  obtain ⟨w₀, -, hw₀⟩ := Outcome.exists_of_mem_ok (create_ok h).1 hw
  obtain ⟨-, hcheck, q, rfl, -⟩ := Well.accept_ok hw₀
  have hok := Outcome.forM_ok hcheck hc
  by_contra hge
  rw [Well.checkConnection, if_pos (Nat.le_of_not_lt hge)] at hok
  cases hok

/-- Accepting wells keeps their constraints. -/
private theorem Wells.initial_of_create (hlist : ∀ w ∈ list, w.controls.initial < w.controls.list.length) :
    ∀ w ∈ ws.list, w.controls.initial < w.controls.list.length := by
  intro w hw
  obtain ⟨w₀, hmem, hw₀⟩ := Outcome.exists_of_mem_ok (create_ok h).1 hw
  obtain ⟨-, -, q, rfl, -⟩ := Well.accept_ok hw₀
  exact hlist w₀ hmem

/-- The name of a well says which one it is. -/
theorem Wells.eq_of_name {w w' : Well α} (hw : w ∈ ws.list) (hw' : w' ∈ ws.list) (hname : w.name = w'.name) : w = w' :=
  List.inj_on_of_nodup_map (duplicate?_eq_none_iff.1 (create_ok h).2).1 hw hw' hname

end Wells

omit [Scalar α] in
theorem Wells.getElem?_of_get {ws : Wells α} {i : Nat} {w : Well α} (h : ws.get i = .ok w) :
    ws.list[i]? = some w := by
  unfold get at h
  cases hget : ws.list[i]? with
  | none =>
    rw [hget] at h
    cases h
  | some w' =>
    rw [hget] at h
    cases h
    rfl

private theorem Controls.initial_of_create {list : List (Control α)} {i : Nat} {cs : Controls α}
    (h : Controls.create list i = .ok cs) : cs.initial < cs.list.length := by
  obtain ⟨rfl, hi, -⟩ := create_ok h
  exact hi

/-! ### Accepted models -/

/-- Every lift table that a constraint refers to is there. -/
theorem Model.contains_of_create {ws : Wells α} {setup : Setup α} {m : Model α} (h : Model.create ws setup = .ok m)
    {w : Well α} (hw : w ∈ ws.list) {c : Control α} (hc : c ∈ w.controls.list) {id : Nat} {x : α}
    (hk : c.kind = .thp id x) : setup.lift.contains id = true := by
  obtain ⟨_, htables, -⟩ := Outcome.bind_ok.1 h
  have htable := Outcome.forM_ok (Outcome.forM_ok htables hw) hc
  rw [hk] at htable
  by_contra hn
  dsimp only [ControlKind.lift?] at htable
  rw [if_neg hn] at htable
  cases htable

namespace Scenario

private theorem validate_of_foldlM {tables : List (LiftTable α)} {ts₀ ts : LiftTables α}
    (h : tables.foldlM (fun (ts : LiftTables α) t => do t.validate; return ts.insert t) ts₀ = .ok ts)
    (h₀ : ∀ t ∈ ts₀.list, t.validate = .ok ⟨⟩) : ∀ t ∈ ts.list, t.validate = .ok ⟨⟩ := by
  induction tables generalizing ts₀ with
  | nil =>
    cases h
    exact h₀
  | cons t tables ih =>
    rw [List.foldlM_cons] at h
    obtain ⟨ts₁, hts, h⟩ := Outcome.bind_ok.1 h
    obtain ⟨_, ht, hts⟩ := Outcome.bind_ok.1 hts
    cases hts
    exact ih h (List.forall_mem_cons.2 ⟨ht, fun t' ht' => h₀ t' (List.mem_of_mem_filter ht')⟩)

/-- Every lift table has been validated. -/
theorem validate_of_buildLift {tables : List (LiftTable α)} {ts : LiftTables α} (h : buildLift tables = .ok ts) :
    ∀ t ∈ ts.list, t.validate = .ok ⟨⟩ := validate_of_foldlM h nofun

/-! ### Accepted parts of a scenario -/

theorem mapError_ok {ε ε' β : Type} {f : ε → ε'} {x : Except ε β} {b : β} : x.mapError f = .ok b ↔ x = .ok b := by
  cases x with
  | error e => exact ⟨nofun, nofun⟩
  | ok a => exact ⟨fun h => congrArg _ (Except.ok.inj h), fun h => congrArg _ (Except.ok.inj h)⟩

private theorem initial_of_buildWell {spec : WellSpec α} {w : Well α} (h : buildWell spec = .ok w) :
    w.controls.initial < w.controls.list.length := by
  obtain ⟨cs, hcs, h⟩ := Outcome.bind_ok.1 h
  have hinitial := Controls.initial_of_create (mapError_ok.1 hcs)
  dsimp only at h
  split at h
  · cases h
    exact hinitial
  · split at h
    · cases h
      exact hinitial
    · cases h

omit [Scalar α] in
private theorem hasControl_of_buildMember {ws : Wells α}
    (hnames : ∀ w ∈ ws.list, ∀ w' ∈ ws.list, w.name = w'.name → w = w') {group : String} {spec : MemberSpec α}
    {m : GroupMember α} (h : buildMember ws group spec = .ok m) {i : Nat} (hi : m.groupControl = some i) :
    ws.HasControl m.well i := by
  unfold buildMember at h
  split at h
  · cases h
  rename_i index hindex
  obtain ⟨w, hw, h⟩ := Outcome.bind_ok.1 h
  obtain ⟨v, hv, hname⟩ := Wells.exists_of_indexOf? hindex
  have hget := Wells.getElem?_of_get (mapError_ok.1 hw)
  obtain rfl : v = w := Option.some.inj (hv.symm.trans hget)
  have hmem := List.mem_of_getElem? hv
  dsimp only at h
  cases hcontrol : spec.groupControl with
  | none =>
    rw [hcontrol] at h
    cases h
    cases hi
  | some control =>
    rw [hcontrol] at h
    obtain ⟨c, hc, h⟩ := Outcome.bind_ok.1 h
    cases h
    cases hi
    refine ⟨⟨v, hmem, hname⟩, fun w hw hname' => ?_⟩
    rw [hnames w hw v hmem (hname'.trans hname.symm)]
    exact Controls.lt_of_get (mapError_ok.1 hc)

private theorem fits_of_buildGroup {ws : Wells α}
    (hnames : ∀ w ∈ ws.list, ∀ w' ∈ ws.list, w.name = w'.name → w = w') {spec : GroupSpec α} {g : VoidageGroup α}
    (h : buildGroup ws spec = .ok g) : g.Fits ws := by
  obtain ⟨members, hm, h⟩ := Outcome.bind_ok.1 h
  cases h
  intro m hmem i hi
  obtain ⟨spec', -, hspec⟩ := Outcome.exists_of_mem_ok hm hmem
  exact hasControl_of_buildMember hnames hspec hi

end Scenario

/-! ### Accepted scenarios -/

/-- Whether the parts of a simulation fit together. -/
structure Simulation.Coherent (sim : Simulation α) : Prop where
  covers : sim.model.Covers sim.model.wells
  supplies : sim.model.setup.Supplies sim.cells sim.model.wells
  initial : ∀ w ∈ sim.model.wells.list, w.controls.initial < w.controls.list.length
  group : ∀ g ∈ sim.group, g.Fits sim.model.wells
  converter : sim.group ≠ none → sim.model.setup.converter ≠ none

private theorem Model.wells_create (setup : Setup α) (ws : Wells α) :
    (⟨setup, ws.list.map .create⟩ : Model α).wells = ws := by
  rw [wells, List.map_map]
  exact congrArg Wells.mk (List.map_id _)

/-- The parts of a simulation fit together if each of them has been accepted. -/
private theorem Simulation.coherent_of_parts {list : List (Well α)} {phases : PhaseSet} {ws : Wells α} {setup : Setup α}
    {m : Model α} {sim : Simulation α} (hlist : ∀ w ∈ list, w.controls.initial < w.controls.list.length)
    (hws : Wells.create list phases sim.cells.length = .ok ws) (hlift : ∀ t ∈ setup.lift.list, t.validate = .ok ⟨⟩)
    (hm : Model.create ws setup = .ok m) {converter : Option (RateConverter α)}
    (hsim : sim.model = { m with setup := { setup with converter := converter } })
    (hgroup : ∀ g ∈ sim.group, ∃ spec, Scenario.buildGroup ws spec = .ok g)
    (hconverter : sim.group ≠ none → converter ≠ none) : sim.Coherent := by
  have hcovers := Model.covers_of_create (Wells.connected_of_create hws) hm hlift
  have hwells : sim.model.wells = ws := by
    rw [hsim, Model.eq_of_create hm]
    exact Model.wells_create _ ws
  have hsetup : sim.model.setup = { setup with converter := converter } := by rw [hsim]
  rw [Model.eq_of_create hm] at hsim hcovers
  constructor
  case covers =>
    rw [hwells, hsim]
    exact ⟨hcovers.sizes, hcovers.connected, hcovers.lift⟩
  case supplies =>
    rw [hwells, hsetup]
    exact ⟨fun w hw c hc => Wells.cell_lt_of_create hws hw hc, fun w hw c hc id x => Model.contains_of_create hm hw hc,
      LiftTables.stops_of_validate (fun _ h => h) hlift⟩
  case initial =>
    rw [hwells]
    exact Wells.initial_of_create hws hlist
  case group =>
    rw [hwells]
    intro g hg
    obtain ⟨spec, hspec⟩ := hgroup g hg
    exact Scenario.fits_of_buildGroup (fun w hw w' hw' => Wells.eq_of_name hws hw hw') hspec
  case converter =>
    rw [hsetup]
    exact hconverter

private theorem Scenario.coherent_of_build {sc : Scenario α} {sim : Simulation α} (h : sc.build = .ok sim) :
    sim.Coherent := by
  obtain ⟨phases, -, h⟩ := Outcome.bind_ok.1 h
  obtain ⟨pvt, -, h⟩ := Outcome.bind_ok.1 h
  obtain ⟨cells, -, h⟩ := Outcome.bind_ok.1 h
  obtain ⟨list, hlist, h⟩ := Outcome.bind_ok.1 h
  obtain ⟨ws, hws, h⟩ := Outcome.bind_ok.1 h
  obtain ⟨lift, hlift, h⟩ := Outcome.bind_ok.1 h
  obtain ⟨limits, -, h⟩ := Outcome.bind_ok.1 h
  obtain ⟨group, hgroup, h⟩ := Outcome.bind_ok.1 h
  obtain ⟨m, hm, h⟩ := Outcome.bind_ok.1 h
  replace hws := mapError_ok.1 hws
  replace hlift := validate_of_buildLift (mapError_ok.1 hlift)
  replace hm := mapError_ok.1 hm
  have hinitial : ∀ w ∈ list, w.controls.initial < w.controls.list.length := fun w hw => by
    obtain ⟨spec, -, hspec⟩ := Outcome.exists_of_mem_ok hlist hw
    exact initial_of_buildWell hspec
  -- there is a source of voidage coefficients exactly if there is a group
  cases hsc : sc.group with
  | none =>
    rw [hsc] at hgroup h
    cases hgroup
    cases h
    exact Simulation.coherent_of_parts hinitial hws hlift hm rfl nofun fun hn => absurd rfl hn
  | some spec =>
    rw [hsc] at hgroup h
    obtain ⟨c, -, h⟩ := Outcome.bind_ok.1 h
    cases h
    refine Simulation.coherent_of_parts hinitial hws hlift hm rfl (fun g hg => ⟨spec, ?_⟩) fun _ => nofun
    cases hspec : buildGroup ws spec with
    | error e =>
      rw [Option.mapM_some, hspec] at hgroup
      cases hgroup
    | ok g' =>
      rw [Option.mapM_some, hspec] at hgroup
      cases hgroup
      cases hg
      rfl

/-! ### Runs of accepted scenarios -/

/-- The session in which a simulation starts is consistent. -/
theorem Simulation.Coherent.consistent_of_start {sim : Simulation α} (h : sim.Coherent)
    {s : Session α (Option (VoidageGroup α))} (hs : sim.start = .ok s) :
    s.Consistent sim.model.setup sim.model.wells := by
  rw [sim.start_eq] at hs
  have hb := Model.start_bounded h.covers hs
  obtain ⟨flow, -, hs⟩ := Outcome.bind_ok.1 hs
  obtain ⟨m, hm, hs⟩ := Outcome.bind_ok.1 hs
  cases hs
  have ho := Model.outline_of_setUnknowns hm
  exact ⟨hb, (congrArg Model.setup ho :), congrArg Wells.untargeted (Model.wells_of_outline ho), h.group, h.converter⟩

section Exact

variable {K : Type} [Field K] [LinearOrder K] {F : Fault K → Prop}

/-- Every number is finite. -/
theorem Outcome.finite_exact (x : K) (quantity : String) : Outcome.finite x quantity = .ok x := if_pos rfl

private theorem Well.encode_exact (w : Well K) (phases : PhaseSet) (control : Control K) (rates : PerPhase K)
    (bhp : K) :
    (w.encode phases control rates (.ok bhp)).Stops F := by
  unfold encode
  refine Outcome.Stops.bind (.ite (fun _ => .ok _) fun _ => .ok _) fun lead _ => ?_
  simp only [Outcome.finite_exact]
  exact .ok _

/-- The start does not fail. -/
theorem Simulation.Coherent.exists_start {sim : Simulation K} (h : sim.Coherent) : ∃ s, sim.start = .ok s := by
  have hstops : sim.start.Stops fun _ => False := by
    rw [sim.start_eq]
    refine Outcome.Stops.bind (FlowState.init_stops (fun w hw => ?_) (fun w hw => ?_) (fun w hw => ?_)
      fun w _ => w.encode_exact _) fun flow hflow => ?_
    · obtain ⟨u, hu, rfl⟩ := List.mem_map.1 hw
      exact h.covers.connections_ne_nil hu
    · rw [Controls.get_of_lt (h.initial w hw)]
      exact .ok _
    · exact Well.reaches_of_lt (h.supplies.cell w hw)
    · exact (sim.model.setUnknowns_stops (FlowState.fits_of_init hflow)).bind fun _ _ => .ok _
  cases hs : sim.start with
  | error e => exact (hstops e hs).elim
  | ok s => exact ⟨s, rfl⟩

/-- A process that is alone hears of no failure but its own. -/
theorem Communicator.shareFailure_serial {β : Type} (o : Outcome K β) (w : ω) :
    ((.serial : Communicator (StateM ω) K).shareFailure o w).1 = o := by
  rcases o with (e | _) | b
  · rfl
  · rfl
  · change ((if (0 : K) < 0 then _ else _ : StateM ω (Outcome K β)) w).1 = _
    rw [if_neg (lt_irrefl 0)]
    rfl

/-- An iteration of a process that is alone keeps a session consistent, and stops only for what the numbers cause. -/
theorem Session.assemble_consistent {setup : Setup K} {ws : Wells K} {cells : List (Cell K)}
    (hsupply : setup.Supplies cells ws) {dt : K} (hdt : 0 < dt) (i : Nat) :
    Ensures (Consistent setup ws) (assemble (.serial : Communicator (StateM ω) K) cells dt i)
      (Kept (Consistent setup ws) Fault.Computational) := by
  intro s w hs
  let r := assembleLocally (.serial : Communicator (StateM ω) K) cells dt i s w
  obtain ⟨ht, hstops⟩ : Kept (Consistent setup ws) Fault.Computational r.1.1 r.1.2 :=
    (invariant_consistent hsupply dt).assembleLocally _ (prepare_consistent hsupply rfl hdt i) s w hs
  exact ⟨ht, (Communicator.shareFailure_serial r.1.1 r.2).symm ▸ hstops⟩

/-- The simulation of an accepted scenario starts.  From then on any number of iterations, each for any time step and
any number of the iteration, may follow one another on its cells: whatever has failed before, an iteration either
succeeds, or it stops for a numerical problem or for an error of the fluid model. -/
theorem Scenario.run_computational {sc : Scenario K} {sim : Simulation K} (h : sc.build = .ok sim) :
    ∃ s, sim.start = .ok s ∧ ∀ (calls : List (K × Nat)) (w : ω), (∀ call ∈ calls, 0 < call.1) →
      ∀ o ∈ (Session.run (.serial : Communicator (StateM ω) K)
        (calls.map fun call => .assemble sim.cells call.1 call.2) s w).1,
        o = .ok ⟨⟩ ∨ (∃ c, o = .error (.numerical c)) ∨ ∃ c, o = .error (.error (.fluid c)) := by
  have hcoherent := coherent_of_build h
  obtain ⟨s, hs⟩ := hcoherent.exists_start
  refine ⟨s, hs, fun calls w hdt o ho => ?_⟩
  have hkeeps : ∀ op ∈ calls.map fun call => Operation.assemble sim.cells call.1 call.2,
      Ensures (Session.Consistent sim.model.setup sim.model.wells)
        (op.run (.serial : Communicator (StateM ω) K))
        (Kept (Session.Consistent sim.model.setup sim.model.wells) Fault.Computational) := by
    intro op hop
    obtain ⟨call, hcall, rfl⟩ := List.mem_map.1 hop
    exact Session.bind_kept (Session.assemble_consistent hcoherent.supplies (hdt call hcall) call.2) fun _ =>
      .pure fun _ ht => ⟨ht, .ok _⟩
  have hstops := (Session.run_keeps hkeeps (hcoherent.consistent_of_start hs) w).2 o ho
  cases o with
  | ok b => exact .inl rfl
  | error e =>
    rcases Fault.computational_iff.1 (hstops e rfl) with ⟨c, rfl⟩ | ⟨c, rfl⟩
    · exact .inr (.inl ⟨c, rfl⟩)
    · exact .inr (.inr ⟨c, rfl⟩)

end Exact

/-! ### An injector that replaces what a producer takes out -/

/-- A producer with a lift table, and an injector that its group leads.  No residual is small enough. -/
def floodedPair : Scenario ℚ where
  phases := .oilWater
  temperature := 350
  regions := []
  cells := [⟨200, ⟨1, 2, 0⟩, 0⟩, ⟨200, ⟨1, 2, 0⟩, 0⟩]
  wells := [
    ⟨"P", .producer, 0, none, true, [⟨0, 2, 0, 1⟩], [.bhp 150, .thp 20 1 0], 0⟩,
    ⟨"I", .injector, 0, some .water, true, [⟨1, 2, 0, 1⟩], [.surfaceRate 100 ⟨1, 0, 0⟩, .bhp 400], 0⟩]
  liftTables := [⟨1, 0, .oil, [0, 100], [10, 20], [[50, 60], [70, 80]]⟩]
  limits := []
  group := some ⟨"G", 1, .water, 1, [⟨"P", none, 1, 1⟩, ⟨"I", some 0, 1, 1⟩]⟩
  settings := { Settings.standard with maxResidual := 0 }
  days := 1

/-- The first two iterations of two time steps. -/
def floodedCalls : List (ℚ × Nat) := [(86400, 0), (86400, 1), (43200, 0), (43200, 1)]

/-- Which of the iterations succeed. -/
def floodedRun : Except (ScenarioError ℚ) (List Bool) := do
  let sim ← floodedPair.build
  let s ← ScenarioError.ofWell sim.start
  return (Session.run (.serial : Communicator (StateM Unit) ℚ)
    (floodedCalls.map fun call => .assemble sim.cells call.1 call.2) s ()).1.map (·.toBool)

/-- The local solution fails at the start of each step, and the wells can be assembled all the same. -/
theorem Scenario.run_computational_floodedPair : ∃ sim s, floodedPair.build = .ok sim ∧ sim.start = .ok s ∧
    (∀ call ∈ floodedCalls, 0 < call.1) ∧
    (Session.run (.serial : Communicator (StateM Unit) ℚ)
      (floodedCalls.map fun call => .assemble sim.cells call.1 call.2) s ()).1.map (·.toBool) =
        [false, true, false, true] ∧
    ∀ o ∈ (Session.run (.serial : Communicator (StateM Unit) ℚ)
      (floodedCalls.map fun call => .assemble sim.cells call.1 call.2) s ()).1,
      o = .ok ⟨⟩ ∨ (∃ c, o = .error (.numerical c)) ∨ ∃ c, o = .error (.error (.fluid c)) := by
  have hrun : floodedRun = .ok [false, true, false, true] := Outcome.ok_of_toOption (by decide +kernel)
  obtain ⟨sim, hsim, h⟩ := Outcome.bind_ok.1 hrun
  obtain ⟨s, hs, h⟩ := Outcome.bind_ok.1 h
  have hcalls : ∀ call ∈ floodedCalls, 0 < call.1 := by decide +kernel
  obtain ⟨s', hs', hall⟩ := run_computational hsim
  obtain rfl : s' = s := Except.ok.inj (hs'.symm.trans (mapError_ok.1 hs))
  exact ⟨sim, s', hsim, hs', hcalls, Except.ok.inj h, hall floodedCalls () hcalls⟩

end BlackOilWells
