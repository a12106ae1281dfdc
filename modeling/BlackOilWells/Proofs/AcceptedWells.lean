import BlackOilWells.Proofs.AbsentPhases
import BlackOilWells.Proofs.Scenarios
import BlackOilWells.Proofs.Targets

/-!
# Accepted wells

Wells are accepted if oil takes part, each of them fits the active phases and the grid (`Well.Fits`), and no two have
the same name; there is no other reason to refuse them.  The connections of accepted wells are one index space, in which
the wells own ranges one after the other (`Wells.Tiles`), and each well has a composition of the active phases that sums
to one.  `Wells.create_characterization` states all of this for lists of any length.
-/

namespace BlackOilWells

/-! ### Ranges of connections -/

namespace Wells

variable {α : Type}

/-- The indices of the connections of each well. -/
def ranges (ws : Wells α) : List (List Nat) := ws.placed.map (Placed.range (·.connections.length))

/-- Whether ranges of given lengths, one for each well, make up the index space of all connections. -/
structure Tiles (ws : Wells α) (lengths : List Nat) : Prop where
  lengths : ws.ranges.map List.length = lengths
  consecutive : ∀ (i : Nat) (p q : Placed (Well α)), ws.placed[i]? = some p → ws.placed[i + 1]? = some q →
    q.first = p.first + p.item.connections.length
  disjoint : ws.ranges.Pairwise List.Disjoint
  covers : ws.ranges.flatten = List.range ws.numConnections

private theorem tiles (ws : Wells α) : ws.Tiles (ws.list.map (·.connections.length)) where
  lengths := Placed.length_ranges _ ws.list
  consecutive _ _ _ hp hq := Placed.first_succ _ hp hq
  disjoint := Placed.ranges_disjoint _ ws.list
  covers := by
    rw [numConnections_eq_sum]
    exact Placed.flatten_ranges _ ws.list

end Wells

variable {K : Type} [Field K] [LinearOrder K]

/-! ### Compositions -/

/-- What is given of the active phases, as a sum over all of them. -/
private theorem PhaseSet.sum_select (phases : PhaseSet) (q : PerPhase K) :
    (phases.select q (.replicate 0)).sum = phases.sum q := by
  have habsent (p : Phase) (hp : phases.isActive p = false) : (phases.select q (.replicate 0)).get p = 0 := by
    rw [get_select_absent hp, PerPhase.get_replicate]
  rw [← sum_congr fun p hp => get_select hp q (.replicate 0), sum_of_absent habsent, PerPhase.sum, Scalar.sum_exact]
  simp [PerPhase.toList, add_assoc]

namespace Well

variable {w w' : Well K} {phases : PhaseSet} {n : Nat}

/-- Whether a well fits the active phases and the number of cells. -/
structure Fits (w : Well K) (phases : PhaseSet) (numCells : Nat) : Prop where
  connected : w.connections ≠ []
  cells : ∀ c ∈ w.connections, c.cell < numCells
  transmissibility : ∀ c ∈ w.connections, 0 ≤ c.transmissibility
  /-- An injector has something to inject. -/
  injected : w.isInjector = true → 0 < phases.sum w.composition

private theorem checkConnection_ok_iff {c : Connection K} :
    w.checkConnection n c = .ok ⟨⟩ ↔ c.cell < n ∧ 0 ≤ c.transmissibility := by
  rw [checkConnection]
  by_cases hcell : n ≤ c.cell
  · rw [if_pos hcell]
    refine iff_of_false (fun h => ?_) fun h => absurd h.1 (Nat.not_lt.2 hcell)
    cases h
  rw [if_neg hcell]
  by_cases hnonneg : 0 ≤ c.transmissibility
  · rw [if_neg (not_not.2 ⟨rfl, hnonneg⟩)]
    exact iff_of_true rfl ⟨Nat.not_le.1 hcell, hnonneg⟩
  · rw [if_pos fun h => hnonneg h.2]
    refine iff_of_false (fun h => ?_) fun h => hnonneg h.2
    cases h

/-- Nothing else is asked of a well whose connections are in order, unless it is an injector. -/
private theorem exists_accept_of_checked (hconnected : w.connections ≠ [])
    (hcheck : w.connections.forM (w.checkConnection n) = .ok ⟨⟩)
    (hinjected : w.isInjector = true → 0 < phases.sum w.composition) : ∃ w', w.accept phases n = .ok w' := by
  have hempty : ¬w.connections.isEmpty = true := mt List.isEmpty_iff.1 hconnected
  let given := phases.select w.composition (.replicate 0)
  rw [accept, if_neg hempty]
  by_cases hgiven : given.sum ≤ 0
  · have hproducer : ¬w.isInjector = true := by
      intro hi
      rw [phases.sum_select] at hgiven
      exact not_lt.2 hgiven (hinjected hi)
    let even := phases.select (.replicate (1 / (phases.count : K))) given
    refine ⟨{ w with composition := even }, Outcome.bind_ok.2 ⟨⟨⟩, hcheck, ?_⟩⟩
    dsimp only
    rw [if_pos hgiven, if_neg hproducer]
    rfl
  · refine ⟨{ w with composition := given.map (· / given.sum) }, Outcome.bind_ok.2 ⟨⟨⟩, hcheck, ?_⟩⟩
    dsimp only
    rw [if_neg hgiven]
    rfl

/-- A well is accepted exactly if it fits. -/
theorem exists_accept_iff : (∃ w', w.accept phases n = .ok w') ↔ w.Fits phases n := by
  constructor
  · rintro ⟨w', h⟩
    obtain ⟨hconnected, hcheck, q, -, hq⟩ := accept_ok h
    have hall (c : Connection K) (hc : c ∈ w.connections) := checkConnection_ok_iff.1 (Outcome.forM_ok hcheck hc)
    refine ⟨hconnected, fun c hc => (hall c hc).1, fun c hc => (hall c hc).2, fun hi => ?_⟩
    rw [phases.sum_select] at hq
    obtain ⟨hpos, -⟩ | ⟨⟨-, hproducer⟩, -⟩ := hq
    · exact not_le.1 hpos
    · exact absurd hi hproducer
  · intro h
    refine exists_accept_of_checked h.connected (Outcome.forM_of_ok fun c hc => ?_) h.injected
    exact checkConnection_ok_iff.2 ⟨h.cells c hc, h.transmissibility c hc⟩

private theorem connections_of_accept (h : w.accept phases n = .ok w') : w'.connections = w.connections := by
  obtain ⟨-, -, q, rfl, -⟩ := accept_ok h
  rfl

private theorem name_of_accept (h : w.accept phases n = .ok w') : w'.name = w.name := by
  obtain ⟨-, -, q, rfl, -⟩ := accept_ok h
  rfl

/-- The composition of an accepted well is scaled. -/
theorem sum_of_accept [IsStrictOrderedRing K] (h : w.accept phases n = .ok w') (hoil : phases.oil = true) :
    w'.composition.water + w'.composition.oil + w'.composition.gas = 1 := by
  have habsent (p : Phase) (hp : phases.isActive p = false) : w'.composition.get p = 0 := composition_of_accept h hp
  rw [← PhaseSet.sum_of_absent habsent]
  obtain ⟨-, -, q, rfl, ⟨htotal, rfl⟩ | ⟨-, rfl⟩⟩ := accept_ok h
  · have hpos : 0 < phases.sum w.composition := by
      rw [← phases.sum_select]
      exact not_le.1 htotal
    simp only [div_eq_mul_inv]
    rw [PhaseSet.sum_map_mul, phases.sum_select, PhaseSet.sum_congr fun p hp => PhaseSet.get_select hp _ _]
    exact mul_inv_cancel₀ hpos.ne'
  · have heven : (PerPhase.replicate (1 / (phases.count : K))).get = fun _ => 1 / (phases.count : K) :=
      funext (PerPhase.get_replicate _)
    dsimp only
    rw [PhaseSet.sum_congr fun p hp => PhaseSet.get_select hp _ _, PhaseSet.sum, heven, Scalar.sum_exact,
      List.map_const', List.sum_replicate, nsmul_eq_mul]
    exact mul_one_div_cancel (Nat.cast_ne_zero.2 (PhaseSet.count_ne_zero hoil))

end Well

/-! ### Lists of wells -/

namespace Wells

variable {list : List (Well K)} {phases : PhaseSet} {n : Nat}

/-- Wells are accepted exactly if oil takes part, each of them fits and their names are different. -/
theorem exists_create_iff : (∃ ws, Wells.create list phases n = .ok ws) ↔
    phases.oil = true ∧ (∀ w ∈ list, w.Fits phases n) ∧ (list.map (·.name)).Nodup := by
  constructor
  · rintro ⟨ws, h⟩
    obtain ⟨haccepted, hnames⟩ := create_ok h
    rw [Outcome.map_of_mapM (g := (·.name)) (fun _ _ => Well.name_of_accept) haccepted] at hnames
    refine ⟨oil_of_create h, fun w hw => ?_, (duplicate?_eq_none_iff.1 hnames).1⟩
    exact Well.exists_accept_iff.1 (Outcome.ok_of_mem haccepted hw)
  · rintro ⟨hoil, hfits, hnodup⟩
    obtain ⟨accepted, haccepted⟩ := Outcome.exists_mapM fun w hw => Well.exists_accept_iff.2 (hfits w hw)
    have hnames : (accepted.map (·.name)).Nodup := by
      rw [Outcome.map_of_mapM (g := (·.name)) (fun _ _ => Well.name_of_accept) haccepted]
      exact hnodup
    exact ⟨⟨accepted⟩, create_of_accepted hoil haccepted hnames⟩

/-- When wells are accepted, and what they are then: their ranges of connections have the lengths of the given lists,
follow one another, share nothing and cover the index space, and their compositions are of the active phases and sum to
one. -/
theorem create_characterization [IsStrictOrderedRing K] (list : List (Well K)) (phases : PhaseSet) (n : Nat) :
    ((∃ ws, Wells.create list phases n = .ok ws) ↔
      phases.oil = true ∧ (∀ w ∈ list, w.Fits phases n) ∧ (list.map (·.name)).Nodup) ∧
    ∀ ws, Wells.create list phases n = .ok ws → ws.Tiles (list.map (·.connections.length)) ∧
      ∀ w ∈ ws.list, w.composition.water + w.composition.oil + w.composition.gas = 1 ∧
        ∀ p, phases.isActive p = false → w.composition.get p = 0 := by
  refine ⟨exists_create_iff, fun ws h => ⟨?_, fun w hw => ?_⟩⟩
  · have hlengths : ws.list.map (·.connections.length) = list.map (·.connections.length) :=
      Outcome.map_of_mapM (fun _ _ hw => congrArg List.length (Well.connections_of_accept hw)) (create_ok h).1
    rw [← hlengths]
    exact ws.tiles
  · obtain ⟨w₀, -, hw₀⟩ := Outcome.exists_of_mem_ok (create_ok h).1 hw
    exact ⟨Well.sum_of_accept hw₀ (oil_of_create h), fun p hp => Well.composition_of_accept hw₀ hp⟩

/-! ### Three wells of oil and water -/

/-- An injector whose composition is not scaled and has gas in it, and two producers, of which the second one has a
negative composition. -/
def threeWells : List (Well ℚ) :=
  [{ Well.injector "I" 0 .water [⟨0, 2, 0, 1⟩, ⟨1, 1, 0, 1⟩] ⟨[⟨.bhp, 300, .replicate 0⟩], 0⟩ with
      composition := ⟨2, 1, 5⟩ },
    .producer "P" 0 [⟨2, 0, 0, 1⟩] ⟨[⟨.bhp, 90, .replicate 0⟩], 0⟩,
    { Well.producer "Q" 0 [⟨3, 1, 0, 1⟩, ⟨2, 1, 0, 1⟩, ⟨1, 1, 0, 1⟩] ⟨[⟨.bhp, 80, .replicate 0⟩], 0⟩ with
      composition := ⟨-1, 0, 0⟩ }]

/-- The wells are accepted, with the compositions that they get; they are refused if one more has the name of the first,
and on a grid that is too small. -/
theorem create_characterization_threeWells :
    (∃ ws, Wells.create threeWells .oilWater 4 = .ok ws ∧ ws.ranges = [[0, 1], [2], [3, 4, 5]] ∧
      ws.list.map (·.composition.toList) = [[2 / 3, 1 / 3, 0], [1 / 2, 1 / 2, 0], [1 / 2, 1 / 2, 0]] ∧
      ws.Tiles [2, 1, 3] ∧ ∀ w ∈ ws.list, w.composition.water + w.composition.oil + w.composition.gas = 1) ∧
    (¬∃ ws, Wells.create (threeWells ++ threeWells.take 1) .oilWater 4 = .ok ws) ∧
    ¬∃ ws, Wells.create threeWells .oilWater 3 = .ok ws := by
  refine ⟨?_, fun h => ?_, fun h => ?_⟩
  · have hrun : ((Wells.create threeWells .oilWater 4).map fun ws =>
        (ws.ranges, ws.list.map (·.composition.toList))).toOption =
        some ([[0, 1], [2], [3, 4, 5]], [[2 / 3, 1 / 3, 0], [1 / 2, 1 / 2, 0], [1 / 2, 1 / 2, 0]]) := by decide +kernel
    obtain ⟨ws, hws, hparts⟩ := Outcome.map_ok.1 (Outcome.ok_of_toOption hrun)
    obtain ⟨hranges, hcompositions⟩ := Prod.mk.inj hparts
    obtain ⟨htiles, hall⟩ := (create_characterization threeWells .oilWater 4).2 ws hws
    exact ⟨ws, hws, hranges, hcompositions, htiles, fun w hw => (hall w hw).1⟩
  · obtain ⟨-, -, hnodup⟩ := (create_characterization _ _ _).1.1 h
    revert hnodup
    decide
  · obtain ⟨-, hfits, -⟩ := (create_characterization _ _ _).1.1 h
    obtain ⟨w, hw, c, hc, hcell⟩ : ∃ w ∈ threeWells, ∃ c ∈ w.connections, c.cell = 3 := by
      refine ⟨threeWells[2], List.getElem_mem _, ⟨3, 1, 0, 1⟩, List.mem_cons_self .., rfl⟩
    exact absurd ((hfits w hw).cells c hc) (Nat.not_lt.2 hcell.ge)

end Wells

end BlackOilWells
