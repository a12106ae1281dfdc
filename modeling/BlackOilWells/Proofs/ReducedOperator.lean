import BlackOilWells.Proofs.Elimination

/-!
# The operator and the matrix of the eliminated wells

The wells enter a reservoir system in two forms: as an operator on vectors over the cells (`Model.applyScaled`), and as
blocks to be subtracted from the matrix (`Model.reducedBlocks`).  In exact arithmetic the two agree, whatever cells the
connections share, and the wells may come in any order (`Model.applyScaled_eq_reducedBlocks`).
-/

namespace BlackOilWells

variable {K : Type} [Field K]

namespace WellSystem

private theorem atCell_scale (f : Coupling K → Vec3 K) (a : K) (cs : List (Coupling K)) (i : Nat) :
    atCell (fun c => (f c).scale a) cs i = (atCell f cs i).scale a := by
  rw [atCell, atCell, Vec3.sum_scale, List.map_map]
  congr 1
  apply List.map_congr_left
  intro c _
  rw [Function.comp_apply]
  split
  · rfl
  · exact (Vec3.zero_scale a).symm

/-- A cell without a connection receives nothing. -/
private theorem atCell_of_not_mem {f : Coupling K → Vec3 K} {cs : List (Coupling K)} {i : Nat}
    (h : i ∉ cs.map (·.cell)) : atCell f cs i = 0 := by
  induction cs with
  | nil => rfl
  | cons c cs ih =>
    rw [List.map_cons, List.mem_cons, not_or] at h
    rw [atCell_cons, if_neg (Ne.symm h.1), ih h.2, add_zero]

/-- The row of a cell in the matrix of some blocks, times a vector. -/
def rowTimes (blocks : List (ReducedBlock K)) (i : Nat) (x : List (Vec3 K)) : Vec3 K :=
  ((blocks.filter (·.rowCell = i)).map fun b => b.block.mulVec (x.getD b.colCell 0)).sum

private theorem rowTimes_eq (blocks : List (ReducedBlock K)) (i : Nat) (x : List (Vec3 K)) : rowTimes blocks i x =
    (blocks.map fun b => if b.rowCell = i then b.block.mulVec (x.getD b.colCell 0) else 0).sum := by
  induction blocks with
  | nil => rfl
  | cons b bs ih =>
    rw [List.map_cons, List.sum_cons, ← ih, rowTimes, rowTimes, List.filter_cons]
    by_cases hb : b.rowCell = i <;> simp [hb]

private theorem foldlM_outside [LinearOrder K] {x : List (Vec3 K)} (cs : List (Coupling K)) (acc : Vec3 K)
    (h : ∃ c ∈ cs.map (·.cell), x.length ≤ c) : ∃ c ∈ cs.map (·.cell), x.length ≤ c ∧
      cs.foldlM (fun acc c => do return acc + c.toWell.mulVec (← entry x c.cell)) acc =
        (.error (.logic (.vectorTooShort c x.length)) : Outcome K (Vec3 K)) := by
  induction cs generalizing acc with
  | nil =>
    obtain ⟨c, hc, -⟩ := h
    exact absurd hc List.not_mem_nil
  | cons c cs ih =>
    by_cases hc : c.cell < x.length
    · have hlater : ∃ c ∈ cs.map (·.cell), x.length ≤ c := by
        obtain ⟨d, hd, hle⟩ := h
        rcases List.mem_cons.1 hd with rfl | hd
        · exact absurd hc (Nat.not_lt_of_le hle)
        · exact ⟨d, hd, hle⟩
      obtain ⟨d, hd, hle, hrun⟩ := ih (acc + c.toWell.mulVec (x.getD c.cell 0)) hlater
      refine ⟨d, List.mem_cons_of_mem _ hd, hle, ?_⟩
      rw [List.foldlM_cons, entry_eq hc]
      exact hrun
    · have hle := Nat.le_of_not_lt hc
      have hentry : entry x c.cell = (.error (.logic (.vectorTooShort c.cell x.length)) : Outcome K (Vec3 K)) := by
        rw [entry, List.getElem?_eq_none hle]
      refine ⟨c.cell, List.mem_cons_self .., hle, ?_⟩
      rw [List.foldlM_cons, hentry]
      rfl

/-- A product with a vector that does not reach all cells is refused. -/
private theorem toWellTimes_outside [LinearOrder K] (s : WellSystem K) {x : List (Vec3 K)}
    (h : ∃ c ∈ s.cells, x.length ≤ c) :
    ∃ c ∈ s.cells, x.length ≤ c ∧ s.toWellTimes x = .error (.logic (.vectorTooShort c x.length)) :=
  foldlM_outside s.couplings 0 h

private theorem IsEliminated.applyScaled_outside [LinearOrder K] {s : WellSystem K} (he : s.IsEliminated) (a : K)
    {x : List (Vec3 K)} (ax : List (Vec3 K)) (h : ∃ c ∈ s.cells, x.length ≤ c) :
    ∃ c ∈ s.cells, x.length ≤ c ∧ s.applyScaled a x ax = (.error (.logic (.vectorTooShort c x.length)), ax) := by
  obtain ⟨c, hc, hle, hrun⟩ := s.toWellTimes_outside h
  refine ⟨c, hc, hle, ?_⟩
  rw [applyScaled, Attempt.run_bind, he.getInverse_eq, Attempt.run_outcome]
  dsimp only
  rw [Attempt.run_bind, hrun, Attempt.run_outcome]

end WellSystem

namespace Model

variable [LinearOrder K] {m : Model K}

private theorem applyScaled_run (he : m.IsEliminated) (a : K) {x ax : List (Vec3 K)} (hx : m.CellsBelow x.length)
    (hax : m.CellsBelow ax.length) :
    ∃ ax', m.applyScaled a x ax = (.ok ⟨⟩, ax') ∧ ax'.length = ax.length ∧ ∀ i, ax'.getD i 0 =
      ax.getD i 0 - (partsAt m.units (fun s => s.solveWell (s.reservoirPart x)) i).scale a := by
  obtain ⟨ax', hrun, hl, hg⟩ := forM_subtracts (f := fun u => u.system.applyScaled a x) hax
    fun u hu r hr => (he u hu).applyScaled_run a (hx u hu) hr
  refine ⟨ax', hrun, hl, fun i => ?_⟩
  rw [hg, partsAt, Vec3.sum_scale, List.map_map]
  simp only [WellSystem.atCell_scale, Function.comp_def]

private theorem partsAt_perm {us vs : List (WellUnit K)} (h : us.Perm vs) (y : WellSystem K → Vec3 K) (i : Nat) :
    partsAt us y i = partsAt vs y i := (h.map _).sum_eq

private theorem partsAt_of_not_mem {us : List (WellUnit K)} {i : Nat} (h : ∀ u ∈ us, i ∉ u.system.cells)
    (y : WellSystem K → Vec3 K) : partsAt us y i = 0 := by
  induction us with
  | nil => rfl
  | cons u us ih =>
    rw [partsAt_cons, WellSystem.atCell_of_not_mem (h u (List.mem_cons_self ..)), zero_add]
    exact ih fun v hv => h v (List.mem_cons_of_mem _ hv)

private theorem getElem?_eq_of_getD {xs ys : List (Vec3 K)} {i : Nat} (hl : xs.length = ys.length)
    (h : xs.getD i 0 = ys.getD i 0) : xs[i]? = ys[i]? := by
  by_cases hi : i < xs.length
  · have hi' : i < ys.length := hl ▸ hi
    simp only [List.getD_eq_getElem?_getD, List.getElem?_eq_getElem hi, List.getElem?_eq_getElem hi',
      Option.getD_some] at h ⊢
    rw [h]
  · rw [List.getElem?_eq_none (Nat.le_of_not_lt hi), List.getElem?_eq_none (by omega)]

/-- The operator of eliminated wells subtracts from each cell the product of its row in the matrix of the reduced blocks.
It does so for the wells in any order, and it leaves cells without a connection alone.  A well with a connection past the
end of the vector is refused before anything is subtracted. -/
theorem applyScaled_eq_reducedBlocks (m : Model K) (a : K) (he : m.IsEliminated) :
    (∃ blocks, m.reducedBlocks = .ok blocks ∧ ∀ x ax, m.CellsBelow x.length → m.CellsBelow ax.length →
      ∃ ax', m.applyScaled a x ax = (.ok ⟨⟩, ax') ∧ ax'.length = ax.length ∧
        (∀ i, ax'.getD i 0 = ax.getD i 0 - (WellSystem.rowTimes blocks i x).scale a) ∧
        (∀ i, (∀ u ∈ m.units, i ∉ u.system.cells) → ax'[i]? = ax[i]?) ∧
        ∀ m' : Model K, m'.units.Perm m.units → m'.applyScaled a x ax = (.ok ⟨⟩, ax')) ∧
      m.apply = m.applyScaled 1 ∧
      ∀ u ∈ m.units, ∀ x ax, x.length = ax.length → (∃ c ∈ u.system.cells, ax.length ≤ c) →
        ∃ c ∈ u.system.cells, ax.length ≤ c ∧
          u.system.applyScaled a x ax = (.error (.logic (.vectorTooShort c ax.length)), ax) := by
  obtain ⟨blocks, hblocks, -, hrow⟩ := exists_reducedBlocks he
  refine ⟨⟨blocks, hblocks, fun x ax hx hax => ?_⟩, rfl, fun u hu x ax hl h => ?_⟩
  · obtain ⟨ax', hrun, hlength, hget⟩ := applyScaled_run he a hx hax
    refine ⟨ax', hrun, hlength, fun i => ?_, fun i hi => ?_, fun m' hperm => ?_⟩
    · rw [hget, ← hrow, WellSystem.rowTimes_eq]
    · exact getElem?_eq_of_getD hlength (by rw [hget, partsAt_of_not_mem hi, Vec3.zero_scale, sub_zero])
    · have he' : m'.IsEliminated := fun u hu => he u (hperm.mem_iff.1 hu)
      obtain ⟨ax'', hrun', hlength', hget'⟩ :=
        applyScaled_run he' a (fun u hu => hx u (hperm.mem_iff.1 hu)) fun u hu => hax u (hperm.mem_iff.1 hu)
      -- the parts of the wells only add up, so their order does not matter
      have hsame : ax'' = ax' := List.ext_getElem? fun i =>
        getElem?_eq_of_getD (hlength'.trans hlength.symm) (by rw [hget', hget, partsAt_perm hperm])
      rw [hrun', hsame]
  · rw [← hl] at h ⊢
    exact (he u hu).applyScaled_outside a ax h

/-- Two wells share a cell, and a third cell is not connected.  With the third cell and the second one left out, the second
well is refused. -/
theorem applyScaled_eq_reducedBlocks_crowdedCell :
    crowdedCell.IsEliminated ∧
      (∃ blocks ax', crowdedCell.reducedBlocks = .ok blocks ∧
        crowdedCell.applyScaled (1 / 2) [⟨1, 0, 2⟩, ⟨5, 0, 1⟩] [⟨1, 1, 1⟩, 0, ⟨7, 8, 9⟩] = (.ok ⟨⟩, ax') ∧
        ax'.getD 0 0 = ⟨1, 1, 1⟩ - (WellSystem.rowTimes blocks 0 [⟨1, 0, 2⟩, ⟨5, 0, 1⟩]).scale (1 / 2) ∧
        ax'[2]? = some ⟨7, 8, 9⟩) ∧
      ∀ u, crowdedCell.units[1]? = some u → ∃ c ∈ u.system.cells, 1 ≤ c ∧
        u.system.applyScaled (1 / 2) [⟨1, 0, 2⟩] [⟨1, 1, 1⟩] = (.error (.logic (.vectorTooShort c 1)), [⟨1, 1, 1⟩]) := by
  obtain ⟨⟨blocks, hblocks, hrun⟩, -, houtside⟩ :=
    applyScaled_eq_reducedBlocks crowdedCell (1 / 2) crowdedCell_isEliminated
  obtain ⟨ax', hax', -, hget, hunconnected, -⟩ := hrun [⟨1, 0, 2⟩, ⟨5, 0, 1⟩] [⟨1, 1, 1⟩, 0, ⟨7, 8, 9⟩]
    crowdedCell_cellsBelow fun u hu c hc => Nat.lt_succ_of_lt (crowdedCell_cellsBelow u hu c hc)
  refine ⟨crowdedCell_isEliminated, ⟨blocks, ax', hblocks, hax', hget 0, ?_⟩, fun u hu => ?_⟩
  · exact hunconnected 2 fun u hu hmem => absurd (crowdedCell_cellsBelow u hu 2 hmem) (by decide)
  · refine houtside u (List.mem_of_getElem? hu) [⟨1, 0, 2⟩] [⟨1, 1, 1⟩] rfl ⟨1, ?_, le_rfl⟩
    cases hu
    exact List.mem_cons_self ..

end Model

end BlackOilWells
