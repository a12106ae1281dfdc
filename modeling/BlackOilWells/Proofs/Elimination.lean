import Mathlib.Algebra.BigOperators.Fin
import Mathlib.Algebra.BigOperators.Group.List.Lemmas
import Mathlib.Tactic.Abel
import BlackOilWells.Proofs.Exact
import BlackOilWells.Proofs.Attempts
import BlackOilWells.Model.Coupling

/-!
# Elimination of the wells

In exact arithmetic the operations on reservoir vectors are the two halves of one block elimination: the reduced
system `(A - B D⁻¹ C) x = r - B D⁻¹ rw` together with the recovery `xw = D⁻¹ (rw - C x)` is equivalent to the coupled
system of reservoir and wells (`reducedSystem_iff_coupledSystem`).  Several connections may lie in one cell, of one
well or of several.

What a well contributes to the equations of a cell is collected by `atCell`; each operation of the program is first
described by such sums, for one well and then for a list of wells.
-/

namespace BlackOilWells

variable {K : Type} [Field K]

namespace WellSystem

/-! ### The terms of the equations -/

/-- What a function of the couplings adds up to in the equations of a cell. -/
def atCell (f : Coupling K → Vec3 K) (couplings : List (Coupling K)) (i : Nat) : Vec3 K :=
  (couplings.map fun c => if c.cell = i then f c else 0).sum

/-- The part of the reservoir in the equations of a well, `C x`. -/
def reservoirPart (s : WellSystem K) (x : List (Vec3 K)) : Vec3 K :=
  (s.couplings.map fun c => c.toWell.mulVec (x.getD c.cell 0)).sum

theorem atCell_cons (f : Coupling K → Vec3 K) (c : Coupling K) (cs : List (Coupling K)) (i : Nat) :
    atCell f (c :: cs) i = (if c.cell = i then f c else 0) + atCell f cs i := List.sum_cons

private theorem atCell_sub (f g : Coupling K → Vec3 K) (cs : List (Coupling K)) (i : Nat) :
    atCell (fun c => f c - g c) cs i = atCell f cs i - atCell g cs i := by
  induction cs with
  | nil => simp [atCell]
  | cons c cs ih =>
    rw [atCell_cons, atCell_cons, atCell_cons, ih]
    split <;> abel

/-! ### Products -/

section Products

variable [LinearOrder K]

theorem entry_eq {x : List (Vec3 K)} {cell : Nat} (h : cell < x.length) :
    entry x cell = .ok (x.getD cell 0) := by
  simp [entry, h]

private theorem subtractAll_run (f : Coupling K → Vec3 K) (cs : List (Coupling K)) (r : List (Vec3 K))
    (h : ∀ c ∈ cs, c.cell < r.length) :
    ∃ r', subtractAll f cs r = (.ok ⟨⟩, r') ∧ r'.length = r.length ∧
      ∀ i, r'.getD i 0 = r.getD i 0 - atCell f cs i := by
  induction cs generalizing r with
  | nil => exact ⟨r, rfl, rfl, by simp [atCell]⟩
  | cons c cs ih =>
    have hc : c.cell < r.length := h c (List.mem_cons_self ..)
    obtain ⟨r', hr, hl, hg⟩ := ih (r.set c.cell (r.getD c.cell 0 - f c)) fun d hd => by
      rw [List.length_set]
      exact h d (List.mem_cons_of_mem _ hd)
    refine ⟨r', ?_, by rw [hl, List.length_set], fun i => ?_⟩
    · rw [← hr]
      simp only [subtractAll, List.forM_eq_forM, List.forM_cons, Attempt.run_bind, Attempt.run_get,
        Attempt.run_outcome, Attempt.run_set, entry_eq hc]
    · rw [hg, atCell_cons, ← sub_sub]
      by_cases hi : c.cell = i
      · subst hi
        simp [List.getD_eq_getElem?_getD, hc]
      · simp [List.getD_eq_getElem?_getD, hi]

private theorem toWellTimes_eq (s : WellSystem K) {x : List (Vec3 K)} (h : ∀ c ∈ s.cells, c < x.length) :
    s.toWellTimes x = .ok (s.reservoirPart x) := by
  -- the sum is accumulated from the left, so the induction is over all that may be there already
  suffices ∀ (cs : List (Coupling K)) (acc : Vec3 K), (∀ c ∈ cs, c.cell < x.length) →
      cs.foldlM (fun acc c => do return acc + c.toWell.mulVec (← entry x c.cell)) acc =
        (.ok (acc + (cs.map fun c => c.toWell.mulVec (x.getD c.cell 0)).sum) : Outcome K (Vec3 K)) by
    have hs := this s.couplings 0 fun c hc => h _ (List.mem_map_of_mem hc)
    rwa [zero_add] at hs
  intro cs
  induction cs with
  | nil => intro acc _; simp; rfl
  | cons c cs ih =>
    intro acc hc
    rw [List.foldlM_cons, entry_eq (hc c (List.mem_cons_self ..)), List.map_cons, List.sum_cons, ← add_assoc]
    exact ih _ fun d hd => hc d (List.mem_cons_of_mem _ hd)

/-! ### Eliminated systems -/

/-- Whether the system comes from a successful elimination. -/
def IsEliminated (s : WellSystem K) : Prop := ∃ s₀ name, eliminate s₀ name = .ok s

/-- The product with the stored inverse, `D⁻¹ v`. -/
def solveWell (s : WellSystem K) (v : Vec3 K) : Vec3 K := (s.inverse.getD 0).mulVec v

theorem invert_ok {d inv : Block K} : invert d = .ok inv ↔ d.inverse? = some inv := by
  have hd : ¬(!d.isFinite) = true := Bool.false_ne_true
  rw [invert, if_neg hd]
  cases d.inverse? with
  | none => exact ⟨nofun, nofun⟩
  | some inv' =>
    change Except.ok inv' = .ok inv ↔ _
    rw [Except.ok.injEq, Option.some.injEq]

namespace IsEliminated

variable {s : WellSystem K}

/-- In exact arithmetic the stored inverse is that of the Jacobian, and nothing else is asked of the system. -/
theorem iff_inverse : s.IsEliminated ↔ ∃ inv, s.inverse = some inv ∧ s.jacobian.inverse? = some inv := by
  constructor
  · rintro ⟨s₀, name, h⟩
    unfold eliminate at h
    split at h
    · rename_i inv hinv
      cases h
      exact ⟨inv, rfl, invert_ok.1 hinv⟩
    · cases h
  · rintro ⟨inv, hs, hd⟩
    obtain ⟨couplings, jacobian, residual, inverse⟩ := s
    cases hs
    refine ⟨⟨couplings, jacobian, residual, none⟩, none, ?_⟩
    rw [eliminate, invert_ok.2 hd]

private theorem inverse_eq (h : s.IsEliminated) :
    s.inverse = some (s.inverse.getD 0) ∧ s.jacobian.inverse? = some (s.inverse.getD 0) := by
  obtain ⟨inv, hs, hd⟩ := iff_inverse.1 h
  rw [hs]
  exact ⟨rfl, hd⟩

theorem getInverse_eq (h : s.IsEliminated) : s.getInverse = .ok (s.inverse.getD 0) := by
  unfold getInverse
  rw [h.inverse_eq.1]
  rfl

theorem jacobian_solveWell (h : s.IsEliminated) (v : Vec3 K) : s.jacobian.mulVec (s.solveWell v) = v :=
  Block.mulVec_inverse h.inverse_eq.2 v

private theorem solveWell_jacobian (h : s.IsEliminated) (v : Vec3 K) : s.solveWell (s.jacobian.mulVec v) = v :=
  Block.inverse_mulVec h.inverse_eq.2 v

theorem applyResidual_run (h : s.IsEliminated) (r : List (Vec3 K)) (hc : ∀ c ∈ s.cells, c < r.length) :
    ∃ r', s.applyResidual r = (.ok ⟨⟩, r') ∧ r'.length = r.length ∧
      ∀ i, r'.getD i 0 = r.getD i 0 - atCell (·.toReservoir.mulVec (s.solveWell s.residual)) s.couplings i := by
  obtain ⟨r', hr, hl, hg⟩ := subtractAll_run (·.toReservoir.mulVec (s.solveWell s.residual)) s.couplings r
    fun c hm => hc _ (List.mem_map_of_mem hm)
  refine ⟨r', ?_, hl, hg⟩
  have hu : s.wellUpdate = .ok (s.solveWell s.residual) := by
    unfold wellUpdate
    rw [h.getInverse_eq]
    rfl
  rw [applyResidual, Attempt.run_bind, hu, Attempt.run_outcome]
  exact hr

theorem applyScaled_run (h : s.IsEliminated) (a : K) {x ax : List (Vec3 K)} (hx : ∀ c ∈ s.cells, c < x.length)
    (hax : ∀ c ∈ s.cells, c < ax.length) :
    ∃ ax', s.applyScaled a x ax = (.ok ⟨⟩, ax') ∧ ax'.length = ax.length ∧ ∀ i, ax'.getD i 0 =
      ax.getD i 0 - atCell (fun c => (c.toReservoir.mulVec (s.solveWell (s.reservoirPart x))).scale a) s.couplings i := by
  obtain ⟨ax', hr, hl, hg⟩ := subtractAll_run
    (fun c => (c.toReservoir.mulVec (s.solveWell (s.reservoirPart x))).scale a) s.couplings ax
    fun c hm => hax _ (List.mem_map_of_mem hm)
  refine ⟨ax', ?_, hl, hg⟩
  rw [applyScaled, Attempt.run_bind, h.getInverse_eq, Attempt.run_outcome]
  dsimp only
  rw [Attempt.run_bind, toWellTimes_eq s hx, Attempt.run_outcome]
  exact hr

theorem recover_eq (h : s.IsEliminated) {x : List (Vec3 K)} (hc : ∀ c ∈ s.cells, c < x.length) :
    s.recover x = .ok (s.solveWell (s.residual - s.reservoirPart x)) := by
  rw [recover, h.getInverse_eq, toWellTimes_eq s hc]
  rfl

/-- What is recovered solves the equations of the well, and nothing else does. -/
theorem recover_ok_iff (h : s.IsEliminated) {x : List (Vec3 K)} (hc : ∀ c ∈ s.cells, c < x.length) (y : Vec3 K) :
    s.recover x = .ok y ↔ s.reservoirPart x + s.jacobian.mulVec y = s.residual := by
  rw [h.recover_eq hc, Except.ok.injEq, ← eq_sub_iff_add_eq']
  constructor
  · rintro rfl
    exact h.jacobian_solveWell _
  · intro hy
    rw [← hy, h.solveWell_jacobian]

end IsEliminated

end Products

/-! ### The reduced matrix -/

/-- The sum of the blocks of the reduced system at a row and a column. -/
def blockAt (blocks : List (ReducedBlock K)) (i j : Nat) : Block K :=
  (blocks.map fun b => if b.rowCell = i ∧ b.colCell = j then b.block else 0).sum

/-- The products of a row of reduced blocks with a vector. -/
private theorem sum_blockAt (blocks : List (ReducedBlock K)) {n : Nat} (h : ∀ b ∈ blocks, b.colCell < n) (i : Nat)
    (x : List (Vec3 K)) :
    ∑ j : Fin n, (blockAt blocks i j).mulVec (x.getD j 0) =
      (blocks.map fun b => if b.rowCell = i then b.block.mulVec (x.getD b.colCell 0) else 0).sum := by
  induction blocks with
  | nil => simp [blockAt, Block.zero_mulVec]
  | cons b bs ih =>
    have hb : b.colCell < n := h b (List.mem_cons_self ..)
    -- a block meets the vector in its own column only
    have hone : ∑ j : Fin n, Block.mulVec (if b.rowCell = i ∧ b.colCell = j then b.block else 0) (x.getD j 0) =
        if b.rowCell = i then b.block.mulVec (x.getD b.colCell 0) else 0 := by
      rw [Finset.sum_eq_single ⟨b.colCell, hb⟩]
      · by_cases hi : b.rowCell = i <;> simp [hi, Block.zero_mulVec]
      · intro j _ hj
        have hne : b.colCell ≠ j := fun he => hj (Fin.ext he.symm)
        simp [hne, Block.zero_mulVec]
      · exact fun hn => absurd (Finset.mem_univ _) hn
    have hcons (j : Fin n) : blockAt (b :: bs) i j =
        (if b.rowCell = i ∧ b.colCell = j then b.block else 0) + blockAt bs i j := List.sum_cons
    simp only [hcons, Block.add_mulVec, Finset.sum_add_distrib, List.map_cons, List.sum_cons, hone]
    rw [ih fun c hc => h c (List.mem_cons_of_mem _ hc)]

private theorem sum_row (left : Block K) (i : Nat) (row : Coupling K) (cs : List (Coupling K)) (x : List (Vec3 K)) :
    ((cs.map fun col => (⟨row.cell, col.cell, left.mul col.toWell⟩ : ReducedBlock K)).map fun b =>
        if b.rowCell = i then b.block.mulVec (x.getD b.colCell 0) else 0).sum =
      if row.cell = i then left.mulVec (cs.map fun c => c.toWell.mulVec (x.getD c.cell 0)).sum else 0 := by
  rw [List.map_map]
  split
  · rename_i hi
    rw [Block.mulVec_sum, List.map_map]
    congr 1
    apply List.map_congr_left
    intro c _
    simp only [Function.comp_apply, hi, ↓reduceIte, Block.mul_mulVec]
  · rename_i hi
    simp [Function.comp_def, hi]

/-- The reduced blocks of a well act as `B D⁻¹ C`. -/
theorem IsEliminated.reducedBlocks_eq [LinearOrder K] {s : WellSystem K} (h : s.IsEliminated) :
    ∃ blocks, s.reducedBlocks = .ok blocks ∧ (∀ b ∈ blocks, b.colCell ∈ s.cells) ∧ ∀ x i,
      (blocks.map fun b => if b.rowCell = i then b.block.mulVec (x.getD b.colCell 0) else 0).sum =
        atCell (·.toReservoir.mulVec (s.solveWell (s.reservoirPart x))) s.couplings i := by
  refine ⟨_, by rw [reducedBlocks, h.getInverse_eq]; rfl, ?_, fun x i => ?_⟩
  · intro b hb
    obtain ⟨row, -, hb⟩ := List.mem_flatMap.1 hb
    obtain ⟨col, hcol, rfl⟩ := List.mem_map.1 hb
    exact List.mem_map_of_mem hcol
  · generalize hrows : s.couplings = rows
    -- the induction is on the rows, each of which has a block for every column
    suffices ∀ rs : List (Coupling K),
        ((rs.flatMap fun row => rows.map fun col =>
            (⟨row.cell, col.cell, (row.toReservoir.mul (s.inverse.getD 0)).mul col.toWell⟩ : ReducedBlock K)).map
          fun b => if b.rowCell = i then b.block.mulVec (x.getD b.colCell 0) else 0).sum =
        atCell (·.toReservoir.mulVec (s.solveWell (s.reservoirPart x))) rs i from this rows
    intro rs
    induction rs with
    | nil => rfl
    | cons row rs ih =>
      rw [List.flatMap_cons, List.map_append, List.sum_append, ih, sum_row, atCell_cons, Block.mul_mulVec,
        reservoirPart, hrows]
      rfl

end WellSystem

/-! ### All wells of a model -/

namespace Model

variable [LinearOrder K] {m : Model K}

/-- What the wells add to the equations of a cell at given well unknowns, `B xw`. -/
def wellsPart (m : Model K) (xw : List (Vec3 K)) (i : Nat) : Vec3 K :=
  (List.zipWith (fun u y => WellSystem.atCell (·.toReservoir.mulVec y) u.system.couplings i) m.units xw).sum

/-- Whether all wells of the model have been eliminated. -/
def IsEliminated (m : Model K) : Prop := ∀ u ∈ m.units, u.system.IsEliminated

/-- Whether all connections lie in the first `n` cells. -/
def CellsBelow (m : Model K) (n : Nat) : Prop := ∀ u ∈ m.units, ∀ c ∈ u.system.cells, c < n

/-- A solution of the coupled equations of reservoir and wells, `A x + B xw = r` and `C x + D xw = rw`. -/
structure IsCoupledSolution (m : Model K) {n : Nat} (A : Fin n → Fin n → Block K) (r x xw : List (Vec3 K)) : Prop where
  /-- The equations of the cells. -/
  reservoir (i : Fin n) : ∑ j, (A i j).mulVec (x.getD j 0) + m.wellsPart xw i = r.getD i 0
  /-- The equations of the wells. -/
  wells : List.Forall₂ (fun u y => u.system.reservoirPart x + u.system.jacobian.mulVec y = u.system.residual) m.units xw

/-- A solution of the reservoir equations with the reduced blocks subtracted from the matrix. -/
def IsReducedSolution {n : Nat} (A : Fin n → Fin n → Block K) (blocks : List (ReducedBlock K)) (r x : List (Vec3 K)) :
    Prop :=
  ∀ i, ∑ j : Fin n, (A i j - WellSystem.blockAt blocks i j).mulVec (x.getD j 0) = r.getD i 0

/-- What the wells add to the equations of a cell, if each of them gives well unknowns for itself. -/
def partsAt (us : List (WellUnit K)) (y : WellSystem K → Vec3 K) (i : Nat) : Vec3 K :=
  (us.map fun u => WellSystem.atCell (·.toReservoir.mulVec (y u.system)) u.system.couplings i).sum

theorem partsAt_cons (u : WellUnit K) (us : List (WellUnit K)) (y : WellSystem K → Vec3 K) (i : Nat) :
    partsAt (u :: us) y i =
      WellSystem.atCell (·.toReservoir.mulVec (y u.system)) u.system.couplings i + partsAt us y i := List.sum_cons

private theorem partsAt_sub (us : List (WellUnit K)) (y z : WellSystem K → Vec3 K) (i : Nat) :
    partsAt us (fun s => y s - z s) i = partsAt us y i - partsAt us z i := by
  induction us with
  | nil => simp [partsAt]
  | cons u us ih =>
    rw [partsAt_cons, partsAt_cons, partsAt_cons, ih]
    simp only [Block.mulVec_sub]
    rw [WellSystem.atCell_sub]
    abel

private theorem wellsPart_map (y : WellSystem K → Vec3 K) (i : Nat) :
    m.wellsPart (m.units.map fun u => y u.system) i = partsAt m.units y i := by
  rw [wellsPart, partsAt, List.zipWith_map_right, List.zipWith_self]

/-- Operations on a vector over the cells, one for each well, that each subtract the part of the well. -/
theorem forM_subtracts {f : WellUnit K → Attempt K (List (Vec3 K)) Unit} {part : WellUnit K → Nat → Vec3 K}
    {us : List (WellUnit K)} {r : List (Vec3 K)} (hc : ∀ u ∈ us, ∀ c ∈ u.system.cells, c < r.length)
    (hf : ∀ u ∈ us, ∀ r : List (Vec3 K), (∀ c ∈ u.system.cells, c < r.length) →
      ∃ r', f u r = (.ok ⟨⟩, r') ∧ r'.length = r.length ∧ ∀ i, r'.getD i 0 = r.getD i 0 - part u i) :
    ∃ r', us.forM f r = (.ok ⟨⟩, r') ∧ r'.length = r.length ∧
      ∀ i, r'.getD i 0 = r.getD i 0 - (us.map fun u => part u i).sum := by
  induction us generalizing r with
  | nil => exact ⟨r, rfl, rfl, by simp⟩
  | cons u us ih =>
    obtain ⟨r₁, h₁, hl₁, hg₁⟩ := hf u (List.mem_cons_self ..) r (hc u (List.mem_cons_self ..))
    obtain ⟨r', h', hl', hg'⟩ := ih (r := r₁)
      (fun v hv => by rw [hl₁]; exact hc v (List.mem_cons_of_mem _ hv))
      fun v hv => hf v (List.mem_cons_of_mem _ hv)
    refine ⟨r', ?_, hl'.trans hl₁, fun i => ?_⟩
    · rw [← h', List.forM_eq_forM, List.forM_cons, Attempt.run_bind, h₁]
    · rw [hg', hg₁, List.map_cons, List.sum_cons, sub_sub]

private theorem applyResidual_run (he : m.IsEliminated) {r : List (Vec3 K)} (hc : m.CellsBelow r.length) :
    ∃ r', m.applyResidual r = (.ok ⟨⟩, r') ∧ r'.length = r.length ∧
      ∀ i, r'.getD i 0 = r.getD i 0 - partsAt m.units (fun s => s.solveWell s.residual) i :=
  forM_subtracts hc fun u hu r hr => (he u hu).applyResidual_run r hr

/-- The reduced blocks of all wells lie in columns of connected cells, and act as the sum of `B D⁻¹ C`. -/
theorem exists_reducedBlocks (he : m.IsEliminated) : ∃ blocks, m.reducedBlocks = .ok blocks ∧
    (∀ b ∈ blocks, ∃ u ∈ m.units, b.colCell ∈ u.system.cells) ∧ ∀ x i,
      (blocks.map fun b => if b.rowCell = i then b.block.mulVec (x.getD b.colCell 0) else 0).sum =
        partsAt m.units (fun s => s.solveWell (s.reservoirPart x)) i := by
  suffices ∀ us : List (WellUnit K), (∀ u ∈ us, u.system.IsEliminated) →
      ∃ lists, us.mapM (fun u => u.system.reducedBlocks) = .ok lists ∧
        (∀ b ∈ lists.flatten, ∃ u ∈ us, b.colCell ∈ u.system.cells) ∧
        ∀ x i, (lists.flatten.map fun b => if b.rowCell = i then b.block.mulVec (x.getD b.colCell 0) else 0).sum =
          partsAt us (fun s => s.solveWell (s.reservoirPart x)) i by
    obtain ⟨lists, hl, hb, hs⟩ := this m.units he
    exact ⟨lists.flatten, by rw [reducedBlocks, hl]; rfl, hb, hs⟩
  intro us
  induction us with
  | nil => exact fun _ => ⟨[], rfl, nofun, fun _ _ => rfl⟩
  | cons u us ih =>
    intro he
    obtain ⟨bs, hbs, hb, hs⟩ := (he u (List.mem_cons_self ..)).reducedBlocks_eq
    obtain ⟨lists, hl, hb', hs'⟩ := ih fun v hv => he v (List.mem_cons_of_mem _ hv)
    refine ⟨bs :: lists, by rw [List.mapM_cons, hbs, hl]; rfl, fun b hm => ?_, fun x i => ?_⟩
    · rw [List.flatten_cons, List.mem_append] at hm
      rcases hm with hm | hm
      · exact ⟨u, List.mem_cons_self .., hb b hm⟩
      · obtain ⟨v, hv, hcol⟩ := hb' b hm
        exact ⟨v, List.mem_cons_of_mem _ hv, hcol⟩
    · rw [List.flatten_cons, List.map_append, List.sum_append, hs, hs', partsAt_cons]

private theorem reducedBlocks_eq (he : m.IsEliminated) {n : Nat} (hc : m.CellsBelow n) :
    ∃ blocks, m.reducedBlocks = .ok blocks ∧ (∀ b ∈ blocks, b.colCell < n) ∧ ∀ x i,
      (blocks.map fun b => if b.rowCell = i then b.block.mulVec (x.getD b.colCell 0) else 0).sum =
        partsAt m.units (fun s => s.solveWell (s.reservoirPart x)) i := by
  obtain ⟨blocks, hb, hcol, hs⟩ := exists_reducedBlocks he
  refine ⟨blocks, hb, fun b hm => ?_, hs⟩
  obtain ⟨u, hu, hmem⟩ := hcol b hm
  exact hc u hu _ hmem

private theorem recover_ok_iff (he : m.IsEliminated) {x : List (Vec3 K)} (hc : m.CellsBelow x.length)
    (xw : List (Vec3 K)) :
    m.recover x = .ok xw ↔ List.Forall₂
      (fun u y => u.system.reservoirPart x + u.system.jacobian.mulVec y = u.system.residual) m.units xw := by
  have hu (u : WellUnit K) (hm : u ∈ m.units) (y : Vec3 K) := (he u hm).recover_ok_iff (hc u hm) y
  rw [recover, Outcome.mapM_ok]
  constructor
  · intro h
    exact ((List.forall₂_and_left _ _).2 ⟨hu, h⟩).imp fun _ _ h => (h.1 _).1 h.2
  · intro h
    exact ((List.forall₂_and_left _ _).2 ⟨hu, h⟩).imp fun _ _ h => (h.1 _).2 h.2

/-- Elimination and recovery are equivalent to the coupled system, for any reservoir matrix and right-hand side. -/
theorem reducedSystem_iff_coupledSystem (m : Model K) (n : Nat) (A : Fin n → Fin n → Block K)
    (r x xw : List (Vec3 K)) (he : m.IsEliminated) (hc : m.CellsBelow n) (hr : r.length = n) (hx : x.length = n) :
    ∃ r' blocks, m.applyResidual r = (.ok ⟨⟩, r') ∧ m.reducedBlocks = .ok blocks ∧
      (IsReducedSolution A blocks r' x ∧ m.recover x = .ok xw ↔ m.IsCoupledSolution A r x xw) := by
  obtain ⟨r', hr', -, hg⟩ := applyResidual_run he (r := r) (by rw [hr]; exact hc)
  obtain ⟨blocks, hb, hcol, hs⟩ := reducedBlocks_eq he hc
  refine ⟨r', blocks, hr', hb, ?_⟩
  have hrec := recover_ok_iff he (x := x) (by rw [hx]; exact hc)
  -- the recovered unknowns are the same on both sides, so only the rows of the cells are left to compare
  suffices ∀ xw, m.recover x = .ok xw → (IsReducedSolution A blocks r' x ↔
      ∀ i : Fin n, ∑ j, (A i j).mulVec (x.getD j 0) + m.wellsPart xw i = r.getD i 0) by
    constructor
    · rintro ⟨hA, hw⟩
      exact ⟨(this xw hw).1 hA, (hrec xw).1 hw⟩
    · rintro ⟨hA, hw⟩
      exact ⟨(this xw ((hrec xw).2 hw)).2 hA, (hrec xw).2 hw⟩
  intro xw hw
  have hmap : m.recover x =
      .ok (m.units.map fun u => u.system.solveWell (u.system.residual - u.system.reservoirPart x)) :=
    Outcome.mapM_map fun u hu => (he u hu).recover_eq (by rw [hx]; exact hc u hu)
  rw [hmap, Except.ok.injEq] at hw
  have hpart (i : Nat) : m.wellsPart xw i = partsAt m.units (fun s => s.solveWell s.residual) i -
      partsAt m.units (fun s => s.solveWell (s.reservoirPart x)) i := by
    rw [← hw, wellsPart_map fun s => s.solveWell (s.residual - s.reservoirPart x), ← partsAt_sub]
    simp only [WellSystem.solveWell, Block.mulVec_sub]
  refine forall_congr' fun i => ?_
  simp only [Block.sub_mulVec, Finset.sum_sub_distrib, WellSystem.sum_blockAt blocks hcol, hs, hg, hpart]
  rw [sub_eq_sub_iff_add_eq_add, ← add_sub_assoc, sub_eq_iff_eq_add]

/-! ### Two wells in one cell -/

/-- A unit with a given system, for a well that plays no other part. -/
private def unitOf (name : String) (s : WellSystem ℚ) : WellUnit ℚ :=
  { WellUnit.create (.producer name 0 [] ⟨[], 0⟩) with system := s }

/-- Two eliminated wells.  Both connections of the first lie in the cell of a connection of the second. -/
def crowdedCell : Model ℚ where
  setup := ⟨.threePhase, .standard, FluidRegions.model ⟨[]⟩, .empty, none⟩
  units :=
    [unitOf "P1"
      { couplings := [⟨0, ⟨⟨1, 2, 0⟩, ⟨0, 1, 0⟩, ⟨3, 0, 1⟩⟩, ⟨⟨1, 0, 0⟩, ⟨0, 2, 5⟩, ⟨0, 0, 1⟩⟩⟩,
          ⟨0, ⟨⟨0, 1, 0⟩, ⟨1, 0, 0⟩, ⟨0, 0, 1⟩⟩, ⟨⟨0, 0, 1⟩, ⟨1, 0, 0⟩, ⟨0, 4, 0⟩⟩⟩]
        jacobian := ⟨⟨1, 1, 0⟩, ⟨0, 1, 0⟩, ⟨1, 0, 1⟩⟩
        residual := ⟨1, -2, 3⟩
        inverse := some ⟨⟨1, -1, 0⟩, ⟨0, 1, 0⟩, ⟨-1, 1, 1⟩⟩ },
      unitOf "P2"
      { couplings := [⟨1, ⟨⟨1, 0, 0⟩, ⟨0, 1, 0⟩, ⟨0, 0, 1⟩⟩, ⟨⟨0, 1, 0⟩, ⟨0, 0, 1⟩, ⟨1, 0, 0⟩⟩⟩,
          ⟨0, ⟨⟨2, 0, 0⟩, ⟨0, 0, 3⟩, ⟨0, 1, 0⟩⟩, ⟨⟨1, 1, 0⟩, ⟨0, 1, 1⟩, ⟨0, 0, 1⟩⟩⟩]
        jacobian := ⟨⟨1, 0, 2⟩, ⟨0, 1, 0⟩, ⟨0, 0, 1⟩⟩
        residual := ⟨5, 0, 1⟩
        inverse := some ⟨⟨1, 0, -2⟩, ⟨0, 1, 0⟩, ⟨0, 0, 1⟩⟩ }]

theorem crowdedCell_isEliminated : crowdedCell.IsEliminated := by
  intro u hu
  simp only [crowdedCell, unitOf, List.mem_cons, List.not_mem_nil, or_false] at hu
  rcases hu with rfl | rfl <;> exact WellSystem.IsEliminated.iff_inverse.2 ⟨_, rfl, by decide +kernel⟩

theorem crowdedCell_cellsBelow : crowdedCell.CellsBelow 2 := by
  intro u hu
  simp only [crowdedCell, unitOf, List.mem_cons, List.not_mem_nil, or_false] at hu
  rcases hu with rfl | rfl <;> simp [WellSystem.cells]

/-- The matrix of two cells that are not connected to each other. -/
private def diagonalMatrix (i j : Fin 2) : Block ℚ := if i = j then ⟨⟨10, 0, 0⟩, ⟨0, 10, 0⟩, ⟨0, 0, 10⟩⟩ else 0

theorem reducedSystem_iff_coupledSystem_crowdedCell :
    crowdedCell.IsEliminated ∧ crowdedCell.CellsBelow 2 ∧
      ∃ r' blocks, crowdedCell.applyResidual [⟨14, -20, 30⟩, ⟨66, -3, 4⟩] = (.ok ⟨⟩, r') ∧
        crowdedCell.reducedBlocks = .ok blocks ∧
        (IsReducedSolution diagonalMatrix blocks r' [⟨1, 0, 2⟩, ⟨5, 0, 1⟩] ∧
            crowdedCell.recover [⟨1, 0, 2⟩, ⟨5, 0, 1⟩] = .ok [⟨11, -13, -10⟩, ⟨16, -3, -6⟩] ↔
          crowdedCell.IsCoupledSolution diagonalMatrix [⟨14, -20, 30⟩, ⟨66, -3, 4⟩] [⟨1, 0, 2⟩, ⟨5, 0, 1⟩]
            [⟨11, -13, -10⟩, ⟨16, -3, -6⟩]) :=
  ⟨crowdedCell_isEliminated, crowdedCell_cellsBelow,
    reducedSystem_iff_coupledSystem crowdedCell 2 diagonalMatrix _ _ _ crowdedCell_isEliminated
      crowdedCell_cellsBelow rfl rfl⟩

end Model

end BlackOilWells
