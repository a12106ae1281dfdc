import Mathlib.Algebra.Order.Ring.Rat
import BlackOilWells.Model.Convergence
import BlackOilWells.Proofs.Reductions

/-!
# Agreement on convergence

A check of convergence makes a fixed sequence of reductions (`Convergence.trace`): the number of cells and the sums of
the formation volume factors, whether a residual is bad, and the largest residual of each active phase.  What it decides
depends on nothing but the combined values and the settings (`Convergence.assess`).  In exact arithmetic these values
are those of a single process that holds all cells and all wells, so every process decides what that process would
decide, however cells and wells are spread over the processes (`Model.convergence_agrees`).
-/

namespace BlackOilWells

open Program Reduction

variable {α ι : Type} [Scalar α]

namespace Program.Performs

variable {β δ : Type} {xs : List ι}

/-- A quantity by phase is computed phase by phase. -/
private theorem ofFnM {f : ι → Phase → Program α β} {t : Phase → List Reduction} {b : Phase → β}
    (h : ∀ p, Performs xs (fun x => f x p) (t p) fun _ => b p) :
    Performs xs (fun x => PerPhase.ofFnM (f x)) (t .water ++ (t .oil ++ (t .gas ++ []))) fun _ => PerPhase.ofFn b := by
  refine (h .water).bind ((h .oil).bind ((h .gas).bind ?_))
  exact Performs.pure xs fun _ => PerPhase.ofFn b

end Program.Performs

namespace Convergence

/-- The reductions of a check. -/
def trace (phases : PhaseSet) : List Reduction :=
  [.sum, .sum, .sum, .sum, .max] ++ phases.active.map fun _ => .max

/-- What a check decides from average factors, the flag of a bad residual and the largest residuals. -/
def assess (setup : Setup α) (reports : Bool) (iteration : Nat) (factors : PerPhase α) (anyBad : α)
    (largest : PerPhase α) : Outcome α (Bool × List (Notice α)) := do
  let norms := PerPhase.zipWith (· * ·) factors largest
  let converged ← verdict setup (0 < anyBad) norms
  return (converged, if reports then notices setup.phases iteration norms else [])

/-- The verdict depends on the active phases and the settings only. -/
theorem verdict_congr {setup setup' : Setup α} (hp : setup'.phases = setup.phases)
    (hs : setup'.settings = setup.settings) (b : Bool) (norms : PerPhase α) :
    verdict setup' b norms = verdict setup b norms := by
  rw [verdict, verdict, hp, hs]

private theorem map_fst_assess (setup : Setup α) (reports : Bool) (iteration : Nat) (factors : PerPhase α) (anyBad : α)
    (largest : PerPhase α) : (assess setup reports iteration factors anyBad largest).map Prod.fst =
      verdict setup (0 < anyBad) (.zipWith (· * ·) factors largest) := by
  unfold assess
  dsimp only
  cases verdict setup _ _ <;> rfl

/-- The average of totals over a number of cells. -/
def average (count : α) (totals : PerPhase α) : PerPhase α :=
  totals.map fun total => if 0 < count then total / count else 1

/-- The flag that a process contributes if it has a residual that is not finite. -/
def badFlag (phases : PhaseSet) (m : Model α) : α :=
  if hasBadResidual phases (m.units.map (·.system)) then 1 else 0

/-- The largest residuals of a process. -/
def localResiduals (phases : PhaseSet) (m : Model α) : PerPhase α := largestResiduals phases (m.units.map (·.system))

/-- The check of a single process. -/
theorem convergence_serial (m : Model α) (cells : List (Cell α)) (i : Nat) :
    m.convergence (.serial : Communicator Id α) cells i = assess m.setup (m.reports (.serial : Communicator Id α)) i
      (average (cells.length : α) (factorSums m.setup.phases cells)) (badFlag m.setup.phases m)
      (localResiduals m.setup.phases m) := by
  have h : reduceActive m.setup.phases (Communicator.serial : Communicator Id α).max (localResiduals m.setup.phases m)
      = localResiduals m.setup.phases m := PerPhase.ext_get fun p => by
    cases p <;> exact ite_self _
  exact congrArg (assess m.setup (m.reports (.serial : Communicator Id α)) i
    (average (cells.length : α) (factorSums m.setup.phases cells)) (badFlag m.setup.phases m)) h

/-! ### What a process contributes -/

/-- What a cell contributes to the factor of a phase. -/
def factor (phases : PhaseSet) (p : Phase) (c : Cell α) : α :=
  if phases.isActive p then 1 / (c.invB.get p).value else 0

/-- The magnitude of a finite residual of an active phase. -/
def magnitude? (phases : PhaseSet) (p : Phase) (r : PerPhase α) : Option α :=
  if phases.isActive p && Scalar.isFinite (r.get p) then some (Scalar.abs (r.get p)) else none

/-- The magnitudes of the finite residuals of a phase. -/
def magnitudes (phases : PhaseSet) (p : Phase) (us : List (WellUnit α)) : List α :=
  us.filterMap fun u => magnitude? phases p (.ofVec u.system.residual)

/-- The flag of a well with a residual that is not finite. -/
def flag (phases : PhaseSet) (u : WellUnit α) : α := if hasBadResidual phases [u.system] then 1 else 0

/-- The largest residual is the largest of the finite magnitudes. -/
private theorem get_localResiduals (phases : PhaseSet) (m : Model α) (p : Phase) :
    (localResiduals phases m).get p = (magnitudes phases p m.units).foldl Scalar.max 0 := by
  have h (us : List (WellUnit α)) (acc : PerPhase α) :
      ((us.map (·.system)).foldl (fun acc s => phases.select (.zipWith (fun most r =>
        if Scalar.isFinite r then Scalar.max most (Scalar.abs r) else most) acc (.ofVec s.residual)) acc) acc).get p =
      (magnitudes phases p us).foldl Scalar.max (acc.get p) := by
    induction us generalizing acc with
    | nil => rfl
    | cons u us ih =>
      rw [List.map_cons, List.foldl_cons, ih, PhaseSet.select, PerPhase.get_ofFn, PerPhase.get_zipWith, magnitudes,
        magnitudes, List.filterMap_cons, magnitude?]
      cases phases.isActive p <;> cases Scalar.isFinite ((PerPhase.ofVec u.system.residual).get p) <;> rfl
  rw [localResiduals, largestResiduals, h, PerPhase.get_replicate]

/-- A residual of an absent phase does not count. -/
private theorem get_localResiduals_of_absent {phases : PhaseSet} {p : Phase} (hp : phases.isActive p = false)
    (m : Model α) :
    (localResiduals phases m).get p = 0 := by
  have h : magnitudes phases p m.units = [] := List.filterMap_eq_nil_iff.2 fun u _ => by
    rw [magnitude?, hp, Bool.false_and, if_neg Bool.false_ne_true]
  rw [get_localResiduals, h, List.foldl_nil]

private theorem finite_of_mem_magnitudes [Scalar.IsExact α] (phases : PhaseSet) (p : Phase) (us : List (WellUnit α)) :
    ∀ v ∈ magnitudes phases p us, Scalar.isFinite v = true := by
  intro v hv
  obtain ⟨u, -, hu⟩ := List.mem_filterMap.1 hv
  obtain ⟨h, rfl⟩ := Option.ite_none_right_eq_some.1 hu |>.imp_right Option.some.inj
  exact Scalar.IsExact.finite_abs (Bool.and_eq_true _ _ ▸ h).2

section Exact

variable [Scalar.IsExact α]

private theorem get_factorSums (phases : PhaseSet) (cells : List (Cell α)) (p : Phase) :
    (factorSums phases cells).get p = (cells.map (factor phases p)).sum := by
  have h (cells : List (Cell α)) (acc : PerPhase α) :
      (cells.foldl (fun acc c => phases.select (.zipWith (fun b (inv : CellDual α) => b + 1 / inv.value) acc c.invB)
        acc) acc).get p = (cells.map (factor phases p)).foldl (· + ·) (acc.get p) := by
    induction cells generalizing acc with
    | nil => rfl
    | cons c cells ih =>
      rw [List.foldl_cons, ih, List.map_cons, List.foldl_cons, PhaseSet.select, PerPhase.get_ofFn,
        PerPhase.get_zipWith, factor]
      split
      · rfl
      · rw [Scalar.IsExact.add_zero]
  rw [factorSums, h, PerPhase.get_replicate, List.sum_eq_foldl]

private theorem isLargest_localResiduals (phases : PhaseSet) (m : Model α) (p : Phase) :
    IsLargest ((localResiduals phases m).get p) (0 :: magnitudes phases p m.units) := by
  rw [get_localResiduals]
  exact isLargest_foldl (List.forall_mem_cons.2 ⟨Scalar.IsExact.finite_zero, finite_of_mem_magnitudes phases p m.units⟩)

private theorem isLargest_badFlag (phases : PhaseSet) (m : Model α) :
    IsLargest (badFlag phases m) (0 :: m.units.map (flag phases)) := by
  have hany : hasBadResidual phases (m.units.map (·.system)) =
      m.units.any fun u => hasBadResidual phases [u.system] := by
    simp only [hasBadResidual, List.any_map, List.any_cons, List.any_nil, Bool.or_false, Function.comp_def]
  have hle : (0 : α) ≤ 1 := Scalar.IsExact.zero_le_one
  rw [badFlag, hany]
  cases h : m.units.any fun u => hasBadResidual phases [u.system] with
  | true =>
    obtain ⟨u, hu, hb⟩ := List.any_eq_true.1 h
    refine ⟨List.mem_cons_of_mem 0 (List.mem_map.2 ⟨u, hu, if_pos hb⟩), List.forall_mem_cons.2 ⟨hle, ?_⟩⟩
    refine List.forall_mem_map.2 fun v _ => ?_
    rw [flag, if_pos rfl]
    split
    · exact Scalar.IsExact.le_refl Scalar.IsExact.finite_one
    · exact hle
  | false =>
    have hzero : (0 : α) ≤ 0 := Scalar.IsExact.le_refl Scalar.IsExact.finite_zero
    refine ⟨List.mem_cons_self .., List.forall_mem_cons.2 ⟨hzero, List.forall_mem_map.2 fun v hv => ?_⟩⟩
    rw [flag, if_neg (List.any_eq_false.1 h v hv)]
    exact hzero

end Exact

/-! ### The reductions of a check -/

section Performs

variable (phases : PhaseSet) (xs : List ι) (rank : ι → Nat) (size : Nat) (m : ι → Model α) (cells : ι → List (Cell α))

/-- The number of all cells. -/
def count : α := combine .sum (xs.map fun x => ((cells x).length : α))

/-- The sums of the formation volume factors of all cells. -/
def totals : PerPhase α := .ofFn fun p => combine .sum (xs.map fun x => (factorSums phases (cells x)).get p)

/-- Whether any residual is bad. -/
def anyBad : α := combine .max (xs.map fun x => badFlag phases (m x))

/-- The largest residuals of all. -/
def largest : PerPhase α :=
  .ofFn fun p => if phases.isActive p then combine .max (xs.map fun x => (localResiduals phases (m x)).get p) else 0

private theorem averageFactors_performs :
    Performs xs (fun x => averageFactors (communicator (rank x) size) phases (cells x)) [.sum, .sum, .sum, .sum]
      fun _ => average (count xs cells) (totals phases xs cells) := by
  have htotal (p : Phase) := (Performs.reduce xs .sum fun x => (factorSums phases (cells x)).get p).map fun _ total =>
    if 0 < count xs cells then total / count xs cells else 1
  exact (Performs.reduce xs .sum fun x => ((cells x).length : α)).bind (Performs.ofFnM htotal)

private theorem reduceActive_performs :
    Performs xs (fun x => reduceActive phases (communicator (rank x) size).max (localResiduals phases (m x)))
      (phases.active.map fun _ => .max) fun _ => largest phases xs m := by
  have h (p : Phase) : Performs xs
      (fun x => if phases.isActive p then (communicator (rank x) size).max ((localResiduals phases (m x)).get p)
        else pure ((localResiduals phases (m x)).get p))
      (if phases.isActive p then [.max] else []) fun _ =>
        if phases.isActive p then combine .max (xs.map fun x => (localResiduals phases (m x)).get p) else 0 := by
    cases ha : phases.isActive p with
    | true => exact Performs.reduce xs .max fun x => (localResiduals phases (m x)).get p
    | false =>
      have hpure := Performs.pure (α := α) xs fun _ => (0 : α)
      exact hpure.congr fun x _ => congrArg Pure.pure (get_localResiduals_of_absent ha (m x))
  have ht : phases.active.map (fun _ => Reduction.max) = (if phases.isActive .water then [.max] else []) ++
      ((if phases.isActive .oil then [.max] else []) ++ ((if phases.isActive .gas then [.max] else []) ++ [])) := by
    rcases phases with ⟨_ | _, _ | _, _ | _⟩ <;> rfl
  rw [ht]
  exact Performs.ofFnM h

/-- The reductions of a check, and what each process decides from the combined values. -/
theorem convergence_performs (hm : ∀ x ∈ xs, (m x).setup.phases = phases) (i : ι → Nat) :
    Performs xs (fun x => (m x).convergence (communicator (rank x) size) (cells x) (i x)) (trace phases) fun x =>
      assess (m x).setup ((m x).reports (communicator (rank x) size : Communicator (Program α) α)) (i x)
        (average (count xs cells) (totals phases xs cells)) (anyBad phases xs m) (largest phases xs m) := by
  let decides (x : ι) :=
    assess (m x).setup ((m x).reports (communicator (rank x) size : Communicator (Program α) α)) (i x)
  have h := (averageFactors_performs phases xs rank size cells).bind
    (f := fun x factors => (communicator (rank x) size).max (badFlag phases (m x)) >>= fun bad =>
      reduceActive phases (communicator (rank x) size).max (localResiduals phases (m x)) >>= fun residuals =>
      pure (decides x factors bad residuals))
    ((Performs.reduce xs .max fun x => badFlag phases (m x)).bind
      ((reduceActive_performs phases xs rank size m).map fun x residuals => decides x _ _ residuals))
  refine h.congr fun x hx => ?_
  rw [← hm x hx]
  rfl

end Performs

/-! ### The combined values of cells and wells spread over processes -/

section Spread

variable [Scalar.IsExact α] (phases : PhaseSet) {xs : List ι} {m : ι → Model α} {cells : ι → List (Cell α)}
  {whole : Model α} {all : List (Cell α)}

private theorem count_eq (h : (xs.flatMap cells).Perm all) : count xs cells = (all.length : α) := by
  rw [natCast_length all, ← sum_of_parts _ h]
  exact congrArg (combine .sum) (List.map_congr_left fun x _ => natCast_length (cells x))

private theorem totals_eq (h : (xs.flatMap cells).Perm all) : totals phases xs cells = factorSums phases all := by
  refine PerPhase.ext_get fun p => ?_
  rw [totals, PerPhase.get_ofFn, get_factorSums, ← sum_of_parts _ h]
  exact congrArg (combine .sum) (List.map_congr_left fun x _ => get_factorSums phases (cells x) p)

private theorem anyBad_eq (hxs : xs ≠ []) (h : (xs.flatMap fun x => (m x).units).Perm whole.units) :
    anyBad phases xs m = badFlag phases whole := by
  refine max_of_parts hxs (List.map_flatMap ▸ h.map (flag phases)) (List.forall_mem_map.2 fun u _ => ?_)
    (fun x _ => isLargest_badFlag phases (m x)) (isLargest_badFlag phases whole)
  rw [flag]
  split
  · exact Scalar.IsExact.finite_one
  · exact Scalar.IsExact.finite_zero

private theorem largest_eq (hxs : xs ≠ []) (h : (xs.flatMap fun x => (m x).units).Perm whole.units) :
    largest phases xs m = localResiduals phases whole := by
  refine PerPhase.ext_get fun p => ?_
  rw [largest, PerPhase.get_ofFn]
  split
  case isFalse ha => rw [get_localResiduals_of_absent (Bool.eq_false_of_not_eq_true ha)]
  case isTrue =>
    exact max_of_parts hxs (List.filterMap_flatMap ▸ h.filterMap _) (finite_of_mem_magnitudes phases p whole.units)
      (fun x _ => isLargest_localResiduals phases (m x) p) (isLargest_localResiduals phases whole p)

end Spread

end Convergence

/-! ### The decision -/

open Convergence

/-- Several processes check convergence together, each for its own wells and cells. -/
def Convergence.checks (parts : List (Model α × List (Cell α))) (i : Nat) :
    List (Program α (Outcome α (Bool × List (Notice α)))) :=
  parts.zipIdx.map fun x => x.1.1.convergence (communicator x.2 parts.length) x.1.2 i

/-- Processes that agree on the phases and the settings make the same reductions when they check convergence, so they
come to an end together.  Each then decides what a single process decides that holds all cells and all wells. -/
theorem Model.convergence_agrees [Scalar.IsExact α] (parts : List (Model α × List (Cell α))) (whole : Model α)
    (cells : List (Cell α)) (i : Nat) (hparts : parts ≠ [])
    (hphases : ∀ x ∈ parts, x.1.setup.phases = whole.setup.phases)
    (hsettings : ∀ x ∈ parts, x.1.setup.settings = whole.setup.settings)
    (hunits : (parts.flatMap fun x => x.1.units).Perm whole.units)
    (hcells : (parts.flatMap fun x => x.2).Perm cells) :
    (∃ outcomes, Complete (checks parts i) (trace whole.setup.phases) outcomes) ∧
      ∀ t outcomes, Complete (checks parts i) t outcomes → outcomes.map (Except.map Prod.fst) =
        .replicate parts.length (Except.map Prod.fst (whole.convergence (.serial : Communicator Id α) cells i)) := by
  have hmem (x) (hx : x ∈ parts.zipIdx) : x.1 ∈ parts := List.fst_mem_of_mem_zipIdx hx
  have hne : parts.zipIdx ≠ [] := mt List.zipIdx_eq_nil_iff.1 hparts
  have hspread {β : Type} (f : Model α × List (Cell α) → List β) :
      (parts.zipIdx.flatMap fun x => f x.1) = parts.flatMap f := by
    rw [← List.flatMap_map, List.zipIdx_map_fst]
  have hcount := hspread (fun x => x.2) ▸ hcells
  have hwells := hspread (fun x => x.1.units) ▸ hunits
  have hperforms := (convergence_performs whole.setup.phases parts.zipIdx (fun x => x.2) parts.length
    (fun x => x.1.1) (fun x => x.1.2) (fun x hx => hphases x.1 (hmem x hx)) fun _ => i).complete
  refine ⟨⟨_, hperforms⟩, fun t outcomes hc => List.eq_replicate_iff.2 ?_⟩
  rw [(Complete.unique (mt List.map_eq_nil_iff.1 hne) hc hperforms).2, List.map_map, List.length_map,
    List.length_zipIdx]
  refine ⟨rfl, List.forall_mem_map.2 fun x hx => ?_⟩
  rw [Function.comp_apply, convergence_serial, map_fst_assess, map_fst_assess, verdict_congr (hphases x.1 (hmem x hx))
    (hsettings x.1 (hmem x hx)), count_eq hcount, totals_eq _ hcount, anyBad_eq _ hne hwells, largest_eq _ hne hwells]

/-! ### Wells apart from the cells -/

deriving instance DecidableEq for NumericalCause, InvalidCause, WellError, Fault

/-- A model whose wells have given residuals. -/
def Model.ofResiduals (residuals : List (Vec3 (Computed ℚ))) : Model (Computed ℚ) where
  setup :=
    { phases := .threePhase
      settings := .standard
      pvt := ⟨"constant", 1, fun _ _ => .ok 1, fun _ _ _ _ _ => .ok (.const 1), fun _ _ _ => .ok (.const 0),
        fun _ _ _ => .ok (.const 0)⟩
      lift := ⟨[]⟩
      converter := none }
  units := residuals.map fun r =>
    { WellUnit.create (.producer "P" 0 [] ⟨[], 0⟩) with system := { WellSystem.empty [] with residual := r } }

/-- Two cells whose formation volume factors are `1` and `1 / 2`. -/
def twoCells : List (Cell (Computed ℚ)) :=
  let cell := Cell.still (.seed (.value 100) 0) (.value 300)
  [cell, { cell with invB := .replicate (.const (.value 2)) }]

/-- A process without wells and cells, one with the cells and two with a well each. -/
def wellsApart (r : Computed ℚ) : List (Model (Computed ℚ) × List (Cell (Computed ℚ))) :=
  [(.ofResiduals [], []), (.ofResiduals [], twoCells), (.ofResiduals [⟨0, r, 0⟩], []), (.ofResiduals [⟨0, 0, 0⟩], [])]

/-- The residual of a well is above the tolerance, and within it once it is scaled by the average factor of cells that
another process has.  If it is undefined, every process stops at the first phase. -/
theorem Model.convergence_agrees_wellsApart :
    (∃ outcomes, Complete (checks (wellsApart (.value (3 / 25000))) 1) (trace .threePhase) outcomes ∧
      outcomes.map (Except.map Prod.fst) = List.replicate 4 (.ok true)) ∧
    ∃ outcomes, Complete (checks (wellsApart .undefined) 1) (trace .threePhase) outcomes ∧
      outcomes.map (Except.map Prod.fst) = List.replicate 4 (.error (.numerical (.residualNotFinite .water))) := by
  have h (r : Computed ℚ) := Model.convergence_agrees (wellsApart r) (.ofResiduals [⟨0, r, 0⟩, ⟨0, 0, 0⟩]) twoCells 1
    (List.cons_ne_nil _ _) (by simp [wellsApart, Model.ofResiduals]) (by simp [wellsApart, Model.ofResiduals]) (.refl _)
    (.refl _)
  obtain ⟨⟨os, hos⟩, hall⟩ := h (.value (3 / 25000))
  obtain ⟨os', hos'⟩ := (h .undefined).1
  refine ⟨⟨os, hos, (hall _ os hos).trans (congrArg _ ?_)⟩,
    os', hos', ((h .undefined).2 _ os' hos').trans (congrArg _ ?_)⟩
  · decide +kernel
  · decide +kernel

end BlackOilWells
