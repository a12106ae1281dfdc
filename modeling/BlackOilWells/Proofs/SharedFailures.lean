import BlackOilWells.Numeric.Double
import BlackOilWells.Proofs.Reductions

/-!
# Shared failures

A process that has failed badly must stop the others, and one that has merely refused an input must not.  Each process
contributes a flag to one reduction: one for a failure that is fatal, and zero for anything else.  The largest flag says
on every process whether any of them has failed (`Communicator.combine_flags`); with it a process keeps the error that
it has, and gives up the result that it has if another one failed (`Communicator.sharing_outcomes`).

All that is asked of the numbers is that the two flags can be told apart (`Scalar.HasFlags`), which holds for exact
numbers and for doubles.
-/

namespace BlackOilWells

open Program Reduction

/-- Numbers in which zero and one may serve as flags. -/
class Scalar.HasFlags (α : Type) [Scalar α] : Prop where
  zero_lt_one : (0 : α) < 1
  not_zero_lt_zero : ¬(0 : α) < 0
  not_one_lt_zero : ¬(1 : α) < 0
  isNaN_one : Scalar.isNaN (1 : α) = false

instance {α : Type} [Scalar α] [Scalar.IsExact α] : Scalar.HasFlags α where
  zero_lt_one := Scalar.IsExact.zero_lt_one
  not_zero_lt_zero h := (Scalar.IsExact.lt_iff Scalar.IsExact.finite_zero Scalar.IsExact.finite_zero).1 h
    (Scalar.IsExact.le_refl Scalar.IsExact.finite_zero)
  not_one_lt_zero h := (Scalar.IsExact.lt_iff Scalar.IsExact.finite_one Scalar.IsExact.finite_zero).1 h
    Scalar.IsExact.zero_le_one
  isNaN_one := Scalar.IsExact.isNaN_eq Scalar.IsExact.finite_one

instance : Scalar.HasFlags Float := ⟨by decide, by decide, by decide, by decide⟩

/-- Processes come to an end with one list of results only, also if there are none of them. -/
theorem Program.Complete.outcomes_unique {α β : Type} [Scalar α] {ps : List (Program α β)} {t t' : List Reduction}
    {bs bs' : List β} (h : Complete ps t bs) (h' : Complete ps t' bs') : bs = bs' := by
  cases ps with
  | nil =>
    have hnil {t : List Reduction} {bs : List β} (h : Complete ([] : List (Program α β)) t bs) : bs = [] := by
      rw [Complete, steps_nil] at h
      exact List.map_eq_nil_iff.1 (Option.some.inj h).symm
    rw [hnil h, hnil h']
  | cons p ps => exact (Complete.unique (List.cons_ne_nil p ps) h h').2

namespace Communicator

variable {α β ι : Type} [Scalar α]

/-! ### Flags -/

/-- The flag of a test. -/
def flag (b : Bool) : α := if b then 1 else 0

section Flags

variable [Scalar.HasFlags α]

private theorem flag_pos_iff {b : Bool} : (0 : α) < flag b ↔ b = true := by
  cases b with
  | false => exact iff_of_false Scalar.HasFlags.not_zero_lt_zero Bool.false_ne_true
  | true => exact iff_of_true Scalar.HasFlags.zero_lt_one rfl

private theorem max_flag (b c : Bool) : Scalar.max (flag b) (flag c) = (flag (b || c) : α) := by
  have hzero {x y : α} (hxy : x < y) : Scalar.max x y = y := by
    rw [Scalar.max, if_pos hxy, ite_self]
  have hsame (x : α) : Scalar.max x x = x := by rw [Scalar.max, ite_self, ite_self]
  cases b with
  | false =>
    cases c with
    | false => exact hsame 0
    | true => exact hzero Scalar.HasFlags.zero_lt_one
  | true =>
    cases c with
    | false =>
      change Scalar.max (1 : α) 0 = 1
      rw [Scalar.max, Scalar.HasFlags.isNaN_one, if_neg Bool.false_ne_true, if_neg Scalar.HasFlags.not_one_lt_zero]
    | true => exact hsame 1

/-- The largest flag is that of the disjunction. -/
theorem combine_flags (bs : List Bool) : combine .max (bs.map flag) = (flag (bs.any id) : α) := by
  have hfold (bs : List Bool) (b : Bool) : (bs.map flag).foldl Scalar.max (flag b : α) = flag (b || bs.any id) := by
    induction bs generalizing b with
    | nil => rw [List.any_nil, Bool.or_false]; rfl
    | cons c bs ih => rw [List.map_cons, List.foldl_cons, max_flag, ih, List.any_cons, Bool.or_assoc]; rfl
  cases bs with
  | nil => rfl
  | cons b bs => exact hfold bs b

end Flags

/-! ### Sharing -/

/-- The result of an operation that may have reported an error, as an outcome. -/
def outcomeOf (r : Except (WellError α) β) : Outcome α β := r.mapError .error

/-- Several processes share whether they have failed, each with a result of its own. -/
def sharing (results : List (Except (WellError α) β)) : List (Program α (Outcome α β)) :=
  results.zipIdx.map fun x => (communicator x.2 results.length).shareFailure (outcomeOf x.1)

/-- What a process makes of its result if it knows whether any process has failed badly. -/
def shared (anyFailed : Bool) (rank : Nat) : Except (WellError α) β → Outcome α β
  | .ok b => if anyFailed then .error (.error (.aborted (.peerFailed rank))) else .ok b
  | .error e => .error (.error e)

private theorem shareFailure_eq (rank size : Nat) (r : Except (WellError α) β) :
    (communicator rank size).shareFailure (outcomeOf r) =
      reduce .max (flag (isFatal (outcomeOf r))) done >>= fun y => pure (shared (decide (0 < y)) rank r) := by
  cases r with
  | ok b =>
    refine congrArg (reduce .max _) (funext fun y => ?_)
    change (if 0 < y then done _ else done _) = done (if decide (0 < y) = true then _ else _)
    by_cases hy : 0 < y
    · rw [if_pos hy, if_pos (decide_eq_true hy)]
      rfl
    · rw [if_neg hy, if_neg (mt of_decide_eq_true hy)]
      rfl
  | error e => rfl

variable [Scalar.HasFlags α]

private theorem shareFailure_performs (xs : List ι) (rank : ι → Nat) (size : Nat) (r : ι → Except (WellError α) β) :
    Performs xs (fun x => (communicator (rank x) size).shareFailure (outcomeOf (r x))) [.max] fun x =>
      shared (xs.any fun x => isFatal (outcomeOf (r x))) (rank x) (r x) := by
  have h := (Performs.reduce xs .max fun x => (flag (isFatal (outcomeOf (r x))) : α)).map fun x y =>
    shared (decide (0 < y)) (rank x) (r x)
  have hflags : xs.map (fun x => (flag (isFatal (outcomeOf (r x))) : α)) =
      (xs.map fun x => isFatal (outcomeOf (r x))).map flag := by rw [List.map_map]; rfl
  simp only [hflags, combine_flags, flag_pos_iff, List.any_map, Bool.decide_eq_true] at h
  exact h.congr fun x _ => shareFailure_eq (rank x) size (r x)

omit [Scalar α] [Scalar.HasFlags α] in
private theorem any_isFatal_iff {results : List (Except (WellError α) β)} :
    (results.any fun r => isFatal (outcomeOf r)) = true ↔ ∃ e, .error e ∈ results ∧ e.isFatal = true := by
  rw [List.any_eq_true]
  constructor
  · rintro ⟨_ | b, hr, hfatal⟩
    · exact ⟨_, hr, hfatal⟩
    · cases hfatal
  · rintro ⟨e, he, hfatal⟩
    exact ⟨_, he, hfatal⟩

/-- The processes come to an end together, each with what it makes of its result. -/
theorem sharing_complete (results : List (Except (WellError α) β)) : Complete (sharing results) [.max]
    (results.zipIdx.map fun x => shared (results.any fun r => isFatal (outcomeOf r)) x.2 x.1) := by
  have h := (shareFailure_performs results.zipIdx (·.2) results.length (·.1)).complete
  have hany : (results.zipIdx.any fun x => isFatal (outcomeOf x.1)) = results.any fun r => isFatal (outcomeOf r) := by
    have hfst := List.any_map (f := Prod.fst) (l := results.zipIdx) (p := fun r => isFatal (outcomeOf r))
    rw [List.zipIdx_map_fst] at hfst
    exact hfst.symm
  rwa [hany] at h

/-- Any number of processes share their failures, whatever their results are.  They come to an end with one reduction,
and with nothing else.  If the error of one of them is fatal, all of them end in an error: those that had one in their
own, and the others in that of an aborted step.  Otherwise each keeps its result. -/
theorem sharing_outcomes (results : List (Except (WellError α) β)) :
    (∃ outcomes, Complete (sharing results) [.max] outcomes) ∧
    ∀ trace outcomes, Complete (sharing results) trace outcomes → outcomes.length = results.length ∧
      ((∃ e, .error e ∈ results ∧ e.isFatal = true) →
        ∀ (rank : Nat) (o : Outcome α β), outcomes[rank]? = some o → (∃ e, o = .error e) ∧
          (∀ e, results[rank]? = some (.error e) → o = .error (.error e)) ∧
          ∀ b, results[rank]? = some (.ok b) → o = .error (.error (.aborted (.peerFailed rank)))) ∧
      ((∀ e, .error e ∈ results → e.isFatal = false) → outcomes = results.map outcomeOf) := by
  refine ⟨⟨_, sharing_complete results⟩, fun trace outcomes hc => ?_⟩
  obtain rfl := hc.outcomes_unique (sharing_complete results)
  refine ⟨by rw [List.length_map, List.length_zipIdx], fun hfatal rank o ho => ?_, fun hnone => ?_⟩
  · rw [any_isFatal_iff.2 hfatal, List.getElem?_map, List.getElem?_zipIdx] at ho
    obtain ⟨x, hx, rfl⟩ := Option.map_eq_some_iff.1 ho
    obtain ⟨r, hr, rfl⟩ := Option.map_eq_some_iff.1 hx
    rw [hr, Nat.zero_add]
    cases r with
    | ok b => exact ⟨⟨_, rfl⟩, nofun, fun _ _ => rfl⟩
    | error e => exact ⟨⟨_, rfl⟩, fun _ h => by cases h; rfl, nofun⟩
  · have hany : (results.any fun r => isFatal (outcomeOf r)) = false := by
      refine Bool.eq_false_iff.2 fun h => ?_
      obtain ⟨e, he, hfatal⟩ := any_isFatal_iff.1 h
      rw [hnone e he] at hfatal
      cases hfatal
    have hkeeps : (fun x : Except (WellError α) β × Nat => shared false x.2 x.1) = outcomeOf ∘ Prod.fst := by
      funext ⟨r, rank⟩
      cases r <;> rfl
    rw [hany, hkeeps, ← List.map_map, List.zipIdx_map_fst]

/-! ### Four processes -/

/-- The second of four processes refuses an input, and the third one has a given result. -/
def fourResults (third : Except (WellError Float) Nat) : List (Except (WellError Float) Nat) :=
  [.ok 7, .error (.invalid .noIterations), third, .ok 5]

/-- With a logic error on the third process the first and the last abort; without it all keep their results. -/
theorem sharing_outcomes_fourResults :
    (∃ outcomes, Complete (sharing (fourResults (.error (.logic .noConverter)))) [.max] outcomes ∧
      outcomes[0]? = some (.error (.error (.aborted (.peerFailed 0)))) ∧
      outcomes[1]? = some (.error (.error (.invalid .noIterations))) ∧
      outcomes[2]? = some (.error (.error (.logic .noConverter))) ∧
      outcomes[3]? = some (.error (.error (.aborted (.peerFailed 3))))) ∧
    Complete (sharing (fourResults (.ok 1))) [.max] [.ok 7, .error (.error (.invalid .noIterations)), .ok 1, .ok 5] := by
  constructor
  · obtain ⟨⟨outcomes, hc⟩, hall⟩ := sharing_outcomes (fourResults (.error (.logic .noConverter)))
    obtain ⟨hlength, hfatal, -⟩ := hall _ _ hc
    have hends := hfatal ⟨.logic .noConverter, by simp [fourResults], rfl⟩
    have hat (rank : Nat) (hrank : rank < 4) : ∃ o, outcomes[rank]? = some o :=
      ⟨_, List.getElem?_eq_getElem (hlength ▸ hrank : rank < outcomes.length)⟩
    obtain ⟨o₀, h₀⟩ := hat 0 (by decide)
    obtain ⟨o₁, h₁⟩ := hat 1 (by decide)
    obtain ⟨o₂, h₂⟩ := hat 2 (by decide)
    obtain ⟨o₃, h₃⟩ := hat 3 (by decide)
    refine ⟨outcomes, hc, ?_⟩
    rw [h₀, h₁, h₂, h₃, (hends 0 o₀ h₀).2.2 _ rfl, (hends 1 o₁ h₁).2.1 _ rfl, (hends 2 o₂ h₂).2.1 _ rfl,
      (hends 3 o₃ h₃).2.2 _ rfl]
    exact ⟨rfl, rfl, rfl, rfl⟩
  · obtain ⟨⟨outcomes, hc⟩, hall⟩ := sharing_outcomes (fourResults (.ok 1))
    have hkeeps := (hall _ _ hc).2.2 fun e he => by
      obtain rfl : e = .invalid .noIterations := by simpa [fourResults] using he
      rfl
    rwa [hkeeps] at hc

end Communicator

end BlackOilWells
