import Mathlib.Data.Set.List
import BlackOilWells.Proofs.Agreement
import BlackOilWells.Proofs.LocalSolution
import BlackOilWells.Proofs.Rollback

/-!
# Processes out of step

An assembly checks convergence any number of times and then shares its failure (`Program.Checks`).  A check makes the
same reductions on all processes, but what ends the checks is not always reduced: a process may leave the rounds of its
local solution because an operation on its own wells stops, and go on with them because its own group is off the target.

So the reductions of processes that assemble together (`Process.assembleTogether`) match as long as all of them check.
After that either all leave together and come to an end, or one has left while another waits for the first sum of its
next check, and they wait for ever (`Process.assembleTogether_steps`).
-/

namespace BlackOilWells

open Program Attempt

variable {α β γ δ : Type} [Scalar α]

/-! ### Programs that check and leave -/

namespace Program

omit [Scalar α] in
/-- Whether a process has nothing left to do but to share whether it has failed; one that ended in an access out of
range does not do that. -/
def Leaves (p : Program α (Outcome α β)) : Prop :=
  p = done (.error .outOfRange) ∨ ∃ x, ∃ f : α → Outcome α β, p = reduce .max x fun y => done (f y)

/-- Programs that check convergence a number of times and then leave. -/
inductive Checks (phases : PhaseSet) (size : Nat) : Program α (Outcome α β) → Prop where
  | leaves {p} : Leaves p → Checks phases size p
  | check {m : Model α} {f : Outcome α (Bool × List (Notice α)) → Program α (Outcome α β)}
      (hm : m.setup.phases = phases) (rank : Nat) (cells : List (Cell α)) (i : Nat)
      (hf : ∀ o, Checks phases size (f o)) : Checks phases size (m.convergence (communicator rank size) cells i >>= f)

/-- A program that is about to check. -/
structure Checking (α β : Type) [Scalar α] (phases : PhaseSet) (size : Nat) where
  model : Model α
  rank : Nat
  cells : List (Cell α)
  iteration : Nat
  next : Outcome α (Bool × List (Notice α)) → Program α (Outcome α β)
  phases_eq : model.setup.phases = phases
  checks : ∀ o, Checks phases size (next o)

/-- The program. -/
def Checking.program {phases : PhaseSet} {size : Nat} (c : Checking α β phases size) : Program α (Outcome α β) :=
  c.model.convergence (communicator c.rank size) c.cells c.iteration >>= c.next

/-- The reductions of a number of checks. -/
def traces (phases : PhaseSet) (n : Nat) : List Reduction := (List.replicate n (Convergence.trace phases)).flatten

variable {phases : PhaseSet} {size : Nat}

private theorem Checking.awaits_program (c : Checking α β phases size) : c.program.awaits = some .sum := rfl

private theorem Checks.leaves_or {p : Program α (Outcome α β)} (h : Checks phases size p) :
    Leaves p ∨ p ∈ Set.range (Checking.program : Checking α β phases size → _) := by
  cases h with
  | leaves h => exact .inl h
  | @check m f hm rank cells i hf => exact .inr ⟨⟨m, rank, cells, i, f, hm, hf⟩, rfl⟩

/-- A check of all processes ends on all of them. -/
private theorem Checking.steps_trace (cs : List (Checking α β phases size)) : ∃ o : Checking α β phases size → _,
    steps (Convergence.trace phases) (cs.map Checking.program) = some (cs.map fun c => c.next (o c)) :=
  ⟨_, (Convergence.convergence_performs phases cs (·.rank) size (·.model) (·.cells) (fun c _ => c.phases_eq)
    (·.iteration)).run fun c => c.next⟩

/-- Processes that check and leave make the same reductions up to a place where one of them leaves.  There all of them
leave, or another one waits for the first sum of its next check. -/
private theorem Checks.steps_traces {ps : List (Program α (Outcome α β))} (h : ∀ p ∈ ps, Checks phases size p) :
    ∃ n qs, steps (traces phases n) ps = some qs ∧
      ((∀ q ∈ qs, Leaves q) ∨ (∃ q ∈ qs, Leaves q) ∧ ∃ q ∈ qs, q.awaits = some .sum) := by
  cases ps with
  | nil => exact ⟨0, [], rfl, .inl nofun⟩
  | cons p ps =>
  obtain ⟨hp, hps⟩ := List.forall_mem_cons.1 h
  clear h
  -- the first process says how many checks are to come; the others have a say only in whether they make them too
  induction hp generalizing ps with
  | @leaves p hp =>
    refine ⟨0, p :: ps, rfl, ?_⟩
    by_cases hall : ∀ q ∈ ps, Leaves q
    · exact .inl (List.forall_mem_cons.2 ⟨hp, hall⟩)
    · push Not at hall
      obtain ⟨q, hq, hn⟩ := hall
      obtain ⟨c, rfl⟩ := (hps q hq).leaves_or.resolve_left hn
      exact .inr ⟨⟨p, List.mem_cons_self .., hp⟩, _, List.mem_cons_of_mem p hq, c.awaits_program⟩
  | @check m f hm rank cells i hf ih =>
    let c : Checking α β phases size := ⟨m, rank, cells, i, f, hm, hf⟩
    by_cases hone : ∃ q ∈ ps, Leaves q
    · obtain ⟨q, hq, hl⟩ := hone
      exact ⟨0, _, rfl, .inr ⟨⟨q, List.mem_cons_of_mem _ hq, hl⟩, _, List.mem_cons_self .., c.awaits_program⟩⟩
    · -- all processes check
      push Not at hone
      obtain ⟨cs, rfl⟩ : ps ∈ Set.range (List.map (Checking.program : Checking α β phases size → _)) := by
        rw [Set.range_list_map]
        exact fun q hq => (hps q hq).leaves_or.resolve_left (hone q hq)
      obtain ⟨o, ho⟩ := Checking.steps_trace (c :: cs)
      obtain ⟨n, qs, hn, hqs⟩ := ih (o c) (cs.map fun c => c.next (o c)) (List.forall_mem_map.2 fun c _ => c.checks _)
      refine ⟨n + 1, qs, ?_, hqs⟩
      rw [traces, List.replicate_succ, List.flatten_cons, steps_append]
      exact (congrArg (·.bind (steps (traces phases n))) ho).trans hn

omit [Scalar α] in
private theorem Leaves.awaits {p : Program α (Outcome α β)} (h : Leaves p) (hp : p ≠ done (.error .outOfRange)) :
    p.awaits = some .max := by
  obtain h | ⟨x, f, rfl⟩ := h
  · exact absurd h hp
  · rfl

/-- Processes that have nothing left to do but to share their failures do so and come to an end. -/
private theorem Leaves.complete {ps : List (Program α (Outcome α β))} (h : ∀ p ∈ ps, Leaves p)
    (hps : ∀ p ∈ ps, p ≠ done (.error .outOfRange)) : ∃ outcomes, Complete ps [.max] outcomes := by
  let program (l : α × (α → Outcome α β)) : Program α (Outcome α β) := reduce .max l.1 fun y => done (l.2 y)
  obtain ⟨ls, rfl⟩ : ps ∈ Set.range (List.map program) := by
    rw [Set.range_list_map]
    intro p hp
    obtain ⟨x, f, rfl⟩ := (h p hp).resolve_left (hps p hp)
    exact ⟨(x, f), rfl⟩
  refine ⟨ls.map fun l => l.2 (Reduction.max.combine (ls.map (·.1))), ?_⟩
  rw [Complete, steps, step_map, Option.bind_some, List.map_map]
  rfl

end Program

/-! ### Sessions that check and leave -/

namespace Session

variable {phases : PhaseSet} {size : Nat}

omit [Scalar α] in
private theorem runWith_tryCatch (x : Step (Program α) α γ β) (f : Fault α → Step (Program α) α γ β)
    (s : Session α γ) : (tryCatch x f : Step (Program α) α γ β) s = x s >>= fun p => match p with
      | (.ok b, t) => pure (.ok b, t)
      | (.error e, t) => f e t := by
  change ExceptT.tryCatch x f s = _
  unfold ExceptT.tryCatch ExceptT.mk
  change StateT.bind x _ s = _
  unfold StateT.bind
  refine bind_congr fun p => ?_
  rcases p with ⟨_ | _, t⟩ <;> rfl

/-- Whether an operation of a session with given phases keeps the phases and does no more than check: if all that
follows checks and leaves, so does the whole. -/
def OnlyChecks (phases : PhaseSet) (size : Nat) (act : Step (Program α) α γ β) : Prop :=
  ∀ (k : Outcome α β × Session α γ → Program α (Outcome α SolveReport)) (s : Session α γ),
    s.model.setup.phases = phases → (∀ o t, t.model.setup.phases = phases → Checks phases size (k (o, t))) →
    Checks phases size (act s >>= k)

namespace OnlyChecks

private theorem of_lift {act : Attempt α (Session α γ) β} (h : Maintains (fun s => s.model.setup.phases = phases) act) :
    OnlyChecks phases size (Attempt.lift act : Step (Program α) α γ β) :=
  fun _ s hs hk => hk _ _ (h s hs)

private theorem pure (b : β) : OnlyChecks phases size (pure b : Step (Program α) α γ β) := fun _ _ hs hk => hk _ _ hs

private theorem throw (e : Fault α) :
    OnlyChecks phases size (throw e : Step (Program α) α γ β) := fun _ _ hs hk => hk _ _ hs

private theorem outcome (o : Outcome α β) : OnlyChecks phases size (liftM o : Step (Program α) α γ β) :=
  fun _ _ hs hk => hk _ _ hs

private theorem get_bind {f : Session α γ → Step (Program α) α γ β}
    (h : ∀ s, s.model.setup.phases = phases → OnlyChecks phases size (f s)) : OnlyChecks phases size (get >>= f) :=
  fun k s hs hk => h s hs k s hs hk

private theorem convergence {m : Model α} (hm : m.setup.phases = phases) (rank : Nat) (cells : List (Cell α))
    (i : Nat) :
    OnlyChecks phases size (liftM (m.convergence (communicator rank size) cells i) : Step (Program α) α γ _) := by
  intro k s hs hk
  change Checks phases size (((m.convergence (communicator rank size) cells i >>= fun o => Pure.pure (o, s)) >>=
    fun p => Pure.pure (Except.ok p.1, p.2)) >>= k)
  rw [bind_assoc, bind_assoc]
  exact .check hm rank cells i fun o => hk _ _ hs

private theorem bind {x : Step (Program α) α γ β} {f : β → Step (Program α) α γ δ} (hx : OnlyChecks phases size x)
    (hf : ∀ b, OnlyChecks phases size (f b)) : OnlyChecks phases size (x >>= f) := by
  intro k s hs hk
  change Checks phases size ((x s >>= fun p => ExceptT.bindCont f p.1 p.2) >>= k)
  rw [bind_assoc]
  refine hx _ s hs fun o t ht => ?_
  cases o with
  | error e => exact hk _ _ ht
  | ok b => exact hf b k t ht hk

private theorem tryCatch {x : Step (Program α) α γ β} {f : Fault α → Step (Program α) α γ β}
    (hx : OnlyChecks phases size x)
    (hf : ∀ e, OnlyChecks phases size (f e)) : OnlyChecks phases size (tryCatch x f) := by
  intro k s hs hk
  rw [runWith_tryCatch, bind_assoc]
  refine hx _ s hs fun o t ht => ?_
  cases o with
  | error e => exact hf e k t ht hk
  | ok b => exact hk _ _ ht

private theorem of_setup {act : Attempt α (Session α γ) β}
    (h : ∀ c : Setup α, Maintains (fun s => s.model.setup = c) act) :
    OnlyChecks phases size (Attempt.lift act : Step (Program α) α γ β) :=
  .of_lift fun s hs => (congrArg Setup.phases (h s.model.setup s rfl)).trans hs

private theorem note (ns : List (Notice α)) :
    OnlyChecks phases size (Attempt.lift (Session.note ns) : Step (Program α) α γ Unit) := .of_lift fun _ hs => hs

private theorem check (rank : Nat) (cells : List (Cell α)) (i : Nat) :
    OnlyChecks phases size (Session.check (communicator rank size) cells i : Step (Program α) α γ Bool) :=
  .get_bind fun _ hs => .bind (.convergence hs rank cells i) fun o => .bind (.outcome o) fun x =>
    .bind (.note x.2) fun _ => .pure x.1

variable [GroupControl α γ]

private theorem assembleWells (cells : List (Cell α)) (dt : α) : OnlyChecks phases size
    (Attempt.lift (Session.assembleWells cells dt) : Step (Program α) α γ Unit) :=
  .of_setup fun c => assembleWells_maintains (stable_setup c) cells dt

private theorem iterate (rank : Nat) (cells : List (Cell α)) (dt : α) (k i : Nat) : OnlyChecks phases size
    (Session.iterate (communicator rank size) cells dt k i : Step (Program α) α γ SolveReport) := by
  induction k generalizing i with
  | zero => exact .pure _
  | succ k ih =>
    rw [Session.iterate]
    refine .bind (.assembleWells cells dt) fun _ => .bind (.check rank cells i) fun c => .get_bind fun s _ => ?_
    split
    · exact .pure _
    · exact .bind (.of_setup fun c => advance_maintains (stable_setup c) cells) fun _ => ih (i + 1)

private theorem solve (rank : Nat) (cells : List (Cell α)) (dt : α) : OnlyChecks phases size
    (Session.solve (communicator rank size) cells dt : Step (Program α) α γ SolveReport) := by
  refine .get_bind fun s _ => .bind (.tryCatch (.bind (.iterate rank cells dt _ 0) fun r => ?_) fun e => ?_) fun e => ?_
  · dsimp only
    split
    · exact .bind (.note _) fun _ => .pure _
    · exact .bind (.of_setup fun c => Maintains.bind (note_maintains (stable_setup c) _) fun _ =>
        restore_maintains (stable_setup c) s.flow) fun _ => .pure _
  · exact .bind (.of_setup fun c => restore_maintains (stable_setup c) s.flow) fun _ =>
      .bind (.throw e) fun _ => .pure _
  · cases e with
    | error r => exact .pure r
    | ok r => exact .pure r

private theorem assembleLocally (rank : Nat) (cells : List (Cell α)) (dt : α) (i : Nat) : OnlyChecks phases size
    (Session.assembleLocally (communicator rank size) cells dt i : Step (Program α) α γ SolveReport) := by
  have hrest (r : SolveReport) : OnlyChecks phases size (Attempt.lift (Session.assembleWells cells dt >>= fun _ =>
      onFlow FlowState.countChange) >>= fun _ => Pure.pure r : Step (Program α) α γ SolveReport) := by
    refine .bind (.of_setup fun c => ?_) fun _ => .pure r
    exact (assembleWells_maintains (stable_setup c) cells dt).bind fun _ => onFlow_maintains (stable_setup c) _
  refine .bind (.of_setup fun c => ?_) fun _ => .get_bind fun s _ => ?_
  · exact prepare_maintains (stable_setup c) (fun _ hm h => hm.trans h) cells dt i
  dsimp only
  split
  · exact .bind (.solve rank cells dt) hrest
  · exact .bind (.pure _) hrest

end OnlyChecks

/-- Sharing a failure is all that is left. -/
private theorem leaves_shareFailure (rank : Nat) (r : Outcome α β) :
    Leaves ((communicator rank size).shareFailure r) := by
  rcases r with (e | _) | b
  · exact .inr ⟨_, fun _ => .error (.error e), rfl⟩
  · exact .inl rfl
  · refine .inr ⟨if Communicator.isFatal (.ok b : Outcome α β) then 1 else 0,
      fun y => if 0 < y then .error (.error (.aborted (.peerFailed rank))) else .ok b, ?_⟩
    exact congrArg (reduce .max _) (funext fun y => (apply_ite done _ _ _).symm)

/-- An assembly checks a number of times and then shares whether it has failed. -/
theorem assemble_checks [GroupControl α γ] (rank : Nat) (cells : List (Cell α)) (dt : α) (i : Nat) (s : Session α γ)
    (hs : s.model.setup.phases = phases) :
    Checks phases size (Prod.fst <$> assemble (communicator rank size) cells dt i s) := by
  unfold assemble
  rw [map_eq_pure_bind, bind_assoc]
  refine OnlyChecks.assembleLocally rank cells dt i _ s hs fun o t _ => .leaves ?_
  simp only [bind_assoc, pure_bind, bind_pure]
  exact leaves_shareFailure rank o

end Session

/-! ### Processes that assemble together -/

/-- A process: a session with groups of its own and the cells that it holds. -/
structure Process (α : Type) [Scalar α] where
  {γ : Type}
  [groupControl : GroupControl α γ]
  session : Session α γ
  cells : List (Cell α)

namespace Process

open Session (replacingPair pairCell)

attribute [instance] Process.groupControl

/-- The assembly of one of several processes. -/
def assemble (x : Process α) (rank size : Nat) (dt : α) (i : Nat) : Program α (Outcome α SolveReport) :=
  Prod.fst <$> x.session.assemble (communicator rank size) x.cells dt i

/-- Several processes assemble together. -/
def assembleTogether (xs : List (Process α)) (dt : α) (i : Nat) : List (Program α (Outcome α SolveReport)) :=
  xs.zipIdx.map fun x => x.1.assemble x.2 xs.length dt i

/-- The reductions of processes that assemble together match in a number of checks.  After that all of them share their
failures and come to an end; or one has ended in an access out of range; or one is about to share its failure while
another one is about to check again, and they come to no end. -/
theorem assembleTogether_steps {phases : PhaseSet} (xs : List (Process α)) (dt : α) (i : Nat)
    (hphases : ∀ x ∈ xs, x.session.model.setup.phases = phases) :
    ∃ n qs, steps (traces phases n) (assembleTogether xs dt i) = some qs ∧
      ((∃ outcomes, Complete (assembleTogether xs dt i) (traces phases n ++ [.max]) outcomes) ∨
        (∃ q ∈ qs, q = done (.error .outOfRange)) ∨
        (∃ q ∈ qs, q.awaits = some .max) ∧ (∃ q ∈ qs, q.awaits = some .sum) ∧
          ∀ trace outcomes, ¬Complete (assembleTogether xs dt i) trace outcomes) := by
  have hchecks : ∀ p ∈ assembleTogether xs dt i, Checks phases xs.length p := List.forall_mem_map.2 fun x hx =>
    Session.assemble_checks x.2 x.1.cells dt i x.1.session (hphases x.1 (List.fst_mem_of_mem_zipIdx hx))
  obtain ⟨n, qs, hn, h⟩ := Checks.steps_traces hchecks
  refine ⟨n, qs, hn, ?_⟩
  by_cases hrange : ∃ q ∈ qs, q = done (.error .outOfRange)
  · exact .inr (.inl hrange)
  push Not at hrange
  rcases h with hall | ⟨⟨q, hq, hl⟩, q', hq', hs⟩
  · obtain ⟨outcomes, hc⟩ := Leaves.complete hall hrange
    refine .inl ⟨outcomes, ?_⟩
    rw [Complete, steps_append, hn]
    exact hc
  · have hm := hl.awaits (hrange q hq)
    refine .inr (.inr ⟨⟨q, hq, hm⟩, ⟨q', hq', hs⟩, ?_⟩)
    refine not_complete_of_steps hn (not_complete_of_awaits hq hq' ?_)
    rw [hm, hs]
    decide

/-! ### A group on one process -/

/-- A producer and an injector that is on the control of its group already, but not at the rate that replaces what the
producer takes out.  Any residual is small enough. -/
def settledPair (groups : Option (VoidageGroup ℚ)) : Process ℚ where
  session :=
    { model :=
        { replacingPair.model with
          setup :=
            { replacingPair.model.setup with
              settings := { Settings.standard with maxLocalIterations := 3, tolerance := 1000 } } }
      flow := { replacingPair.flow with control := [0, 1] }
      groups
      notices := [] }
  cells := pairCell

/-- The pair under its group on one process and without groups on another one. -/
def dividedPairs : List (Process ℚ) := [settledPair (some replacingPair.groups), settledPair none]

private theorem phases_dividedPairs : ∀ x ∈ dividedPairs, x.session.model.setup.phases = .oilWater := by
  simp [dividedPairs, settledPair, replacingPair]

/-- The pairs come to a place where they either share their failures or differ. -/
theorem assembleTogether_steps_dividedPairs :
    (∀ x ∈ dividedPairs, x.session.model.setup.phases = .oilWater) ∧
    ∃ n qs, steps (traces .oilWater n) (assembleTogether dividedPairs 1 0) = some qs ∧
      ((∃ outcomes, Complete (assembleTogether dividedPairs 1 0) (traces .oilWater n ++ [.max]) outcomes) ∨
        (∃ q ∈ qs, q = done (.error .outOfRange)) ∨
        (∃ q ∈ qs, q.awaits = some .max) ∧ (∃ q ∈ qs, q.awaits = some .sum) ∧
          ∀ trace outcomes, ¬Complete (assembleTogether dividedPairs 1 0) trace outcomes) :=
  ⟨phases_dividedPairs, assembleTogether_steps dividedPairs 1 0 phases_dividedPairs⟩

/-- With the same phases and settings, the pair under its group goes on to a second check when the other one has done
with checks.  They come to no end. -/
theorem not_complete_dividedPairs :
    (∀ x ∈ dividedPairs, ∀ y ∈ dividedPairs, x.session.model.setup.phases = y.session.model.setup.phases ∧
      x.session.model.setup.settings = y.session.model.setup.settings) ∧
    ∀ trace outcomes, ¬Complete (assembleTogether dividedPairs 1 0) trace outcomes := by
  refine ⟨by simp [dividedPairs, settledPair], ?_⟩
  have h : (steps (Convergence.trace .oilWater) (assembleTogether dividedPairs 1 0)).map (·.map awaits) =
      some [some .sum, some .max] := by decide +kernel
  obtain ⟨qs, hqs, h⟩ := Option.map_eq_some_iff.1 h
  obtain ⟨q, qs, rfl, hq, h⟩ := List.map_eq_cons_iff.1 h
  obtain ⟨q', qs', rfl, hq', -⟩ := List.map_eq_cons_iff.1 h
  refine not_complete_of_steps hqs (not_complete_of_awaits (List.mem_cons_self ..)
    (List.mem_cons_of_mem q (List.mem_cons_self ..)) ?_)
  rw [hq, hq']
  decide

end Process

end BlackOilWells
