import Mathlib.Algebra.Group.Basic
import BlackOilWells.Model.Processes

/-!
# Processes in step

What several processes do together.  Up to its next reduction a process runs on its own; there it contributes a value
and waits for the combined one (`Program`).  The processes go on only if all of them wait for a reduction of the same
kind (`Program.step`).  Where one waits for another kind, or has already returned, the others wait for ever: only
processes that issue the same sequence of reductions come to an end together (`Program.Complete`).

`Program.communicator` is how one of the processes takes part.  `Program.Performs` states which reductions a part of
all programs makes and what it then knows on each process; it is closed under sequences.
-/

namespace BlackOilWells

/-- A reduction over all processes. -/
inductive Reduction where
  /-- The largest contribution. -/
  | max
  /-- The sum of the contributions. -/
  | sum
deriving DecidableEq, Repr

/-- The combined value of all contributions. -/
def Reduction.combine {α : Type} [Scalar α] : Reduction → List α → α
  | .sum, xs => xs.sum
  | .max, [] => 0
  | .max, x :: xs => xs.foldl Scalar.max x

/-- What a process does: it returns, or it contributes a value to a reduction and goes on with the combined value. -/
inductive Program (α β : Type) where
  | done (b : β)
  | reduce (r : Reduction) (x : α) (next : α → Program α β)

namespace Program

variable {α β δ τ : Type}

/-- One program after the other. -/
def bind : Program α β → (β → Program α δ) → Program α δ
  | done b, f => f b
  | reduce r x next, f => reduce r x fun y => (next y).bind f

instance : Monad (Program α) where
  pure := done
  bind := bind

@[simp] theorem pure_eq (b : β) : (pure b : Program α β) = done b := rfl

@[simp] theorem done_bind (b : β) (f : β → Program α δ) : done b >>= f = f b := rfl

@[simp] theorem reduce_bind (r : Reduction) (x : α) (next : α → Program α β) (f : β → Program α δ) :
    reduce r x next >>= f = reduce r x fun y => next y >>= f := rfl

theorem bind_done (p : Program α β) : p >>= done = p := by
  induction p with
  | done b => rfl
  | reduce r x next ih => exact congrArg (reduce r x) (funext ih)

theorem bind_bind (p : Program α β) (f : β → Program α δ) (g : δ → Program α τ) :
    p >>= f >>= g = p >>= fun b => f b >>= g := by
  induction p with
  | done b => rfl
  | reduce r x next ih => exact congrArg (reduce r x) (funext ih)

instance : LawfulMonad (Program α) := LawfulMonad.mk' (Program α)
  (fun p => bind_done p) (fun _ _ => rfl) bind_bind

/-- A process among others. -/
def communicator (rank size : Nat) : Communicator (Program α) α where
  rank := rank
  size := size
  max x := reduce .max x done
  sum x := reduce .sum x done

/-- The kind of the reduction that a process waits for. -/
def awaits : Program α β → Option Reduction
  | done _ => none
  | reduce r _ _ => some r

/-- The contribution to a reduction of a given kind, and how the process goes on. -/
def contribution? (r : Reduction) : Program α β → Option (α × (α → Program α β))
  | done _ => none
  | reduce r' x next => if r' = r then some (x, next) else none

private theorem contribution?_eq_some_iff {r : Reduction} {p : Program α β} {x : α} {next : α → Program α β} :
    p.contribution? r = some (x, next) ↔ p = reduce r x next := by
  cases p with
  | done b => exact ⟨nofun, nofun⟩
  | reduce r' y next' =>
    rw [contribution?, Option.ite_none_right_eq_some, Option.some.injEq, Prod.mk.injEq, reduce.injEq]

variable [Scalar α]

/-! ### Joint runs -/

/-- One reduction of all processes.  There is none unless all of them wait for one of this kind. -/
def step (r : Reduction) (ps : List (Program α β)) : Option (List (Program α β)) := do
  let qs ← ps.mapM (·.contribution? r)
  return qs.map fun q => q.2 (r.combine (qs.map (·.1)))

/-- A sequence of reductions of all processes. -/
def steps : List Reduction → List (Program α β) → Option (List (Program α β))
  | [], ps => some ps
  | r :: trace, ps => (step r ps).bind (steps trace)

/-- Whether all processes issue a given sequence of reductions and return given results. -/
def Complete (ps : List (Program α β)) (trace : List Reduction) (bs : List β) : Prop :=
  steps trace ps = some (bs.map done)

theorem steps_append (t t' : List Reduction) (ps : List (Program α β)) :
    steps (t ++ t') ps = (steps t ps).bind (steps t') := by
  induction t generalizing ps with
  | nil => rfl
  | cons r t ih =>
    rw [List.cons_append, steps, steps, Option.bind_assoc]
    exact congrArg _ (funext ih)

/-- Processes that wait for the same kind of reduction go on with the combined value. -/
theorem step_map {ι : Type*} (r : Reduction) (xs : List ι) (v : ι → α) (next : ι → α → Program α β) :
    step r (xs.map fun x => reduce r (v x) (next x)) = some (xs.map fun x => next x (r.combine (xs.map v))) := by
  have hqs : (xs.map fun x => reduce r (v x) (next x)).mapM (contribution? r) =
      some (xs.map fun x => (v x, next x)) := by
    induction xs with
    | nil => rfl
    | cons x xs ih =>
      rw [List.map_cons, List.mapM_cons, ih, contribution?_eq_some_iff.2 rfl]
      rfl
  unfold step
  rw [hqs]
  simp only [Option.bind_eq_bind, Option.bind_some, List.map_map, Function.comp_def, Option.pure_def]

/-- In a step all processes wait for the reduction. -/
theorem awaits_of_step {r : Reduction} {ps qs : List (Program α β)} (h : step r ps = some qs) :
    ∀ p ∈ ps, p.awaits = some r := by
  obtain ⟨cs, hcs, -⟩ := Option.bind_eq_some_iff.1 h
  clear h
  induction ps generalizing cs with
  | nil => exact nofun
  | cons p ps ih =>
    rw [List.mapM_cons] at hcs
    obtain ⟨c, hc, hcs⟩ := Option.bind_eq_some_iff.1 hcs
    obtain ⟨cs', hcs', -⟩ := Option.bind_eq_some_iff.1 hcs
    refine List.forall_mem_cons.2 ⟨?_, ih cs' hcs'⟩
    rw [contribution?_eq_some_iff.1 (show p.contribution? r = some (c.1, c.2) from hc)]
    rfl

/-- Processes that wait for different reductions, or do not all wait, come to no end. -/
theorem not_complete_of_awaits {ps : List (Program α β)} {p q : Program α β} (hp : p ∈ ps) (hq : q ∈ ps)
    (h : p.awaits ≠ q.awaits) (trace : List Reduction) (bs : List β) : ¬Complete ps trace bs := by
  intro hc
  cases trace with
  | nil =>
    have hps : ps = bs.map done := Option.some.inj hc
    have hdone (q) (hq : q ∈ ps) : q.awaits = none := by
      rw [hps] at hq
      obtain ⟨b, -, rfl⟩ := List.mem_map.1 hq
      rfl
    exact h ((hdone p hp).trans (hdone q hq).symm)
  | cons r trace =>
    obtain ⟨qs, hqs, -⟩ := Option.bind_eq_some_iff.1 hc
    exact h ((awaits_of_step hqs p hp).trans (awaits_of_step hqs q hq).symm)

private theorem ne_nil_of_step {r : Reduction} {ps qs : List (Program α β)} (hps : ps ≠ []) (h : step r ps = some qs) :
    qs ≠ [] := by
  obtain ⟨cs, hcs, h⟩ := Option.bind_eq_some_iff.1 h
  rintro rfl
  cases ps with
  | nil => exact hps rfl
  | cons p ps =>
    rw [List.mapM_cons] at hcs
    obtain ⟨c, -, hcs⟩ := Option.bind_eq_some_iff.1 hcs
    obtain ⟨cs', -, hcs⟩ := Option.bind_eq_some_iff.1 hcs
    cases hcs
    cases h

/-- Processes that wait for a reduction come to an end only through it. -/
theorem complete_of_step {r : Reduction} {ps qs : List (Program α β)} (hps : ps ≠ []) (h : step r ps = some qs)
    {t : List Reduction} {bs : List β} (hc : Complete ps t bs) : ∃ t', t = r :: t' ∧ Complete qs t' bs := by
  obtain ⟨p, hp⟩ := List.exists_mem_of_ne_nil ps hps
  have hr := awaits_of_step h p hp
  cases t with
  | nil =>
    rw [show ps = bs.map done from Option.some.inj hc] at hp
    obtain ⟨b, -, rfl⟩ := List.mem_map.1 hp
    cases hr
  | cons r' t' =>
    obtain ⟨qs', hqs', hc⟩ := Option.bind_eq_some_iff.1 hc
    cases hr.symm.trans (awaits_of_step hqs' p hp)
    cases h.symm.trans hqs'
    exact ⟨t', rfl, hc⟩

/-- Processes come to an end with one sequence of reductions only, and with one list of results. -/
theorem Complete.unique {ps : List (Program α β)} (hps : ps ≠ []) {t t' : List Reduction} {bs bs' : List β}
    (h : Complete ps t bs) (h' : Complete ps t' bs') : t = t' ∧ bs = bs' := by
  induction t generalizing ps t' with
  | nil =>
    have hb : ps = bs.map done := Option.some.inj h
    cases t' with
    | nil =>
      have hb' : ps = bs'.map done := Option.some.inj h'
      exact ⟨rfl, List.map_inj_right (fun _ _ h => done.inj h) |>.1 (hb.symm.trans hb')⟩
    | cons r t' =>
      obtain ⟨qs, hqs, -⟩ := Option.bind_eq_some_iff.1 h'
      obtain ⟨_, ht, -⟩ := complete_of_step hps hqs h
      cases ht
  | cons r t ih =>
    obtain ⟨qs, hqs, h⟩ := Option.bind_eq_some_iff.1 h
    obtain ⟨t₁, rfl, hqs'⟩ := complete_of_step hps hqs h'
    obtain ⟨rfl, hb⟩ := ih (ne_nil_of_step hps hqs) h hqs'
    exact ⟨rfl, hb⟩

theorem steps_nil (t : List Reduction) : steps t ([] : List (Program α β)) = some [] := by
  induction t with
  | nil => rfl
  | cons r t ih => exact ih

/-- Where processes have got to a place from where they come to no end, they had come to none before. -/
theorem not_complete_of_steps {ps qs : List (Program α β)} {t : List Reduction} (h : steps t ps = some qs)
    (hqs : ∀ trace bs, ¬Complete qs trace bs) (trace : List Reduction) (bs : List β) : ¬Complete ps trace bs := by
  have hps : ps ≠ [] := by
    rintro rfl
    cases (steps_nil t).symm.trans h
    exact hqs [] [] rfl
  induction t generalizing ps trace with
  | nil =>
    cases h
    exact hqs trace bs
  | cons r t ih =>
    obtain ⟨ps', hstep, h⟩ := Option.bind_eq_some_iff.1 h
    intro hc
    obtain ⟨t', -, hc⟩ := complete_of_step hps hstep hc
    exact ih h t' (ne_nil_of_step hps hstep) hc

/-! ### Parts of programs -/

/-- Whether the programs `p x` make the reductions `t` together and then know `b x`. -/
structure Performs {ι : Type*} (xs : List ι) (p : ι → Program α β) (t : List Reduction) (b : ι → β) : Prop where
  /-- Whatever follows. -/
  run : ∀ {δ : Type} (f : ι → β → Program α δ),
    steps t (xs.map fun x => p x >>= f x) = some (xs.map fun x => f x (b x))

namespace Performs

variable {ι : Type*} {xs : List ι}

theorem pure (xs : List ι) (b : ι → β) : Performs xs (fun x => (pure (b x) : Program α β)) [] b := ⟨fun _ => rfl⟩

theorem reduce (xs : List ι) (r : Reduction) (v : ι → α) :
    Performs xs (fun x => Program.reduce r (v x) done) [r] fun _ => r.combine (xs.map v) := by
  refine ⟨fun f => ?_⟩
  simp only [reduce_bind, done_bind, steps, step_map, Option.bind_some]

theorem congr {p p' : ι → Program α β} {t : List Reduction} {b : ι → β} (hp : Performs xs p t b)
    (h : ∀ x ∈ xs, p' x = p x) : Performs xs p' t b := by
  refine ⟨fun f => ?_⟩
  rw [List.map_congr_left fun x hx => congrArg (· >>= f x) (h x hx)]
  exact hp.run f

theorem bind {p : ι → Program α β} {t t' : List Reduction} {b : ι → β} {f : ι → β → Program α δ} {c : ι → δ}
    (hp : Performs xs p t b) (hf : Performs xs (fun x => f x (b x)) t' c) :
    Performs xs (fun x => p x >>= f x) (t ++ t') c := by
  refine ⟨fun g => ?_⟩
  simp only [bind_assoc]
  rw [steps_append, hp.run, Option.bind_some]
  exact hf.run g

theorem map {p : ι → Program α β} {t : List Reduction} {b : ι → β} (hp : Performs xs p t b) (f : ι → β → δ) :
    Performs xs (fun x => p x >>= fun y => Pure.pure (f x y)) t fun x => f x (b x) := by
  have h : Performs xs (fun x => p x >>= fun y => Pure.pure (f x y)) (t ++ []) fun x => f x (b x) :=
    hp.bind (f := fun x y => Pure.pure (f x y)) (Performs.pure xs fun x => f x (b x))
  rwa [List.append_nil] at h

theorem complete {p : ι → Program α β} {t : List Reduction} {b : ι → β} (hp : Performs xs p t b) :
    Complete (xs.map p) t (xs.map b) := by
  have h := hp.run fun _ => done
  simp only [bind_done] at h
  rw [Complete, h, List.map_map]
  rfl

end Performs

end Program

end BlackOilWells
