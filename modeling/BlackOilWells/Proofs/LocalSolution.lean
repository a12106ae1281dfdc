import BlackOilWells.Proofs.Exact
import BlackOilWells.Proofs.Sessions

/-!
# The local solution

The wells are solved on their own in rounds (`Session.Round`): assemble, check, apply the Newton steps.  The iteration
makes at most as many rounds as it is given, and says so: either all of them, without success, or fewer, up to one that
succeeds or stops (`Session.run_iterate`).

After a success the wells are assembled once more.  That changes nothing (`Model.assemble_again`), so the system that
is left behind is the one that was checked (`Session.assemble_localSolution`).
-/

namespace BlackOilWells

open Attempt

variable {α γ : Type} [Scalar α]

/-! ### Checks -/

private theorem Communicator.shareFailure_ok {β : Type} {comm : Communicator Id α} {r : Outcome α β} {b : β} :
    comm.shareFailure r = .ok b ↔ r = .ok b ∧ ¬0 < (comm.max 0).run := by
  rcases r with (_ | _) | a
  · exact ⟨nofun, nofun⟩
  · exact ⟨nofun, nofun⟩
  · change (if 0 < (comm.max 0).run then Except.error _ else Except.ok a) = _ ↔ _
    rw [ite_eq_iff]
    constructor
    · rintro (⟨-, h⟩ | ⟨hm, h⟩)
      · cases h
      · exact ⟨h, hm⟩
    · exact fun ⟨h, hm⟩ => .inr ⟨hm, h⟩

/-- The verdict of a check does not depend on the number of the iteration. -/
private theorem Model.convergence_iteration {m : Model α} {comm : Communicator Id α} {cells : List (Cell α)} {i : Nat}
    {c : Bool} {ns : List (Notice α)} (h : m.convergence (m := Id) comm cells i = .ok (c, ns)) (j : Nat) :
    ∃ ns, m.convergence (m := Id) comm cells j = .ok (c, ns) := by
  change (_ >>= fun c => pure (c, _) : Outcome α (Bool × List (Notice α))) = _ at h
  obtain ⟨c', hv, h⟩ := Outcome.bind_ok.1 h
  cases h
  exact ⟨_, Outcome.bind_ok.2 ⟨c, hv, rfl⟩⟩

variable [GroupControl α γ]

namespace Session

/-! ### Rounds -/

/-- A round that does not end the iteration. -/
def Round (comm : Communicator Id α) (cells : List (Cell α)) (dt : α) (i : Nat) (s t : Session α γ) : Prop :=
  ∃ s₁ s₂ c, assembleWells cells dt s = (.ok ⟨⟩, s₁) ∧ check comm cells i s₁ = (.ok c, s₂) ∧
    (c && s₂.isGroupOnTarget) = false ∧ advance cells s₂ = (.ok ⟨⟩, t)

/-- A round that ends the iteration, because the wells are solved or because an operation stops. -/
inductive LastRound (comm : Communicator Id α) (cells : List (Cell α)) (dt : α) (i : Nat) (s : Session α γ) :
    Outcome α SolveReport → Session α γ → Prop where
  /-- The wells are solved. -/
  | solved {s₁ t} : assembleWells cells dt s = (.ok ⟨⟩, s₁) → check comm cells i s₁ = (.ok true, t) →
      t.isGroupOnTarget = true → LastRound comm cells dt i s (.ok ⟨true, i⟩) t
  /-- The assembly stops. -/
  | assembly {e t} : assembleWells cells dt s = (.error e, t) → LastRound comm cells dt i s (.error e) t
  /-- The check stops. -/
  | check {s₁ e t} : assembleWells cells dt s = (.ok ⟨⟩, s₁) → check comm cells i s₁ = (.error e, t) →
      LastRound comm cells dt i s (.error e) t
  /-- The update stops. -/
  | update {s₁ s₂ c e t} : assembleWells cells dt s = (.ok ⟨⟩, s₁) → check comm cells i s₁ = (.ok c, s₂) →
      (c && s₂.isGroupOnTarget) = false → advance cells s₂ = (.error e, t) → LastRound comm cells dt i s (.error e) t

/-- A number of rounds, one after the other, none of which ends the iteration. -/
inductive Rounds (comm : Communicator Id α) (cells : List (Cell α)) (dt : α) :
    Nat → Nat → Session α γ → Session α γ → Prop where
  /-- No round. -/
  | none (i s) : Rounds comm cells dt i 0 s s
  /-- One more round. -/
  | next {i n s t u} : Round comm cells dt i s t → Rounds comm cells dt (i + 1) n t u →
      Rounds comm cells dt i (n + 1) s u

variable {comm : Communicator Id α} {cells : List (Cell α)} {dt : α}

private theorem run_iterate_succ (comm : Communicator Id α) (cells : List (Cell α)) (dt : α) (k i : Nat)
    (s : Session α γ) : (∃ r t, iterate comm cells dt (k + 1) i s = (r, t) ∧ LastRound comm cells dt i s r t) ∨
      ∃ t, Round comm cells dt i s t ∧ iterate comm cells dt (k + 1) i s = iterate comm cells dt k (i + 1) t := by
  rw [iterate]
  simp only [lift_id]
  rw [run_bind]
  rcases ha : assembleWells cells dt s with ⟨e | _, s₁⟩
  · exact .inl ⟨_, _, rfl, .assembly ha⟩
  dsimp only
  rw [run_bind]
  rcases hc : check comm cells i s₁ with ⟨e | c, s₂⟩
  · exact .inl ⟨_, _, rfl, .check ha hc⟩
  dsimp only
  rw [run_bind, run_get]
  dsimp only
  by_cases hg : (c && s₂.isGroupOnTarget) = true
  · rw [if_pos hg]
    obtain ⟨rfl, hg⟩ := Bool.and_eq_true_iff.1 hg
    exact .inl ⟨_, _, rfl, .solved ha hc hg⟩
  · rw [if_neg hg, run_bind]
    rw [Bool.not_eq_true] at hg
    rcases hu : advance cells s₂ with ⟨e | _, t⟩
    · exact .inl ⟨_, _, rfl, .update ha hc hg hu⟩
    · exact .inr ⟨t, ⟨s₁, s₂, c, ha, hc, hg, hu⟩, rfl⟩

/-- An iteration is a number of rounds within its bound, and then either the bound is reached or a round ends it. -/
theorem run_iterate (comm : Communicator Id α) (cells : List (Cell α)) (dt : α) (k i : Nat) (s : Session α γ) :
    ∃ n ≤ k, ∃ u, Rounds comm cells dt i n s u ∧
    (n = k ∧ iterate comm cells dt k i s = (.ok ⟨false, i + n⟩, u) ∨
      n < k ∧ LastRound comm cells dt (i + n) u (iterate comm cells dt k i s).1 (iterate comm cells dt k i s).2) := by
  induction k generalizing i s with
  | zero => exact ⟨0, Nat.le_refl 0, s, .none i s, .inl ⟨rfl, rfl⟩⟩
  | succ k ih =>
    rcases run_iterate_succ comm cells dt k i s with ⟨r, t, h, hl⟩ | ⟨t, hr, h⟩
    · rw [h]
      exact ⟨0, Nat.zero_le _, s, .none i s, .inr ⟨Nat.succ_pos k, hl⟩⟩
    · obtain ⟨n, hn, u, hu, he⟩ := ih (i + 1) t
      rw [Nat.add_right_comm, Nat.add_assoc] at he
      rw [h]
      refine ⟨n + 1, Nat.succ_le_succ hn, u, .next hr hu, he.imp ?_ ?_⟩
      · exact fun he => ⟨congrArg Nat.succ he.1, he.2⟩
      · exact fun he => ⟨Nat.succ_lt_succ he.1, he.2⟩

/-! ### The report -/

theorem solve_ok {s t : Session α γ} {r : SolveReport} (h : solve comm cells dt s = (.ok r, t)) :
    ∃ u, iterate comm cells dt s.model.setup.settings.maxLocalIterations 0 s = (.ok r, u) ∧
      (r.converged = true → t = { u with notices := u.notices ++ [.localSolveConverged r.iterations] }) ∧
      (r.converged = false →
        restore s.flow { u with notices := u.notices ++ [.localSolveFailed r.iterations] } = (.ok ⟨⟩, t)) := by
  obtain ⟨s, _, hs, h⟩ := bind_ok.1 h
  cases hs
  obtain ⟨e, v, hx, h⟩ := bind_ok.1 h
  replace hx := (run_tryCatch _ _ s).symm.trans hx
  rw [run_bind] at hx
  rcases hi : iterate comm cells dt s.model.setup.settings.maxLocalIterations 0 s with ⟨_ | r', u⟩
  · -- the handler ends in the error that it handles
    rw [hi] at hx
    obtain ⟨_, _, -, hx⟩ := bind_ok.1 hx
    obtain ⟨_, _, hx, -⟩ := bind_ok.1 hx
    cases hx
  rw [hi] at hx
  by_cases hr : r'.converged = true
  · dsimp only at hx
    rw [if_pos hr] at hx
    cases hx
    cases h
    exact ⟨u, rfl, fun _ => rfl, fun hn => absurd hr (by simp only [hn, Bool.false_eq_true, not_false_eq_true])⟩
  · dsimp only at hx
    rw [if_neg hr, run_bind, lift_id] at hx
    rcases hw : (note [.localSolveFailed r'.iterations] >>= fun _ => restore s.flow : Step Id α γ Unit) u with
      ⟨_ | _, w⟩
    · rw [hw] at hx
      obtain ⟨_, _, -, hx⟩ := bind_ok.1 hx
      obtain ⟨_, _, hx, -⟩ := bind_ok.1 hx
      cases hx
    · rw [hw] at hx
      cases hx
      cases h
      exact ⟨u, rfl, fun hc => absurd hc hr, fun _ => hw⟩

private theorem assembleLocally_eq : assembleLocally comm cells dt 0 =
    (prepare cells dt 0 >>= fun _ => get >>= fun p =>
      (if p.model.setup.settings.solveFirst then solve comm cells dt else pure ⟨true, 0⟩) >>= fun r =>
      assembleWells cells dt >>= fun _ => onFlow FlowState.countChange >>= fun _ => pure r :
      Step Id α γ SolveReport) := by
  unfold assembleLocally
  simp only [lift_id, bind_assoc, decide_true, Bool.and_true]
  refine bind_congr fun _ => bind_congr fun p => ?_
  cases p.model.setup.settings.solveFirst <;> rfl

theorem assemble_ok {s t : Session α γ} {r : SolveReport} :
    assemble comm cells dt 0 s = (.ok r, t) ↔ ¬0 < (comm.max 0).run ∧ ∃ p u v,
      prepare cells dt 0 s = (.ok ⟨⟩, p) ∧
      (if p.model.setup.settings.solveFirst then solve comm cells dt else pure ⟨true, 0⟩) p = (.ok r, u) ∧
      assembleWells cells dt u = (.ok ⟨⟩, v) ∧
      t = { v with flow := { v.flow with revision := v.flow.revision + 1 } } := by
  change (comm.shareFailure (assembleLocally comm cells dt 0 s).1, (assembleLocally comm cells dt 0 s).2) = _ ↔ _
  rw [Prod.mk.injEq, Communicator.shareFailure_ok, and_comm (b := ¬_), and_assoc, ← Prod.mk.injEq, Prod.eta,
    assembleLocally_eq, bind_ok]
  refine and_congr_right fun _ => ⟨?_, ?_⟩
  · rintro ⟨_, p, hp, h⟩
    obtain ⟨_, _, hg, h⟩ := bind_ok.1 h
    cases hg
    obtain ⟨r, u, hu, h⟩ := bind_ok.1 h
    obtain ⟨_, v, hv, h⟩ := bind_ok.1 h
    cases h
    exact ⟨p, u, v, hp, hu, hv, rfl⟩
  · rintro ⟨p, u, v, hp, hu, hv, rfl⟩
    exact ⟨_, p, hp, bind_ok.2 ⟨p, p, rfl, bind_ok.2 ⟨r, u, hu, bind_ok.2 ⟨_, v, hv, rfl⟩⟩⟩⟩

/-! ### What the local solution leaves behind -/

theorem stable_setup (c : Setup α) : Stable fun s : Session α γ => s.model.setup = c :=
  .of_led (fun _ h => h) (fun _ h => h) (fun _ hm h => (congrArg Model.setup hm).trans h) fun _ _ _ _ hm h => hm.trans h

theorem setup_of_prepare {i : Nat} {s p : Session α γ} {r : Outcome α Unit} (h : prepare cells dt i s = (r, p)) :
    p.model.setup = s.model.setup := by
  have hp := prepare_maintains (stable_setup (γ := γ) s.model.setup) (fun _ hm h => hm.trans h) cells dt i s rfl
  rwa [h] at hp

omit [GroupControl α γ] in
/-- Assembling again leaves the systems and the rates of the wells as they are. -/
private theorem assembleWells_again {s₁ s₂ s₃ s₄ : Session α γ} (h₁ : assembleWells cells dt s₁ = (.ok ⟨⟩, s₂))
    (h₂ : assembleWells cells dt s₃ = (.ok ⟨⟩, s₄)) (hm : s₃.model = s₂.model) (hf : s₃.flow = s₂.flow) :
    s₄.model = s₂.model ∧ s₄.flow.atWells = s₂.flow.atWells ∧ s₄.groups = s₃.groups := by
  obtain ⟨m₁, f₁, ha₁, rfl⟩ := assembleWells_ok.1 h₁
  obtain ⟨m₂, f₂, ha₂, rfl⟩ := assembleWells_ok.1 h₂
  rw [hm, hf] at ha₂
  obtain ⟨hm', hf'⟩ := Model.assemble_again ha₁ ha₂
  exact ⟨hm', hf', rfl⟩

omit [GroupControl α γ] in
private theorem check_ok {i : Nat} {c : Bool} {s t : Session α γ} (h : check comm cells i s = (.ok c, t)) :
    (∃ ns, s.model.convergence (m := Id) comm cells i = .ok (c, ns)) ∧
      t.model = s.model ∧ t.flow = s.flow ∧ t.groups = s.groups := by
  rw [run_check] at h
  rcases hc : s.model.convergence (m := Id) comm cells i with _ | ⟨c', ns⟩
  · rw [hc] at h
    cases h
  · rw [hc] at h
    cases h
    exact ⟨⟨ns, rfl⟩, rfl, rfl, rfl⟩

private theorem rounds_of_prepare {s p t : Session α γ} {r : Outcome α SolveReport}
    (hp : prepare cells dt 0 s = (.ok ⟨⟩, p))
    (hi : iterate comm cells dt p.model.setup.settings.maxLocalIterations 0 p = (r, t)) :
    ∃ n ≤ s.model.setup.settings.maxLocalIterations, ∃ u, Rounds comm cells dt 0 n p u ∧
      (n = s.model.setup.settings.maxLocalIterations ∧ r = .ok ⟨false, n⟩ ∧ t = u ∨
        n < s.model.setup.settings.maxLocalIterations ∧ LastRound comm cells dt n u r t) := by
  rw [setup_of_prepare hp] at hi
  obtain ⟨n, hn, u, hr, he⟩ := run_iterate comm cells dt s.model.setup.settings.maxLocalIterations 0 p
  rw [hi, Nat.zero_add, Prod.mk.injEq] at he
  exact ⟨n, hn, u, hr, he⟩

/-- A local solution that reports success leaves a system within the tolerance and the groups on target, after fewer
rounds than permitted; one that reports failure has made all of them.  In every case the rounds stay within the bound. -/
theorem assemble_localSolution (comm : Communicator Id α) (cells : List (Cell α)) (dt : α) (s : Session α γ)
    (hs : s.model.setup.settings.solveFirst = true) :
    (∀ report t, assemble comm cells dt 0 s = (.ok report, t) →
      (report.converged = true →
        (∀ i, ∃ ns, t.model.convergence (m := Id) comm cells i = .ok (true, ns)) ∧
        (GroupControl.isActive t.groups = true → GroupControl.isOnTarget t.groups t.flow.rates = true) ∧
        report.iterations < s.model.setup.settings.maxLocalIterations) ∧
      (report.converged = false → report.iterations = s.model.setup.settings.maxLocalIterations) ∧
      ∃ p u, prepare cells dt 0 s = (.ok ⟨⟩, p) ∧ Rounds comm cells dt 0 report.iterations p u) ∧
    ∀ p r t, prepare cells dt 0 s = (.ok ⟨⟩, p) →
      iterate comm cells dt p.model.setup.settings.maxLocalIterations 0 p = (r, t) →
      ∃ n ≤ s.model.setup.settings.maxLocalIterations, ∃ u, Rounds comm cells dt 0 n p u ∧
        (n = s.model.setup.settings.maxLocalIterations ∧ r = .ok ⟨false, n⟩ ∧ t = u ∨
          n < s.model.setup.settings.maxLocalIterations ∧ LastRound comm cells dt n u r t) := by
  refine ⟨fun report t h => ?_, fun _ _ _ => rounds_of_prepare⟩
  obtain ⟨-, p, u, v, hp, hu, hv, rfl⟩ := assemble_ok.1 h
  rw [setup_of_prepare hp, if_pos hs] at hu
  obtain ⟨w, hw, hc, -⟩ := solve_ok hu
  obtain ⟨n, -, x, hr, ⟨hn, he, rfl⟩ | ⟨hn, hl⟩⟩ := rounds_of_prepare hp hw
  · cases he
    exact ⟨nofun, fun _ => hn, p, w, hp, hr⟩
  · cases hl with
    | @solved s₁ _ ha hk hg =>
      -- `s₁` is what the last round checked, `w` the same with notices, `v` what the assembly after it leaves
      refine ⟨fun _ => ?_, nofun, p, x, hp, hr⟩
      obtain ⟨⟨ns, hns⟩, hkm, hkf, hkg⟩ := check_ok hk
      cases hc rfl
      obtain ⟨hvm, hvf, hvg⟩ := assembleWells_again ha hv hkm hkf
      have hrates : v.flow.rates = w.flow.rates :=
        (congrArg FlowState.rates hvf).trans (congrArg FlowState.rates hkf).symm
      refine ⟨fun i => ?_, fun hactive => ?_, hn⟩
      · change ∃ ns, v.model.convergence (m := Id) comm cells i = _
        rw [hvm]
        exact Model.convergence_iteration hns i
      · dsimp only at hactive ⊢
        rw [hvg] at hactive ⊢
        rw [hrates]
        rw [isGroupOnTarget, Bool.or_eq_true, Bool.not_eq_true'] at hg
        rcases hg with hg | hg
        · exact absurd hactive (by rw [hg]; decide)
        · exact hg

/-! ### A producer alone in its reservoir -/

/-- A reservoir of one cell with oil. -/
def oilCell : List (Cell ℚ) :=
  [{ Cell.still (.seed 100 0) 300 with mobility := ⟨.const 0, .const 1, .const 0⟩ }]

/-- A producer on a bottom-hole pressure, to be solved on its own in a number of rounds.  No fluid property depends on
the pressure, and there are no groups. -/
def oilProducer (rounds : Nat) : Session ℚ (Option (VoidageGroup ℚ)) where
  model :=
    { setup :=
        { phases := .single .oil
          settings := { Settings.standard with maxLocalIterations := rounds }
          pvt := ⟨"constant", 1, fun _ _ => .ok 1, fun _ _ _ _ _ => .ok (.const 1), fun _ _ _ => .ok (.const 0),
            fun _ _ _ => .ok (.const 0)⟩
          lift := ⟨[]⟩
          converter := none }
      units := [.create (.producer "P" 0 [⟨0, 2, 0, 1⟩] ⟨[⟨.bhp, 90, .replicate 0⟩], 0⟩)] }
  flow := ⟨[90], [0], [0, 0, 0], [0, 0, 0], [0], [90], [0, 0, 0], [0, 0, 0], 0⟩
  groups := none
  notices := []

/-- The producer is solved in one round. -/
theorem assemble_localSolution_oilProducer : (oilProducer 15).model.setup.settings.solveFirst = true ∧
    ∃ t, assemble (.serial : Communicator Id ℚ) oilCell 1 0 (oilProducer 15) = (.ok ⟨true, 1⟩, t) ∧
      (∀ i, ∃ ns, t.model.convergence (m := Id) .serial oilCell i = .ok (true, ns)) ∧ 1 < 15 := by
  have hr : (assemble (.serial : Communicator Id ℚ) oilCell 1 0 (oilProducer 15)).1.toOption = some ⟨true, 1⟩ := by
    decide +kernel
  have h := (assemble_localSolution .serial oilCell 1 (oilProducer 15) rfl).1 _ _ (run_ok_of_toOption hr)
  obtain ⟨hc, -, hn⟩ := h.1 rfl
  exact ⟨rfl, _, run_ok_of_toOption hr, hc, hn⟩

end Session

end BlackOilWells
