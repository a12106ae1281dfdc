import BlackOilWells.Proofs.Sessions

/-!
# Cooperating processes

What an operation on a session does when its reductions wait for other processes.  A peer may answer the same question
differently each time: the answers depend on `ω`, and every reduction may change it.

`Attempt.Ensures` states what holds after every run.  The local solution is a bounded iteration
(`Session.iterate_ensures` takes an invariant through it), and what is left of it after a failure comes from
`Session.restore` alone (`Session.solve_cases`).
-/

namespace BlackOilWells

namespace Attempt

variable {ω α σ β δ : Type}

/-- From every state with `P`, a run ends in an outcome and a state with `Q`. -/
def Ensures (P : σ → Prop) (act : AttemptT (StateM ω) α σ β) (Q : Outcome α β → σ → Prop) : Prop :=
  ∀ s w, P s → Q (act s w).1.1 (act s w).1.2

/-! ### The parts of an attempt -/

@[simp] theorem runOn_pure (b : β) (s : σ) (w : ω) :
    (pure b : AttemptT (StateM ω) α σ β) s w = ((.ok b, s), w) := rfl

@[simp] theorem runOn_throw (e : Fault α) (s : σ) (w : ω) :
    (throw e : AttemptT (StateM ω) α σ β) s w = ((.error e, s), w) := rfl

@[simp] theorem runOn_get (s : σ) (w : ω) : (get : AttemptT (StateM ω) α σ σ) s w = ((.ok s, s), w) := rfl

@[simp] theorem runOn_outcome (o : Outcome α β) (s : σ) (w : ω) :
    (liftM o : AttemptT (StateM ω) α σ β) s w = ((o, s), w) := rfl

@[simp] theorem runOn_lift (act : Attempt α σ β) (s : σ) (w : ω) :
    (lift act : AttemptT (StateM ω) α σ β) s w = (act s, w) := rfl

@[simp] theorem runOn_effect (x : StateM ω β) (s : σ) (w : ω) :
    (liftM x : AttemptT (StateM ω) α σ β) s w = ((.ok (x w).1, s), (x w).2) := rfl

theorem runOn_bind (x : AttemptT (StateM ω) α σ β) (f : β → AttemptT (StateM ω) α σ δ) (s : σ) (w : ω) :
    (x >>= f) s w = match x s w with
      | ((.ok a, t), w') => f a t w'
      | ((.error e, t), w') => ((.error e, t), w') := by
  change ExceptT.bindCont f (x s w).1.1 (x s w).1.2 (x s w).2 = _
  rcases x s w with ⟨⟨_ | _, t⟩, w'⟩ <;> rfl

private theorem runOn_tryCatch (x : AttemptT (StateM ω) α σ β) (f : Fault α → AttemptT (StateM ω) α σ β) (s : σ)
    (w : ω) :
    (tryCatch x f) s w = match x s w with
      | ((.ok a, t), w') => ((.ok a, t), w')
      | ((.error e, t), w') => f e t w' := by
  change ExceptT.tryCatch x f s w = _
  simp only [ExceptT.tryCatch, ExceptT.mk, bind, StateT.bind]
  rcases x s w with ⟨⟨_ | _, t⟩, w'⟩ <;> rfl

/-- `J` after a success and `E` after a fault. -/
def Ending (J : σ → Prop) (E : Fault α → σ → Prop) : Outcome α β → σ → Prop
  | .ok _, t => J t
  | .error e, t => E e t

theorem Ending.of_all {P : σ → Prop} {t : σ} (h : P t) (o : Outcome α β) : Ending P (fun _ => P) o t := by
  cases o <;> exact h

namespace Ensures

variable {P R : σ → Prop} {x : AttemptT (StateM ω) α σ β} {Q : Outcome α β → σ → Prop}

theorem of_lift {act : Attempt α σ β} (h : ∀ s, P s → Q (act s).1 (act s).2) :
    Ensures P (lift act : AttemptT (StateM ω) α σ β) Q := fun s _ hs => h s hs

theorem pure {b : β} (h : ∀ s, P s → Q (.ok b) s) : Ensures P (pure b : AttemptT (StateM ω) α σ β) Q :=
  fun s _ hs => h s hs

theorem ite {c : Prop} [Decidable c] {y : AttemptT (StateM ω) α σ β} (hx : c → Ensures P x Q)
    (hy : ¬c → Ensures P y Q) : Ensures P (if c then x else y) Q := by
  split
  · exact hx ‹c›
  · exact hy ‹¬c›

/-- What follows a look at the state starts in that state. -/
theorem get_bind {f : σ → AttemptT (StateM ω) α σ β} (h : ∀ s, P s → Ensures (· = s) (f s) Q) :
    Ensures P (get >>= f) Q := fun s w hs => h s hs s w rfl

theorem bind {f : β → AttemptT (StateM ω) α σ δ} {S : Outcome α β → σ → Prop} {Q : Outcome α δ → σ → Prop}
    (hx : Ensures P x S) (he : ∀ e t, S (.error e) t → Q (.error e) t) (hf : ∀ b, Ensures (S (.ok b)) (f b) Q) :
    Ensures P (x >>= f) Q := by
  intro s w hs
  have ht := hx s w hs
  rw [runOn_bind]
  rcases hxs : x s w with ⟨⟨e | b, t⟩, w'⟩
  · rw [hxs] at ht
    exact he e t ht
  · rw [hxs] at ht
    exact hf b t w' ht

end Ensures

end Attempt

open Attempt

variable {ω α γ : Type} [Scalar α]

namespace Session

/-! ### Checks -/

theorem run_check_among (comm : Communicator (StateM ω) α) (cells : List (Cell α)) (i : Nat) (s : Session α γ) (w : ω) :
    check comm cells i s w = match s.model.convergence comm cells i w with
      | (.ok (c, ns), w') => ((.ok c, { s with notices := s.notices ++ ns }), w')
      | (.error e, w') => ((.error e, s), w') := by
  change ((liftM (s.model.convergence comm cells i) >>= fun o => liftM (m := Outcome α) o >>= fun x =>
    Attempt.lift (note x.2) >>= fun _ => pure x.1 : Step (StateM ω) α γ Bool)) s w = _
  rw [runOn_bind, runOn_effect]
  dsimp only
  rw [runOn_bind, runOn_outcome]
  rcases s.model.convergence comm cells i w with ⟨_ | ⟨c, ns⟩, w'⟩
  · rfl
  · rfl

/-- A check reports, and changes nothing else. -/
theorem check_ensures {P : Session α γ → Prop} (hP : ∀ {s} ns, P s → P { s with notices := ns })
    (comm : Communicator (StateM ω) α) (cells : List (Cell α)) (i : Nat) :
    Ensures P (check comm cells i) fun _ t => P t := by
  intro s w hs
  rw [run_check_among]
  rcases s.model.convergence comm cells i w with ⟨_ | ⟨c, ns⟩, w'⟩
  · exact hs
  · exact hP _ hs

/-! ### The local solution -/

variable [GroupControl α γ]

/-- The local solution with an invariant `I` of its rounds and a property `J` of a session that has just been
assembled. -/
theorem iterate_ensures {I J : Session α γ → Prop} {E : Fault α → Session α γ → Prop}
    {Q : Outcome α SolveReport → Session α γ → Prop} {comm : Communicator (StateM ω) α} {cells : List (Cell α)} {dt : α}
    (hassemble : ∀ s, I s → Ending J E (assembleWells cells dt s).1 (assembleWells cells dt s).2)
    (hcheck : ∀ i, Ensures J (check comm cells i) (Ending J E))
    (hadvance : ∀ s, J s → Ending I E (advance cells s).1 (advance cells s).2)
    (hfault : ∀ e t, E e t → Q (.error e) t) (hsolved : ∀ i t, J t → Q (.ok ⟨true, i⟩) t)
    (hopen : ∀ i t, I t → Q (.ok ⟨false, i⟩) t) (k i : Nat) : Ensures I (iterate comm cells dt k i) Q := by
  induction k generalizing i with
  | zero => exact .pure (hopen i)
  | succ k ih =>
    rw [iterate]
    refine .bind (.of_lift hassemble) hfault fun _ => ?_
    refine .bind (hcheck i) hfault fun c => .get_bind fun s hs => .ite (fun _ => ?_) fun _ => ?_
    · exact .pure fun t ht => hsolved i t (ht ▸ hs)
    · exact .bind (.of_lift fun t ht => hadvance t (ht ▸ hs)) hfault fun _ => ih (i + 1)

omit [GroupControl α γ] in
/-- Going back takes the unknowns of the flow state. -/
theorem run_restore (flow : FlowState α) (s : Session α γ) :
    restore flow s = takeUnknowns { s with flow := flow } := rfl

omit [GroupControl α γ] in
theorem flow_of_restore (flow : FlowState α) (s : Session α γ) : (restore flow s).2.flow = flow := by
  rw [run_restore, run_takeUnknowns]
  cases s.model.setUnknowns flow <;> rfl

omit [GroupControl α γ] in
/-- Going back to a flow state a second time changes nothing. -/
private theorem restore_again {flow : FlowState α} {s t : Session α γ} {e : Fault α}
    (h : restore flow s = (.error e, t)) : restore flow t = (.error e, t) := by
  rw [run_restore, run_takeUnknowns] at h
  cases hm : s.model.setUnknowns flow with
  | ok m =>
    rw [hm] at h
    cases h
  | error e' =>
    rw [hm] at h
    cases h
    rw [run_restore, run_takeUnknowns, hm]

/-- Unless the rounds end in a success, the local solution goes back to the flow state on entry. -/
theorem run_solve (comm : Communicator (StateM ω) α) (cells : List (Cell α)) (dt : α) (s : Session α γ) (w : ω) :
    (solve comm cells dt s w).1 =
      match (iterate comm cells dt s.model.setup.settings.maxLocalIterations 0 s w).1 with
      | (.ok r, t) =>
        if r.converged then (.ok r, { t with notices := t.notices ++ [.localSolveConverged r.iterations] })
        else match restore s.flow { t with notices := t.notices ++ [.localSolveFailed r.iterations] } with
          | (.ok _, u) => (.ok r, u)
          | (.error e, u) => (.error e, u)
      | (.error e, t) => match restore s.flow t with
        | (.ok _, u) => (.error e, u)
        | (.error e', u) => (.error e', u) := by
  unfold solve
  rw [runOn_bind, runOn_get]
  dsimp only
  rw [runOn_bind, runOn_tryCatch, runOn_bind]
  rcases iterate comm cells dt s.model.setup.settings.maxLocalIterations 0 s w with ⟨⟨e | r, t⟩, w'⟩
  · dsimp only
    rw [runOn_bind, runOn_lift]
    rcases restore s.flow t with ⟨_ | _, u⟩ <;> rfl
  · dsimp only
    by_cases hr : r.converged = true
    · rw [if_pos hr, if_pos hr]
      rfl
    · have hn : note [.localSolveFailed r.iterations] t =
          (.ok ⟨⟩, { t with notices := t.notices ++ [.localSolveFailed r.iterations] }) := rfl
      rw [if_neg hr, if_neg hr, runOn_bind, runOn_lift, run_bind, hn]
      dsimp only
      rcases hx : restore s.flow { t with notices := t.notices ++ [.localSolveFailed r.iterations] } with ⟨e | _, u⟩
      · -- going back is part of what is tried, so its own failure is handled by going back
        dsimp only
        rw [runOn_bind, runOn_lift, restore_again hx]
      · rfl

/-- Either the rounds end in a success, or the local solution goes back, and stops if that stops. -/
theorem solve_cases {comm : Communicator (StateM ω) α} {cells : List (Cell α)} {dt : α} {s t : Session α γ} {w : ω}
    {o : Outcome α SolveReport}
    (h : (iterate comm cells dt s.model.setup.settings.maxLocalIterations 0 s w).1 = (o, t)) :
    (∃ r ns, r.converged = true ∧ o = .ok r ∧ (solve comm cells dt s w).1 = (.ok r, { t with notices := ns })) ∨
      ∃ ns, (∀ r, o = .ok r → r.converged = false) ∧
        (solve comm cells dt s w).1.2 = (restore s.flow { t with notices := ns }).2 ∧
        ((solve comm cells dt s w).1.1 = o ∨
          ∃ e, (restore s.flow { t with notices := ns }).1 = .error e ∧ (solve comm cells dt s w).1.1 = .error e) := by
  rw [run_solve, h]
  rcases o with e | r
  · refine .inr ⟨t.notices, nofun, ?_⟩
    dsimp only
    rcases restore s.flow t with ⟨e' | _, u⟩
    · exact ⟨rfl, .inr ⟨e', rfl, rfl⟩⟩
    · exact ⟨rfl, .inl rfl⟩
  dsimp only
  by_cases hc : r.converged = true
  · rw [if_pos hc]
    exact .inl ⟨r, _, hc, rfl, rfl⟩
  · rw [if_neg hc]
    refine .inr ⟨t.notices ++ [.localSolveFailed r.iterations], ?_, ?_⟩
    · rintro _ ⟨⟩
      exact Bool.eq_false_iff.2 hc
    rcases restore s.flow { t with notices := t.notices ++ [.localSolveFailed r.iterations] } with ⟨e | _, u⟩
    · exact ⟨rfl, .inr ⟨e, rfl, rfl⟩⟩
    · exact ⟨rfl, .inl rfl⟩

end Session

end BlackOilWells
