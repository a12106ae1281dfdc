import BlackOilWells.Proofs.Cooperation
import BlackOilWells.Proofs.Switches

/-!
# Invariants of sessions

The local solution and an assembly are put together from few operations on the wells.  A property of sessions that each
of these keeps is kept by the whole, also where it stops, and the whole stops for nothing but what they stop for
(`Session.Invariant`).  Only the Newton steps of the wells rely on more: the wells have been assembled just before.

An assembly ends with a reduction that shares a failure.  It adds one error, that of a step which a peer has aborted.
-/

namespace BlackOilWells

open Attempt

variable {ω α γ : Type} [Scalar α]

/-- What a run ends in that keeps a property and stops for no other faults than given ones. -/
def Attempt.Kept {σ β : Type} (P : σ → Prop) (F : Fault α → Prop) (o : Outcome α β) (t : σ) : Prop :=
  P t ∧ o.Stops F

private theorem Model.convergence_stops {F : Fault α → Prop} (hF : ∀ c, F (.error (.numerical c))) (m : Model α)
    (comm : Communicator (StateM ω) α) (cells : List (Cell α)) (i : Nat) (w : ω) :
    (m.convergence comm cells i w).1.Stops F := by
  have hverdict (b : Bool) (norms : PerPhase α) : (Convergence.verdict m.setup b norms).Stops F := by
    refine Outcome.Stops.bind (.forM fun p _ => ?_) fun _ _ => .ok _
    exact .ite (fun _ => .error (hF _)) fun _ => .ite (fun _ => .error (hF _)) fun _ => .ok _
  exact Outcome.Stops.bind (hverdict _ _) fun _ _ => .ok _

/-- Sharing a failure adds one error. -/
theorem Communicator.shareFailure_stops {β : Type} {F : Fault α → Prop} {comm : Communicator (StateM ω) α}
    (hF : F (.error (.aborted (.peerFailed comm.rank)))) {o : Outcome α β} (ho : o.Stops F) (w : ω) :
    (comm.shareFailure o w).1.Stops F := by
  rcases o with (e | _) | b
  · exact .error (ho _ rfl)
  · exact .error (ho _ rfl)
  · change Outcome.Stops F ((if 0 < (comm.max 0 w).1 then _ else _ : StateM ω (Outcome α β)) (comm.max 0 w).2).1
    split
    · exact .error hF
    · exact .ok b

namespace Session

/-- A check reports, and stops for numerical problems only. -/
theorem check_keeps {P : Session α γ → Prop} {F : Fault α → Prop} (hP : ∀ {s} ns, P s → P { s with notices := ns })
    (hF : ∀ c, F (.error (.numerical c))) (comm : Communicator (StateM ω) α) (cells : List (Cell α)) (i : Nat) :
    Ensures P (check comm cells i) (Kept P F) := by
  intro s w hs
  have hstops := s.model.convergence_stops hF comm cells i w
  rw [run_check_among]
  rcases h : s.model.convergence comm cells i w with ⟨e | ⟨c, ns⟩, w'⟩
  · rw [h] at hstops
    exact ⟨hs, .error (hstops e rfl)⟩
  · exact ⟨hP _ hs, .ok _⟩

omit [Scalar α] in
/-- What follows a run that keeps a property. -/
theorem bind_kept {β δ : Type} {P : Session α γ → Prop} {F : Fault α → Prop} {x : Step (StateM ω) α γ β}
    {f : β → Step (StateM ω) α γ δ} (hx : Ensures P x (Kept P F)) (hf : ∀ b, Ensures P (f b) (Kept P F)) :
    Ensures P (x >>= f) (Kept P F) :=
  .bind hx (fun e _ h => ⟨h.1, .error (h.2 e rfl)⟩) fun b t w ht => hf b t w ht.1

variable [GroupControl α γ]

/-- A property of sessions that the parts of a local solution on given cells keep, and for what these parts stop. -/
structure Invariant (cells : List (Cell α)) (dt : α) (P : Session α γ → Prop) (F : Fault α → Prop) : Prop where
  numerical : ∀ c, F (.error (.numerical c))
  notices : ∀ {s} ns, P s → P { s with notices := ns }
  /-- The flow state becomes that of an earlier session. -/
  back : ∀ {s t}, P s → P t → P { t with flow := s.flow }
  countChange : ∀ {s}, P s → P { s with flow := { s.flow with revision := s.flow.revision + 1 } }
  assembleWells : Keeps P F (assembleWells cells dt)
  takeUnknowns : Keeps P F takeUnknowns
  updateControls : Keeps P F (updateControls cells)
  /-- The Newton steps of wells that have just been assembled. -/
  updates : ∀ {s t} ns, P s → Session.assembleWells cells dt s = (.ok ⟨⟩, t) →
    t.model.wellUpdates.Stops F ∧ ∀ dxs, t.model.wellUpdates = .ok dxs →
      Kept P F (applyUpdates dxs { t with notices := ns }).1 (applyUpdates dxs { t with notices := ns }).2

namespace Invariant

variable {cells : List (Cell α)} {dt : α} {P : Session α γ → Prop} {F : Fault α → Prop} (h : Invariant cells dt P F)

include h

/-- The Newton steps of wells that have just been assembled, and the switches after them. -/
theorem advance {s t : Session α γ} (ns : List (Notice α)) (hs : P s)
    (ht : Session.assembleWells cells dt s = (.ok ⟨⟩, t)) :
    Kept P F (Session.advance cells { t with notices := ns }).1 (Session.advance cells { t with notices := ns }).2 := by
  obtain ⟨hstops, hupdates⟩ := h.updates ns hs ht
  have hP : P t := (h.assembleWells.of_eq hs ht).1
  refine Keeps.get_into ?_
  dsimp only
  rw [run_outcome_bind]
  cases hdx : t.model.wellUpdates with
  | error e => exact ⟨h.notices ns hP, .error (hstops e hdx)⟩
  | ok dxs => exact Keeps.bind_run (hupdates dxs hdx) fun _ => h.updateControls.bind fun _ => h.takeUnknowns

private theorem iterate (comm : Communicator (StateM ω) α) (k i : Nat) :
    Ensures P (iterate comm cells dt k i) (Kept P F) := by
  -- a session whose wells have just been assembled, up to the notices
  let J (t : Session α γ) : Prop :=
    ∃ s u, ∃ ns : List (Notice α), P s ∧ Session.assembleWells cells dt s = (.ok ⟨⟩, u) ∧ t = { u with notices := ns }
  have hJ {t} (ht : J t) : P t := by
    obtain ⟨s, u, ns, hs, hu, rfl⟩ := ht
    exact h.notices ns (h.assembleWells.of_eq hs hu).1
  refine iterate_ensures (J := J) (E := fun e t => P t ∧ F e) (fun s hs => ?_) (fun j s w hs => ?_) (fun t ht => ?_)
    (fun _ _ he => ⟨he.1, .error he.2⟩) (fun _ _ ht => ⟨hJ ht, .ok _⟩) (fun _ _ ht => ⟨ht, .ok _⟩) k i
  · rcases ha : Session.assembleWells cells dt s with ⟨e | _, t⟩
    · obtain ⟨hk, hstops⟩ := h.assembleWells.of_eq hs ha
      exact ⟨hk, hstops e rfl⟩
    · exact ⟨s, t, t.notices, hs, ha, rfl⟩
  · have hnotices {t} (ns) (ht : J t) : J { t with notices := ns } := by
      obtain ⟨s, u, _, hs, hu, rfl⟩ := ht
      exact ⟨s, u, ns, hs, hu, rfl⟩
    have hk := check_keeps hnotices h.numerical comm cells j s w hs
    rcases hc : check comm cells j s w with ⟨⟨e | c, t⟩, w'⟩
    · rw [hc] at hk
      exact ⟨hJ hk.1, hk.2 e rfl⟩
    · rw [hc] at hk
      exact hk.1
  · obtain ⟨s, u, ns, hs, hu, rfl⟩ := ht
    obtain ⟨hk, hstops⟩ := h.advance ns hs hu
    rcases ha : Session.advance cells { u with notices := ns } with ⟨e | _, v⟩
    · rw [ha] at hk hstops
      exact ⟨hk, hstops e rfl⟩
    · rwa [ha] at hk

theorem solve (comm : Communicator (StateM ω) α) : Ensures P (solve comm cells dt) (Kept P F) := by
  intro s w hs
  have hi := h.iterate comm s.model.setup.settings.maxLocalIterations 0 s w hs
  rcases hrun : (Session.iterate comm cells dt s.model.setup.settings.maxLocalIterations 0 s w).1 with ⟨o, t⟩
  rw [hrun] at hi
  rcases solve_cases hrun with ⟨r, ns, -, -, hsolve⟩ | ⟨ns, -, hsolve, ho⟩
  · rw [hsolve]
    exact ⟨h.notices ns hi.1, .ok r⟩
  obtain ⟨hk, hstops⟩ := h.takeUnknowns _ (h.back hs (h.notices ns hi.1))
  refine ⟨hsolve ▸ hk, ?_⟩
  rcases ho with ho | ⟨e, he, ho⟩
  · exact ho ▸ hi.2
  · exact ho ▸ .error (hstops e he)

theorem assembleLocally (comm : Communicator (StateM ω) α) {i : Nat}
    (hprepare : Keeps P F (prepare cells dt i : Step Id α γ Unit)) :
    Ensures P (assembleLocally comm cells dt i) (Kept P F) := by
  have hrest (r : SolveReport) : Ensures P
      (Attempt.lift (Session.assembleWells cells dt >>= fun _ => onFlow FlowState.countChange) >>= fun _ => pure r :
        Step (StateM ω) α γ SolveReport) (Kept P F) := by
    refine bind_kept (.of_lift fun s hs => ?_) fun _ => .pure fun t ht => ⟨ht, .ok _⟩
    exact h.assembleWells.bind (fun _ t ht => ⟨h.countChange ht, .ok _⟩) s hs
  refine bind_kept (.of_lift hprepare) fun _ => .get_bind fun s hs => .ite (fun _ => ?_) fun _ => ?_
  · rintro t w rfl
    exact bind_kept (h.solve comm) hrest t w hs
  · rintro t w rfl
    exact hrest _ t w hs

theorem assemble (comm : Communicator (StateM ω) α) (hF : F (.error (.aborted (.peerFailed comm.rank)))) {i : Nat}
    (hprepare : Keeps P F (prepare cells dt i : Step Id α γ Unit)) :
    Ensures P (assemble comm cells dt i) (Kept P F) := by
  intro s w hs
  obtain ⟨ht, hstops⟩ := h.assembleLocally comm hprepare s w hs
  exact ⟨ht, Communicator.shareFailure_stops hF hstops _⟩

end Invariant

end Session

end BlackOilWells
