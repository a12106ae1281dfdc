import BlackOilWells.Proofs.Derivatives
import BlackOilWells.Proofs.Attempts
import BlackOilWells.Model.Relations

/-!
# Derivatives of the closure relations

The fractions, surface rates and the bottom-hole pressure of a well track their derivatives by the unknowns of the well,
away from the guards against a missing phase (`WellUnit.OffGuard`) and from the nodes of a lift table
(`LiftTable.OffNodes`).
-/

namespace BlackOilWells

open Filter Topology

variable {E : Type} [NormedAddCommGroup E] [NormedSpace ℝ E] {n : Nat} {c : Fin n → E →L[ℝ] ℝ}
  {a b : E →L[ℝ] Fin 3 → ℝ} {x : E}

namespace WellUnit

/-- The well with given unknowns. -/
def withUnknowns {α : Type} [Scalar α] (u : WellUnit α) (z : Fin 3 → α) : WellUnit α :=
  { u with unknowns := seeded ⟨z 0, z 1, z 2⟩ }

/-! ### Fractions and rates -/

theorem fraction_tracks (u : WellUnit ℝ) (phases : PhaseSet) (p : Phase) :
    Tracks (frame a b) (fun q => (u.withUnknowns (b q)).fraction phases p) x := by
  have hw : Tracks (frame a b) (fun q => (u.withUnknowns (b q)).unknowns.water) x := .seedWell 1
  have hg : Tracks (frame a b) (fun q => (u.withUnknowns (b q)).unknowns.gas) x := .seedWell 2
  cases p with
  | water => exact hw
  | gas => exact hg
  | oil =>
    have h1 : Tracks (frame a b) (fun q => if phases.water then
        (Dual.const 1 : WellDual ℝ) - (u.withUnknowns (b q)).unknowns.water else .const 1) x :=
      .ite (.of_forall fun _ => Iff.rfl) (fun _ => (Tracks.const 1).sub hw) fun _ => .const 1
    exact .ite (.of_forall fun _ => Iff.rfl) (fun _ => h1.sub hg) fun _ => h1

private theorem scaledFraction_tracks (u : WellUnit ℝ) (phases : PhaseSet) (control : Control ℝ) (p : Phase) :
    Tracks (frame a b) (fun q => (u.withUnknowns (b q)).scaledFraction phases control p) x :=
  .ite (.of_forall fun _ => Iff.rfl) (fun _ => .zero) fun _ => (u.fraction_tracks phases p).div_scalar _

private theorem rateAtTarget_tracks (u : WellUnit ℝ) (phases : PhaseSet) (control : Control ℝ) (p : Phase)
    {part : E → WellDual ℝ} {tested : E → ℝ} (hp : Tracks (frame a b) part x) (ht : ContinuousAt tested x)
    (hx : tested x ≠ 1e-6) (h0 : ¬tested x < 1e-6 → (part x).value ≠ 0) :
    Tracks (frame a b) (fun q =>
      (u.withUnknowns (b q)).rateAtTarget phases control p (part q) !(decide (tested q < 1e-6))) x := by
  have hlt := eventually_lt_iff ht continuousAt_const hx
  refine .ite (hlt.mono fun q hq => ?_) (fun h => ?_) fun _ => .zero
  · rw [Bool.not_eq_true', Bool.not_eq_true', decide_eq_false_iff_not, decide_eq_false_iff_not]
    exact not_congr hq
  · rw [Bool.not_eq_true', decide_eq_false_iff_not] at h
    exact ((u.scaledFraction_tracks phases control p).mul_scalar _).div hp (h0 h)

/-- Whether no part of the stream is at the guard against missing from it, as far as the rate of a phase tests that. -/
def OffGuard (u : WellUnit ℝ) (phases : PhaseSet) (control : Control ℝ) (p : Phase) : Prop :=
  match phases.active.filter fun q => decide (0 < control.weights.get q) with
  | [controlled] => controlled ≠ p → (u.scaledFraction phases control controlled).value ≠ (1e-6 : ℝ)
  | weighted => |((weighted.map (u.scaledFraction phases control)).foldl (· + ·) 0).value| ≠ (1e-6 : ℝ)

private theorem ratedProduction_tracks (u : WellUnit ℝ) (phases : PhaseSet) (control : Control ℝ) (p : Phase)
    (h : (u.withUnknowns (b x)).OffGuard phases control p) :
    Tracks (frame a b) (fun q => (u.withUnknowns (b q)).ratedProduction phases control p) x := by
  have hs (r : Phase) := u.scaledFraction_tracks (a := a) (b := b) (x := x) phases control r
  -- several phases are weighted, or none
  have several (l : List Phase)
      (hx : |((l.map ((u.withUnknowns (b x)).scaledFraction phases control)).foldl (· + ·) 0).value| ≠ (1e-6 : ℝ)) :
      Tracks (frame a b) (fun q => (u.withUnknowns (b q)).rateAtTarget phases control p
        ((l.map ((u.withUnknowns (b q)).scaledFraction phases control)).foldl (· + ·) 0)
        !(decide (|((l.map ((u.withUnknowns (b q)).scaledFraction phases control)).foldl (· + ·) 0).value| < 1e-6)))
        x := by
    have ht := Tracks.zero.foldl_add (l := l) fun r _ => hs r
    refine rateAtTarget_tracks u phases control p ht ht.continuousAt.abs hx fun hlt h0 => hlt ?_
    rw [h0, abs_zero]
    norm_num
  unfold OffGuard at h
  unfold ratedProduction
  dsimp only
  generalize phases.active.filter (fun q => decide (0 < control.weights.get q)) = l at h ⊢
  rcases l with _ | ⟨r, _ | ⟨r', l⟩⟩
  · exact several [] h
  · refine .ite (.of_forall fun _ => Iff.rfl) (fun _ => .const _) fun hr => ?_
    refine rateAtTarget_tracks u phases control p (hs r) (hs r).continuousAt (h hr) fun hlt h0 => hlt ?_
    rw [h0]
    norm_num
  · exact several (r :: r' :: l) h

theorem surfaceRate_tracks (u : WellUnit ℝ) (phases : PhaseSet) (control : Control ℝ) (p : Phase)
    (h : u.well.isInjector = false → control.kind = .surfaceRate →
      (u.withUnknowns (b x)).OffGuard phases control p) :
    Tracks (frame a b) (fun q => (u.withUnknowns (b q)).surfaceRate phases control p) x := by
  have hl : Tracks (frame a b) (fun q => (u.withUnknowns (b q)).unknowns.lead) x := .seedWell 0
  have hs := u.scaledFraction_tracks (a := a) (b := b) (x := x) phases control p
  refine .ite (.of_forall fun _ => Iff.rfl) (fun _ => ?_) fun hi => ?_
  · refine .ite (.of_forall fun _ => Iff.rfl) (fun _ => .zero) fun _ => ?_
    exact .ite (.of_forall fun _ => Iff.rfl) (fun _ => hl) fun _ => .const _
  · have hn : u.well.isInjector = false := Bool.not_eq_true _ ▸ hi
    cases hk : control.kind with
    | bhp => exact hl.mul hs
    | thp => exact hl.mul hs
    | surfaceRate => exact u.ratedProduction_tracks phases control p (h hn hk)
    | reservoirRate => exact hs.mul_scalar _

end WellUnit

/-! ### Lift tables -/

private theorem takeWhile_congr {α : Type} {l : List α} {p p' : α → Bool} (h : ∀ k ∈ l, p k = p' k) :
    l.takeWhile p = l.takeWhile p' := by
  induction l with
  | nil => rfl
  | cons k l ih =>
    rw [List.takeWhile_cons, List.takeWhile_cons, h k (List.mem_cons_self ..),
      ih fun j hj => h j (List.mem_cons_of_mem k hj)]

omit [NormedSpace ℝ E] in
/-- A node search does not change away from the nodes. -/
private theorem Axis.eventually_lowerNode {axis : List ℝ} {f : E → ℝ} (hf : ContinuousAt f x) (h : f x ∉ axis) :
    ∀ᶠ q in 𝓝 x, lowerNode axis (f q) = lowerNode axis (f x) := by
  have hle : ∀ᶠ q in 𝓝 x, ∀ k ∈ axis, (k ≤ f q ↔ k ≤ f x) := by
    refine (eventually_all_finite axis.finite_toSet).2 fun k hk => ?_
    refine (eventually_lt_iff hf continuousAt_const (ne_of_mem_of_not_mem hk h).symm).mono fun q hq => ?_
    rw [← not_lt, ← not_lt, hq]
  filter_upwards [hle] with q hq
  unfold lowerNode
  rw [takeWhile_congr fun k hk => decide_eq_decide.2 (hq k hk)]

namespace FlowKind

private theorem flow_tracks (k : FlowKind) {Q : E → PerPhase (WellDual ℝ)} {c : Fin 6 → E →L[ℝ] ℝ}
    (hQ : TracksAll c Q x)
    (h : (k.flow (Q x)).value ≠ 0) : Tracks c (fun q => k.flow (Q q)) x := by
  have h0 {d : WellDual ℝ} (hd : d.abs.value ≠ 0) : d.value ≠ 0 := by
    intro h0
    rw [Dual.abs, if_neg (by rw [h0]; exact lt_irrefl 0)] at hd
    exact hd h0
  cases k with
  | oil => exact (hQ .oil).abs (h0 h)
  | liquid => exact ((hQ .oil).add (hQ .water)).abs (h0 h)
  | gas => exact (hQ .gas).abs (h0 h)

end FlowKind

namespace LiftTable

/-- Whether rates are neither zero nor at a node of the flow axis. -/
def OffNodes (t : LiftTable ℝ) (rates : PerPhase (WellDual ℝ)) : Prop :=
  (t.flowKind.flow rates).value ≠ 0 ∧ (t.flowKind.flow rates).value ∉ t.flowNodes

private theorem bhp_tracks (t : LiftTable ℝ) {Q : E → PerPhase (WellDual ℝ)} {c : Fin 6 → E →L[ℝ] ℝ}
    (hQ : TracksAll c Q x)
    (h : t.OffNodes (Q x)) (thp : ℝ) {d : WellDual ℝ} (hd : t.bhp (Q x) thp = .ok d) :
    TracksOk c (fun q => t.bhp (Q q) thp) x := by
  have hF := t.flowKind.flow_tracks hQ h.1
  have hi := Axis.eventually_lowerNode hF.continuousAt h.2
  unfold LiftTable.bhp at hd ⊢
  dsimp only at hd ⊢
  obtain ⟨row, hrow, hd⟩ := Outcome.bind_ok.1 hd
  obtain ⟨low, hlow, hd⟩ := Outcome.bind_ok.1 hd
  generalize Axis.lowerNode t.flowNodes (t.flowKind.flow (Q x)).value = i at hi hrow hd
  split at hd
  · -- the rates lie between two nodes or beyond the last two
    rename_i f g next hf hg hnext
    obtain ⟨high, hhigh, -⟩ := Outcome.bind_ok.1 hd
    refine ⟨fun q => (t.flowKind.flow (Q q) - f) / (g - f) * (high - low) + low, hi.mono fun q hq => ?_,
      (((hF.sub_scalar f).div_scalar (g - f)).mul_scalar (high - low)).add_scalar low⟩
    beta_reduce
    rw [hq]
    refine Outcome.bind_ok.2 ⟨row, hrow, Outcome.bind_ok.2 ⟨low, hlow, ?_⟩⟩
    rw [hf, hg, hnext]
    exact Outcome.bind_ok.2 ⟨high, hhigh, if_pos (Dual.isFinite_exact _)⟩
  · -- the table has a single node
    rename_i hnone
    refine ⟨fun _ => .const low, hi.mono fun q hq => ?_, .const low⟩
    beta_reduce
    rw [hq]
    refine Outcome.bind_ok.2 ⟨row, hrow, Outcome.bind_ok.2 ⟨low, hlow, ?_⟩⟩
    split
    · rename_i f g next hf hg hnext
      exact absurd hnext (hnone f g next hf hg)
    · exact if_pos (Dual.isFinite_exact _)

end LiftTable

namespace WellUnit

/-! ### The bottom-hole pressure -/

theorem bottomHole_tracks (u : WellUnit ℝ) (setup : Setup ℝ) (control : Control ℝ)
    (hg : ∀ p, setup.phases.isActive p = true → u.well.isInjector = false → control.kind = .surfaceRate →
      (u.withUnknowns (b x)).OffGuard setup.phases control p)
    (hl : ∀ table lift t, control.kind = .thp table lift → setup.lift.get table = .ok t →
      t.OffNodes (setup.phases.select (.ofFn ((u.withUnknowns (b x)).surfaceRate setup.phases control)) (.replicate 0)))
    {d : WellDual ℝ} (hd : (u.withUnknowns (b x)).bottomHole setup control = .ok d) :
    TracksOk (frame a b) (fun q => (u.withUnknowns (b q)).bottomHole setup control) x := by
  have hs (p : Phase) (hp : setup.phases.isActive p = true) :=
    u.surfaceRate_tracks (a := a) (b := b) (x := x) setup.phases control p (hg p hp)
  unfold bottomHole at hd ⊢
  cases hk : control.kind with
  | bhp => exact ⟨_, .of_forall fun _ => rfl, .const _⟩
  | surfaceRate => exact ⟨_, .of_forall fun _ => rfl, .seedWell 0⟩
  | reservoirRate => exact ⟨_, .of_forall fun _ => rfl, .seedWell 0⟩
  | thp table lift =>
    simp only [hk] at hd ⊢
    obtain ⟨t, ht, hd⟩ := Outcome.bind_ok.1 hd
    obtain ⟨d', hd', hd⟩ := Outcome.bind_ok.1 hd
    have hQ : TracksAll (frame a b) (fun q => setup.phases.select
        (.ofFn ((u.withUnknowns (b q)).surfaceRate setup.phases control)) (.replicate 0)) x := .select_ofFn _ hs
    obtain ⟨G, hG, hGt⟩ := t.bhp_tracks hQ (hl table lift t hk ht) control.target hd'
    refine ⟨fun q => G q - u.liftCorrection setup t, hG.mono fun q hq => ?_, hGt.sub_scalar _⟩
    exact Outcome.bind_ok.2 ⟨t, ht, Outcome.bind_ok.2 ⟨G q, hq, rfl⟩⟩

end WellUnit

end BlackOilWells
