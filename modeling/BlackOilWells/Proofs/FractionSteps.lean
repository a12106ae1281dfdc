import BlackOilWells.Proofs.StoppedUpdates
import BlackOilWells.Proofs.ZeroSteps

/-!
# How far a Newton step moves the fractions

A Newton step moves the water and the gas fraction by a bounded amount each and closes them afterwards.  Closing leaves
`closedFraction x y` of a fraction `x` beside the other one, `y` (`closeFractions_eq`).  Where `y` is not negative this
is within the bound of the step again, also if the two exceed one together (`abs_closedFraction_sub_le`).  A negative
`y` is dropped and `x` is scaled with the rest of the stream, for which there is no bound of its own: the fraction moves
by less than twice the bound then (`abs_closedFraction_sub_le_two`), and it can move by more than the bound
(`Session.fractionChange_exceeds_gassyProducer`).

`Session.fractionChange_of_updates` says this of all wells, whether their steps succeed or stop.
-/

namespace BlackOilWells

open Attempt

variable {K : Type} [Field K] [LinearOrder K]

/-- What is left of a fraction `x` of the stream when it is closed beside a fraction `y`. -/
def closedFraction (x y : K) : K := max x 0 / max (1 + max (-y) 0) (max x 0 + max y 0)

private theorem closedFraction_of_neg {x : K} (h : x < 0) (y : K) : closedFraction x y = 0 := by
  rw [closedFraction, max_eq_right h.le, zero_div]

private theorem dropNegative_of_neg {f : PerPhase K} {p : Phase} (h : f.get p < 0) :
    dropNegative f p = .ofFn fun r => if r = p then 0 else f.get r / (1 - f.get p) := if_pos h

variable [IsStrictOrderedRing K]

private theorem closedFraction_of_nonneg {x y : K} (hx : 0 ≤ x) (hy : 0 ≤ y) :
    closedFraction x y = x / max 1 (x + y) := by
  rw [closedFraction, max_eq_left hx, max_eq_left hy, max_eq_right (neg_nonpos.2 hy), add_zero]

private theorem closedFraction_of_neg_right {x y : K} (hx : 0 ≤ x) (hy : y < 0) :
    closedFraction x y = x / max (1 - y) x := by
  rw [closedFraction, max_eq_left hx, max_eq_right hy.le, max_eq_left (neg_nonneg.2 hy.le), add_zero, sub_eq_add_neg]

private theorem div_div_max_one {x d : K} (hd : 0 < d) : x / d / max 1 (x / d) = x / max d x := by
  rw [div_div, mul_max_of_nonneg _ _ hd.le, mul_one, mul_div_cancel₀ _ hd.ne']

/-- Dropping oil last scales the others to their sum, if this is more than one. -/
private theorem dropNegative_oil {f : PerPhase K} (hsum : f.water + f.oil + f.gas = 1) {p : Phase} (hp : p ≠ .oil) :
    (dropNegative f .oil).get p = f.get p / max 1 (f.water + f.gas) := by
  have hrest : 1 - f.oil = f.water + f.gas := by linear_combination -hsum
  rw [get_dropNegative]
  change (if f.oil < 0 then if p = .oil then 0 else f.get p / (1 - f.oil) else f.get p) = _
  rw [if_neg hp, hrest]
  by_cases ho : f.oil < 0
  · have hover : 1 ≤ f.water + f.gas := by linarith
    rw [if_pos ho, max_eq_right hover]
  · have hunder : f.water + f.gas ≤ 1 := by linarith
    rw [if_neg ho, max_eq_left hunder, div_one]

/-- What closing makes of the fractions of water and gas. -/
theorem closeFractions_eq (phases : PhaseSet) (water gas : K) {w g : K}
    (hw : (if phases.water then water else 0) = w) (hg : (if phases.gas then gas else 0) = g) :
    (closeFractions phases water gas).water = closedFraction w g ∧
      (closeFractions phases water gas).gas = closedFraction g w := by
  have hclose {f : PerPhase K} (hf : dropNegative (dropNegative ⟨w, 1 - w - g, g⟩ .water) .gas = f) :
      (closeFractions phases water gas).water = f.water / max 1 (f.water + f.gas) ∧
        (closeFractions phases water gas).gas = f.gas / max 1 (f.water + f.gas) := by
    have hsum : f.water + f.oil + f.gas = 1 := by
      rw [← hf]
      exact sum_dropNegative (sum_dropNegative (by dsimp only; ring) _) _
    have heq : closeFractions phases water gas = dropNegative f .oil := by
      rw [closeFractions, hw, hg, ← hf]
    rw [heq]
    exact ⟨dropNegative_oil (p := .water) hsum (by decide), dropNegative_oil (p := .gas) hsum (by decide)⟩
  rcases lt_or_ge w 0 with hwater | hwater
  · have hfirst : dropNegative ⟨w, 1 - w - g, g⟩ .water = ⟨0, (1 - w - g) / (1 - w), g / (1 - w)⟩ :=
      dropNegative_of_neg hwater
    have hscale : 0 < 1 - w := by linarith
    rcases lt_or_ge g 0 with hgas | hgas
    · have hf := congrArg (dropNegative · .gas) hfirst
      have hneg : g / (1 - w) < 0 := div_neg_of_neg_of_pos hgas hscale
      obtain ⟨hleft, hright⟩ := hclose (hf.trans (dropNegative_of_neg hneg))
      rw [hleft, hright, closedFraction_of_neg hwater, closedFraction_of_neg hgas]
      simp [PerPhase.ofFn, PerPhase.get]
    · have hf : dropNegative (dropNegative ⟨w, 1 - w - g, g⟩ .water) .gas = _ :=
        (congrArg (dropNegative · .gas) hfirst).trans (dropNegative_of_nonneg (div_nonneg hgas hscale.le))
      obtain ⟨hleft, hright⟩ := hclose hf
      rw [hleft, hright, closedFraction_of_neg hwater, closedFraction_of_neg_right hgas hwater,
        ← div_div_max_one hscale]
      simp
  · have hfirst : dropNegative ⟨w, 1 - w - g, g⟩ .water = ⟨w, 1 - w - g, g⟩ := dropNegative_of_nonneg hwater
    rcases lt_or_ge g 0 with hgas | hgas
    · obtain ⟨hleft, hright⟩ := hclose ((congrArg (dropNegative · .gas) hfirst).trans (dropNegative_of_neg hgas))
      have hscale : 0 < 1 - g := by linarith
      rw [hleft, hright, closedFraction_of_neg hgas, closedFraction_of_neg_right hwater hgas, ← div_div_max_one hscale]
      simp [PerPhase.ofFn, PerPhase.get]
    · obtain ⟨hleft, hright⟩ := hclose ((congrArg (dropNegative · .gas) hfirst).trans (dropNegative_of_nonneg hgas))
      rw [hleft, hright, closedFraction_of_nonneg hwater hgas, closedFraction_of_nonneg hgas hwater, add_comm g w]
      exact ⟨rfl, rfl⟩

section Bounds

variable {a b x y δ : K}

private theorem closedFraction_nonneg (x y : K) : 0 ≤ closedFraction x y := by
  have hdivisor : 0 ≤ max (1 + max (-y) 0) (max x 0 + max y 0) := le_max_of_le_right (by positivity)
  exact div_nonneg (le_max_right x 0) hdivisor

private theorem closedFraction_le_one (x y : K) : closedFraction x y ≤ 1 := by
  have hy : 0 ≤ max y 0 := le_max_right y 0
  have hdivisor : max x 0 ≤ max (1 + max (-y) 0) (max x 0 + max y 0) := le_max_of_le_right (by linarith)
  exact div_le_one_of_le₀ hdivisor ((le_max_right x 0).trans hdivisor)

/-- Closing does not raise a fraction. -/
private theorem closedFraction_le (x y : K) : closedFraction x y ≤ max x 0 := by
  have hy : 0 ≤ max (-y) 0 := le_max_right (-y) 0
  have hdivisor : 1 ≤ max (1 + max (-y) 0) (max x 0 + max y 0) := le_max_of_le_left (by linarith)
  exact div_le_self (le_max_right x 0) hdivisor

private theorem closedFraction_le_add (ha : 0 ≤ a) (hx : |x - a| ≤ δ) (y : K) : closedFraction x y ≤ a + δ := by
  have hlimit : 0 ≤ δ := (abs_nonneg _).trans hx
  obtain ⟨-, hhigh⟩ := abs_le.1 hx
  exact (closedFraction_le x y).trans (max_le (by linarith) (by linarith))

/-- Two fractions that exceed one together are scaled to one.  What exceeds one comes from their steps, and each of
these is bounded. -/
private theorem sub_le_closedFraction (hab : a + b ≤ 1) (hx : |x - a| ≤ δ) (hy : |y - b| ≤ δ) (hy0 : 0 ≤ y) :
    a - δ ≤ closedFraction x y := by
  obtain ⟨hxlow, -⟩ := abs_le.1 hx
  obtain ⟨-, hyhigh⟩ := abs_le.1 hy
  rcases le_total a δ with h | h
  · exact (sub_nonpos.2 h).trans (closedFraction_nonneg x y)
  · have hx0 : 0 ≤ x := by linarith
    have hdivisor : 0 < max 1 (x + y) := lt_max_of_lt_left one_pos
    rw [closedFraction_of_nonneg hx0 hy0, le_div_iff₀ hdivisor]
    rcases le_total (x + y) 1 with hsum | hsum
    · rw [max_eq_left hsum]
      linarith
    · have hexcess : x + y ≤ x + (1 - (a - δ)) := by linarith
      have hrest : 0 ≤ 1 - (a - δ) := by linarith
      have hgap : 0 ≤ (1 - (a - δ)) * (x - (a - δ)) := mul_nonneg hrest (by linarith)
      rw [max_eq_right hsum]
      calc (a - δ) * (x + y) ≤ (a - δ) * (x + (1 - (a - δ))) := mul_le_mul_of_nonneg_left hexcess (sub_nonneg.2 h)
        _ = x - (1 - (a - δ)) * (x - (a - δ)) := by ring
        _ ≤ x := sub_le_self x hgap

/-- Beside a negative fraction the scale is at most one more than the bound. -/
private theorem div_le_closedFraction (ha : a ≤ 1) (hb : 0 ≤ b) (hx : |x - a| ≤ δ) (hy : |y - b| ≤ δ) (hy0 : y < 0) :
    (a - δ) / (1 + δ) ≤ closedFraction x y := by
  have hlimit : 0 ≤ δ := (abs_nonneg _).trans hx
  have hscale : 0 < 1 + δ := by linarith
  obtain ⟨hxlow, -⟩ := abs_le.1 hx
  obtain ⟨hylow, -⟩ := abs_le.1 hy
  rcases le_total a δ with h | h
  · exact (div_nonpos_of_nonpos_of_nonneg (sub_nonpos.2 h) hscale.le).trans (closedFraction_nonneg x y)
  · have hx0 : 0 ≤ x := by linarith
    have hrest : 0 ≤ (a - δ) / (1 + δ) := div_nonneg (sub_nonneg.2 h) hscale.le
    have hrest_le : (a - δ) / (1 + δ) ≤ 1 := div_le_one_of_le₀ (by linarith) hscale.le
    have hdivisor : 0 < max (1 - y) x := lt_max_of_lt_left (by linarith)
    rw [closedFraction_of_neg_right hx0 hy0, le_div_iff₀ hdivisor, mul_max_of_nonneg _ _ hrest]
    refine max_le ?_ (mul_le_of_le_one_left hx0 hrest_le)
    calc (a - δ) / (1 + δ) * (1 - y) ≤ (a - δ) / (1 + δ) * (1 + δ) := mul_le_mul_of_nonneg_left (by linarith) hrest
      _ = a - δ := div_mul_cancel₀ _ hscale.ne'
      _ ≤ x := by linarith

/-- Beside a fraction that is not negative, a fraction keeps within the bound of the step. -/
theorem abs_closedFraction_sub_le (ha : 0 ≤ a) (hab : a + b ≤ 1) (hx : |x - a| ≤ δ) (hy : |y - b| ≤ δ)
    (hy0 : 0 ≤ y) : |closedFraction x y - a| ≤ δ := by
  have hupper := closedFraction_le_add ha hx y
  have hlower := sub_le_closedFraction hab hx hy hy0
  rw [abs_le]
  constructor <;> linarith

/-- Beside any fraction it keeps within twice the bound. -/
theorem abs_closedFraction_sub_le_two (ha : 0 ≤ a) (hb : 0 ≤ b) (hab : a + b ≤ 1) (hx : |x - a| ≤ δ)
    (hy : |y - b| ≤ δ) : |closedFraction x y - a| ≤ 2 * δ / (1 + δ) := by
  have hlimit : 0 ≤ δ := (abs_nonneg _).trans hx
  have hscale : 0 < 1 + δ := by linarith
  rcases le_total δ 1 with hsmall | hlarge
  · have hbound : δ ≤ 2 * δ / (1 + δ) := by
      have hsquare : δ * δ ≤ δ := mul_le_of_le_one_left hlimit hsmall
      rw [le_div_iff₀ hscale]
      linarith
    rcases le_or_gt 0 y with hy0 | hy0
    · exact (abs_closedFraction_sub_le ha hab hx hy hy0).trans hbound
    · have hupper := closedFraction_le_add ha hx y
      have hlower := div_le_closedFraction (by linarith) hb hx hy hy0
      have hdrop : a - (a - δ) / (1 + δ) ≤ 2 * δ / (1 + δ) := by
        have hsplit : a - (a - δ) / (1 + δ) = (1 + a) * δ / (1 + δ) := by
          field_simp
          ring
        rw [hsplit]
        exact div_le_div_of_nonneg_right (mul_le_mul_of_nonneg_right (by linarith) hlimit) hscale.le
      rw [abs_le]
      constructor <;> linarith
  · -- a bound above one says nothing, as both fractions are between zero and one
    have hone : 1 ≤ 2 * δ / (1 + δ) := by
      rw [le_div_iff₀ hscale]
      linarith
    have hlow := closedFraction_nonneg x y
    have hhigh := closedFraction_le_one x y
    rw [abs_le]
    constructor <;> linarith

end Bounds

/-! ### The step of one well -/

/-- The fraction that is an unknown beside that of a phase. -/
def Phase.beside : Phase → Phase
  | .water => .gas
  | .gas => .water
  | .oil => .oil

namespace WellUnit

variable {u : WellUnit K} {setup : Setup K} {old : Unknowns K} {dx : Vec3 K} {p : Phase}

omit [IsStrictOrderedRing K] in
/-- The fraction of water or gas after the bounded step, before it is closed. -/
def movedFraction (setup : Setup K) (old : Unknowns K) (dx : Vec3 K) (p : Phase) : K :=
  if setup.phases.isActive p then
    old.fractions.get p - Scalar.boundedStep ((Unknowns.ofVec dx).fractions.get p) setup.settings.maxFractionChange
  else 0

private theorem get_stepFractions (hp : p ≠ .oil) :
    (stepFractions setup old dx).get p = closedFraction (movedFraction setup old dx p)
      (movedFraction setup old dx p.beside) := by
  have hagain (b : Bool) (x : K) : (if b then if b then x else 0 else 0) = if b then x else 0 := by
    cases b <;> rfl
  obtain ⟨hwater, hgas⟩ := closeFractions_eq setup.phases _ _
    (hagain setup.phases.water (old.water - Scalar.boundedStep dx.y setup.settings.maxFractionChange))
    (hagain setup.phases.gas (old.gas - Scalar.boundedStep dx.z setup.settings.maxFractionChange))
  cases p with
  | water => exact hwater
  | gas => exact hgas
  | oil => exact absurd rfl hp

private theorem abs_movedFraction_sub_le (old : Unknowns K) (dx : Vec3 K)
    (hlimit : 0 ≤ setup.settings.maxFractionChange)
    (hp : setup.phases.isActive p = true) :
    |movedFraction setup old dx p - old.fractions.get p| ≤ setup.settings.maxFractionChange := by
  rw [movedFraction, if_pos hp, sub_sub_cancel_left, abs_neg]
  exact Scalar.abs_boundedStep_le _ hlimit

/-- How far a step moves a fraction. -/
theorem abs_stepFractions_sub_le (dx : Vec3 K) (hlimit : 0 ≤ setup.settings.maxFractionChange)
    (hmix : ∀ q, 0 ≤ old.fractions.get q) (hp : p ≠ .oil) (hactive : setup.phases.isActive p = true) :
    |(stepFractions setup old dx).get p - old.fractions.get p| ≤
        2 * setup.settings.maxFractionChange / (1 + setup.settings.maxFractionChange) ∧
      (0 ≤ movedFraction setup old dx p.beside →
        |(stepFractions setup old dx).get p - old.fractions.get p| ≤ setup.settings.maxFractionChange) := by
  have hsum : old.fractions.get p + old.fractions.get p.beside ≤ 1 := by
    have hoil : 0 ≤ 1 - old.water - old.gas := hmix .oil
    cases p with
    | water =>
      change old.water + old.gas ≤ 1
      linarith
    | gas =>
      change old.gas + old.water ≤ 1
      linarith
    | oil => exact absurd rfl hp
  have hmoved := abs_movedFraction_sub_le old dx hlimit hactive
  -- an absent phase stands beside as a fraction of zero
  obtain ⟨b, hb, hbsum, hbeside⟩ : ∃ b, 0 ≤ b ∧ old.fractions.get p + b ≤ 1 ∧
      |movedFraction setup old dx p.beside - b| ≤ setup.settings.maxFractionChange := by
    by_cases hq : setup.phases.isActive p.beside = true
    · exact ⟨_, hmix _, hsum, abs_movedFraction_sub_le old dx hlimit hq⟩
    · refine ⟨0, le_refl 0, by linarith [hmix p.beside], ?_⟩
      rw [movedFraction, if_neg hq, sub_zero, abs_zero]
      exact hlimit
  rw [get_stepFractions hp]
  exact ⟨abs_closedFraction_sub_le_two (hmix p) hb hbsum hmoved hbeside,
    abs_closedFraction_sub_le (hmix p) hbsum hmoved hbeside⟩

end WellUnit

/-! ### The steps of all wells -/

/-- Newton steps that succeed or stop leave the unknowns of a well as they were, or as its step has left them. -/
private theorem Model.unknowns_of_updates {α : Type} [Scalar α] {m : Model α} {updates : List (Vec3 α)}
    {f f' : FlowState α}
    {o : Outcome α Unit} (h : m.applyUpdates updates f = (o, f')) {w : Nat} {u : WellUnit α}
    (hu : m.units[w]? = some u) : (f'.slot w).unknowns = (f.slot w).unknowns ∨
      ∃ c old dx, updates[w]? = some dx ∧ (f.slot w).unknowns = some old ∧
        (f'.slot w).unknowns = some (WellUnit.steppedUnknowns m.setup c old dx) := by
  have hstep {dx : Vec3 α} (hdx : updates[w]? = some dx)
      (hrun : u.applyUpdate m.setup dx (f.slot w) = (.ok ⟨⟩, f'.slot w)) :
      ∃ c old dx, updates[w]? = some dx ∧ (f.slot w).unknowns = some old ∧
        (f'.slot w).unknowns = some (WellUnit.steppedUnknowns m.setup c old dx) := by
    obtain ⟨c, x, -, ⟨old, rates, bhp, hold, -, -, -, rfl⟩, hthp⟩ := WellUnit.applyUpdate_ok hrun
    rw [WellUnit.updateThp_frame hthp]
    exact ⟨c, old, dx, hdx, hold, rfl⟩
  cases o with
  | ok =>
    obtain ⟨dx, hdx, hrun⟩ := applyUpdates_slot h hu
    exact .inr (hstep hdx hrun)
  | error e =>
    rcases applyUpdates_error h with rfl | ⟨v, hv⟩
    · exact .inl rfl
    rcases Nat.lt_trichotomy w v with hwv | rfl | hvw
    · obtain ⟨u', dx, hu', hdx, hrun⟩ := hv.before w hwv
      obtain rfl : u = u' := Option.some.inj (hu.symm.trans hu')
      exact .inr (hstep hdx hrun)
    · obtain ⟨u', dx, -, hdx, -, hsame | ⟨c, -, ⟨old, rates, bhp, hold, -, -, -, hwritten⟩, -⟩⟩ := hv.stopped
      · exact .inl (congrArg Slot.unknowns hsame)
      · rw [hwritten]
        exact .inr ⟨c, old, dx, hdx, hold, rfl⟩
    · exact .inl (congrArg Slot.unknowns (hv.after w hvw))

namespace Session

variable {γ : Type}

/-- Newton steps that succeed or stop move the fractions of each well, if these were those of a mix, by less than twice
the bound.  They move the fraction of an active phase within the bound unless they take the other fraction below zero;
the fraction of an absent phase is zero after them. -/
theorem fractionChange_of_updates {updates : List (Vec3 K)} {s t : Session K γ} {o : Outcome K Unit}
    (hlimit : 0 ≤ s.model.setup.settings.maxFractionChange) (h : applyUpdates updates s = (o, t)) {w : Nat}
    {u : WellUnit K} (hu : s.model.units[w]? = some u) {old : Unknowns K} (hold : (s.flow.slot w).unknowns = some old)
    (hmix : ∀ p, 0 ≤ old.fractions.get p) :
    ∃ new, (t.flow.slot w).unknowns = some new ∧ ∀ p, p ≠ .oil →
      (s.model.setup.phases.isActive p = true →
        |new.fractions.get p - old.fractions.get p| ≤
          2 * s.model.setup.settings.maxFractionChange / (1 + s.model.setup.settings.maxFractionChange) ∧
        ((∀ dx, updates[w]? = some dx → 0 ≤ WellUnit.movedFraction s.model.setup old dx p.beside) →
          |new.fractions.get p - old.fractions.get p| ≤ s.model.setup.settings.maxFractionChange)) ∧
      (s.model.setup.phases.isActive p = false →
        new.fractions.get p = old.fractions.get p ∨ new.fractions.get p = 0) := by
  have hrun : ∃ f, s.model.applyUpdates updates s.flow = (o, f) ∧ t = { s with flow := f } := by
    unfold applyUpdates at h
    rw [run_get_bind, run_onFlow] at h
    obtain ⟨ho, ht⟩ := Prod.mk.inj h
    exact ⟨_, Prod.ext ho rfl, ht.symm⟩
  obtain ⟨f, hf, rfl⟩ := hrun
  rcases Model.unknowns_of_updates hf hu with hsame | ⟨c, old', dx, hdx, hold', hnew⟩
  · refine ⟨old, hsame.trans hold, fun p _ => ⟨fun _ => ?_, fun _ => .inl rfl⟩⟩
    rw [sub_self, abs_zero]
    exact ⟨div_nonneg (by linarith) (by linarith), fun _ => hlimit⟩
  · obtain rfl : old = old' := Option.some.inj (hold.symm.trans hold')
    refine ⟨_, hnew, fun p hp => ?_⟩
    rw [WellUnit.fractions_steppedUnknowns]
    refine ⟨fun hactive => ?_, fun habsent => .inr ?_⟩
    · obtain ⟨htwo, hone⟩ := WellUnit.abs_stepFractions_sub_le dx hlimit hmix hp hactive
      exact ⟨htwo, fun hbeside => hone (hbeside dx hdx)⟩
    · exact (closeFractions_isMix s.model.setup.phases _ _).absent p hp habsent

/-! ### A producer with much gas -/

/-- A producer whose stream is half gas and half oil, in a model with water. -/
def gassyProducer : Session ℚ (Option (VoidageGroup ℚ)) :=
  { oilProducer 15 with
    model := { (oilProducer 15).model with setup := { (oilProducer 15).model.setup with phases := .threePhase } }
    flow := { (oilProducer 15).flow with unknowns := [-10, 0, 1 / 2] } }

/-- A step takes the water fraction below zero.  The water fraction stays where it is, and that of gas moves by a
third at most. -/
theorem fractionChange_of_updates_gassyProducer : ∃ t new, applyUpdates [⟨0, 1, 1⟩] gassyProducer = (.ok ⟨⟩, t) ∧
    gassyProducer.model.setup.settings.maxFractionChange = 1 / 5 ∧
    (gassyProducer.flow.slot 0).unknowns = some ⟨-10, 0, 1 / 2⟩ ∧ (t.flow.slot 0).unknowns = some new ∧
    |new.fractions.get .water - 0| ≤ 1 / 5 ∧ |new.fractions.get .gas - 1 / 2| ≤ 1 / 3 := by
  have hrun : (applyUpdates [⟨0, 1, 1⟩] gassyProducer).1.toOption = some ⟨⟩ := by decide +kernel
  have hlimit : gassyProducer.model.setup.settings.maxFractionChange = 1 / 5 := by decide +kernel
  have hold : (gassyProducer.flow.slot 0).unknowns = some ⟨-10, 0, 1 / 2⟩ := rfl
  have hmix (p : Phase) : 0 ≤ (⟨-10, 0, 1 / 2⟩ : Unknowns ℚ).fractions.get p := by
    cases p <;> decide +kernel
  obtain ⟨new, hnew, hbound⟩ := fractionChange_of_updates (by rw [hlimit]; norm_num) (run_ok_of_toOption hrun)
    (w := 0) (u := gassyProducer.model.units[0]) rfl hold hmix
  have hwater := ((hbound .water nofun).1 rfl).2 fun dx hdx => by
    obtain rfl : ⟨0, 1, 1⟩ = dx := Option.some.inj hdx
    decide +kernel
  have hgas := ((hbound .gas nofun).1 rfl).1
  rw [hlimit] at hwater hgas
  exact ⟨_, new, run_ok_of_toOption hrun, hlimit, hold, hnew, hwater, hgas.trans (by norm_num)⟩

/-- What is dropped of the water fraction scales that of gas down by a quarter, although a step may move it by a fifth
only. -/
theorem fractionChange_exceeds_gassyProducer : ∃ t old new,
    applyUpdates [⟨0, 1, 1⟩] gassyProducer = (.ok ⟨⟩, t) ∧ (gassyProducer.flow.slot 0).unknowns = some old ∧
    (t.flow.slot 0).unknowns = some new ∧ (∀ p, 0 ≤ old.fractions.get p) ∧
    0 ≤ gassyProducer.model.setup.settings.maxFractionChange ∧ |new.gas - old.gas| = 1 / 4 ∧
    gassyProducer.model.setup.settings.maxFractionChange < |new.gas - old.gas| := by
  have hrun : (applyUpdates [⟨0, 1, 1⟩] gassyProducer).1.toOption = some ⟨⟩ := by decide +kernel
  have hgas : ((applyUpdates [⟨0, 1, 1⟩] gassyProducer).2.flow.slot 0).unknowns.map (·.gas) = some (1 / 4) := by
    decide +kernel
  obtain ⟨new, hnew, hgas⟩ := Option.map_eq_some_iff.1 hgas
  have hmix (p : Phase) : 0 ≤ (⟨-10, 0, 1 / 2⟩ : Unknowns ℚ).fractions.get p := by
    cases p <;> decide +kernel
  refine ⟨_, ⟨-10, 0, 1 / 2⟩, new, run_ok_of_toOption hrun, rfl, hnew, hmix, by decide +kernel, ?_, ?_⟩
  all_goals
    rw [hgas]
    decide +kernel

end Session

end BlackOilWells
