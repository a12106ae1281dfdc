import Mathlib.Algebra.Order.Field.Basic
import Mathlib.Algebra.Order.Ring.Rat
import Mathlib.Data.Finset.Card
import Mathlib.Data.Finset.Range
import BlackOilWells.Proofs.ControlUpdates
import BlackOilWells.Proofs.Exact
import BlackOilWells.Proofs.LocalSolution

/-!
# Control switching settles

A producer is moved to the constraint that it switches to, and the move may break others.  Where the constraints bound
the bottom-hole pressure and single rates only, a move raises what its constraint bounds and lowers nothing
(`WellUnit.moveToTarget_rises`).  A constraint that is met therefore stays met (`Control.IsMet.of_rises`), the well never
switches to one for a second time, and it comes to rest (`Session.switching_settles`).
-/

namespace BlackOilWells

open Attempt

variable {α γ : Type}

/-! ### Constraints that are met -/

/-- Whether a slot does not violate a constraint. -/
def Control.IsMet [Scalar α] (c : Control α) (type : WellType) (s : Slot α) : Prop :=
  ∃ bhp thp rates, s.bhp = some bhp ∧ s.thp = some thp ∧ s.rates = some rates ∧ c.isBroken type bhp thp rates = false

/-- Whether a slot violates a constraint. -/
def Control.IsViolated [Scalar α] (c : Control α) (type : WellType) (s : Slot α) : Prop :=
  ∃ bhp thp rates, s.bhp = some bhp ∧ s.thp = some thp ∧ s.rates = some rates ∧ c.isBroken type bhp thp rates = true

/-- Whether a slot violates no constraint but that of its current control. -/
def Well.AtRest [Scalar α] (w : Well α) (s : Slot α) : Prop :=
  ∀ (i : Nat) c, w.controls.list[i]? = some c → s.control ≠ some i → c.IsMet w.type s

section Scan

variable [Scalar α] {c : Control α} {w : Well α} {s : Slot α} {current i : Nat}

private theorem Control.not_isViolated_of_isMet {type : WellType} (h : c.IsMet type s) : ¬c.IsViolated type s := by
  rintro ⟨bhp, thp, rates, hbhp, hthp, hrates, hbroken⟩
  obtain ⟨bhp', thp', rates', hbhp', hthp', hrates', hmet⟩ := h
  rw [hbhp, Option.some.injEq] at hbhp'
  rw [hthp, Option.some.injEq] at hthp'
  rw [hrates, Option.some.injEq] at hrates'
  subst hbhp' hthp' hrates'
  rw [hbroken] at hmet
  cases hmet

/-- A scan that finds nothing. -/
theorem Well.isMet_of_scan (h : w.scan s current = .ok none) (hi : w.controls.list[i]? = some c) (hne : i ≠ current) :
    c.IsMet w.type s := by
  have hmem : (c, i) ∈ w.controls.list.zipIdx := List.mem_zipIdx_iff_getElem?.2 hi
  have hother : w.controls.list.zipIdx.any (·.2 != current) = true :=
    List.any_eq_true.2 ⟨(c, i), hmem, bne_iff_ne.2 hne⟩
  obtain ⟨rates, hrates, h⟩ := Outcome.bind_ok.1 h
  rw [if_pos hother] at h
  obtain ⟨bhp, hbhp, h⟩ := Outcome.bind_ok.1 h
  obtain ⟨thp, hthp, h⟩ := Outcome.bind_ok.1 h
  rw [Outcome.need_ok] at hrates hbhp hthp
  have hnone : w.firstBroken? current bhp thp rates = none := Except.ok.inj h
  rw [firstBroken?, Option.map_eq_none_iff, List.find?_eq_none] at hnone
  have hunbroken := hnone (c, i) hmem
  refine ⟨bhp, thp, rates, hbhp, hthp, hrates, ?_⟩
  simpa [hne] using hunbroken

private theorem Well.atRest_of_scan (hcurrent : s.control = some current) (h : w.scan s current = .ok none) :
    w.AtRest s :=
  fun _ _ hi hne => Well.isMet_of_scan h hi fun hic => hne (hic ▸ hcurrent)

/-- A scan that finds a constraint to switch to: it is violated, and the other ones before it are met. -/
theorem Well.firstViolated_of_scan (h : w.scan s current = .ok (some i)) :
    i ≠ current ∧ (∃ c, w.controls.list[i]? = some c ∧ c.IsViolated w.type s) ∧
      ∀ (j : Nat) d, j < i → j ≠ current → w.controls.list[j]? = some d → d.IsMet w.type s := by
  obtain ⟨rates, hrates, h⟩ := Outcome.bind_ok.1 h
  by_cases hother : w.controls.list.zipIdx.any (·.2 != current) = true
  · rw [if_pos hother] at h
    obtain ⟨bhp, hbhp, h⟩ := Outcome.bind_ok.1 h
    obtain ⟨thp, hthp, h⟩ := Outcome.bind_ok.1 h
    rw [Outcome.need_ok] at hrates hbhp hthp
    have hsome : w.firstBroken? current bhp thp rates = some i := Except.ok.inj h
    obtain ⟨⟨c, k⟩, hfind, hki⟩ := Option.map_eq_some_iff.1 hsome
    dsimp only at hki
    subst hki
    obtain ⟨hbroken, n, hn, hcn, hbefore⟩ := List.find?_eq_some_iff_getElem.1 hfind
    rw [Bool.and_eq_true, bne_iff_ne] at hbroken
    rw [List.getElem_zipIdx, Prod.mk.injEq, Nat.zero_add] at hcn
    obtain ⟨hc, rfl⟩ := hcn
    rw [List.length_zipIdx] at hn
    refine ⟨hbroken.1, ⟨c, List.getElem?_eq_some_iff.2 ⟨hn, hc⟩, bhp, thp, rates, hbhp, hthp, hrates, hbroken.2⟩, ?_⟩
    intro j d hj hne hd
    obtain ⟨-, rfl⟩ := List.getElem?_eq_some_iff.1 hd
    have hunbroken := hbefore j hj
    refine ⟨bhp, thp, rates, hbhp, hthp, hrates, ?_⟩
    simpa [hne] using hunbroken
  · rw [if_neg hother] at h
    cases h

end Scan

/-! ### One call without groups -/

/-- What a switch of controls without groups may make of the slot of a well. -/
inductive WellUnit.Follows [Scalar α] (u : WellUnit α) (setup : Setup α) : Slot α → Slot α → Prop
  | stay {s current} : s.control = some current → u.well.scan s current = .ok none → Follows u setup s s
  | switch {s t current i} : s.control = some current → u.well.scan s current = .ok (some i) →
      u.moveToTarget setup { s with control := some i } = (.ok ⟨⟩, t) → Follows u setup s t

/-- A well stays on its group control, and otherwise follows its scan. -/
theorem Well.nextControl_scan [Scalar α] {w : Well α} {s : Slot α} {g : Option Nat} {n : Nat × Bool}
    (h : w.nextControl s g = .ok n) : ∃ current, s.control = some current ∧
      ((g = some current ∧ n.1 = current) ∨ (g ≠ some current ∧
        ((w.scan s current = .ok none ∧ n.1 = current) ∨ w.scan s current = .ok (some n.1)))) := by
  obtain ⟨current, hcurrent, h⟩ := Outcome.bind_ok.1 h
  refine ⟨current, Outcome.need_ok.1 hcurrent, ?_⟩
  by_cases hg : g = some current
  · rw [if_pos hg] at h
    cases h
    exact .inl ⟨hg, rfl⟩
  rw [if_neg hg] at h
  obtain ⟨broken, hscan, h⟩ := Outcome.bind_ok.1 h
  cases broken with
  | none =>
    cases h
    exact .inr ⟨hg, .inl ⟨hscan, rfl⟩⟩
  | some i =>
    cases h
    exact .inr ⟨hg, .inr hscan⟩

namespace Session

variable [Scalar α] [GroupControl α γ]

/-- Without groups a switch of controls keeps the model, and every well follows its own scan. -/
theorem updateControls_follows {cells : List (Cell α)} {s t : Session α γ} (h : updateControls cells s = (.ok ⟨⟩, t))
    (hgroups : GroupControl.isActive s.groups = false) : t.model = s.model ∧ t.groups = s.groups ∧
      ∀ (w : Nat) u, s.model.units[w]? = some u → u.Follows s.model.setup (s.flow.slot w) (t.flow.slot w) := by
  obtain ⟨led, put, assigned, followed, next, hcourse⟩ := updateControls_ok h
  have hled : led = s := by
    have hlead := hcourse.lead
    rwa [hgroups, Bool.false_and, if_neg Bool.false_ne_true] at hlead
  have hassigned : assigned = put := by
    have hassign := hcourse.assign
    rwa [hgroups, if_neg Bool.false_ne_true] at hassign
  subst hled hassigned
  obtain ⟨hput, hput_groups, -⟩ := putControls_ok (G := fun _ g => g = led.groups) hcourse.place hcourse.length_next rfl
    fun _ _ _ g _ _ hg => by rw [hgroups, if_neg Bool.false_ne_true, hg]
  have hmodel : t.model = led.model := by
    rw [hcourse.model_eq, hput]
    rfl
  have hgroups' : t.groups = led.groups := by rw [hcourse.groups_eq, hput_groups]
  refine ⟨hmodel, hgroups', fun w u hu => ?_⟩
  obtain ⟨hw, -⟩ := List.getElem?_eq_some_iff.1 hu
  obtain ⟨n, hn⟩ : ∃ n, next[w]? = some n := ⟨_, List.getElem?_eq_getElem (hcourse.length_next ▸ hw)⟩
  have hnext := hcourse.choose w u _ hu hn
  rw [hgroups, if_neg Bool.false_ne_true] at hnext
  obtain ⟨current, hcurrent, ⟨hg, -⟩ | ⟨-, hscan⟩⟩ := Well.nextControl_scan hnext
  · cases hg
  have hslot : led.flow.control[w]? = some current := hcurrent
  have hafter := hcourse.getElem?_control hn
  rcases hscan with ⟨hscan, hstay⟩ | hscan
  · rcases hcourse.slot hw with ⟨-, hsame⟩ | ⟨hne, -⟩
    · rw [hsame]
      exact .stay hcurrent hscan
    · rw [hafter, hslot, hstay] at hne
      exact absurd rfl hne
  · have hother := (Well.firstViolated_of_scan hscan).1
    rcases hcourse.slot hw with ⟨hsame, -⟩ | ⟨-, u', hu', hmove⟩
    · rw [hafter, hslot, Option.some.injEq] at hsame
      exact absurd hsame hother
    · rw [hmodel, hu, Option.some.injEq] at hu'
      subst hu'
      rw [hmodel, hafter] at hmove
      exact .switch hcurrent hscan hmove

end Session

/-! ### Moves that lower nothing -/

/-- A slot in which pressure and rates are no lower than in another one. -/
structure Slot.Rises [LE α] (s t : Slot α) : Prop where
  bhp : ∀ x, s.bhp = some x → ∃ y, t.bhp = some y ∧ x ≤ y
  thp : t.thp = s.thp
  rates : ∀ q, s.rates = some q → ∃ r, t.rates = some r ∧ ∀ p, q.get p ≤ r.get p

section Exact

variable {K : Type} [Field K] [LinearOrder K] {c : Control K} {w : Well K} {s t : Slot K}

private theorem Slot.Rises.refl (s : Slot K) : s.Rises s :=
  ⟨fun x h => ⟨x, h, le_refl x⟩, rfl, fun q h => ⟨q, h, fun p => le_refl (q.get p)⟩⟩

private theorem Slot.Rises.trans {s₁ s₂ s₃ : Slot K} (h : s₁.Rises s₂) (h' : s₂.Rises s₃) : s₁.Rises s₃ := by
  refine ⟨fun x hx => ?_, h'.thp.trans h.thp, fun q hq => ?_⟩
  · obtain ⟨y, hy, hxy⟩ := h.bhp x hx
    obtain ⟨z, hz, hyz⟩ := h'.bhp y hy
    exact ⟨z, hz, hxy.trans hyz⟩
  · obtain ⟨r, hr, hqr⟩ := h.rates q hq
    obtain ⟨r', hr', hrr'⟩ := h'.rates r hr
    exact ⟨r', hr', fun p => (hqr p).trans (hrr' p)⟩

/-- Whether a constraint bounds the bottom-hole pressure or the rate of a single phase. -/
def Control.IsSingle (c : Control K) : Prop := c.kind = .bhp ∨ (c.kind = .surfaceRate ∧ c.weighted.length = 1)

variable [IsStrictOrderedRing K]

private theorem PerPhase.weightedSum_mono {d q r : PerPhase K} (hd : ∀ p, 0 ≤ d.get p) (h : ∀ p, q.get p ≤ r.get p) :
    d.weightedSum q ≤ d.weightedSum r := by
  have hterm (p : Phase) : d.get p * q.get p ≤ d.get p * r.get p := mul_le_mul_of_nonneg_left (h p) (hd p)
  rw [weightedSum_exact, weightedSum_exact]
  exact add_le_add (add_le_add (hterm .water) (hterm .oil)) (hterm .gas)

omit [IsStrictOrderedRing K] in
/-- The sum with a single weight. -/
private theorem PerPhase.weightedSum_single {d : PerPhase K} {p : Phase} (h : ∀ p', p' ≠ p → d.get p' = 0)
    (q : PerPhase K) :
    d.weightedSum q = d.get p * q.get p := by
  have hwater := h .water
  have hoil := h .oil
  have hgas := h .gas
  rw [weightedSum_exact]
  cases p <;> simp_all [get]

/-- What rises still meets a constraint on it. -/
theorem Control.IsMet.of_rises (hc : c.IsSingle) (hweights : ∀ p, 0 ≤ c.weights.get p)
    (hmet : c.IsMet .producer s) (h : s.Rises t) : c.IsMet .producer t := by
  obtain ⟨bhp, thp, rates, hbhp, hthp, hrates, hmet⟩ := hmet
  obtain ⟨bhp', hbhp', hle⟩ := h.bhp bhp hbhp
  obtain ⟨rates', hrates', hrates_le⟩ := h.rates rates hrates
  refine ⟨bhp', thp, rates', hbhp', h.thp.trans hthp, hrates', ?_⟩
  unfold isBroken at hmet ⊢
  rcases hc with hk | ⟨hk, -⟩
  · rw [hk, decide_eq_false_iff_not] at hmet ⊢
    exact fun hlt => hmet (hle.trans_lt hlt)
  · rw [hk, decide_eq_false_iff_not] at hmet ⊢
    exact fun hlt => hmet ((PerPhase.weightedSum_mono hweights hrates_le).trans_lt hlt)

omit [IsStrictOrderedRing K] in
/-- The phase of a constraint that weights only one. -/
private theorem Control.exists_weighted (hone : c.weighted.length = 1) (hweights : ∀ p, 0 ≤ c.weights.get p) :
    ∃ p, 0 < c.weights.get p ∧ ∀ p', p' ≠ p → c.weights.get p' = 0 := by
  obtain ⟨p, hp⟩ := List.length_eq_one_iff.1 hone
  have hmem (p' : Phase) : p' ∈ c.weighted ↔ 0 < c.weights.get p' := by
    have hall : p' ∈ Phase.all := by cases p' <;> simp [Phase.all]
    simp [weighted, hall]
  refine ⟨p, (hmem p).1 (by rw [hp]; exact List.mem_singleton_self p), fun p' hne => ?_⟩
  have hnot : ¬0 < c.weights.get p' := fun hpos => hne (by simpa [hp] using (hmem p').2 hpos)
  exact le_antisymm (not_lt.1 hnot) (hweights p')

/-- The rates on the target of a violated rate constraint: that of the weighted phase rises to the bound, and the others
stay. -/
private theorem WellUnit.targetRates_rises (hproducer : w.type = .producer) (hone : c.weighted.length = 1)
    (hweights : ∀ p, 0 ≤ c.weights.get p) {rates : PerPhase K} (hbroken : c.weightedRate rates < c.target) :
    (∀ p, rates.get p ≤ (targetRates w c rates).get p) ∧ c.weightedRate (targetRates w c rates) = c.target := by
  obtain ⟨p, hpos, hzero⟩ := Control.exists_weighted hone hweights
  have hinjector : ¬w.isInjector = true := by simp [Well.isInjector, hproducer]
  have htarget (p' : Phase) : (targetRates w c rates).get p' =
      if 0 < c.weights.get p' then c.target / c.weights.get p' else rates.get p' := by
    rw [targetRates, if_neg hinjector, if_pos hone, PerPhase.get_zipWith]
  rw [Control.weightedRate, PerPhase.weightedSum_single hzero] at hbroken ⊢
  constructor
  · intro p'
    rw [htarget]
    by_cases hp : p' = p
    · rw [hp, if_pos hpos, le_div_iff₀ hpos, mul_comm]
      exact hbroken.le
    · rw [hzero p' hp, if_neg (lt_irrefl 0)]
  · rw [htarget, if_pos hpos, mul_div_cancel₀ _ hpos.ne']

/-- The move to a violated constraint lowers neither pressure nor rates, and meets the constraint. -/
theorem WellUnit.moveToTarget_rises {u : WellUnit K} {setup : Setup K} {i : Nat} (hproducer : u.well.type = .producer)
    (hi : u.well.controls.list[i]? = some c) (hc : c.IsSingle) (hweights : ∀ p, 0 ≤ c.weights.get p)
    (hviolated : c.IsViolated .producer s)
    (h : u.moveToTarget setup { s with control := some i } = (.ok ⟨⟩, t)) :
    t.control = some i ∧ s.Rises t ∧ c.IsMet .producer t := by
  obtain ⟨bhp, thp, rates, hbhp, hthp, hrates, hbroken⟩ := hviolated
  unfold moveToTarget at h
  rw [run_get_bind] at h
  obtain ⟨c', hc', h⟩ := outcome_bind_ok.1 h
  have hcc' : c' = c := by
    have hget := Controls.getElem?_of_get hc'
    rw [hi, Option.some.injEq] at hget
    exact hget.symm
  subst hcc'
  unfold Control.isBroken at hbroken
  rcases hc with hk | ⟨hk, hone⟩
  · -- the pressure moves to its bound
    rw [hk] at h hbroken
    rw [decide_eq_true_iff] at hbroken
    obtain ⟨_, s', hput, h⟩ := bind_ok.1 h
    obtain ⟨-, rfl⟩ := Slot.putBhp_ok.1 hput
    obtain ⟨x, rfl⟩ := Slot.seed_ok h
    refine ⟨rfl, ⟨fun x hx => ⟨_, rfl, ?_⟩, rfl, fun q hq => ⟨q, hq, fun p => le_refl _⟩⟩, ?_⟩
    · rw [hbhp, Option.some.injEq] at hx
      rw [← hx]
      exact hbroken.le
    · refine ⟨_, thp, rates, rfl, hthp, hrates, ?_⟩
      rw [Control.isBroken, hk, decide_eq_false_iff_not]
      exact lt_irrefl _
  · -- the rates move to the target
    rw [hk] at h hbroken
    rw [decide_eq_true_iff] at hbroken
    obtain ⟨rates', hrates', h⟩ := need_bind_ok.1 h
    obtain ⟨_, s', hput, h⟩ := bind_ok.1 h
    obtain ⟨-, rfl⟩ := Slot.putRates_ok.1 hput
    obtain ⟨x, rfl⟩ := Slot.seed_ok h
    dsimp only at hrates'
    rw [hrates, Option.some.injEq] at hrates'
    subst hrates'
    obtain ⟨hrise, htarget⟩ := targetRates_rises hproducer hone hweights hbroken
    refine ⟨rfl, ⟨fun x hx => ⟨x, hx, le_refl x⟩, rfl, fun q hq => ⟨_, rfl, ?_⟩⟩, ?_⟩
    · rw [hrates, Option.some.injEq] at hq
      rw [← hq]
      exact hrise
    · refine ⟨bhp, thp, _, hbhp, hthp, rfl, ?_⟩
      rw [Control.isBroken, hk, decide_eq_false_iff_not]
      dsimp only
      rw [htarget]
      exact lt_irrefl _

/-! ### Runs of a producer -/

/-- A producer whose constraints bound the bottom-hole pressure and single rates only. -/
structure Well.IsSimple (w : Well K) : Prop where
  producer : w.type = .producer
  single : ∀ c ∈ w.controls.list, c.IsSingle
  weights : ∀ c ∈ w.controls.list, ∀ p, 0 ≤ c.weights.get p

/-- Whether a sequence of slots changes its control at a place. -/
def Slot.SwitchesAt (x : ℕ → Slot α) (k : ℕ) : Prop := (x (k + 1)).control ≠ (x k).control

instance (x : ℕ → Slot α) : DecidablePred (Slot.SwitchesAt x) := fun _ => inferInstanceAs (Decidable (_ ≠ _))

namespace WellUnit

variable {u : WellUnit K} {setup : Setup K} {x : ℕ → Slot K} {n j k : ℕ}

/-- A call leaves a well at rest alone, and moves any other one to a constraint that was violated and is met then. -/
private theorem Follows.cases (hu : u.well.IsSimple) (h : u.Follows setup s t) : (t = s ∧ u.well.AtRest s) ∨
    ∃ i c, u.well.controls.list[i]? = some c ∧ s.control ≠ some i ∧ t.control = some i ∧
      c.IsViolated .producer s ∧ c.IsMet .producer t ∧ s.Rises t := by
  cases h with
  | stay hcurrent hscan => exact .inl ⟨rfl, Well.atRest_of_scan hcurrent hscan⟩
  | switch hcurrent hscan hmove =>
    obtain ⟨hne, ⟨c, hi, hviolated⟩, -⟩ := Well.firstViolated_of_scan hscan
    rw [hu.producer] at hviolated
    have hmem := List.mem_of_getElem? hi
    obtain ⟨hcontrol, hrises, hmet⟩ :=
      moveToTarget_rises hu.producer hi (hu.single c hmem) (hu.weights c hmem) hviolated hmove
    refine .inr ⟨_, c, hi, fun h => hne ?_, hcontrol, hviolated, hmet, hrises⟩
    rw [hcurrent, Option.some.injEq] at h
    exact h.symm

private theorem Follows.eq_of_atRest (hu : u.well.IsSimple) (h : u.Follows setup s t) (hrest : u.well.AtRest s) :
    t = s := by
  rcases h.cases hu with ⟨heq, -⟩ | ⟨i, c, hi, hne, -, hviolated, -⟩
  · exact heq
  · have hmet := hrest i c hi hne
    rw [hu.producer] at hmet
    exact absurd hviolated (Control.not_isViolated_of_isMet hmet)

section Sequence

variable (hu : u.well.IsSimple) (hrun : ∀ k < n, u.Follows setup (x k) (x (k + 1)))

include hu hrun

private theorem rises_of_le (hjk : j ≤ k) (hk : k ≤ n) : (x j).Rises (x k) := by
  induction k, hjk using Nat.le_induction with
  | base => exact .refl _
  | succ k hjk ih =>
    refine (ih (by omega)).trans ?_
    rcases (hrun k (by omega)).cases hu with ⟨heq, -⟩ | ⟨i, c, -, -, -, -, -, hrises⟩
    · rw [heq]
      exact .refl _
    · exact hrises

/-- A call that switches moves the well to a constraint that was violated. -/
private theorem exists_of_switchesAt (hk : k < n) (hswitch : Slot.SwitchesAt x k) : ∃ i c,
    u.well.controls.list[i]? = some c ∧ (x (k + 1)).control = some i ∧ c.IsViolated .producer (x k) ∧
      c.IsMet .producer (x (k + 1)) := by
  rcases (hrun k hk).cases hu with ⟨heq, -⟩ | ⟨i, c, hi, -, hcontrol, hviolated, hmet, -⟩
  · exact absurd (congrArg Slot.control heq) hswitch
  · exact ⟨i, c, hi, hcontrol, hviolated, hmet⟩

/-- A constraint that the well has switched to is met from then on. -/
private theorem isMet_of_switchesAt (hjk : j < k) (hk : k ≤ n) (hswitch : Slot.SwitchesAt x j) {i : ℕ} {c : Control K}
    (hi : (x (j + 1)).control = some i) (hc : u.well.controls.list[i]? = some c) : c.IsMet .producer (x k) := by
  obtain ⟨i', c', hc', hi', -, hmet⟩ := exists_of_switchesAt hu hrun (by omega) hswitch
  rw [hi, Option.some.injEq] at hi'
  rw [← hi', hc, Option.some.injEq] at hc'
  subst hc'
  have hmem := List.mem_of_getElem? hc
  exact hmet.of_rises (hu.single c hmem) (hu.weights c hmem) (rises_of_le hu hrun (by omega) hk)

private theorem ne_of_switchesAt (hjk : j < k) (hk : k < n) (hj : Slot.SwitchesAt x j) (hswitch : Slot.SwitchesAt x k) :
    (x (j + 1)).control ≠ (x (k + 1)).control := by
  intro heq
  obtain ⟨i, c, hc, hi, hviolated, -⟩ := exists_of_switchesAt hu hrun hk hswitch
  have hmet := isMet_of_switchesAt hu hrun hjk hk.le hj (heq.trans hi) hc
  exact Control.not_isViolated_of_isMet hmet hviolated

private theorem getD_lt (hk : k < n) (hswitch : Slot.SwitchesAt x k) :
    (x (k + 1)).control.getD 0 < u.well.controls.list.length := by
  obtain ⟨i, c, hc, hi, -⟩ := exists_of_switchesAt hu hrun hk hswitch
  rw [hi]
  exact (List.getElem?_eq_some_iff.1 hc).1

private theorem eq_of_getD (hj : j < n) (hk : k < n) (hsj : Slot.SwitchesAt x j) (hsk : Slot.SwitchesAt x k)
    (h : (x (j + 1)).control.getD 0 = (x (k + 1)).control.getD 0) : j = k := by
  obtain ⟨i, -, -, hi, -⟩ := exists_of_switchesAt hu hrun hj hsj
  obtain ⟨i', -, -, hi', -⟩ := exists_of_switchesAt hu hrun hk hsk
  have heq : (x (j + 1)).control = (x (k + 1)).control := by
    rw [hi, hi'] at h ⊢
    exact congrArg some h
  rcases Nat.lt_trichotomy j k with hlt | heq' | hlt
  · exact absurd heq (ne_of_switchesAt hu hrun hlt hk hsj hsk)
  · exact heq'
  · exact absurd heq.symm (ne_of_switchesAt hu hrun hlt hj hsk hsj)

/-- There are no more switches than constraints. -/
theorem card_switchesAt_le :
    ((Finset.range n).filter (Slot.SwitchesAt x)).card ≤ u.well.controls.list.length := by
  have h := Finset.card_le_card_of_injOn (s := (Finset.range n).filter (Slot.SwitchesAt x))
    (t := Finset.range u.well.controls.list.length) (fun k => (x (k + 1)).control.getD 0) ?_ ?_
  · rwa [Finset.card_range] at h
  · intro k hk
    obtain ⟨hk, hswitch⟩ := Finset.mem_filter.1 hk
    exact Finset.mem_coe.2 (Finset.mem_range.2 (getD_lt hu hrun (Finset.mem_range.1 hk) hswitch))
  · intro j hj k hk heq
    obtain ⟨hj, hsj⟩ := Finset.mem_filter.1 hj
    obtain ⟨hk, hsk⟩ := Finset.mem_filter.1 hk
    exact eq_of_getD hu hrun (Finset.mem_range.1 hj) (Finset.mem_range.1 hk) hsj hsk heq

private theorem eq_of_atRest (hjk : j ≤ k) (hk : k ≤ n) (hrest : u.well.AtRest (x j)) : x k = x j := by
  induction k, hjk using Nat.le_induction with
  | base => rfl
  | succ k hjk ih =>
    have hkj := ih (by omega)
    rw [← hkj] at hrest
    rw [(hrun k (by omega)).eq_of_atRest hu hrest, hkj]

/-- If every call so far has switched and there were as many as constraints, each constraint has had its turn. -/
private theorem exists_turn (hk : k ≤ n) (hall : ∀ j < k, Slot.SwitchesAt x j)
    (hlength : u.well.controls.list.length ≤ k) {i : ℕ} (hi : i < u.well.controls.list.length) :
    ∃ j < k, (x (j + 1)).control = some i := by
  have hsurj := Finset.surj_on_of_inj_on_of_card_le (s := Finset.range u.well.controls.list.length)
    (t := Finset.range u.well.controls.list.length) (fun j _ => (x (j + 1)).control.getD 0) ?_ ?_ le_rfl i
    (Finset.mem_range.2 hi)
  · obtain ⟨j, hj, hji⟩ := hsurj
    rw [Finset.mem_range] at hj
    obtain ⟨i', -, -, hi', -⟩ := exists_of_switchesAt hu hrun (k := j) (by omega) (hall j (by omega))
    rw [hi', Option.getD_some] at hji
    exact ⟨j, by omega, by rw [hi', hji]⟩
  · intro j hj
    rw [Finset.mem_range] at hj
    exact Finset.mem_range.2 (getD_lt hu hrun (by omega) (hall j (by omega)))
  · intro j j' hj hj' heq
    rw [Finset.mem_range] at hj hj'
    exact eq_of_getD hu hrun (by omega) (by omega) (hall j (by omega)) (hall j' (by omega)) heq

/-- A well is at rest once a call has not switched it, or once there were as many calls as constraints. -/
theorem atRest_of_calls (hk : k ≤ n) (hlate : u.well.controls.list.length ≤ k ∨ ∃ j < k, ¬Slot.SwitchesAt x j) :
    u.well.AtRest (x k) := by
  by_cases hall : ∀ j < k, Slot.SwitchesAt x j
  · have hlength : u.well.controls.list.length ≤ k := hlate.resolve_right fun ⟨j, hj, hnot⟩ => hnot (hall j hj)
    intro i c hi _
    obtain ⟨j, hj, hturn⟩ := exists_turn hu hrun hk hall hlength (List.getElem?_eq_some_iff.1 hi).1
    rw [hu.producer]
    exact isMet_of_switchesAt hu hrun hj hk (hall j hj) hturn hi
  · simp only [not_forall] at hall
    obtain ⟨j, hj, hnot⟩ := hall
    have hrest : u.well.AtRest (x j) := by
      rcases (hrun j (by omega)).cases hu with ⟨-, hrest⟩ | ⟨i, c, -, hne, hcontrol, -⟩
      · exact hrest
      · exact absurd (fun h => hne (by rw [← h, hcontrol])) hnot
    rw [eq_of_atRest hu hrun hj.le hk hrest]
    exact hrest

end Sequence

end WellUnit

omit [IsStrictOrderedRing K] in
private theorem Well.isSimple_of_create (hproducer : w.type = .producer)
    (hcontrols : Controls.create w.controls.list w.controls.initial = .ok w.controls)
    (hsingle : ∀ c ∈ w.controls.list, c.IsSingle) : w.IsSimple := by
  refine ⟨hproducer, hsingle, fun c hc p => ?_⟩
  have hweights := ((Controls.create_ok hcontrols).2.2 c hc).2 (c.weights.get p)
    (by cases p <;> simp [PerPhase.get, PerPhase.toList])
  exact not_lt.1 hweights.1

namespace Session

/-- What a sequence of sessions holds for a well. -/
def slots (s : ℕ → Session α γ) (w : ℕ) : ℕ → Slot α := fun k => (s k).flow.slot w

variable [GroupControl K γ]

omit [IsStrictOrderedRing K] in
private theorem model_of_updates {cells : ℕ → List (Cell K)} {s : ℕ → Session K γ} {n : ℕ}
    (hrun : ∀ k < n, updateControls (cells k) (s k) = (.ok ⟨⟩, s (k + 1)))
    (hgroups : GroupControl.isActive (s 0).groups = false) {k : ℕ} (hk : k ≤ n) :
    (s k).model = (s 0).model ∧ GroupControl.isActive (s k).groups = false := by
  induction k with
  | zero => exact ⟨rfl, hgroups⟩
  | succ k ih =>
    obtain ⟨hmodel, hinactive⟩ := ih (by omega)
    obtain ⟨hmodel', hgroups', -⟩ := updateControls_follows (hrun k (by omega)) hinactive
    exact ⟨hmodel'.trans hmodel, hgroups' ▸ hinactive⟩

/-- Repeated switches of controls without groups, for a producer whose accepted constraints bound the bottom-hole pressure
and single rates, from any state.  The producer never switches to a constraint twice, and so not more often than there
are constraints.  Once a call has not switched it, and in any case after as many calls as there are constraints, it
violates none but that of its current control, and nothing that the state holds for it changes any more. -/
theorem switching_settles {cells : ℕ → List (Cell K)} {s : ℕ → Session K γ} {n : ℕ}
    (hrun : ∀ k < n, updateControls (cells k) (s k) = (.ok ⟨⟩, s (k + 1)))
    (hgroups : GroupControl.isActive (s 0).groups = false) {w : ℕ} {u : WellUnit K}
    (hu : (s 0).model.units[w]? = some u) (hproducer : u.well.type = .producer)
    (hcontrols : Controls.create u.well.controls.list u.well.controls.initial = .ok u.well.controls)
    (hsingle : ∀ c ∈ u.well.controls.list, c.IsSingle) :
    (∀ k ≤ n, (s k).model = (s 0).model) ∧
    (∀ j k, j < k → k < n → Slot.SwitchesAt (slots s w) j → Slot.SwitchesAt (slots s w) k →
      (slots s w (j + 1)).control ≠ (slots s w (k + 1)).control) ∧
    ((Finset.range n).filter (Slot.SwitchesAt (slots s w))).card ≤ u.well.controls.list.length ∧
    ∀ k ≤ n, (u.well.controls.list.length ≤ k ∨ ∃ j < k, ¬Slot.SwitchesAt (slots s w) j) →
      u.well.AtRest (slots s w k) ∧ ∀ m, k ≤ m → m ≤ n → slots s w m = slots s w k := by
  have hsimple := Well.isSimple_of_create hproducer hcontrols hsingle
  have hfollows : ∀ k < n, u.Follows (s 0).model.setup (slots s w k) (slots s w (k + 1)) := by
    intro k hk
    obtain ⟨hmodel, hinactive⟩ := model_of_updates hrun hgroups hk.le
    have h := (updateControls_follows (hrun k hk) hinactive).2.2 w u
    rw [hmodel] at h
    exact h hu
  refine ⟨fun k hk => (model_of_updates hrun hgroups hk).1, fun j k hjk hk hj hk' => ?_, ?_, fun k hk hlate => ?_⟩
  · exact WellUnit.ne_of_switchesAt hsimple hfollows hjk hk hj hk'
  · exact WellUnit.card_switchesAt_le hsimple hfollows
  · have hrest := WellUnit.atRest_of_calls hsimple hfollows hk hlate
    exact ⟨hrest, fun m hkm hm => WellUnit.eq_of_atRest hsimple hfollows hkm hm hrest⟩

end Session

end Exact

namespace Session

/-! ### A producer that switches three times -/

/-- A producer with two bounds to its pressure and two to its rate, all but the first violated. -/
def fourLimits : Session ℚ (Option (VoidageGroup ℚ)) where
  model :=
    { setup := (oilProducer 15).model.setup
      units := [.create (.producer "P" 0 [⟨0, 2, 0, 1⟩]
        ⟨[⟨.bhp, 60, .replicate 0⟩, ⟨.surfaceRate, -5, ⟨0, 1, 0⟩⟩, ⟨.bhp, 80, .replicate 0⟩,
          ⟨.surfaceRate, -6, ⟨0, 2, 0⟩⟩], 0⟩)] }
  flow := ⟨[70], [0], [0, -50, 0], [-50, 0, 0], [0], [70], [0, -50, 0], [0, 0, 0], 0⟩
  groups := none
  notices := []

/-- The producer after a number of calls. -/
def fourLimitsAfter : ℕ → Session ℚ (Option (VoidageGroup ℚ))
  | 0 => fourLimits
  | k + 1 => (updateControls oilCell (fourLimitsAfter k)).2

/-- The producer switches to its second, third and fourth constraint, and then it is at rest. -/
theorem switching_settles_fourLimits :
    (List.range 6).map (fun k => (slots fourLimitsAfter 0 k).control) =
      [some 0, some 1, some 2, some 3, some 3, some 3] ∧
    ((Finset.range 5).filter (Slot.SwitchesAt (slots fourLimitsAfter 0))).card ≤ 4 ∧
    (∃ u, fourLimits.model.units[0]? = some u ∧ u.well.AtRest (slots fourLimitsAfter 0 4)) ∧
    slots fourLimitsAfter 0 5 = slots fourLimitsAfter 0 4 := by
  have hcontrol : (List.range 6).map (fun k => (slots fourLimitsAfter 0 k).control) =
      [some 0, some 1, some 2, some 3, some 3, some 3] := by decide +kernel
  have hok : ∀ k < 5, (updateControls oilCell (fourLimitsAfter k)).1.toOption = some ⟨⟩ := by decide +kernel
  have hrun : ∀ k < 5, updateControls oilCell (fourLimitsAfter k) = (.ok ⟨⟩, fourLimitsAfter (k + 1)) :=
    fun k hk => run_ok_of_toOption (hok k hk)
  have hunit : (fourLimitsAfter 0).model.units[0]? = some _ := rfl
  have hsettles := switching_settles hrun rfl hunit rfl rfl ?_
  · obtain ⟨-, -, hcard, hrest⟩ := hsettles
    obtain ⟨hrest, hsame⟩ := hrest 4 (by omega) (.inl le_rfl)
    exact ⟨hcontrol, hcard, ⟨_, hunit, hrest⟩, hsame 5 (by omega) le_rfl⟩
  · intro c hc
    obtain rfl | rfl | rfl | rfl : c = _ ∨ c = _ ∨ c = _ ∨ c = _ := by simpa [WellUnit.create, Well.producer] using hc
    · exact .inl rfl
    · exact .inr ⟨rfl, by decide +kernel⟩
    · exact .inl rfl
    · exact .inr ⟨rfl, by decide +kernel⟩

end Session

end BlackOilWells
