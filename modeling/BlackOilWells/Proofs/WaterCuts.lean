import Mathlib.Algebra.Order.Ring.Rat
import BlackOilWells.Proofs.Exact
import BlackOilWells.Proofs.Mediants
import BlackOilWells.Proofs.Verdicts

/-!
# Water cuts

The water cut of a well is the mediant of the water cuts of its connections.  If all of them flow in one direction, one
has at least the water cut of the well, and so a connection that is blamed for a broken limit breaks the limit itself
(`Limits.waterCutViolation_blames`).  Which one is blamed is decided by a search that finds the first among the greatest
entries of a list (`Limits.greatestPositive_cases`).
-/

namespace BlackOilWells

/-! ### The greatest entry of a list -/

namespace Limits

variable {K : Type} [Field K] [LinearOrder K]

/-- Whether an entry of a list is the first among the greatest. -/
structure IsFirstGreatest (xs : List K) (k : Nat) (x : K) : Prop where
  get : xs[k]? = some x
  greatest : ∀ y ∈ xs, y ≤ x
  first : ∀ (j : Nat) y, j < k → xs[j]? = some y → y < x

private theorem isFirstGreatest_concat {xs : List K} {y : K} (h : ∀ z ∈ xs, z < y) :
    IsFirstGreatest (xs ++ [y]) xs.length y := by
  refine ⟨List.getElem?_concat_length, fun z hz => ?_, fun j z hj hz => ?_⟩
  · rcases List.mem_append.1 hz with hz | hz
    · exact (h z hz).le
    · exact (List.mem_singleton.1 hz).le
  · rw [List.getElem?_append_left hj] at hz
    exact h z (List.mem_of_getElem? hz)

private theorem IsFirstGreatest.concat {xs : List K} {k : Nat} {x y : K} (h : IsFirstGreatest xs k x) (hy : y ≤ x) :
    IsFirstGreatest (xs ++ [y]) k x := by
  have hk : k < xs.length := (List.getElem?_eq_some_iff.1 h.get).1
  refine ⟨?_, fun z hz => ?_, fun j z hj hz => ?_⟩
  · rw [List.getElem?_append_left hk]
    exact h.get
  · rcases List.mem_append.1 hz with hz | hz
    · exact h.greatest z hz
    · exact (List.mem_singleton.1 hz).trans_le hy
  · rw [List.getElem?_append_left (hj.trans hk)] at hz
    exact h.first j z hj hz

/-- The search ends without an entry if none is positive, and with the first among the greatest entries otherwise. -/
theorem greatestPositive_cases (xs : List K) : (greatestPositive xs = .none ∧ ∀ x ∈ xs, x ≤ 0) ∨
    ∃ k x, greatestPositive xs = some (k, x) ∧ 0 < x ∧ IsFirstGreatest xs k x := by
  induction xs using List.reverseRecOn with
  | nil => exact .inl ⟨rfl, nofun⟩
  | append_singleton xs y ih =>
    rw [greatestPositive_concat]
    rcases ih with ⟨hnone, hle⟩ | ⟨k, x, hsome, hpos, hx⟩
    · rw [hnone, Option.elim_none]
      by_cases hy : 0 < y
      · rw [if_pos hy]
        exact .inr ⟨_, _, rfl, hy, isFirstGreatest_concat fun z hz => (hle z hz).trans_lt hy⟩
      · rw [if_neg hy]
        refine .inl ⟨rfl, fun z hz => ?_⟩
        rcases List.mem_append.1 hz with hz | hz
        · exact hle z hz
        · exact (List.mem_singleton.1 hz).trans_le (not_lt.1 hy)
    · rw [hsome, Option.elim_some]
      by_cases hy : x < y
      · rw [if_pos hy]
        exact .inr ⟨_, _, rfl, hpos.trans hy, isFirstGreatest_concat fun z hz => (hx.greatest z hz).trans_lt hy⟩
      · rw [if_neg hy]
        exact .inr ⟨k, x, rfl, hpos, hx.concat (not_lt.1 hy)⟩

end Limits

/-! ### The cut of a well -/

section

variable {K : Type} [Field K] [LinearOrder K]

private theorem PerPhase.waterCut_exact [IsStrictOrderedRing K] (q : PerPhase K) :
    q.waterCut = q.water / (q.oil + q.water) := by
  unfold waterCut ratioOrZero
  split
  · rename_i hzero
    have hliquid : q.oil + q.water = 0 := abs_eq_zero.1 (of_decide_eq_true hzero)
    rw [hliquid, div_zero]
  · rfl

private theorem Limits.isCutBroken_exact (limit : K) (q : PerPhase K) :
    isCutBroken limit q = true ↔ limit < q.waterCut := by
  have hnan : Scalar.isNaN q.waterCut = false := rfl
  rw [isCutBroken, hnan, Bool.or_false, Bool.not_eq_true', decide_eq_false_iff_not, not_le]

/-- Whether the water and the oil of given rates all flow in one direction. -/
def OneWay (connections : List (PerPhase K)) : Prop :=
  (∀ c ∈ connections, 0 ≤ c.water ∧ 0 ≤ c.oil) ∨ ∀ c ∈ connections, c.water ≤ 0 ∧ c.oil ≤ 0

variable [IsStrictOrderedRing K] {connections : List (PerPhase K)} {q : PerPhase K}

private theorem OneWay.exists_factor (h : OneWay connections) :
    ∃ σ : K, σ ≠ 0 ∧ ∀ c ∈ connections, 0 ≤ σ * c.water ∧ 0 ≤ σ * c.oil := by
  rcases h with h | h
  · refine ⟨1, one_ne_zero, fun c hc => ?_⟩
    rw [one_mul, one_mul]
    exact h c hc
  · refine ⟨-1, neg_ne_zero.2 one_ne_zero, fun c hc => ?_⟩
    rw [neg_one_mul, neg_one_mul]
    exact ⟨neg_nonneg.2 (h c hc).1, neg_nonneg.2 (h c hc).2⟩

/-- If all connections flow in one direction, one of them has at least the water cut of the well. -/
private theorem OneWay.exists_waterCut_le (h : OneWay connections) (hwater : q.water = (connections.map (·.water)).sum)
    (hoil : q.oil = (connections.map (·.oil)).sum) (hcut : 0 < q.waterCut) :
    ∃ c ∈ connections, q.waterCut ≤ c.waterCut := by
  obtain ⟨σ, hσ, hsign⟩ := h.exists_factor
  have hscaled (p : PerPhase K) : p.waterCut = σ * p.water / (σ * (p.oil + p.water)) := by
    rw [PerPhase.waterCut_exact, mul_div_mul_left _ _ hσ]
  have hsumWater : (connections.map fun c => σ * c.water).sum = σ * q.water := by
    rw [List.sum_map_mul_left, hwater]
  have hsumLiquid : (connections.map fun c => σ * (c.oil + c.water)).sum = σ * (q.oil + q.water) := by
    rw [List.sum_map_mul_left, List.sum_map_add, hwater, hoil]
  have hliquid (c : PerPhase K) (hc : c ∈ connections) : 0 ≤ σ * (c.oil + c.water) := by
    rw [mul_add]
    exact add_nonneg (hsign c hc).2 (hsign c hc).1
  -- without liquid there is no water either, as both flow in the same direction
  have hdry (c : PerPhase K) (hc : c ∈ connections) (hzero : σ * (c.oil + c.water) = 0) : σ * c.water = 0 := by
    rw [mul_add, add_eq_zero_iff_of_nonneg (hsign c hc).2 (hsign c hc).1] at hzero
    exact hzero.2
  have hpos : 0 < (connections.map fun c => σ * (c.oil + c.water)).sum := by
    refine lt_of_le_of_ne (List.sum_nonneg fun x hx => ?_) fun hzero => ?_
    · obtain ⟨c, hc, rfl⟩ := List.mem_map.1 hx
      exact hliquid c hc
    · rw [hscaled, ← hsumLiquid, ← hzero, div_zero] at hcut
      exact hcut.false
  obtain ⟨c, hc, -, hle⟩ := exists_mediant_le hliquid hdry hpos
  rw [hsumWater, hsumLiquid, ← hscaled, ← hscaled] at hle
  exact ⟨c, hc, hle⟩

/-! ### The connection to blame -/

/-- Whether a violation of a limit by given rates names a connection that breaks the limit itself: the first among those
of greatest water cut. -/
structure RatioViolation.Blames (v : RatioViolation K) (limit : K) (q : PerPhase K) (connections : List (PerPhase K))
    (c : PerPhase K) : Prop where
  connection : connections[v.worst]? = some c
  greatest : ∀ d ∈ connections, d.waterCut ≤ c.waterCut
  first : ∀ (j : Nat) d, j < v.worst → connections[j]? = some d → d.waterCut < c.waterCut
  well_le : q.waterCut ≤ c.waterCut
  offends : limit < c.waterCut
  extent : 0 < limit → v.extent = c.waterCut / limit
  last : v.lastConnection = true ↔ connections.length = 1

private theorem Limits.exists_violation (h : OneWay connections) (hwater : q.water = (connections.map (·.water)).sum)
    (hoil : q.oil = (connections.map (·.oil)).sum) {limit : K} (hlimit : 0 ≤ limit) (hbroken : limit < q.waterCut) :
    ∃ v c, waterCutViolation limit q connections = some v ∧ v.Blames limit q connections c := by
  obtain ⟨d, hd, hle⟩ := h.exists_waterCut_le hwater hoil (hlimit.trans_lt hbroken)
  unfold waterCutViolation
  rw [if_pos ((isCutBroken_exact limit q).2 hbroken)]
  split
  case h_1 cut hcuts =>
    obtain ⟨c, rfl, rfl⟩ := List.map_eq_singleton_iff.1 hcuts
    obtain rfl := List.mem_singleton.1 hd
    refine ⟨_, d, rfl, rfl, fun e he => ?_, fun j e hj => ?_, hle, hbroken.trans_le hle, fun _ => rfl, fun _ => rfl,
      fun _ => rfl⟩
    · rw [List.mem_singleton.1 he]
    · exact absurd hj (Nat.not_lt_zero j)
  case h_2 hseveral =>
    rcases greatestPositive_cases (connections.map (·.waterCut)) with ⟨-, hnone⟩ | ⟨k, x, hsome, -, hx⟩
    · have hcut : d.waterCut ≤ 0 := hnone _ (List.mem_map_of_mem hd)
      exact absurd (hbroken.trans_le (hle.trans hcut)) (not_lt.2 hlimit)
    · have hget := hx.get
      rw [List.getElem?_map] at hget
      obtain ⟨c, hc, rfl⟩ := Option.map_eq_some_iff.1 hget
      have hgreatest (e : PerPhase K) (he : e ∈ connections) : e.waterCut ≤ c.waterCut :=
        hx.greatest _ (List.mem_map_of_mem he)
      have hwell : q.waterCut ≤ c.waterCut := hle.trans (hgreatest d hd)
      refine ⟨⟨false, k, c.waterCut / limit⟩, c, by rw [hsome]; rfl, hc, hgreatest, fun j e hj he => ?_, hwell,
        hbroken.trans_le hwell, fun _ => rfl, nofun, fun hone => ?_⟩
      · refine hx.first j _ hj ?_
        rw [List.getElem?_map, he, Option.map_some]
      · obtain ⟨e, rfl⟩ := List.length_eq_one_iff.1 hone
        exact absurd rfl (hseveral e.waterCut)

/-! ### Wells without cross flow -/

omit [IsStrictOrderedRing K] in
/-- A broken limit closes the connection to blame, if no rate limit is broken. -/
private theorem Closures.judge_of_blames {w : Placed (Well K)} {s : FlowState K} {limits : Limits K} {closed : List Nat}
    (hq : (s.slot w.index).rates = some q) (hrate : (limits.hasRate && limits.isRateBroken q) = false)
    (hopen : (openConnections w.item closed).mapM (fun ck => s.ratesAt (w.first + ck.2)) = .ok connections)
    {v : RatioViolation K} (hv : limits.ratioViolation q connections = some v) {limit : K} {c : PerPhase K}
    (hblames : v.Blames limit q connections c) : ∃ conn k notices, (conn, k) ∈ openConnections w.item closed ∧
      s.ratesAt (w.first + k) = .ok c ∧
      judge w s limits closed = .ok (.close k conn.cell v.lastConnection, notices) := by
  have hlength := (Outcome.mapM_ok.1 hopen).length_eq
  have hworst : v.worst < (openConnections w.item closed).length :=
    hlength ▸ (List.getElem?_eq_some_iff.1 hblames.connection).1
  obtain ⟨⟨conn, k⟩, hget⟩ : ∃ ck, (openConnections w.item closed)[v.worst]? = some ck :=
    ⟨_, List.getElem?_eq_getElem hworst⟩
  have hverdict : limits.verdict q (openConnections w.item closed) connections =
      .close k conn.cell v.lastConnection := by
    rw [Limits.verdict, if_neg (by rw [hrate]; exact Bool.false_ne_true), hv, Option.bind_some, hget]
    rfl
  obtain ⟨notices, hjudge⟩ := judge_eq hq hopen limits
  rw [hverdict] at hjudge
  exact ⟨conn, k, notices, List.mem_of_getElem? hget, Outcome.ok_of_getElem? hopen hget hblames.connection, hjudge⟩

/-- Water cuts of a well whose connections all flow in one direction.  A limit is violated exactly if the cut of the well
exceeds it.  The connection that is blamed is the first among those of greatest cut, which is at least the cut of the
well, and it is reported as the last one exactly if it is the only one.  So a verdict on a broken limit closes a
connection that breaks the limit itself. -/
theorem Limits.waterCutViolation_blames {limit : K} (hlimit : 0 ≤ limit) (honeWay : OneWay connections)
    (hwater : q.water = (connections.map (·.water)).sum) (hoil : q.oil = (connections.map (·.oil)).sum) :
    ((∃ v, waterCutViolation limit q connections = some v) ↔ limit < q.waterCut) ∧
    (∀ v, waterCutViolation limit q connections = some v → ∃ c, v.Blames limit q connections c) ∧
    ∀ (w : Placed (Well K)) (s : FlowState K) (limits : Limits K) (closed : List Nat),
      limits.maxWaterCut = some limit → (limits.hasRate && limits.isRateBroken q) = false →
      (s.slot w.index).rates = some q →
      (Closures.openConnections w.item closed).mapM (fun ck => s.ratesAt (w.first + ck.2)) = .ok connections →
      limit < q.waterCut → ∃ conn k c last notices, (conn, k) ∈ Closures.openConnections w.item closed ∧
        s.ratesAt (w.first + k) = .ok c ∧ limit < c.waterCut ∧
        Closures.judge w s limits closed = .ok (.close k conn.cell last, notices) := by
  have hbroken {v : RatioViolation K} (hv : waterCutViolation limit q connections = some v) : limit < q.waterCut := by
    rw [← isCutBroken_exact]
    by_contra hnot
    rw [waterCutViolation, if_neg hnot] at hv
    cases hv
  have hviolation := exists_violation honeWay hwater hoil hlimit
  refine ⟨⟨fun ⟨v, hv⟩ => hbroken hv, fun h => ?_⟩, fun v hv => ?_, fun w s limits closed hmost hrate hq hopen h => ?_⟩
  · obtain ⟨v, c, hv, -⟩ := hviolation h
    exact ⟨v, hv⟩
  · obtain ⟨v', c, hv', hblames⟩ := hviolation (hbroken hv)
    obtain rfl : v = v' := Option.some.inj (hv.symm.trans hv')
    exact ⟨c, hblames⟩
  · obtain ⟨v, c, hv, hblames⟩ := hviolation h
    have hratio : limits.ratioViolation q connections = some v := by
      rw [ratioViolation, hmost, Option.bind_some, hv]
    obtain ⟨conn, k, notices, hmem, hrates, hjudge⟩ := Closures.judge_of_blames hq hrate hopen hratio hblames
    exact ⟨conn, k, c, _, notices, hmem, hrates, hblames.offends, hjudge⟩

end

/-! ### A producer with equal water cuts -/

/-- Rates of four connections: the last two have the same water cut, and one has no liquid. -/
def tiedRates : List (PerPhase ℚ) := [⟨-1, -3, 0⟩, ⟨0, 0, -5⟩, ⟨-8, -1, 0⟩, ⟨-16, -2, 0⟩]

/-- A producer with four connections. -/
def tiedProducer : Well ℚ :=
  .producer "P" 0 [⟨3, 2, 0, 1⟩, ⟨2, 2, 0, 1⟩, ⟨1, 2, 0, 1⟩, ⟨0, 2, 0, 1⟩] ⟨[⟨.bhp, 90, .replicate 0⟩], 0⟩

/-- A state in which the connections of the producer have these rates. -/
def tiedFlow : FlowState ℚ :=
  ⟨[90], [0], [-25, -6, -5], [0, 0, 0], [0], .replicate 4 90, tiedRates.flatMap (·.toList), .replicate 12 0, 0⟩

/-- Half of the liquid may be water.  The third connection is blamed, and closed. -/
theorem Limits.waterCutViolation_blames_tiedProducer : OneWay tiedRates ∧
    (∃ v c, waterCutViolation (1 / 2) ⟨-25, -6, -5⟩ tiedRates = some v ∧ v.worst = 2 ∧ v.extent = 16 / 9 ∧
      v.Blames (1 / 2) ⟨-25, -6, -5⟩ tiedRates c) ∧
    ∃ k cell last notices, Closures.judge ⟨0, 0, tiedProducer⟩ tiedFlow { Limits.none with maxWaterCut := some (1 / 2) }
      [] = .ok (.close k cell last, notices) := by
  have honeWay : OneWay tiedRates := .inr (by decide +kernel)
  have hbroken : (1 / 2 : ℚ) < (⟨-25, -6, -5⟩ : PerPhase ℚ).waterCut := by decide +kernel
  have hlimit : (0 : ℚ) ≤ 1 / 2 := by decide +kernel
  obtain ⟨hiff, hblames, hclosed⟩ := waterCutViolation_blames (q := ⟨-25, -6, -5⟩) hlimit honeWay (by decide +kernel)
    (by decide +kernel)
  obtain ⟨v, hv⟩ := hiff.2 hbroken
  obtain ⟨c, hc⟩ := hblames v hv
  have hrun : (waterCutViolation (1 / 2) ⟨-25, -6, -5⟩ tiedRates).map (fun v => (v.worst, v.extent)) =
      some (2, 16 / 9) := by decide +kernel
  rw [hv, Option.map_some, Option.some.injEq, Prod.mk.injEq] at hrun
  obtain ⟨conn, k, d, last, notices, -, -, -, hjudge⟩ := hclosed ⟨0, 0, tiedProducer⟩ tiedFlow
    { Limits.none with maxWaterCut := some (1 / 2) } [] rfl rfl rfl (Outcome.ok_of_toOption (by decide +kernel)) hbroken
  exact ⟨honeWay, ⟨v, c, hv, hrun.1, hrun.2, hc⟩, k, conn.cell, last, notices, hjudge⟩

end BlackOilWells
