import Mathlib.Data.List.Induction
import BlackOilWells.Proofs.ClosureRecords
import BlackOilWells.Proofs.StateSizes

/-!
# What a verdict rests on

With all rates at hand the verdict on a producer is a function of its limits, its own rates and those of its open
connections (`Limits.verdict`, `Closures.judge_eq`).  A broken rate limit decides alone; otherwise the well is kept or
one of its open connections is closed (`Limits.verdict_cases`).

So a review of wells whose rates are all there goes through, and it adds to the record of each well the verdict on the
well (`Closures.review_ok`, `Closures.entry_of_reviews_ok`).
-/

namespace BlackOilWells

open Attempt

variable {α : Type} [Scalar α]

namespace Limits

theorem greatestPositive_concat (xs : List α) (x : α) : greatestPositive (xs ++ [x]) =
    if (greatestPositive xs).elim 0 (·.2) < x then some (xs.length, x) else greatestPositive xs := by
  rw [greatestPositive, List.zipIdx_append, List.foldl_append, Nat.zero_add]
  rfl

private theorem getElem?_of_greatestPositive {xs : List α} {k : Nat} {x : α} (h : greatestPositive xs = some (k, x)) :
    xs[k]? = some x := by
  induction xs using List.reverseRecOn generalizing k x with
  | nil => cases h
  | append_singleton xs y ih =>
    rw [greatestPositive_concat] at h
    split at h
    · cases h
      exact List.getElem?_concat_length
    · have hget := ih h
      have hk : k < xs.length := (List.getElem?_eq_some_iff.1 hget).1
      rw [List.getElem?_append_left hk]
      exact hget

/-- A violation of a water cut limit names one of the connections and measures the cut of that one. -/
private theorem waterCutViolation_some {limit : α} {q : PerPhase α} {connections : List (PerPhase α)}
    {v : RatioViolation α}
    (h : waterCutViolation limit q connections = some v) :
    ∃ c, connections[v.worst]? = some c ∧ v.extent = c.waterCut / limit := by
  unfold waterCutViolation at h
  split at h
  · split at h
    · rename_i cut hcuts
      cases h
      obtain ⟨c, rfl, rfl⟩ := List.map_eq_singleton_iff.1 hcuts
      exact ⟨c, rfl, rfl⟩
    · obtain ⟨⟨k, cut⟩, hworst, rfl⟩ := Option.map_eq_some_iff.1 h
      have hget := getElem?_of_greatestPositive hworst
      rw [List.getElem?_map] at hget
      obtain ⟨c, hc, rfl⟩ := Option.map_eq_some_iff.1 hget
      exact ⟨c, hc, rfl⟩
  · cases h

/-- The verdict under limits on given rates of a well and of its open connections. -/
def verdict (l : Limits α) (q : PerPhase α) (candidates : List (Connection α × Nat)) (rates : List (PerPhase α)) :
    Verdict :=
  if l.hasRate && l.isRateBroken q then if l.shutIn then .shut else .stop
  else ((l.ratioViolation q rates).bind fun v =>
    candidates[v.worst]?.map fun ck => .close ck.2 ck.1.cell v.lastConnection).getD .keep

variable {l : Limits α} {q : PerPhase α}

theorem verdict_of_rateBroken (h : (l.hasRate && l.isRateBroken q) = true) (candidates : List (Connection α × Nat))
    (rates : List (PerPhase α)) : l.verdict q candidates rates = if l.shutIn then .shut else .stop := if_pos h

theorem verdict_cases (h : (l.hasRate && l.isRateBroken q) = false) (candidates : List (Connection α × Nat))
    (rates : List (PerPhase α)) : l.verdict q candidates rates = .keep ∨
      ∃ c k last, (c, k) ∈ candidates ∧ l.verdict q candidates rates = .close k c.cell last := by
  rw [verdict, if_neg (by rw [h]; exact Bool.false_ne_true)]
  cases l.ratioViolation q rates with
  | none => exact .inl rfl
  | some v =>
    rw [Option.bind_some]
    cases hget : candidates[v.worst]? with
    | none => exact .inl rfl
    | some ck => exact .inr ⟨ck.1, ck.2, v.lastConnection, List.mem_of_getElem? hget, rfl⟩

/-- A violation of the ratio limits names one of the connections. -/
private theorem worst_lt_of_ratioViolation {connections : List (PerPhase α)} {v : RatioViolation α}
    (h : l.ratioViolation q connections = some v) : v.worst < connections.length := by
  obtain ⟨limit, -, h⟩ := Option.bind_eq_some_iff.1 h
  obtain ⟨c, hc, -⟩ := waterCutViolation_some h
  exact (List.getElem?_eq_some_iff.1 hc).1

end Limits

namespace Closures

variable {w : Placed (Well α)} {s : FlowState α} {limits : Limits α} {closed : List Nat} {q : PerPhase α}
  {connections : List (PerPhase α)}

/-- A judgement on rates that are all there. -/
theorem judge_eq (hq : (s.slot w.index).rates = some q)
    (hopen : (openConnections w.item closed).mapM (fun ck => s.ratesAt (w.first + ck.2)) = .ok connections)
    (limits : Limits α) : ∃ notices,
      judge w s limits closed = .ok (limits.verdict q (openConnections w.item closed) connections, notices) := by
  have hlength := (Outcome.mapM_ok.1 hopen).length_eq
  unfold judge Limits.verdict
  simp only [hq, hopen, Outcome.need, bind, Except.bind]
  cases hrate : limits.hasRate && limits.isRateBroken q with
  | true => exact ⟨_, rfl⟩
  | false =>
    cases hviolation : limits.ratioViolation q connections with
    | none => cases limits.hasRatio <;> exact ⟨_, rfl⟩
    | some v =>
      have hratio : limits.hasRatio = true := by
        obtain ⟨limit, hlimit, -⟩ := Option.bind_eq_some_iff.1 hviolation
        simp [Limits.hasRatio, hlimit]
      have hworst : v.worst < (openConnections w.item closed).length :=
        hlength ▸ Limits.worst_lt_of_ratioViolation hviolation
      have hget := List.getElem?_eq_getElem hworst
      simp only [hratio, Option.bind_some, hget]
      exact ⟨_, rfl⟩

end Closures

/-! ### Reviews that go through -/

/-- Whether a state has a pressure and rates for each of given wells, and rates for each of their connections. -/
structure FlowState.HoldsRates (ws : Wells α) (s : FlowState α) : Prop where
  bhp : s.bhp.length = ws.list.length
  rates : s.rates.length = 3 * ws.list.length
  connectionRates : s.connectionRates.length = 3 * ws.numConnections

namespace Closures

variable {ws : Wells α} {w : Placed (Well α)} {s : FlowState α} {schedule : LimitSchedule α} {step : Nat}

theorem verdictOn_of_isClosed {e : Entry} (h : e.isClosed = true) : verdictOn schedule step s w e = .keep := by
  rcases verdictOn_cases schedule step s w e with hkeep | ⟨-, hopen, -⟩
  · exact hkeep
  · rw [h] at hopen
    cases hopen

theorem verdictOn_of_judge {e : Entry} {limits : Limits α} {v : Verdict} {notices : List (Notice α)}
    (hproducer : w.item.isProducer = true) (hopen : e.isClosed = false)
    (hlimits : (schedule.limitsAt w.item.name step).filter (·.hasAny) = some limits)
    (hjudge : judge w s limits e.cells = .ok (v, notices)) : verdictOn schedule step s w e = v := by
  unfold verdictOn
  rw [hlimits, hproducer, hopen]
  simp only [hjudge]
  rfl

omit [Scalar α] in
theorem exists_rates (h : s.HoldsRates ws) (hw : w ∈ ws.placed) : ∃ q, (s.slot w.index).rates = some q ∧
    ∀ closed, ∃ connections,
      (openConnections w.item closed).mapM (fun ck => s.ratesAt (w.first + ck.2)) = .ok connections := by
  have hindex : w.index < ws.list.length := (List.getElem?_eq_some_iff.1 (Placed.mem_ofList _ hw).1).1
  have hsome : (Stride.get? s.rates w.index).isSome := by
    have hlength := h.rates
    rw [Stride.get?_isSome_iff]
    omega
  obtain ⟨v, hv⟩ := Option.isSome_iff_exists.1 hsome
  refine ⟨.ofVec v, Option.map_eq_some_iff.2 ⟨v, hv, rfl⟩, fun closed => Outcome.exists_mapM fun ck hck => ?_⟩
  have hk := (List.getElem?_eq_some_iff.1 (mem_openConnections hck).1).1
  exact FlowState.exists_ratesAt h.connectionRates hw hk

theorem exists_judge (h : s.HoldsRates ws) (hw : w ∈ ws.placed) : ∃ q, ∀ limits closed, ∃ connections notices,
    judge w s limits closed = .ok (limits.verdict q (openConnections w.item closed) connections, notices) := by
  obtain ⟨q, hq, hconnections⟩ := exists_rates h hw
  refine ⟨q, fun limits closed => ?_⟩
  obtain ⟨connections, hopen⟩ := hconnections closed
  obtain ⟨notices, hjudge⟩ := judge_eq hq hopen limits
  exact ⟨connections, notices, hjudge⟩

theorem reviewWell_ok (h : s.HoldsRates ws) (hw : w ∈ ws.placed) (r : Closures × List (Notice α)) :
    (reviewWell schedule step s w r).1 = .ok ⟨⟩ := by
  unfold reviewWell
  rw [run_get_bind]
  dsimp only
  cases r.1.limitsFor? schedule step w.item with
  | none => rfl
  | some limits =>
    obtain ⟨q, hjudge⟩ := exists_judge h hw
    obtain ⟨connections, notices, hjudge⟩ := hjudge limits (r.1.closedCells w.item.name)
    dsimp only
    rw [run_outcome_bind, hjudge]
    rfl

/-- A review of wells goes through if their rates are there. -/
theorem review_ok (h : s.HoldsRates ws) (r : Closures × List (Notice α)) :
    review ws s schedule step r = ws.placed.forM (reviewWell schedule step s) r ∧
      (review ws s schedule step r).1 = .ok ⟨⟩ := by
  have hreview : review ws s schedule step r = ws.placed.forM (reviewWell schedule step s) r := by
    unfold review
    rw [if_neg (by simp [h.bhp])]
  refine ⟨hreview, ?_⟩
  rw [hreview]
  have hkeeps : Keeps (fun _ => True) (fun _ => False) (ws.placed.forM (reviewWell schedule step s)) := by
    refine .forM fun w hw r _ => ⟨trivial, fun e he => ?_⟩
    rw [reviewWell_ok h hw r] at he
    cases he
  cases hresult : (ws.placed.forM (reviewWell schedule step s) r).1 with
  | ok => rfl
  | error e => exact ((hkeeps r trivial).2 e hresult).elim

/-- Reviews that go through add to the record of each well the verdict on the well. -/
theorem entry_of_reviews_ok {ps : List (Placed (Well α))} (hnodup : (ps.map (·.item.name)).Nodup)
    (hok : ∀ w ∈ ps, ∀ r, (reviewWell schedule step s w r).1 = .ok ⟨⟩) (r : Closures × List (Notice α)) (hw : w ∈ ps) :
    (ps.forM (reviewWell schedule step s) r).2.1.entry w.item.name =
      (r.1.entry w.item.name).record (verdictOn schedule step s w (r.1.entry w.item.name)) := by
  induction ps generalizing r with
  | nil => cases hw
  | cons v ps ih =>
    obtain ⟨hfresh, hrest⟩ := List.nodup_cons.1 hnodup
    obtain ⟨c, notices⟩ := r
    have hrun : ((v :: ps).forM (reviewWell schedule step s) (c, notices)).2 =
        (ps.forM (reviewWell schedule step s) (reviewWell schedule step s v (c, notices)).2).2 := by
      have hv := hok v (List.mem_cons_self ..) (c, notices)
      rw [List.forM_eq_forM, List.forM_cons, run_bind]
      rcases hresult : reviewWell schedule step s v (c, notices) with ⟨o, t⟩
      rw [hresult] at hv
      obtain rfl : o = .ok ⟨⟩ := hv
      rfl
    have hwell := congrArg (entry · w.item.name) (reviewWell_eq schedule step s v c notices)
    simp only [entry_record] at hwell
    rw [hrun]
    rcases List.mem_cons.1 hw with rfl | hw
    · rw [if_pos rfl] at hwell
      have hsame : (ps.forM (reviewWell schedule step s) (reviewWell schedule step s w (c, notices)).2).2.1.entry
          w.item.name = (reviewWell schedule step s w (c, notices)).2.1.entry w.item.name := by
        refine (entry_of_reviews hrest _ _).resolve_right ?_
        rintro ⟨u, hu, hname, -⟩
        exact hfresh (List.mem_map.2 ⟨u, hu, hname⟩)
      rw [hsame, hwell]
    · have hne : w.item.name ≠ v.item.name := fun heq => hfresh (List.mem_map.2 ⟨w, hw, heq⟩)
      rw [if_neg hne] at hwell
      rw [ih hrest (fun u hu => hok u (List.mem_cons_of_mem _ hu)) _ hw, hwell]

end Closures

end BlackOilWells
