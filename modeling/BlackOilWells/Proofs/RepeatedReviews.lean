import Mathlib.Logic.Function.Iterate
import BlackOilWells.Proofs.LastConnections
import BlackOilWells.Proofs.Verdicts

/-!
# Repeated reviews

A review that is repeated on the same rates and limits comes to an end.  For each well a broken rate limit closes it at
once, and otherwise every verdict that is not to keep it closes an open connection of it
(`Closures.Entry.reviewed_cases`).  So the record of a well stays the same after as many reviews as it has connections
(`Closures.Entry.keep_of_reviewed`), and the closures after as many as any producer has (`Closures.settled_of_repeats`).
-/

namespace BlackOilWells

variable {α : Type}

/-- The largest number of connections of a producer. -/
def Wells.mostConnections (ws : Wells α) : Nat :=
  ((ws.list.filter (·.isProducer)).map (·.connections.length)).max?.getD 0

private theorem Wells.length_le_mostConnections {ws : Wells α} {w : Well α} (hw : w ∈ ws.list)
    (hproducer : w.isProducer = true) : w.connections.length ≤ ws.mostConnections := by
  refine List.le_max?_getD_of_mem (List.mem_map.2 ⟨w, ?_, rfl⟩)
  exact List.mem_filter.2 ⟨hw, hproducer⟩

namespace Closures

/-! ### Open connections -/

/-- Closing the cell of an open connection leaves fewer connections open. -/
private theorem length_openConnections_lt {w : Well α} {closed : List Nat} {conn : Connection α} {k : Nat}
    (h : (conn, k) ∈ openConnections w closed) :
    (openConnections w (closed ++ [conn.cell])).length < (openConnections w closed).length := by
  have hfilter : openConnections w (closed ++ [conn.cell]) =
      (openConnections w closed).filter fun ck => decide (ck.1.cell ≠ conn.cell) := by
    unfold openConnections
    rw [List.filter_filter]
    refine List.filter_congr fun ck _ => ?_
    simp [Bool.and_comm]
  rw [hfilter, List.length_filter_lt_length_iff_exists]
  exact ⟨(conn, k), h, by simp⟩

private theorem length_openConnections_le (w : Well α) (closed : List Nat) :
    (openConnections w closed).length ≤ w.connections.length := by
  have hle := List.length_filter_le (fun ck : Connection α × Nat => !closed.contains ck.1.cell) w.connections.zipIdx
  rwa [List.length_zipIdx] at hle

variable [Scalar α]

/-! ### Records of repeated reviews -/

section Wells

variable {ws : Wells α} {w : Placed (Well α)} {s : FlowState α} {schedule : LimitSchedule α} {step : Nat}

namespace Entry

/-- A record of a well after one more review. -/
def reviewed (schedule : LimitSchedule α) (step : Nat) (s : FlowState α) (w : Placed (Well α)) (e : Entry) : Entry :=
  e.record (verdictOn schedule step s w e)

private theorem reviewed_of_keep {e : Entry} (h : verdictOn schedule step s w e = .keep) :
    e.reviewed schedule step s w = e := by
  rw [reviewed, h, record]

private theorem cells_of_close {e : Entry} {k cell : Nat} {last : Bool} (hfresh : cell ∉ e.cells)
    (h : verdictOn schedule step s w e = .close k cell last) :
    (e.reviewed schedule step s w).cells = e.cells ++ [cell] := by
  rw [reviewed, h, cells_record_close hfresh]

/-- Either every review closes a well that is open, or reviews do nothing but to close open connections. -/
theorem reviewed_cases (h : s.HoldsRates ws) (hw : w ∈ ws.placed) (schedule : LimitSchedule α) (step : Nat) :
    (∀ e : Entry, e.isClosed = false → (e.reviewed schedule step s w).isClosed = true) ∨
    ∀ e : Entry, verdictOn schedule step s w e = .keep ∨ ∃ conn k last,
      (conn, k) ∈ openConnections w.item e.cells ∧ verdictOn schedule step s w e = .close k conn.cell last := by
  obtain ⟨q, hjudge⟩ := exists_judge h hw
  cases hlimits : (schedule.limitsAt w.item.name step).filter (·.hasAny) with
  | none =>
    refine .inr fun e => .inl ?_
    unfold verdictOn
    rw [hlimits]
    split <;> rfl
  | some limits =>
    cases hproducer : w.item.isProducer with
    | false =>
      refine .inr fun e => .inl ?_
      unfold verdictOn
      rw [hproducer]
      rfl
    | true =>
      have hverdict (e : Entry) (hopen : e.isClosed = false) : ∃ connections,
          verdictOn schedule step s w e = limits.verdict q (openConnections w.item e.cells) connections := by
        obtain ⟨connections, notices, hjudge⟩ := hjudge limits e.cells
        exact ⟨connections, verdictOn_of_judge hproducer hopen hlimits hjudge⟩
      cases hrate : limits.hasRate && limits.isRateBroken q with
      | true =>
        refine .inl fun e hopen => ?_
        obtain ⟨connections, hv⟩ := hverdict e hopen
        rw [reviewed, hv, Limits.verdict_of_rateBroken hrate]
        cases limits.shutIn
        · exact Bool.or_true _
        · rfl
      | false =>
        refine .inr fun e => ?_
        cases hclosed : e.isClosed with
        | true => exact .inl (verdictOn_of_isClosed hclosed)
        | false =>
          obtain ⟨connections, hv⟩ := hverdict e hclosed
          rw [hv]
          rcases Limits.verdict_cases hrate (openConnections w.item e.cells) connections with
            hkeep | ⟨c, k, last, hmem, hc⟩
          · exact .inl hkeep
          · exact .inr ⟨c, k, last, hmem, hc⟩

/-- After as many reviews as a well has connections, its record stays the same. -/
theorem keep_of_reviewed (h : s.HoldsRates ws) (hw : w ∈ ws.placed) (hconnected : w.item.connections ≠ []) {m : Nat}
    (hm : w.item.connections.length ≤ m) (e : Entry) :
    verdictOn schedule step s w ((reviewed schedule step s w)^[m] e) = .keep := by
  have hpos := List.length_pos_iff.2 hconnected
  rcases reviewed_cases h hw schedule step with hcloses | hcases
  · obtain ⟨m, rfl⟩ : ∃ k, m = k + 1 := ⟨m - 1, by omega⟩
    rw [Function.iterate_succ_apply']
    cases hopen : ((reviewed schedule step s w)^[m] e).isClosed with
    | true =>
      have hkeep : verdictOn schedule step s w ((reviewed schedule step s w)^[m] e) = .keep :=
        verdictOn_of_isClosed hopen
      rw [reviewed_of_keep hkeep]
      exact hkeep
    | false => exact verdictOn_of_isClosed (hcloses _ hopen)
  · -- each verdict that is not to keep the well leaves fewer connections open
    have hsettles (m : Nat) (e : Entry) (hm : (openConnections w.item e.cells).length ≤ m) :
        verdictOn schedule step s w ((reviewed schedule step s w)^[m] e) = .keep := by
      induction m generalizing e with
      | zero =>
        rcases hcases e with hkeep | ⟨conn, k, last, hmem, -⟩
        · exact hkeep
        · have hlt := List.length_pos_of_mem hmem
          omega
      | succ m ih =>
        rcases hcases e with hkeep | ⟨conn, k, last, hmem, hclose⟩
        · rw [Function.iterate_fixed (reviewed_of_keep hkeep)]
          exact hkeep
        · rw [Function.iterate_succ_apply]
          refine ih _ ?_
          have hlt := length_openConnections_lt hmem
          rw [cells_of_close (mem_openConnections hmem).2 hclose]
          omega
    have hle := length_openConnections_le w.item e.cells
    exact hsettles m e (by omega)

end Entry

end Wells

/-! ### Closures after repeated reviews -/

variable {wells : Wells α} {p : Pass α}

/-- The closures after a number of equal reviews. -/
def afterRepeats (wells : Wells α) (p : Pass α) (m : Nat) (c : Closures) : Closures := (afterPass wells · p)^[m] c

private theorem afterRepeats_succ (wells : Wells α) (p : Pass α) (m : Nat) (c : Closures) :
    afterRepeats wells p (m + 1) c = afterPass wells (afterRepeats wells p m c) p :=
  Function.iterate_succ_apply' ..

/-- A review that keeps every well leaves the closures as they are. -/
private theorem afterPass_of_keep {c : Closures}
    (h : ∀ w ∈ wells.placed, verdictOn p.schedule p.step p.flow w (c.entry w.item.name) = .keep) :
    afterPass wells c p = c := by
  rcases afterPass_cases wells c p with hpass | hpass
  · exact hpass
  · rw [hpass]
    have hmaintains : Attempt.Maintains (fun r : Closures × List (Notice α) => r.1 = c)
        (wells.placed.forM (reviewWell p.schedule p.step p.flow)) := by
      refine .forM fun w hw r hr => ?_
      rw [reviewWell_eq p.schedule p.step p.flow w r.1 r.2, hr, h w hw]
      rfl
    exact hmaintains (c, []) rfl

section Created

variable {given : List (Well α)} {phases : PhaseSet} {n : Nat} (h : Wells.create given phases n = .ok wells)
  (hp : p.flow.HoldsRates wells) {w : Placed (Well α)} (hw : w ∈ wells.placed)

include h hp hw

theorem entry_of_review (r : Closures × List (Notice α)) :
    (review wells p.flow p.schedule p.step r).2.1.entry w.item.name =
      (r.1.entry w.item.name).reviewed p.schedule p.step p.flow w := by
  rw [(review_ok hp r).1]
  exact entry_of_reviews_ok (Wells.nodup_names h) (fun v hv r => reviewWell_ok hp hv r) r hw

private theorem entry_afterPass_ok (c : Closures) : (afterPass wells c p).entry w.item.name =
    (c.entry w.item.name).reviewed p.schedule p.step p.flow w := entry_of_review h hp hw (c, [])

private theorem entry_afterRepeats (m : Nat) (c : Closures) : (afterRepeats wells p m c).entry w.item.name =
    (Entry.reviewed p.schedule p.step p.flow w)^[m] (c.entry w.item.name) := by
  have hsemiconj : Function.Semiconj (fun c : Closures => c.entry w.item.name) (afterPass wells · p)
      (Entry.reviewed p.schedule p.step p.flow w) := fun c => entry_afterPass_ok h hp hw c
  exact hsemiconj.iterate_right m c

private theorem keep_of_repeats {m : Nat} (hm : wells.mostConnections ≤ m) (c : Closures) :
    verdictOn p.schedule p.step p.flow w ((afterRepeats wells p m c).entry w.item.name) = .keep := by
  have hmem : w.item ∈ wells.list := List.mem_of_getElem? (Placed.mem_ofList _ hw).1
  rw [entry_afterRepeats h hp hw]
  cases hproducer : w.item.isProducer with
  | true =>
    have hle := Wells.length_le_mostConnections hmem hproducer
    exact Entry.keep_of_reviewed hp hw (Wells.connected_of_create h _ hmem) (hle.trans hm) _
  | false =>
    rcases verdictOn_cases p.schedule p.step p.flow w
      ((Entry.reviewed p.schedule p.step p.flow w)^[m] (c.entry w.item.name)) with hkeep | ⟨htrue, -⟩
    · exact hkeep
    · rw [hproducer] at htrue
      cases htrue

/-- A review that changes the record of a well, and leaves the well open, closes a connection that was open. -/
theorem closes_of_afterPass {c : Closures}
    (hchange : (afterPass wells c p).entry w.item.name ≠ c.entry w.item.name)
    (hopen : ((afterPass wells c p).entry w.item.name).isClosed = false) :
    ∃ conn ∈ w.item.connections, conn.cell ∉ (c.entry w.item.name).cells ∧
      ((afterPass wells c p).entry w.item.name).cells = (c.entry w.item.name).cells ++ [conn.cell] := by
  rw [entry_afterPass_ok h hp hw] at hchange hopen ⊢
  rcases Entry.reviewed_cases hp hw p.schedule p.step with hcloses | hcases
  · cases hbefore : (c.entry w.item.name).isClosed with
    | true => exact absurd (Entry.reviewed_of_keep (verdictOn_of_isClosed hbefore)) hchange
    | false =>
      rw [hcloses _ hbefore] at hopen
      cases hopen
  · rcases hcases (c.entry w.item.name) with hkeep | ⟨conn, k, last, hmem, hclose⟩
    · exact absurd (Entry.reviewed_of_keep hkeep) hchange
    · obtain ⟨hget, hfresh⟩ := mem_openConnections hmem
      exact ⟨conn, List.mem_of_getElem? hget, hfresh, Entry.cells_of_close hfresh hclose⟩

omit hw

/-- Equal reviews of accepted wells, whatever was closed before.  All of them go through, and after as many as any
producer has connections the closures stay the same.  A review that changes the record of a well and leaves the well
open closes a connection that was open. -/
theorem settled_of_repeats (c : Closures) :
    (∀ m, wells.mostConnections ≤ m → afterRepeats wells p m c = afterRepeats wells p wells.mostConnections c) ∧
    ∀ m, (∀ notices, (review wells p.flow p.schedule p.step (afterRepeats wells p m c, notices)).1 = .ok ⟨⟩) ∧
      ∀ v ∈ wells.list,
        (afterRepeats wells p (m + 1) c).entry v.name ≠ (afterRepeats wells p m c).entry v.name →
        ((afterRepeats wells p (m + 1) c).entry v.name).isClosed = false →
        ∃ conn ∈ v.connections, conn.cell ∉ ((afterRepeats wells p m c).entry v.name).cells ∧
          ((afterRepeats wells p (m + 1) c).entry v.name).cells =
            ((afterRepeats wells p m c).entry v.name).cells ++ [conn.cell] := by
  refine ⟨fun m hm => ?_, fun m => ⟨fun notices => (review_ok hp _).2, fun v hv hchange hopen => ?_⟩⟩
  · have hfixed : afterPass wells (afterRepeats wells p wells.mostConnections c) p =
        afterRepeats wells p wells.mostConnections c :=
      afterPass_of_keep fun w hw => keep_of_repeats h hp hw le_rfl c
    obtain ⟨k, rfl⟩ := Nat.exists_eq_add_of_le' hm
    rw [afterRepeats, Function.iterate_add_apply]
    exact Function.iterate_fixed hfixed k
  · obtain ⟨w, hw, rfl⟩ := Placed.exists_mem_ofList (fun w : Well α => w.connections.length) hv
    rw [afterRepeats_succ] at hchange hopen ⊢
    exact closes_of_afterPass h hp hw hchange hopen

end Created

/-! ### A producer that is flooded all the time -/

/-- Closures before the reviews: another well is shut, and a cell that is none of the producer's is recorded for it. -/
def earlierClosures : Closures := ⟨["Q"], [], [("P", [7])]⟩

/-- A review that finds both connections of the producer above half water. -/
def floodedPass : Pass ℚ := cutPass (-3) (-2) (-8) (-1)

/-- The producer has two connections.  The first review closes one of them, the second the other one together with the
well, and from then on nothing changes. -/
theorem settled_of_repeats_twoCellProducer : ∃ wells, Wells.create twoCellProducer .oilWater 4 = .ok wells ∧
    wells.mostConnections = 2 ∧ floodedPass.flow.HoldsRates wells ∧
    (afterRepeats wells floodedPass 1 earlierClosures).entry "P" = ⟨false, false, [7, 1]⟩ ∧
    (afterRepeats wells floodedPass 2 earlierClosures).entry "P" = ⟨true, false, [7, 1, 3]⟩ ∧
    ∀ m, 2 ≤ m → afterRepeats wells floodedPass m earlierClosures = afterRepeats wells floodedPass 2 earlierClosures := by
  have hrun : (Wells.create twoCellProducer .oilWater 4).toOption.map (fun wells =>
      (wells.mostConnections, wells.list.length, wells.numConnections,
        (afterRepeats wells floodedPass 1 earlierClosures).entry "P",
        (afterRepeats wells floodedPass 2 earlierClosures).entry "P")) =
      some (2, 1, 2, ⟨false, false, [7, 1]⟩, ⟨true, false, [7, 1, 3]⟩) := by decide +kernel
  obtain ⟨wells, hwells, hview⟩ := Option.map_eq_some_iff.1 hrun
  have hcreate := Outcome.ok_of_toOption hwells
  simp only [Prod.mk.injEq] at hview
  obtain ⟨hmost, hlength, hconnections, hfirst, hsecond⟩ := hview
  have hrates : floodedPass.flow.HoldsRates wells := by
    refine ⟨?_, ?_, ?_⟩
    · rw [hlength]
      rfl
    · rw [hlength]
      rfl
    · rw [hconnections]
      rfl
  have hsettled := (settled_of_repeats hcreate hrates earlierClosures).1
  rw [hmost] at hsettled
  exact ⟨wells, hcreate, hmost, hrates, hfirst, hsecond, hsettled⟩

end Closures

end BlackOilWells
