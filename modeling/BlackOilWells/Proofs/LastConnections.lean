import Mathlib.Data.List.Induction
import BlackOilWells.Proofs.ClosureHistory

/-!
# The last open connection

A review shuts a well together with its last open connection.  What is recorded of a connection is its cell, and a well
may be connected to a cell more than once.  So the review that closes the last cell of a well shuts the well exactly if
a single connection lies in that cell (`Closures.shut_iff_of_afterPass`): a well whose connections lie in distinct cells
is never left open without an open connection (`Closures.shut_of_exhausted`), and one that is connected twice to its last
cell is (`Closures.not_shut_twinProducer`).
-/

namespace BlackOilWells

variable {α : Type} [Scalar α]

/-! ### Violations -/

private theorem Limits.lastConnection_of_ratioViolation {l : Limits α} {q : PerPhase α}
    {connections : List (PerPhase α)}
    {v : RatioViolation α} (h : l.ratioViolation q connections = some v) :
    v.lastConnection = true ↔ connections.length = 1 := by
  obtain ⟨limit, -, h⟩ := Option.bind_eq_some_iff.1 h
  unfold waterCutViolation at h
  split at h
  · split at h
    · rename_i cut hcuts
      have hlength := congrArg List.length hcuts
      rw [List.length_map] at hlength
      cases h
      exact ⟨fun _ => hlength, fun _ => rfl⟩
    · rename_i hcuts
      obtain ⟨p, -, rfl⟩ := Option.map_eq_some_iff.1 h
      refine ⟨nofun, fun hlength => ?_⟩
      obtain ⟨cut, hcut⟩ := List.length_eq_one_iff.1 ((List.length_map (PerPhase.waterCut (α := α))).trans hlength)
      exact absurd hcut (hcuts cut)
  · cases h

namespace Closures

omit [Scalar α] in
private theorem length_openConnections (w : Well α) (closed : List Nat) :
    (openConnections w closed).length = w.cells.countP fun cell => !closed.contains cell := by
  have hmap : w.cells = w.connections.zipIdx.map fun p => p.1.cell := by
    rw [Well.cells, ← List.zipIdx_map_fst 0 w.connections, List.map_map, List.zipIdx_map_fst]
    rfl
  rw [openConnections, ← List.countP_eq_length_filter, hmap, List.countP_map]
  rfl

/-! ### Exhausted wells -/

namespace Entry

/-- Whether all connections of a well lie in recorded cells. -/
def Exhausts (w : Well α) (e : Entry) : Prop := ∀ cell ∈ w.cells, cell ∈ e.cells

/-- Whether the cell that was recorded last is that of several connections of a well. -/
def EndsShared (w : Well α) (e : Entry) : Prop := ∃ cell, e.cells.getLast? = some cell ∧ 2 ≤ w.cells.count cell

end Entry

variable {schedule : LimitSchedule α} {step : Nat} {s : FlowState α} {w : Placed (Well α)} {e : Entry}

/-- A verdict that closes a connection counts the open ones. -/
private theorem last_of_verdictOn {k cell : Nat} {last : Bool}
    (h : verdictOn schedule step s w e = .close k cell last) :
    cell ∉ e.cells ∧ (last = true ↔ (openConnections w.item e.cells).length = 1) := by
  obtain ⟨-, -, limits, notices, hjudge⟩ := verdictOn_close h
  obtain ⟨-, -, -, hopen⟩ := judge_close hjudge
  obtain ⟨rates, connectionRates, v, conn, hviolation, hlength, -, -, rfl⟩ := judge_close_ok hjudge
  rw [← hlength]
  exact ⟨hopen, Limits.lastConnection_of_ratioViolation hviolation⟩

/-- The verdict that closes the last cell of a well shuts the well exactly if one connection lies in the cell. -/
private theorem Entry.shut_record_iff (hbefore : ¬e.Exhausts w.item)
    (hafter : (e.record (verdictOn schedule step s w e)).Exhausts w.item) :
    ∃ cell, (e.record (verdictOn schedule step s w e)).cells.getLast? = some cell ∧
      ((e.record (verdictOn schedule step s w e)).shut = true ↔ w.item.cells.count cell = 1) := by
  cases hv : verdictOn schedule step s w e with
  | keep =>
    rw [hv] at hafter
    exact absurd hafter hbefore
  | shut =>
    rw [hv] at hafter
    exact absurd hafter hbefore
  | stop =>
    rw [hv] at hafter
    exact absurd hafter hbefore
  | close k cell last =>
    rw [hv] at hafter
    obtain ⟨hfresh, hlast⟩ := last_of_verdictOn hv
    obtain ⟨-, hopen, -⟩ := verdictOn_close hv
    have hshut : e.shut = false := (Bool.or_eq_false_iff.1 hopen).1
    have hcells : (e.record (.close k cell last)).cells = e.cells ++ [cell] := Entry.cells_record_close hfresh
    -- the connections that were open lie in the cell that is closed
    have hcount : (openConnections w.item e.cells).length = w.item.cells.count cell := by
      rw [length_openConnections]
      refine List.countP_congr fun c hc => ?_
      have hmem := hafter c hc
      rw [hcells, List.mem_append, List.mem_singleton] at hmem
      rcases hmem with hmem | rfl
      · have hne : c ≠ cell := fun heq => hfresh (heq ▸ hmem)
        simp [hmem, hne]
      · simp [hfresh]
    refine ⟨cell, by rw [hcells, List.getLast?_concat], ?_⟩
    rw [← hcount, ← hlast, Entry.record, hshut, Bool.false_or]

/-- A verdict on a well without an open connection closes none. -/
private theorem Entry.cells_record (h : e.Exhausts w.item) :
    (e.record (verdictOn schedule step s w e)).cells = e.cells := by
  cases hv : verdictOn schedule step s w e with
  | close k cell last =>
    obtain ⟨-, -, limits, notices, hjudge⟩ := verdictOn_close hv
    obtain ⟨conn, hconn, hcell, hfresh⟩ := judge_close hjudge
    have hmem : cell ∈ w.item.cells := hcell ▸ List.mem_map_of_mem (List.mem_of_getElem? hconn)
    exact absurd (h cell hmem) hfresh
  | _ => rfl

/-! ### Reviews of accepted wells -/

section Created

variable {given : List (Well α)} {phases : PhaseSet} {n : Nat} {wells : Wells α}
  (h : Wells.create given phases n = .ok wells) {c : Closures} {p : Pass α} {v : Well α} (hv : v ∈ wells.list)

include h hv

/-- A review leaves the record of a well as it is, or adds the verdict on the well. -/
theorem entry_afterPass_of_mem (c : Closures) (p : Pass α) :
    (afterPass wells c p).entry v.name = c.entry v.name ∨ ∃ w : Placed (Well α), w.item = v ∧
      (afterPass wells c p).entry v.name =
        (c.entry v.name).record (verdictOn p.schedule p.step p.flow w (c.entry v.name)) := by
  rcases entry_afterPass h c p v.name with hsame | ⟨w, hw, hname, hrecord⟩
  · exact .inl hsame
  · exact .inr ⟨w, Wells.eq_of_name h (List.mem_of_getElem? (Placed.mem_ofList _ hw).1) hv hname, hrecord⟩

private theorem not_exhausts_empty : ¬((empty : Closures).entry v.name).Exhausts v := by
  intro hall
  obtain ⟨conn, hconn⟩ := List.exists_mem_of_ne_nil _ (Wells.connected_of_create h v hv)
  exact absurd (hall conn.cell (List.mem_map_of_mem hconn)) List.not_mem_nil

theorem shut_iff_of_afterPass (hbefore : ¬(c.entry v.name).Exhausts v)
    (hafter : ((afterPass wells c p).entry v.name).Exhausts v) :
    ∃ cell, ((afterPass wells c p).entry v.name).cells.getLast? = some cell ∧
      (((afterPass wells c p).entry v.name).shut = true ↔ v.cells.count cell = 1) := by
  rcases entry_afterPass_of_mem h hv c p with hsame | ⟨w, rfl, hrecord⟩
  · rw [hsame] at hafter
    exact absurd hafter hbefore
  · rw [hrecord] at hafter ⊢
    exact Entry.shut_record_iff hbefore hafter

/-- Once a well has no open connection, its recorded cells stay the same. -/
theorem cells_afterPass (hbefore : (c.entry v.name).Exhausts v) :
    ((afterPass wells c p).entry v.name).cells = (c.entry v.name).cells := by
  rcases entry_afterPass_of_mem h hv c p with hsame | ⟨w, rfl, hrecord⟩
  · rw [hsame]
  · rw [hrecord]
    exact Entry.cells_record hbefore

private theorem shut_or_endsShared (passes : List (Pass α))
    (hall : ((afterPasses wells passes).entry v.name).Exhausts v) :
    ((afterPasses wells passes).entry v.name).shut = true ∨
      ((afterPasses wells passes).entry v.name).EndsShared v := by
  induction passes using List.reverseRecOn with
  | nil => exact absurd hall (not_exhausts_empty h hv)
  | append_singleton passes p ih =>
    rw [afterPasses, List.foldl_append] at hall ⊢
    by_cases hbefore : ((afterPasses wells passes).entry v.name).Exhausts v
    · have hcells := cells_afterPass h hv (p := p) hbefore
      rcases ih hbefore with hshut | hshared
      · exact .inl ((advances_afterPass h _ p v.name).shut hshut)
      · right
        obtain ⟨cell, hlast, hcount⟩ := hshared
        exact ⟨cell, (congrArg List.getLast? hcells).trans hlast, hcount⟩
    · -- this review has closed the last open connections
      obtain ⟨cell, hlast, hiff⟩ := shut_iff_of_afterPass h hv hbefore hall
      by_cases hcount : v.cells.count cell = 1
      · exact .inl (hiff.2 hcount)
      · have hmem : cell ∈ v.cells := by
          have hsound := (sound_afterPasses h (passes ++ [p]) (sound_empty wells)).entries v hv
          rw [List.foldl_append] at hsound
          exact hsound.within cell (List.mem_of_getLast? hlast)
        have hpos := List.count_pos_iff.2 hmem
        exact .inr ⟨cell, hlast, by omega⟩

/-- A well with all its connections in recorded cells is shut, or several of its connections lie in the cell that was
recorded last.  So it is shut if its connections lie in distinct cells.  In general the review that closes the last cell
of a well shuts it exactly if a single connection lies in that cell. -/
theorem shut_of_exhausted :
    (∀ passes, ((afterPasses wells passes).entry v.name).Exhausts v →
      ((afterPasses wells passes).entry v.name).shut = true ∨
        ((afterPasses wells passes).entry v.name).EndsShared v) ∧
    (v.cells.Nodup → ∀ passes, ((afterPasses wells passes).entry v.name).Exhausts v →
      ((afterPasses wells passes).entry v.name).shut = true) ∧
    ∀ passes next, ¬((afterPasses wells passes).entry v.name).Exhausts v →
      ((afterPasses wells (passes ++ [next])).entry v.name).Exhausts v →
      ∃ cell, ((afterPasses wells (passes ++ [next])).entry v.name).cells.getLast? = some cell ∧
        (((afterPasses wells (passes ++ [next])).entry v.name).shut = true ↔ v.cells.count cell = 1) := by
  refine ⟨shut_or_endsShared h hv, fun hnodup passes hall => ?_, fun passes next hbefore hafter => ?_⟩
  · rcases shut_or_endsShared h hv passes hall with hshut | ⟨cell, -, hcount⟩
    · exact hshut
    · have hone := List.nodup_iff_count_le_one.1 hnodup cell
      omega
  · rw [afterPasses, List.foldl_append] at hafter ⊢
    exact shut_iff_of_afterPass h hv hbefore hafter

end Created

/-! ### A producer that is flooded -/

/-- What the reviews of given wells record of the only one of them. -/
def recordAfter (given : List (Well ℚ)) (passes : List (Pass ℚ)) : Option (List (String × List Nat × Bool) × Entry) :=
  (Wells.create given .oilWater 4).toOption.map fun wells =>
    (wells.list.map fun v => (v.name, v.cells, v.isProducer), (afterPasses wells passes).entry "P")

private theorem exists_of_recordAfter {given : List (Well ℚ)} {passes : List (Pass ℚ)} {cells : List Nat} {e : Entry}
    (h : recordAfter given passes = some ([("P", cells, true)], e)) : ∃ wells v,
      Wells.create given .oilWater 4 = .ok wells ∧ v ∈ wells.list ∧ v.isProducer = true ∧ v.name = "P" ∧
      v.cells = cells ∧ (afterPasses wells passes).entry v.name = e := by
  obtain ⟨wells, hwells, hpair⟩ := Option.map_eq_some_iff.1 h
  obtain ⟨hlist, hentry⟩ := Prod.mk.inj hpair
  obtain ⟨v, hv, hview⟩ := List.map_eq_singleton_iff.1 hlist
  obtain ⟨hname, hcells, hproducer⟩ : v.name = "P" ∧ v.cells = cells ∧ v.isProducer = true := by simpa using hview
  refine ⟨wells, v, Outcome.ok_of_toOption hwells, ?_, hproducer, hname, hcells, by rw [hname, hentry]⟩
  rw [hv]
  exact List.mem_singleton_self v

/-- The second review closes the upper connection, which is the only one in its cell, and so it shuts the well. -/
theorem shut_of_exhausted_flooding : ∃ wells v, Wells.create twoCellProducer .oilWater 4 = .ok wells ∧
    v ∈ wells.list ∧ v.cells = [3, 1] ∧ v.cells.Nodup ∧
    ((afterPasses wells flooding).entry v.name).Exhausts v ∧ ((afterPasses wells flooding).entry v.name).shut = true := by
  have hrun : recordAfter twoCellProducer flooding = some ([("P", [3, 1], true)], ⟨true, false, [1, 3]⟩) := by
    decide +kernel
  obtain ⟨wells, v, hcreate, hv, -, -, hcells, hentry⟩ := exists_of_recordAfter hrun
  have hnodup : v.cells.Nodup := by
    rw [hcells]
    decide
  have hall : ((afterPasses wells flooding).entry v.name).Exhausts v := by
    rw [hentry, Entry.Exhausts, hcells]
    decide
  exact ⟨wells, v, hcreate, hv, hcells, hnodup, hall, (shut_of_exhausted hcreate hv).2.1 hnodup flooding hall⟩

/-- A producer with two connections in the same cell. -/
def twinProducer : List (Well ℚ) := [.producer "P" 0 [⟨1, 2, 0, 1⟩, ⟨1, 2, 0, 1⟩] ⟨[⟨.bhp, 90, .replicate 0⟩], 0⟩]

/-- The review that closes the worse of two connections in the same cell leaves the producer open without any open
connection. -/
theorem not_shut_twinProducer : ∃ wells v, Wells.create twinProducer .oilWater 4 = .ok wells ∧
    v ∈ wells.list ∧ v.isProducer = true ∧
    ((afterPasses wells [cutPass (-3) (-2) (-8) (-1)]).entry v.name).Exhausts v ∧
    ((afterPasses wells [cutPass (-3) (-2) (-8) (-1)]).entry v.name).isClosed = false := by
  have hrun : recordAfter twinProducer [cutPass (-3) (-2) (-8) (-1)] =
      some ([("P", [1, 1], true)], ⟨false, false, [1]⟩) := by decide +kernel
  obtain ⟨wells, v, hcreate, hv, hproducer, -, hcells, hentry⟩ := exists_of_recordAfter hrun
  refine ⟨wells, v, hcreate, hv, hproducer, ?_, by rw [hentry]; rfl⟩
  rw [hentry, Entry.Exhausts, hcells]
  decide

end Closures

end BlackOilWells
