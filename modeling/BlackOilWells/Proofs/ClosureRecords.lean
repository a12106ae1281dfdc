import Mathlib.Algebra.Ring.Nat
import BlackOilWells.Economics.Closures
import BlackOilWells.Proofs.Attempts
import BlackOilWells.Proofs.Places

/-!
# What is recorded of a well

The closures hold the names of wells in two lists and the cells of their closed connections in a third.  Together they
make one record for each name (`Closures.entry`), and a verdict on a well changes the record of its name only
(`Closures.entry_record`).

A review judges each well on the record of its name as it finds it (`Closures.verdictOn`).  Where names are distinct, a
record is therefore what it was before the review, or that with the one verdict on the well of that name
(`Closures.entry_of_reviews`).
-/

namespace BlackOilWells

open Attempt

variable {α : Type}

private theorem LimitSchedule.lookup_insertAt {κ β : Type} [DecidableEq κ] (k x : κ) (b : β) (l : List (κ × β)) :
    (insertAt k b l).lookup x = if x = k then some b else l.lookup x := by
  induction l with
  | nil =>
    by_cases hx : x = k
    · simp [insertAt, hx]
    · have hne : (x == k) = false := beq_eq_false_iff_ne.2 hx
      simp [insertAt, List.lookup_cons, hne, hx]
  | cons p l ih =>
    obtain ⟨k', b'⟩ := p
    rw [insertAt]
    by_cases hk : k' = k
    · subst hk
      by_cases hx : x = k'
      · simp [hx]
      · have hne : (x == k') = false := beq_eq_false_iff_ne.2 hx
        simp [List.lookup_cons, hne, hx]
    · rw [if_neg (by simpa using hk), List.lookup_cons, List.lookup_cons, ih]
      by_cases hx : x = k'
      · simp [hx, hk]
      · have hne : (x == k') = false := beq_eq_false_iff_ne.2 hx
        rw [hne]

private theorem LimitSchedule.mem_insertAt {κ β : Type} [BEq κ] [LawfulBEq κ] {k x : κ} {b : β} {l : List (κ × β)} :
    x ∈ (insertAt k b l).map Prod.fst ↔ x = k ∨ x ∈ l.map Prod.fst := by
  induction l with
  | nil => simp [insertAt]
  | cons p l ih =>
    obtain ⟨k', b'⟩ := p
    rw [insertAt]
    by_cases hk : k' = k
    · simp [hk]
    · simp only [beq_eq_false_iff_ne.2 hk, Bool.false_eq_true, if_false, List.map_cons, List.mem_cons, ih]
      exact or_left_comm

namespace Closures

private theorem mem_insertName {name x : String} {l : List String} : x ∈ insertName name l ↔ x = name ∨ x ∈ l := by
  induction l with
  | nil => simp [insertName]
  | cons n l ih =>
    unfold insertName
    split
    · simp only [List.mem_cons, ih]
      exact or_left_comm
    · split
      · rename_i hn
        simp [hn]
      · simp

/-! ### Records -/

/-- What is recorded of one well. -/
structure Entry where
  shut : Bool
  stopped : Bool
  cells : List Nat
deriving DecidableEq

/-- What is recorded under a name. -/
def entry (c : Closures) (name : String) : Entry := ⟨c.shut.contains name, c.stopped.contains name, c.closedCells name⟩

/-- All names under which something is recorded. -/
def names (c : Closures) : List String := c.shut ++ c.stopped ++ c.connections.map Prod.fst

namespace Entry

def isClosed (e : Entry) : Bool := e.shut || e.stopped

/-- A record with one more cell, unless the cell is there. -/
def addCell (e : Entry) (cell : Nat) : Entry :=
  { e with cells := if e.cells.contains cell then e.cells else e.cells ++ [cell] }

/-- A record with a verdict. -/
def record (e : Entry) : Verdict → Entry
  | .keep => e
  | .shut => { e with shut := true }
  | .stop => { e with stopped := true }
  | .close _ cell last => { e.addCell cell with shut := e.shut || last }

theorem cells_record_close {e : Entry} {k cell : Nat} {last : Bool} (h : cell ∉ e.cells) :
    (e.record (.close k cell last)).cells = e.cells ++ [cell] := by
  have hcontains : ¬e.cells.contains cell = true := by simpa using h
  rw [record, addCell, if_neg hcontains]

end Entry

variable {c : Closures} {name other : String}

private theorem entry_addShut : (c.addShut name).entry other =
    if other = name then { c.entry other with shut := true } else c.entry other := by
  by_cases h : other = name <;> simp [entry, addShut, mem_insertName, closedCells, h]

private theorem entry_addStopped : (c.addStopped name).entry other =
    if other = name then { c.entry other with stopped := true } else c.entry other := by
  by_cases h : other = name <;> simp [entry, addStopped, mem_insertName, closedCells, h]

private theorem entry_addClosed (cell : Nat) : (c.addClosed name cell).entry other =
    if other = name then (c.entry other).addCell cell else c.entry other := by
  rw [addClosed]
  by_cases hcell : (c.closedCells name).contains cell = true
  · rw [if_pos hcell]
    split
    · rename_i h
      subst h
      rw [Entry.addCell, entry, if_pos hcell]
    · rfl
  · rw [if_neg hcell]
    by_cases h : other = name
    · subst h
      have hentry : ¬(c.entry other).cells.contains cell = true := hcell
      rw [if_pos rfl, Entry.addCell, if_neg hentry]
      simp [entry, closedCells, LimitSchedule.lookup_insertAt]
    · rw [if_neg h]
      simp [entry, closedCells, LimitSchedule.lookup_insertAt, h]

theorem entry_record (v : Verdict) :
    (c.record name v).entry other = if other = name then (c.entry other).record v else c.entry other := by
  cases v with
  | keep => rw [record, Entry.record, ite_self]
  | shut => exact entry_addShut
  | stop => exact entry_addStopped
  | close k cell last =>
    rw [record]
    cases last with
    | false =>
      rw [if_neg Bool.false_ne_true, entry_addClosed, Entry.record, Bool.or_false]
      rfl
    | true =>
      rw [if_pos rfl, entry_addShut, entry_addClosed, Entry.record, Bool.or_true]
      split <;> rfl

theorem names_record (v : Verdict) (h : other ∈ (c.record name v).names) : other = name ∨ other ∈ c.names := by
  have hclosed (cell : Nat) (h : other ∈ (c.addClosed name cell).names) : other = name ∨ other ∈ c.names := by
    rw [addClosed] at h
    split at h
    · exact .inr h
    · simp only [names, List.mem_append, LimitSchedule.mem_insertAt] at h ⊢
      rcases h with h | h | h
      · exact .inr (.inl h)
      · exact .inl h
      · exact .inr (.inr h)
  have hshut {c : Closures} (h : other ∈ (c.addShut name).names) : other = name ∨ other ∈ c.names := by
    simpa only [names, addShut, List.mem_append, mem_insertName, or_assoc] using h
  cases v with
  | keep => exact .inr h
  | shut => exact hshut h
  | stop =>
    simp only [record, names, addStopped, List.mem_append, mem_insertName] at h ⊢
    rcases h with (h | h | h) | h
    · exact .inr (.inl (.inl h))
    · exact .inl h
    · exact .inr (.inl (.inr h))
    · exact .inr (.inr h)
  | close k cell last =>
    rw [record] at h
    split at h
    · rcases hshut h with h | h
      · exact .inl h
      · exact hclosed cell h
    · exact hclosed cell h

/-! ### Verdicts -/

theorem mem_openConnections {w : Well α} {closed : List Nat} {conn : Connection α} {k : Nat}
    (h : (conn, k) ∈ openConnections w closed) : w.connections[k]? = some conn ∧ conn.cell ∉ closed := by
  obtain ⟨hmem, hopen⟩ := List.mem_filter.1 h
  exact ⟨List.mem_zipIdx_iff_getElem?.1 hmem, by simpa using hopen⟩

variable [Scalar α] {schedule : LimitSchedule α} {step : Nat} {s : FlowState α} {w : Placed (Well α)}

/-- What a verdict that closes a connection rests on: a violation of the ratio limits by the open connections. -/
theorem judge_close_ok {limits : Limits α} {closed : List Nat} {k cell : Nat} {last : Bool} {notices : List (Notice α)}
    (h : judge w s limits closed = .ok (.close k cell last, notices)) : ∃ rates connectionRates v conn,
      limits.ratioViolation rates connectionRates = some v ∧
      connectionRates.length = (openConnections w.item closed).length ∧
      (openConnections w.item closed)[v.worst]? = some (conn, k) ∧ conn.cell = cell ∧ last = v.lastConnection := by
  obtain ⟨rates, -, h⟩ := Outcome.bind_ok.1 h
  by_cases hrate : (limits.hasRate && limits.isRateBroken rates) = true
  · simp only [hrate, if_true] at h
    cases hshut : limits.shutIn <;> simp [hshut, pure, Except.pure] at h
  simp only [hrate, Bool.false_eq_true, if_false] at h
  by_cases hratio : (!limits.hasRatio) = true
  · simp [hratio, pure, Except.pure] at h
  simp only [hratio, Bool.false_eq_true, if_false] at h
  obtain ⟨connectionRates, hrates, h⟩ := Outcome.bind_ok.1 h
  cases hworst : limits.ratioViolation rates connectionRates with
  | none => simp [hworst, pure, Except.pure] at h
  | some v =>
    simp only [hworst] at h
    obtain ⟨⟨conn, i⟩, hcandidate, h⟩ := Outcome.bind_ok.1 h
    cases h
    have hlength := (Outcome.mapM_ok.1 hrates).length_eq
    exact ⟨rates, connectionRates, v, conn, hworst, hlength.symm, Outcome.need_ok.1 hcandidate, rfl, rfl⟩

/-- A connection that is closed by a verdict is one of the open connections of the well. -/
theorem judge_close {limits : Limits α} {closed : List Nat} {k cell : Nat} {last : Bool} {notices : List (Notice α)}
    (h : judge w s limits closed = .ok (.close k cell last, notices)) :
    ∃ conn, w.item.connections[k]? = some conn ∧ conn.cell = cell ∧ cell ∉ closed := by
  obtain ⟨-, -, v, conn, -, -, hcandidate, rfl, -⟩ := judge_close_ok h
  obtain ⟨hget, hopen⟩ := mem_openConnections (List.mem_of_getElem? hcandidate)
  exact ⟨conn, hget, rfl, hopen⟩

/-- The verdict of a review on a well with a given record.  A well that cannot be judged is kept. -/
def verdictOn (schedule : LimitSchedule α) (step : Nat) (s : FlowState α) (w : Placed (Well α)) (e : Entry) : Verdict :=
  if w.item.isProducer && !e.isClosed then
    match (schedule.limitsAt w.item.name step).filter (·.hasAny) with
    | none => .keep
    | some limits =>
      match judge w s limits e.cells with
      | .ok (v, _) => v
      | .error _ => .keep
  else .keep

/-- A verdict that closes a connection is one on a producer that is open. -/
theorem verdictOn_close {e : Entry} {k cell : Nat} {last : Bool}
    (h : verdictOn schedule step s w e = .close k cell last) : w.item.isProducer = true ∧ e.isClosed = false ∧
      ∃ limits notices, judge w s limits e.cells = .ok (.close k cell last, notices) := by
  unfold verdictOn at h
  split at h
  · rename_i hopen
    rw [Bool.and_eq_true, Bool.not_eq_true'] at hopen
    split at h
    · cases h
    · split at h
      · subst h
        exact ⟨hopen.1, hopen.2, _, _, ‹_›⟩
      · cases h
  · cases h

theorem verdictOn_cases (schedule : LimitSchedule α) (step : Nat) (s : FlowState α) (w : Placed (Well α)) (e : Entry) :
    verdictOn schedule step s w e = .keep ∨ (w.item.isProducer = true ∧ e.isClosed = false ∧
      ∀ k cell last, verdictOn schedule step s w e = .close k cell last →
        ∃ conn, w.item.connections[k]? = some conn ∧ conn.cell = cell ∧ cell ∉ e.cells) := by
  by_cases hopen : (w.item.isProducer && !e.isClosed) = true
  · have hboth := hopen
    rw [Bool.and_eq_true, Bool.not_eq_true'] at hboth
    refine .inr ⟨hboth.1, hboth.2, fun k cell last h => ?_⟩
    obtain ⟨-, -, limits, notices, hjudge⟩ := verdictOn_close h
    exact judge_close hjudge
  · left
    rw [verdictOn, if_neg hopen]

theorem reviewWell_eq (schedule : LimitSchedule α) (step : Nat) (s : FlowState α) (w : Placed (Well α))
    (c : Closures) (notices : List (Notice α)) : (reviewWell schedule step s w (c, notices)).2.1 =
      c.record w.item.name (verdictOn schedule step s w (c.entry w.item.name)) := by
  unfold reviewWell verdictOn
  rw [run_get_bind]
  dsimp only
  rw [limitsFor?]
  change (_ : Outcome α Unit × (Closures × List (Notice α))).2.1 = c.record _ (if (w.item.isProducer && !c.isClosed w.item.name) = true then _ else _)
  split
  · cases hlimits : (schedule.limitsAt w.item.name step).filter (·.hasAny) with
    | none => rfl
    | some limits =>
      dsimp only
      rw [run_outcome_bind, show (c.entry w.item.name).cells = c.closedCells w.item.name from rfl]
      cases judge w s limits (c.closedCells w.item.name) <;> rfl
  · rfl

private theorem run_reviewWell (schedule : LimitSchedule α) (step : Nat) (s : FlowState α) (w : Placed (Well α))
    (ps : List (Placed (Well α))) (r : Closures × List (Notice α)) :
    ((w :: ps).forM (reviewWell schedule step s) r).2 = (reviewWell schedule step s w r).2 ∨
      ((w :: ps).forM (reviewWell schedule step s) r).2 =
        (ps.forM (reviewWell schedule step s) (reviewWell schedule step s w r).2).2 := by
  rw [List.forM_eq_forM, List.forM_cons, run_bind]
  rcases reviewWell schedule step s w r with ⟨_ | _, t⟩
  · exact .inl rfl
  · exact .inr rfl

/-- A review changes the record of a name by at most one verdict, that on the well of the name. -/
theorem entry_of_reviews {ps : List (Placed (Well α))} (hnodup : (ps.map (·.item.name)).Nodup)
    (r : Closures × List (Notice α)) (name : String) :
    (ps.forM (reviewWell schedule step s) r).2.1.entry name = r.1.entry name ∨ ∃ w ∈ ps, w.item.name = name ∧
      (ps.forM (reviewWell schedule step s) r).2.1.entry name =
        (r.1.entry name).record (verdictOn schedule step s w (r.1.entry name)) := by
  induction ps generalizing r with
  | nil => exact .inl rfl
  | cons w ps ih =>
    obtain ⟨hfresh, hnodup⟩ := List.nodup_cons.1 hnodup
    obtain ⟨c, notices⟩ := r
    have hwell := congrArg (entry · name) (reviewWell_eq schedule step s w c notices)
    simp only [entry_record] at hwell
    by_cases hname : name = w.item.name
    · -- no later well has this name, so the verdict on this one stands
      subst hname
      refine .inr ⟨w, List.mem_cons_self .., rfl, ?_⟩
      rw [if_pos rfl] at hwell
      rcases run_reviewWell schedule step s w ps (c, notices) with h | h
      · rw [h, hwell]
      · rw [h]
        rcases ih hnodup (reviewWell schedule step s w (c, notices)).2 with h | ⟨v, hv, hname, -⟩
        · rw [h, hwell]
        · exact absurd (List.mem_map.2 ⟨v, hv, hname⟩) hfresh
    · rw [if_neg hname] at hwell
      rcases run_reviewWell schedule step s w ps (c, notices) with h | h
      · rw [h]
        exact .inl hwell
      · rw [h]
        rcases ih hnodup (reviewWell schedule step s w (c, notices)).2 with h | ⟨v, hv, hname, h⟩
        · exact .inl (h.trans hwell)
        · refine .inr ⟨v, List.mem_cons_of_mem _ hv, hname, ?_⟩
          rw [h, hwell]

end Closures

end BlackOilWells
