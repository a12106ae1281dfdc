import BlackOilWells.Proofs.ClosureRecords
import BlackOilWells.Proofs.Scenarios

/-!
# Histories of closures

What is closed stays closed.  Over one review a record keeps what it has, and it is as before if the well was closed
(`Closures.Entry.Advances`).  Over any number of reviews of the same wells, with whatever rates, limits and report
steps, the records only grow, and they speak of the connections of producers only (`Closures.history_of_passes`).
-/

namespace BlackOilWells

open Attempt

variable {α : Type}

/-- Accepted wells have distinct names. -/
theorem Wells.nodup_names [Scalar α] {given : List (Well α)} {phases : PhaseSet} {n : Nat} {ws : Wells α}
    (h : Wells.create given phases n = .ok ws) : (ws.placed.map (·.item.name)).Nodup := by
  rw [placed, Placed.map_ofList (fun w : Well α => w.connections.length) (·.name)]
  exact (duplicate?_eq_none_iff.1 (create_ok h).2).1

namespace Closures

namespace Entry

/-- Whether a record holds all that another does, the cells of the other first. -/
structure Precedes (e e' : Entry) : Prop where
  shut : e.shut = true → e'.shut = true
  stopped : e.stopped = true → e'.stopped = true
  cells : e.cells <+: e'.cells

private theorem Precedes.refl (e : Entry) : e.Precedes e := ⟨id, id, List.prefix_rfl⟩

private theorem Precedes.trans {e₁ e₂ e₃ : Entry} (h : e₁.Precedes e₂) (h' : e₂.Precedes e₃) : e₁.Precedes e₃ :=
  ⟨h'.shut ∘ h.shut, h'.stopped ∘ h.stopped, h.cells.trans h'.cells⟩

/-- What a review may make of a record. -/
structure Advances (e e' : Entry) : Prop extends Precedes e e' where
  atMostOne : e'.cells.length ≤ e.cells.length + 1
  closed : e.isClosed = true → e' = e

private theorem Advances.refl (e : Entry) : e.Advances e := ⟨.refl e, Nat.le_succ _, fun _ => rfl⟩

private theorem prefix_addCell (e : Entry) (cell : Nat) : e.cells <+: (e.addCell cell).cells := by
  rw [addCell]
  split
  · exact List.prefix_rfl
  · exact List.prefix_append ..

private theorem length_addCell (e : Entry) (cell : Nat) : (e.addCell cell).cells.length ≤ e.cells.length + 1 := by
  rw [addCell]
  split <;> simp

private theorem nodup_addCell {e : Entry} (h : e.cells.Nodup) (cell : Nat) : (e.addCell cell).cells.Nodup := by
  rw [addCell]
  split
  · exact h
  · rename_i hcell
    have hfresh : cell ∉ e.cells := by simpa using hcell
    exact h.append (List.nodup_singleton cell) (List.disjoint_singleton.2 hfresh)

private theorem mem_addCell {e : Entry} {cell other : Nat} (h : other ∈ (e.addCell cell).cells) :
    other = cell ∨ other ∈ e.cells := by
  rw [addCell] at h
  split at h
  · exact .inr h
  · exact (List.mem_append.1 h).symm.imp_left List.mem_singleton.1

private theorem advances_record {e : Entry} (hopen : e.isClosed = false) (v : Verdict) : e.Advances (e.record v) := by
  have hfalse (h : e.isClosed = true) : e.record v = e := by rw [hopen] at h; cases h
  cases v with
  | keep => exact .refl e
  | shut => exact ⟨⟨fun _ => rfl, id, List.prefix_rfl⟩, Nat.le_succ _, hfalse⟩
  | stop => exact ⟨⟨id, fun _ => rfl, List.prefix_rfl⟩, Nat.le_succ _, hfalse⟩
  | close k cell last =>
    refine ⟨⟨fun h => ?_, id, prefix_addCell e cell⟩, length_addCell e cell, hfalse⟩
    rw [record, h, Bool.true_or]

/-- What is known of a record under the name of a well. -/
structure Sound (w : Well α) (e : Entry) : Prop where
  disjoint : ¬(e.shut = true ∧ e.stopped = true)
  nodup : e.cells.Nodup
  within : ∀ cell ∈ e.cells, cell ∈ w.cells

private theorem Sound.record {w : Well α} {e : Entry} {v : Verdict} (h : e.Sound w) (hopen : e.isClosed = false)
    (hclose : ∀ k cell last, v = .close k cell last → cell ∈ w.cells) :
    (e.record v).Sound w := by
  obtain ⟨hshut, hstopped⟩ := Bool.or_eq_false_iff.1 hopen
  cases v with
  | keep => exact h
  | shut => exact ⟨by simp [Entry.record, hstopped], h.nodup, h.within⟩
  | stop => exact ⟨by simp [Entry.record, hshut], h.nodup, h.within⟩
  | close k cell last =>
    have hstopped' : (e.record (.close k cell last)).stopped = false := hstopped
    refine ⟨fun hboth => ?_, nodup_addCell h.nodup cell, fun other hother => ?_⟩
    · rw [hstopped'] at hboth
      exact Bool.false_ne_true hboth.2
    · rcases mem_addCell hother with rfl | hother
      · exact hclose k other last rfl
      · exact h.within other hother

end Entry

/-- Whether the closures are such as reviews of given wells make them. -/
structure Sound (wells : Wells α) (c : Closures) : Prop where
  producers : ∀ name ∈ c.names, ∃ w ∈ wells.list, w.isProducer = true ∧ w.name = name
  entries : ∀ w ∈ wells.list, (c.entry w.name).Sound w

theorem sound_empty (wells : Wells α) : (empty : Closures).Sound wells where
  producers := fun _ h => absurd h List.not_mem_nil
  entries := fun _ _ => ⟨nofun, List.nodup_nil, nofun⟩

/-! ### Passes -/

/-- What one review is made on. -/
structure Pass (α : Type) where
  flow : FlowState α
  schedule : LimitSchedule α
  step : Nat

variable [Scalar α] {wells : Wells α} {c : Closures} {p : Pass α}

/-- The closures after a review, also after one that fails. -/
def afterPass (wells : Wells α) (c : Closures) (p : Pass α) : Closures :=
  (review wells p.flow p.schedule p.step (c, [])).2.1

/-- The closures after reviews that begin with nothing closed. -/
def afterPasses (wells : Wells α) (passes : List (Pass α)) : Closures := passes.foldl (afterPass wells) empty

theorem afterPass_cases (wells : Wells α) (c : Closures) (p : Pass α) : afterPass wells c p = c ∨
    afterPass wells c p = (wells.placed.forM (reviewWell p.schedule p.step p.flow) (c, [])).2.1 := by
  unfold afterPass review
  split
  · exact .inl rfl
  · exact .inr rfl

private theorem producers_of_reviews {ps : List (Placed (Well α))} {schedule : LimitSchedule α} {step : Nat}
    {s : FlowState α}
    {P : String → Prop} (hP : ∀ w ∈ ps, w.item.isProducer = true → P w.item.name)
    {r : Closures × List (Notice α)} (hr : ∀ name ∈ r.1.names, P name) :
    ∀ name ∈ (ps.forM (reviewWell schedule step s) r).2.1.names, P name := by
  refine Maintains.forM (P := fun r => ∀ name ∈ r.1.names, P name) (fun w hw r hr name hname => ?_) r hr
  rw [reviewWell_eq schedule step s w r.1 r.2] at hname
  rcases verdictOn_cases schedule step s w (r.1.entry w.item.name) with hkeep | ⟨hproducer, -⟩
  · rw [hkeep] at hname
    exact hr name hname
  · rcases names_record _ hname with rfl | hname
    · exact hP w hw hproducer
    · exact hr name hname

section Created

variable {given : List (Well α)} {phases : PhaseSet} {n : Nat} (h : Wells.create given phases n = .ok wells)

include h

/-- A pass changes a record by at most one verdict. -/
theorem entry_afterPass (c : Closures) (p : Pass α) (name : String) :
    (afterPass wells c p).entry name = c.entry name ∨ ∃ w ∈ wells.placed, w.item.name = name ∧
      (afterPass wells c p).entry name =
        (c.entry name).record (verdictOn p.schedule p.step p.flow w (c.entry name)) := by
  rcases afterPass_cases wells c p with hpass | hpass
  · exact .inl (by rw [hpass])
  · rw [hpass]
    exact entry_of_reviews (Wells.nodup_names h) (c, []) name

theorem advances_afterPass (c : Closures) (p : Pass α) (name : String) :
    (c.entry name).Advances ((afterPass wells c p).entry name) := by
  rcases entry_afterPass h c p name with hsame | ⟨w, -, -, hrecord⟩
  · rw [hsame]
    exact .refl _
  · rw [hrecord]
    rcases verdictOn_cases p.schedule p.step p.flow w (c.entry name) with hkeep | ⟨-, hopen, -⟩
    · rw [hkeep]
      exact .refl _
    · exact Entry.advances_record hopen _

private theorem sound_afterPass (hc : c.Sound wells) (p : Pass α) : (afterPass wells c p).Sound wells := by
  have hitem {w : Placed (Well α)} (hw : w ∈ wells.placed) : w.item ∈ wells.list :=
    List.mem_of_getElem? (Placed.mem_ofList _ hw).1
  constructor
  case producers =>
    rcases afterPass_cases wells c p with hpass | hpass
    · rw [hpass]
      exact hc.producers
    · rw [hpass]
      exact producers_of_reviews (fun w hw hproducer => ⟨w.item, hitem hw, hproducer, rfl⟩) hc.producers
  case entries =>
    intro w hw
    rcases entry_afterPass h c p w.name with hsame | ⟨w', hw', hname, hrecord⟩
    · rw [hsame]
      exact hc.entries w hw
    · rw [hrecord]
      have heq : w'.item = w := Wells.eq_of_name h (hitem hw') hw hname
      rcases verdictOn_cases p.schedule p.step p.flow w' (c.entry w.name) with hkeep | ⟨-, hopen, hclose⟩
      · rw [hkeep]
        exact hc.entries w hw
      · refine (hc.entries w hw).record hopen fun k cell last hv => ?_
        obtain ⟨conn, hconn, hcell, -⟩ := hclose k cell last hv
        rw [← heq, ← hcell]
        exact List.mem_map_of_mem (List.mem_of_getElem? hconn)

theorem sound_afterPasses (passes : List (Pass α)) (hc : c.Sound wells) :
    (passes.foldl (afterPass wells) c).Sound wells := by
  induction passes generalizing c with
  | nil => exact hc
  | cons p passes ih => exact ih (sound_afterPass h hc p)

private theorem precedes_afterPasses (passes : List (Pass α)) (c : Closures) (name : String) :
    (c.entry name).Precedes ((passes.foldl (afterPass wells) c).entry name) := by
  induction passes generalizing c with
  | nil => exact .refl _
  | cons p passes ih => exact (advances_afterPass h c p name).toPrecedes.trans (ih _)

/-- Closures after any reviews of accepted wells.  Whatever was recorded stays, in its order; a review adds at most one
cell to the record of a well, and nothing to that of a closed one; and only producers have records, which name cells of
their connections once each and say shut or stopped but not both. -/
theorem history_of_passes (passes : List (Pass α)) :
    (afterPasses wells passes).Sound wells ∧
    (∀ later name, ((afterPasses wells passes).entry name).Precedes
      ((afterPasses wells (passes ++ later)).entry name)) ∧
    ∀ next name, ((afterPasses wells passes).entry name).Advances
      ((afterPasses wells (passes ++ [next])).entry name) := by
  refine ⟨sound_afterPasses h passes (sound_empty wells), fun later name => ?_, fun next name => ?_⟩
  · rw [afterPasses, afterPasses, List.foldl_append]
    exact precedes_afterPasses h later _ name
  · rw [afterPasses, afterPasses, List.foldl_append]
    exact advances_afterPass h _ next name

end Created

/-! ### A producer that is flooded -/

/-- A producer with two connections. -/
def twoCellProducer : List (Well ℚ) := [.producer "P" 0 [⟨3, 2, 0, 1⟩, ⟨1, 2, 0, 1⟩] ⟨[⟨.bhp, 90, .replicate 0⟩], 0⟩]

/-- A review of the producer that permits half of the liquid to be water, at given rates of the connections. -/
def cutPass (water₀ oil₀ water₁ oil₁ : ℚ) : Pass ℚ where
  flow := ⟨[90], [0], [water₀ + water₁, oil₀ + oil₁, 0], [0, 0, 0], [0], [90, 90],
    [water₀, oil₀, 0, water₁, oil₁, 0], .replicate 6 0, 0⟩
  schedule := ⟨[("P", [(0, { Limits.none with maxWaterCut := some (1 / 2) })])]⟩
  step := 1

/-- Two reviews of the producer close its lower connection and then the upper one. -/
def flooding : List (Pass ℚ) := [cutPass (-3) (-2) (-8) (-1), cutPass (-3) (-2) (-9) (-1)]

/-- The lower connection has more water and is closed first.  With the other one the well is shut, and is left alone. -/
theorem history_of_passes_flooding : ∃ wells, Wells.create twoCellProducer .oilWater 4 = .ok wells ∧
    (afterPasses wells flooding).entry "P" = ⟨true, false, [1, 3]⟩ ∧ (afterPasses wells flooding).Sound wells ∧
    ((afterPasses wells flooding).entry "P").Precedes
      ((afterPasses wells (flooding ++ [cutPass (-3) 0 0 0, cutPass (-3) 0 0 0])).entry "P") ∧
    ((afterPasses wells flooding).entry "P").Advances
      ((afterPasses wells (flooding ++ [cutPass (-3) 0 0 0])).entry "P") := by
  have hrun : (Wells.create twoCellProducer .oilWater 4).toOption.map
      (fun wells => (afterPasses wells flooding).entry "P") = some ⟨true, false, [1, 3]⟩ := by decide +kernel
  obtain ⟨wells, hwells, hentry⟩ := Option.map_eq_some_iff.1 hrun
  have hcreate := Outcome.ok_of_toOption hwells
  obtain ⟨hsound, hprecedes, hadvances⟩ := history_of_passes hcreate flooding
  exact ⟨wells, hcreate, hentry, hsound, hprecedes _ "P", hadvances _ "P"⟩

end Closures

end BlackOilWells
