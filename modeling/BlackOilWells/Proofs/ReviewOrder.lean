import BlackOilWells.Proofs.RepeatedReviews
import BlackOilWells.Proofs.Shares

/-!
# The order of the wells in a review

A review judges the wells one after the other and keeps one record for all of them.  What it records of a well rests on
the well alone (`Closures.SameGrounds`): its limits at the report step, its rates, those of its connections and what was
recorded of it before.  Nothing else matters, neither the other wells nor where the well and its connections stand in
the state (`Closures.entry_of_sameGrounds`).

So the wells may come in any order, if the state has their shares in the same order (`Wells.reorder`,
`FlowState.reorder`): every record is the same in the end (`Closures.review_reorder`).
-/

namespace BlackOilWells

variable {α : Type}

/-! ### Verdicts on equal grounds -/

namespace Closures

/-- Whether two reviews find the same when they come to a well: the well itself, its limits at the report step, its
rates and those of its connections. -/
structure SameGrounds (p p' : Pass α) (w w' : Placed (Well α)) : Prop where
  name : w'.item.name = w.item.name
  type : w'.item.type = w.item.type
  cells : w'.item.cells = w.item.cells
  limits : p'.schedule.limitsAt w.item.name p'.step = p.schedule.limitsAt w.item.name p.step
  rates : (p'.flow.slot w'.index).rates = (p.flow.slot w.index).rates
  connectionRates : ∀ k < w.item.connections.length, p'.flow.ratesAt (w'.first + k) = p.flow.ratesAt (w.first + k)

/-- The cells and positions of the open connections. -/
private theorem map_openConnections (w : Well α) (closed : List Nat) :
    (openConnections w closed).map (fun ck => (ck.1.cell, ck.2)) =
      w.cells.zipIdx.filter fun ck => !closed.contains ck.1 := by
  rw [openConnections, Well.cells, List.zipIdx_map, List.filter_map]
  rfl

/-- A verdict takes nothing but cells and positions from the connections it may close. -/
private theorem verdict_of_map_eq [Scalar α] {candidates candidates' : List (Connection α × Nat)}
    (h : candidates'.map (fun ck => (ck.1.cell, ck.2)) = candidates.map fun ck => (ck.1.cell, ck.2)) (l : Limits α)
    (q : PerPhase α) (rates : List (PerPhase α)) : l.verdict q candidates' rates = l.verdict q candidates rates := by
  have hat (candidates : List (Connection α × Nat)) (v : RatioViolation α) :
      (candidates[v.worst]?.map fun ck => Verdict.close ck.2 ck.1.cell v.lastConnection) =
        (candidates.map fun ck => (ck.1.cell, ck.2))[v.worst]?.map fun ck =>
          Verdict.close ck.2 ck.1 v.lastConnection := by
    rw [List.getElem?_map, Option.map_map]
    rfl
  simp only [Limits.verdict, hat, h]

section

variable {p p' : Pass α} {w w' : Placed (Well α)} (h : SameGrounds p p' w w')

include h

private theorem SameGrounds.map_openConnections_eq (closed : List Nat) :
    (openConnections w'.item closed).map (fun ck => (ck.1.cell, ck.2)) =
      (openConnections w.item closed).map fun ck => (ck.1.cell, ck.2) := by
  rw [map_openConnections, map_openConnections, h.cells]

/-- The open connections have the same rates. -/
private theorem SameGrounds.openRates {closed : List Nat} {rates : List (PerPhase α)}
    (hrates : (openConnections w.item closed).mapM (fun ck => p.flow.ratesAt (w.first + ck.2)) = .ok rates) :
    (openConnections w'.item closed).mapM (fun ck => p'.flow.ratesAt (w'.first + ck.2)) = .ok rates := by
  have hmap : ((openConnections w.item closed).map fun ck => (ck.1.cell, ck.2)).mapM
      (fun ck => p'.flow.ratesAt (w'.first + ck.2)) = .ok (rates.map id) := by
    refine Outcome.mapM_map_ok (fun ck hck q hq => ?_) hrates
    have hk := (List.getElem?_eq_some_iff.1 (mem_openConnections hck).1).1
    exact (h.connectionRates ck.2 hk).trans hq
  rwa [← h.map_openConnections_eq, List.mapM_map, List.map_id] at hmap

variable [Scalar α] {ws ws' : Wells α} (hs : p.flow.HoldsRates ws) (hw : w ∈ ws.placed)

include hs hw

/-- On equal grounds a record gets the same verdict. -/
private theorem verdictOn_of_sameGrounds (e : Entry) :
    verdictOn p'.schedule p'.step p'.flow w' e = verdictOn p.schedule p.step p.flow w e := by
  have hproducer : w'.item.isProducer = w.item.isProducer := by
    rw [Well.isProducer, Well.isProducer, h.type]
  unfold verdictOn
  rw [hproducer, h.name, h.limits]
  by_cases hopen : (w.item.isProducer && !e.isClosed) = true
  · rw [if_pos hopen, if_pos hopen]
    cases (p.schedule.limitsAt w.item.name p.step).filter (·.hasAny) with
    | none => rfl
    | some limits =>
      obtain ⟨q, hq, hconnections⟩ := exists_rates hs hw
      obtain ⟨rates, hrates⟩ := hconnections e.cells
      obtain ⟨notices, hjudge⟩ := judge_eq hq hrates limits
      obtain ⟨notices', hjudge'⟩ := judge_eq (h.rates.trans hq) (h.openRates hrates) limits
      dsimp only
      rw [hjudge, hjudge', verdict_of_map_eq (h.map_openConnections_eq e.cells)]
  · rw [if_neg hopen, if_neg hopen]

end

end Closures

/-! ### Wells in another order -/

private theorem map_some_filterMap {β : Type} {l : List β} {order : List Nat} (h : ∀ i ∈ order, i < l.length) :
    (order.filterMap (l[·]?)).map some = order.map (l[·]?) := by
  induction order with
  | nil => rfl
  | cons i order ih =>
    have hi := List.getElem?_eq_getElem (h i (List.mem_cons_self ..))
    rw [List.filterMap_cons_some hi, List.map_cons, List.map_cons, ih fun j hj => h j (List.mem_cons_of_mem _ hj), hi]

/-- The wells in a given order. -/
def Wells.reorder (order : List Nat) (ws : Wells α) : Wells α := ⟨order.filterMap (ws.list[·]?)⟩

/-- A state of given wells with the shares of the wells in a given order. -/
def FlowState.reorder (ws : Wells α) (order : List Nat) (s : FlowState α) : FlowState α :=
  let share := fun w => s.share (ws.list.map (·.connections.length)) w
  { bhp := order.flatMap fun w => (share w).bhp
    thp := order.flatMap fun w => (share w).thp
    rates := order.flatMap fun w => (share w).rates
    unknowns := order.flatMap fun w => (share w).unknowns
    control := order.flatMap fun w => (share w).control
    connectionPressure := order.flatMap fun w => (share w).connectionPressure
    connectionRates := order.flatMap fun w => (share w).connectionRates
    potentials := order.flatMap fun w => (share w).potentials
    revision := s.revision }

section Reorder

variable {ws : Wells α} {order : List Nat} (horder : order.Perm (List.range ws.list.length))

include horder

namespace Wells

private theorem lt_of_mem_order {i : Nat} (hi : i ∈ order) :
    i < ws.list.length := List.mem_range.1 (horder.mem_iff.1 hi)

private theorem getElem?_reorder {i j : Nat} {w : Well α} (hj : order[j]? = some i) (hi : ws.list[i]? = some w) :
    (ws.reorder order).list[j]? = some w := by
  have hmap := congrArg (·[j]?) (map_some_filterMap fun i hi => lt_of_mem_order horder hi)
  simp only [List.getElem?_map, hj, Option.map_some, hi] at hmap
  obtain ⟨v, hv, hw⟩ := Option.map_eq_some_iff.1 hmap
  rw [← Option.some.inj hw]
  exact hv

/-- Reordered wells are the same wells. -/
theorem reorder_perm : (ws.reorder order).list.Perm ws.list := by
  have hall : (List.range ws.list.length).filterMap (ws.list[·]?) = ws.list := by
    refine List.map_injective_iff.2 (Option.some_injective _) ?_
    rw [map_some_filterMap fun i hi => List.mem_range.1 hi]
    refine List.ext_getElem? fun i => ?_
    by_cases hi : i < ws.list.length <;> simp [hi]
  have hperm := horder.filterMap (ws.list[·]?)
  rwa [hall] at hperm

private theorem map_reorder : (ws.reorder order).list.map (·.connections.length) =
    order.map fun i => (ws.list.map (·.connections.length))[i]?.getD 0 := by
  have hmap := congrArg (List.map fun o : Option (Well α) => (o.map (·.connections.length)).getD 0)
    (map_some_filterMap fun i hi => lt_of_mem_order horder hi)
  simp only [List.map_map, Function.comp_def, Option.map_some, Option.getD_some] at hmap
  simp only [List.getElem?_map]
  exact hmap

end Wells

namespace FlowState

variable {s : FlowState α} (hs : s.HoldsRates ws)

include hs

/-- The rates of the connections of a well are in the state. -/
private theorem HoldsRates.share_le {i : Nat} (hi : i ∈ order) : 3 * ((ws.list.map (·.connections.length)).take i).sum +
    3 * (ws.list.map (·.connections.length))[i]?.getD 0 ≤ s.connectionRates.length := by
  have hget := List.getElem?_eq_getElem (Wells.lt_of_mem_order horder hi)
  have hle := Placed.offset_add_le_sum (c := fun w : Well α => w.connections.length) hget
  rw [hs.connectionRates, ws.numConnections_eq_sum, ← List.map_take, List.getElem?_map, hget, Option.map_some,
    Option.getD_some]
  unfold Placed.offset at hle
  omega

/-- A state in another order has rates for the wells in that order. -/
private theorem HoldsRates.reorder : (s.reorder ws order).HoldsRates (ws.reorder order) := by
  have hlength : (ws.reorder order).list.length = order.length := by
    rw [(Wells.reorder_perm horder).length_eq, horder.length_eq, List.length_range]
  have hconst (n : Nat) : (order.map fun _ => n).sum = n * order.length := by
    rw [List.map_const', List.sum_replicate, smul_eq_mul, Nat.mul_comm]
  refine ⟨?_, ?_, ?_⟩
  · have hbhp : (s.reorder ws order).bhp.length = (order.map fun _ => 1).sum := by
      refine length_flatMap_window fun i hi => ?_
      rw [hs.bhp]
      exact Wells.lt_of_mem_order horder hi
    rw [hbhp, hconst, hlength, Nat.one_mul]
  · have hrates : (s.reorder ws order).rates.length = (order.map fun _ => 3).sum := by
      refine length_flatMap_window fun i hi => ?_
      have hi := Wells.lt_of_mem_order horder hi
      rw [hs.rates]
      omega
    rw [hrates, hconst, hlength]
  · have hrates : (s.reorder ws order).connectionRates.length =
        (order.map fun i => 3 * (ws.list.map (·.connections.length))[i]?.getD 0).sum :=
      length_flatMap_window fun i hi => hs.share_le horder hi
    rw [hrates, Wells.numConnections_eq_sum, Wells.map_reorder horder, List.sum_map_mul_left]

/-- In a state in another order a well has the same rates at its new place. -/
private theorem rates_reorder {i j : Nat} (hj : order[j]? = some i) :
    ((s.reorder ws order).slot j).rates = (s.slot i).rates := by
  have hlt := (List.getElem?_eq_some_iff.1 hj).1
  have hget : Stride.get? (s.reorder ws order).rates (((order.take j).map fun _ => 1).sum + 0) =
      Stride.get? s.rates (i + 0) := by
    refine Stride.get?_flatMap_window (fun v hv => ?_) hj Nat.one_pos
    have hv := Wells.lt_of_mem_order horder hv
    rw [hs.rates]
    omega
  rw [List.map_const', List.sum_replicate, List.length_take, Nat.min_eq_left hlt.le, smul_eq_mul, Nat.mul_one] at hget
  exact congrArg (Option.map PerPhase.ofVec) hget

/-- So has each of its connections. -/
private theorem ratesAt_reorder {i j k : Nat} (hj : order[j]? = some i)
    (hk : k < (ws.list.map (·.connections.length))[i]?.getD 0) :
    (s.reorder ws order).ratesAt (Placed.offset (·.connections.length) (ws.reorder order).list j + k) =
      s.ratesAt (Placed.offset (·.connections.length) ws.list i + k) := by
  have hget := Stride.get?_flatMap_window (fun v hv => hs.share_le horder hv) hj hk
  rw [Placed.offset, Placed.offset, List.map_take, List.map_take, Wells.map_reorder horder, ← List.map_take]
  exact congrArg (fun v => Outcome.need (v.map PerPhase.ofVec)) hget

end FlowState

end Reorder

/-! ### Reviews in another order -/

private theorem forall₂_filterMap {β δ : Type} {R : β → δ → Prop} {bs : List β} {ds : List δ} (h : List.Forall₂ R bs ds)
    (order : List Nat) : List.Forall₂ R (order.filterMap (bs[·]?)) (order.filterMap (ds[·]?)) := by
  obtain ⟨hlength, hget⟩ := List.forall₂_iff_get.1 h
  induction order with
  | nil => exact .nil
  | cons i order ih =>
    by_cases hi : i < bs.length
    · rw [List.filterMap_cons_some (List.getElem?_eq_getElem hi),
        List.filterMap_cons_some (List.getElem?_eq_getElem (hlength ▸ hi))]
      exact .cons (hget i hi (hlength ▸ hi)) ih
    · rw [List.filterMap_cons_none (List.getElem?_eq_none (Nat.le_of_not_lt hi)),
        List.filterMap_cons_none (List.getElem?_eq_none (hlength ▸ Nat.le_of_not_lt hi))]
      exact ih

variable [Scalar α] {given : List (Well α)} {phases : PhaseSet} {n : Nat} {ws : Wells α}

/-- Accepted wells are accepted in any order. -/
theorem Wells.create_reorder (h : Wells.create given phases n = .ok ws) {order : List Nat}
    (horder : order.Perm (List.range ws.list.length)) :
    Wells.create (order.filterMap (given[·]?)) phases n = .ok (ws.reorder order) := by
  obtain ⟨haccepted, hnames⟩ := create_ok h
  refine create_of_accepted (oil_of_create h) ?_ ?_
  · exact Outcome.mapM_ok.2 (forall₂_filterMap (Outcome.mapM_ok.1 haccepted) order)
  · exact ((reorder_perm horder).map _).nodup_iff.2 (duplicate?_eq_none_iff.1 hnames).1

namespace Closures

/-- A review leaves the record of a name that no well has. -/
theorem entry_of_review_of_absent (h : Wells.create given phases n = .ok ws) {p : Pass α}
    (hs : p.flow.HoldsRates ws) (r : Closures × List (Notice α)) {name : String}
    (hname : ∀ w ∈ ws.list, w.name ≠ name) :
    (review ws p.flow p.schedule p.step r).2.1.entry name = r.1.entry name := by
  rw [(review_ok hs r).1]
  refine (entry_of_reviews (Wells.nodup_names h) r name).resolve_right ?_
  rintro ⟨w, hw, hsame, -⟩
  exact hname w.item (List.mem_of_getElem? (Placed.mem_ofList _ hw).1) hsame

/-- Two reviews that find the same for a well record the same of it. -/
theorem entry_of_sameGrounds (h : Wells.create given phases n = .ok ws) {given' : List (Well α)} {phases' : PhaseSet}
    {n' : Nat} {ws' : Wells α} (h' : Wells.create given' phases' n' = .ok ws') {p p' : Pass α}
    (hs : p.flow.HoldsRates ws) (hs' : p'.flow.HoldsRates ws') {w w' : Placed (Well α)} (hw : w ∈ ws.placed)
    (hw' : w' ∈ ws'.placed) (hsame : SameGrounds p p' w w') {r r' : Closures × List (Notice α)}
    (hr : r'.1.entry w.item.name = r.1.entry w.item.name) :
    (review ws' p'.flow p'.schedule p'.step r').2.1.entry w.item.name =
      (review ws p.flow p.schedule p.step r).2.1.entry w.item.name := by
  have hentry := entry_of_review h' hs' hw' r'
  rw [hsame.name, hr] at hentry
  rw [hentry, entry_of_review h hs hw r, Entry.reviewed, Entry.reviewed, verdictOn_of_sameGrounds hsame hs hw]

omit [Scalar α] in
/-- A review in another order finds the same for each well. -/
private theorem sameGrounds_reorder {p : Pass α} (hs : p.flow.HoldsRates ws) {order : List Nat}
    (horder : order.Perm (List.range ws.list.length)) {w : Placed (Well α)} (hw : w ∈ ws.placed) :
    ∃ w' ∈ (ws.reorder order).placed, SameGrounds p { p with flow := p.flow.reorder ws order } w w' := by
  obtain ⟨hget, hfirst⟩ := Placed.mem_ofList _ hw
  have hindex : w.index ∈ order :=
    horder.mem_iff.2 (List.mem_range.2 (List.getElem?_eq_some_iff.1 hget).1)
  obtain ⟨j, hj⟩ := List.mem_iff_getElem?.1 hindex
  have hplace := Placed.getElem?_ofList (fun w : Well α => w.connections.length) (ws.reorder order).list j
  rw [Wells.getElem?_reorder horder hj hget] at hplace
  refine ⟨_, List.mem_of_getElem? hplace, ?_⟩
  constructor
  case name => rfl
  case type => rfl
  case cells => rfl
  case limits => rfl
  case rates => exact FlowState.rates_reorder horder hs hj
  case connectionRates =>
    intro k hk
    have hcount : (ws.list.map (·.connections.length))[w.index]?.getD 0 = w.item.connections.length := by
      rw [List.getElem?_map, hget]
      rfl
    rw [hfirst]
    exact FlowState.ratesAt_reorder horder hs hj (hcount ▸ hk)

/-- A review of accepted wells whose rates are there.  It goes through, and so does the review of the wells in any other
order, which records the same.  What it records of a well is the same in every review, of whatever accepted wells, that
finds the same for the well and has the same record of it before. -/
theorem review_reorder (h : Wells.create given phases n = .ok ws) {p : Pass α} (hs : p.flow.HoldsRates ws)
    (r : Closures × List (Notice α)) :
    (∀ order : List Nat, order.Perm (List.range ws.list.length) →
      Wells.create (order.filterMap (given[·]?)) phases n = .ok (ws.reorder order) ∧
      (review ws p.flow p.schedule p.step r).1 = .ok ⟨⟩ ∧
      (review (ws.reorder order) (p.flow.reorder ws order) p.schedule p.step r).1 = .ok ⟨⟩ ∧
      ∀ name, (review (ws.reorder order) (p.flow.reorder ws order) p.schedule p.step r).2.1.entry name =
        (review ws p.flow p.schedule p.step r).2.1.entry name) ∧
    ∀ (given' : List (Well α)) (phases' : PhaseSet) (n' : Nat) (ws' : Wells α) (p' : Pass α)
      (r' : Closures × List (Notice α)) (w w' : Placed (Well α)), Wells.create given' phases' n' = .ok ws' →
      p'.flow.HoldsRates ws' → w ∈ ws.placed → w' ∈ ws'.placed → SameGrounds p p' w w' →
      r'.1.entry w.item.name = r.1.entry w.item.name →
      (review ws' p'.flow p'.schedule p'.step r').2.1.entry w.item.name =
        (review ws p.flow p.schedule p.step r).2.1.entry w.item.name := by
  refine ⟨fun order horder => ?_, fun given' phases' n' ws' p' r' w w' h' hs' hw hw' hsame hr => ?_⟩
  · have hs' : (p.flow.reorder ws order).HoldsRates (ws.reorder order) := hs.reorder horder
    have h' := Wells.create_reorder h horder
    refine ⟨h', (review_ok hs r).2, (review_ok hs' r).2, fun name => ?_⟩
    by_cases hname : ∃ w ∈ ws.list, w.name = name
    · obtain ⟨v, hv, rfl⟩ := hname
      obtain ⟨w, hw, rfl⟩ := Placed.exists_mem_ofList (fun w : Well α => w.connections.length) hv
      obtain ⟨w', hw', hsame⟩ := sameGrounds_reorder hs horder hw
      exact entry_of_sameGrounds h h' hs hs' hw hw' hsame rfl
    · have habsent : ∀ w ∈ ws.list, w.name ≠ name := fun w hw hn => hname ⟨w, hw, hn⟩
      have habsent' : ∀ w ∈ (ws.reorder order).list, w.name ≠ name := fun w hw =>
        habsent w ((Wells.reorder_perm horder).mem_iff.1 hw)
      have hentry := entry_of_review_of_absent h' (p := { p with flow := p.flow.reorder ws order }) hs' r habsent'
      rw [entry_of_review_of_absent h hs r habsent]
      exact hentry
  · exact entry_of_sameGrounds h h' hs hs' hw hw' hsame hr

/-! ### Two producers and an injector -/

/-- A producer with one connection, one with two, and an injector. -/
def threeWellField : List (Well ℚ) :=
  .producer "Q" 0 [⟨0, 2, 0, 1⟩] ⟨[⟨.bhp, 80, .replicate 0⟩], 0⟩ :: twoCellProducer ++
    [.injector "I" 0 .water [⟨2, 2, 0, 1⟩] ⟨[⟨.bhp, 300, .replicate 0⟩], 0⟩]

/-- A review of the field, in which the first producer has too little oil, and the second one what it has in
`floodedPass`. -/
def fieldPass : Pass ℚ where
  flow := ⟨[80, 90, 300], [0, 0, 0], [0, -1, 0, -3 + -8, -2 + -1, 0, 20, 0, 0], .replicate 9 0, [0, 0, 0],
    [80, 90, 90, 300], [0, -1, 0, -3, -2, 0, -8, -1, 0, 20, 0, 0], .replicate 12 0, 0⟩
  schedule := ⟨[("Q", [(0, { Limits.none with minOil := some 5 })]),
    ("P", [(0, { Limits.none with maxWaterCut := some (1 / 2) })])]⟩
  step := 3

private theorem fieldPass_holdsRates {ws : Wells ℚ} (h : Wells.create threeWellField .oilWater 4 = .ok ws) :
    fieldPass.flow.HoldsRates ws := by
  have hlength : ws.list.length = 3 := Outcome.view_of_ok h (·.list.length) (by decide +kernel)
  have hconnections : ws.numConnections = 4 := Outcome.view_of_ok h (·.numConnections) (by decide +kernel)
  constructor <;> simp only [hlength, hconnections] <;> rfl

private theorem floodedPass_holdsRates {alone : Wells ℚ} (h : Wells.create twoCellProducer .oilWater 4 = .ok alone) :
    floodedPass.flow.HoldsRates alone := by
  have hlength : alone.list.length = 1 := Outcome.view_of_ok h (·.list.length) (by decide +kernel)
  have hconnections : alone.numConnections = 2 := Outcome.view_of_ok h (·.numConnections) (by decide +kernel)
  constructor <;> simp only [hlength, hconnections] <;> rfl

/-- The second producer of the field is the flooded one, at another place. -/
private theorem fieldPass_sameGrounds {ws alone : Wells ℚ} (h : Wells.create threeWellField .oilWater 4 = .ok ws)
    (h' : Wells.create twoCellProducer .oilWater 4 = .ok alone) :
    ∃ w ∈ ws.placed, ∃ v ∈ alone.placed, w.item.name = "P" ∧ SameGrounds fieldPass floodedPass w v := by
  let view (w : Placed (Well ℚ)) := ((w.index, w.first), w.item.name, w.item.type, w.item.cells)
  obtain ⟨w, hw, hfield⟩ := Option.map_eq_some_iff.1 (Outcome.view_of_ok h (fun ws => ws.placed[1]?.map view)
    (show _ = some (some ((1, 1), "P", .producer, [3, 1])) by decide +kernel))
  obtain ⟨v, hv, halone⟩ := Option.map_eq_some_iff.1 (Outcome.view_of_ok h' (fun ws => ws.placed[0]?.map view)
    (show _ = some (some ((0, 0), "P", .producer, [3, 1])) by decide +kernel))
  simp only [view, Prod.mk.injEq] at hfield halone
  obtain ⟨⟨hindex, hfirst⟩, hname, htype, hcells⟩ := hfield
  obtain ⟨⟨hindex', hfirst'⟩, hname', htype', hcells'⟩ := halone
  refine ⟨w, List.mem_of_getElem? hw, v, List.mem_of_getElem? hv, hname, ?_⟩
  constructor
  case name => rw [hname, hname']
  case type => rw [htype, htype']
  case cells => rw [hcells, hcells']
  case limits =>
    rw [hname]
    rfl
  case rates =>
    rw [hindex, hindex']
    rfl
  case connectionRates =>
    intro k hk
    have hlength : w.item.connections.length = 2 := by
      have hcount := congrArg List.length hcells
      rwa [Well.cells, List.length_map] at hcount
    rw [hlength] at hk
    rw [hfirst, hfirst']
    obtain rfl | rfl : k = 0 ∨ k = 1 := by omega
    · rfl
    · rfl

/-- The first producer is shut and the second one loses its lower connection, also if the injector comes first and the
first producer last.  The second producer gets the same record if it is reviewed alone. -/
theorem review_reorder_threeWellField : ∃ ws alone, Wells.create threeWellField .oilWater 4 = .ok ws ∧
    Wells.create twoCellProducer .oilWater 4 = .ok alone ∧ fieldPass.flow.HoldsRates ws ∧
    (fieldPass.flow.reorder ws [2, 1, 0]).connectionRates = [20, 0, 0, -3, -2, 0, -8, -1, 0, 0, -1, 0] ∧
    (∃ c, review (ws.reorder [2, 1, 0]) (fieldPass.flow.reorder ws [2, 1, 0]) fieldPass.schedule fieldPass.step
      (empty, []) = (.ok ⟨⟩, c) ∧ c.1.entry "Q" = ⟨true, false, []⟩ ∧ c.1.entry "P" = ⟨false, false, [1]⟩) ∧
    (afterPass alone empty floodedPass).entry "P" = ⟨false, false, [1]⟩ := by
  obtain ⟨ws, h⟩ : ∃ ws, Wells.create threeWellField .oilWater 4 = .ok ws :=
    Outcome.exists_ok_of_isSome (by decide +kernel)
  obtain ⟨alone, h'⟩ : ∃ ws, Wells.create twoCellProducer .oilWater 4 = .ok ws :=
    Outcome.exists_ok_of_isSome (by decide +kernel)
  have hq : (afterPass ws empty fieldPass).entry "Q" = ⟨true, false, []⟩ :=
    Outcome.view_of_ok h (fun ws => (afterPass ws empty fieldPass).entry "Q") (by decide +kernel)
  have hp : (afterPass ws empty fieldPass).entry "P" = ⟨false, false, [1]⟩ :=
    Outcome.view_of_ok h (fun ws => (afterPass ws empty fieldPass).entry "P") (by decide +kernel)
  have hflow : (fieldPass.flow.reorder ws [2, 1, 0]).connectionRates = [20, 0, 0, -3, -2, 0, -8, -1, 0, 0, -1, 0] :=
    Outcome.view_of_ok h (fun ws => (fieldPass.flow.reorder ws [2, 1, 0]).connectionRates) (by decide +kernel)
  have hlength : ws.list.length = 3 := Outcome.view_of_ok h (·.list.length) (by decide +kernel)
  obtain ⟨horders, hsame⟩ := review_reorder h (fieldPass_holdsRates h) (empty, [])
  obtain ⟨-, -, hok, hentries⟩ := horders [2, 1, 0] (by rw [hlength]; decide)
  obtain ⟨w, hw, v, hv, hname, hgrounds⟩ := fieldPass_sameGrounds h h'
  have hrecord := hsame _ _ _ alone floodedPass (empty, []) w v h' (floodedPass_holdsRates h') hw hv hgrounds rfl
  rw [hname] at hrecord
  refine ⟨ws, alone, h, h', fieldPass_holdsRates h, hflow, ⟨_, Prod.ext hok rfl, ?_, ?_⟩, hrecord.trans hp⟩
  · exact (hentries "Q").trans hq
  · exact (hentries "P").trans hp

end Closures

end BlackOilWells
