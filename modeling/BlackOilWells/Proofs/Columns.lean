import BlackOilWells.Proofs.Bounds
import BlackOilWells.Proofs.SegmentDensities
import BlackOilWells.Proofs.Windows

/-!
# Columns of segments

The densities and the pressure differences of all wells lie in flat lists, one place for each connection
(`Wells.densities`, `Wells.heads`).  They are what a model takes for its segments (`Model.setDensities_columns`).

A density is that of what comes from below: it depends on the rates of the connections of its well at and below its own
and on the properties there.  A pressure difference adds up from above: it depends on the densities of the segments of
its well down to its own.  Neither depends on any other well (`Wells.columns_local`).
-/

namespace BlackOilWells

variable {α : Type} [Scalar α]

/-! ### Flows from below and heads from above -/

theorem drop_upwardFlows (qs : List (PerPhase α)) (k : Nat) : (upwardFlows qs).drop k = upwardFlows (qs.drop k) := by
  induction qs generalizing k with
  | nil => simp [upwardFlows]
  | cons q qs ih =>
    cases k with
    | zero => rfl
    | succ k => exact ih k

private theorem take_columnHeads (gravity depth acc : α) (zs : List (α × α)) (n : Nat) :
    (columnHeads gravity depth acc zs).take n = columnHeads gravity depth acc (zs.take n) := by
  induction zs generalizing depth acc n with
  | nil => simp [columnHeads]
  | cons z zs ih =>
    cases n with
    | zero => rfl
    | succ n => exact congrArg (_ :: ·) (ih z.1 _ n)

namespace Well

private theorem segmentMixes_congr {w w' : Well α} (hcomposition : w'.composition = w.composition)
    {rates rates' : List (PerPhase α)} {k : Nat} (h : rates'.drop k = rates.drop k) :
    (w'.segmentMixes rates')[k]? = (w.segmentMixes rates)[k]? := by
  have hflow (qs : List (PerPhase α)) : (upwardFlows qs)[k]? = (upwardFlows (qs.drop k))[0]? := by
    rw [← drop_upwardFlows, List.getElem?_drop, Nat.add_zero]
  rw [segmentMixes, segmentMixes, List.getElem?_map, List.getElem?_map, hflow, hflow, h, hcomposition]

private theorem heads_congr (w : Well α) (gravity : α) {ds ds' : List α} {k : Nat}
    (h : ds'.take (k + 1) = ds.take (k + 1)) :
    (w.heads gravity ds')[k]? = (w.heads gravity ds)[k]? := by
  have hhead (ds : List α) : (w.heads gravity ds)[k]? =
      (columnHeads gravity w.refDepth 0 (((w.connections.map (·.depth)).take (k + 1)).zip (ds.take (k + 1))))[k]? := by
    rw [List.zip, ← List.take_zipWith, ← List.zip, ← take_columnHeads, ← heads,
      List.getElem?_take_of_lt (Nat.lt_succ_self k)]
  rw [hhead, hhead, h]

end Well

/-! ### Flat lists -/

namespace Wells

variable {ws : Wells α} {p : Placed (Well α)} {s : FlowState α} {phases : PhaseSet} {props : ConnectionProperties α}

private theorem map_length_densities {lists : List (List α)}
    (h : ws.placed.mapM (fun p => Well.densities p s phases props) = .ok lists) :
    lists.map List.length = ws.list.map (·.connections.length) := by
  have hplaced := Placed.map_ofList (·.connections.length) (fun w : Well α => w.connections.length) ws.list
  rw [← hplaced, Outcome.map_of_mapM (fun p ds hds => Well.length_densities hds) h]
  rfl

/-- The densities of one well begin at its place. -/
theorem getElem?_densities {ds : List α} (h : ws.densities s phases props = .ok ds) (hp : p ∈ ws.placed) :
    ∃ ls, Well.densities p s phases props = .ok ls ∧
      ∀ k < p.item.connections.length, ds[p.first + k]? = ls[k]? := by
  obtain ⟨lists, hlists, rfl⟩ := Outcome.map_ok.1 h
  have hlengths := map_length_densities hlists
  have hindex : p.index < lists.length := by
    have hlength := congrArg List.length hlengths
    rw [List.length_map, List.length_map] at hlength
    rw [hlength]
    exact (List.getElem?_eq_some_iff.1 (Placed.mem_ofList _ hp).1).1
  have hget := List.getElem?_eq_getElem hindex
  refine ⟨_, Outcome.ok_of_getElem? hlists (Placed.getElem?_of_mem _ hp) hget, fun k hk => ?_⟩
  exact Placed.getElem?_flatten hlengths hp hget hk

omit [Scalar α] in
private theorem length_window_of_mem {ds : List α} (h : ds.length = ws.numConnections) (hp : p ∈ ws.placed) :
    (window p.first p.item.connections.length ds).length = p.item.connections.length := by
  obtain ⟨hget, hfirst⟩ := Placed.mem_ofList _ hp
  have hle := Placed.offset_add_le_sum (c := fun w : Well α => w.connections.length) hget
  rw [← numConnections_eq_sum, ← hfirst, ← h] at hle
  rw [length_window]
  omega

private theorem window_densities {lists : List (List α)}
    (h : ws.placed.mapM (fun p => Well.densities p s phases props) = .ok lists) (hp : p ∈ ws.placed) {l : List α}
    (hl : lists[p.index]? = some l) : window p.first p.item.connections.length lists.flatten = l := by
  have hlengths := map_length_densities h
  have hlength := Well.length_densities (Outcome.ok_of_getElem? h (Placed.getElem?_of_mem _ hp) hl)
  refine List.ext_getElem? fun k => ?_
  rcases Nat.lt_or_ge k p.item.connections.length with hk | hk
  · rw [getElem?_window _ hk, Placed.getElem?_flatten hlengths hp hl hk]
  · rw [window, List.getElem?_take_eq_none hk, List.getElem?_eq_none (hlength.trans_le hk)]

/-- The pressure differences of one well begin at its place, and are those at its part of the densities. -/
theorem getElem?_heads {ds : List α} (h : ds.length = ws.numConnections) (gravity : α) (hp : p ∈ ws.placed) {k : Nat}
    (hk : k < p.item.connections.length) : (ws.heads gravity ds)[p.first + k]? =
      (p.item.heads gravity (window p.first p.item.connections.length ds))[k]? := by
  have hlengths : (ws.placed.map fun p => p.item.heads gravity (window p.first p.item.connections.length ds)).map
      List.length = ws.list.map (·.connections.length) := by
    rw [List.map_map, ← Placed.map_ofList (·.connections.length) (fun w : Well α => w.connections.length) ws.list]
    exact List.map_congr_left fun p hp => p.item.length_heads gravity (length_window_of_mem h hp)
  rw [heads, List.flatMap_def]
  refine Placed.getElem?_flatten hlengths hp ?_ hk
  rw [List.getElem?_map, placed, Placed.getElem?_of_mem _ hp, Option.map_some]

end Wells

private theorem WellUnit.segments_setDensities {u : WellUnit α} (h : u.segments.length = u.well.connections.length)
    (gravity : α) {ds : List α} (hds : ds.length = u.well.connections.length) :
    (u.setDensities gravity ds).segments.map (·.density) = ds ∧
      (u.setDensities gravity ds).segments.map (·.head) = u.well.heads gravity ds := by
  have hheads := u.well.length_heads gravity hds
  constructor
  · refine List.ext_getElem (by simp [setDensities, h, hds, hheads]) fun k _ _ => ?_
    simp [setDensities]
  · refine List.ext_getElem (by simp [setDensities, h, hds, hheads]) fun k _ _ => ?_
    simp [setDensities]

/-- A model takes the columns of its wells for its segments. -/
theorem Model.setDensities_columns {m m' : Model α} {cells : List (Cell α)} {s : FlowState α}
    (hsegments : ∀ u ∈ m.units, u.segments.length = u.well.connections.length)
    (h : m.setDensities cells s = .ok m') :
    ∃ props ds, ConnectionProperties.ofFlow m.wells s cells m.setup.phases m.setup.pvt = .ok props ∧
      m.wells.densities s m.setup.phases props = .ok ds ∧
      m'.units.flatMap (fun u => u.segments.map (·.density)) = ds ∧
      m'.units.flatMap (fun u => u.segments.map (·.head)) = m.wells.heads m.setup.settings.gravity ds := by
  obtain ⟨props, hprops, h⟩ := Outcome.bind_ok.1 h
  obtain ⟨lists, hlists, h⟩ := Outcome.bind_ok.1 h
  cases h
  have hlists' : lists.length = m.units.length := by
    have hlength := congrArg List.length (Wells.map_length_densities hlists)
    rwa [List.length_map, List.length_map, wells, List.length_map] at hlength
  -- the segments of a unit take the list of densities at its place
  have hunit (i : Nat) (hi : i < m.units.length) (hl : i < lists.length) :
      m.units[i].segments.length = m.units[i].well.connections.length ∧
        lists[i].length = m.units[i].well.connections.length := by
    have hp := getElem?_wellsPlaced (List.getElem?_eq_getElem hi)
    exact ⟨hsegments _ (List.getElem_mem hi),
      Well.length_densities (Outcome.ok_of_getElem? hlists hp (List.getElem?_eq_getElem hl))⟩
  refine ⟨props, _, hprops, Outcome.map_ok.2 ⟨lists, hlists, rfl⟩, ?_, ?_⟩
  · rw [List.flatMap_def]
    refine congrArg List.flatten (List.ext_getElem (by simp [hlists']) fun i _ hl => ?_)
    have hi : i < m.units.length := hlists' ▸ hl
    obtain ⟨hsegments, hdensities⟩ := hunit i hi hl
    rw [List.getElem_map, List.getElem_zipWith]
    exact (WellUnit.segments_setDensities hsegments _ hdensities).1
  · rw [List.flatMap_def, Wells.heads, List.flatMap_def]
    have hplaced : m.wells.placed.length = m.units.length := by
      rw [Wells.placed, Placed.length_ofList, wells, List.length_map]
    refine congrArg List.flatten (List.ext_getElem (by simp [hlists', hplaced]) fun i _ hp => ?_)
    have hi : i < m.units.length := by
      rwa [List.length_map, hplaced] at hp
    have hl : i < lists.length := hlists' ▸ hi
    obtain ⟨hsegments, hdensities⟩ := hunit i hi hl
    obtain ⟨hlt, hitem⟩ := List.getElem?_eq_some_iff.1 (getElem?_wellsPlaced (List.getElem?_eq_getElem hi))
    have hwindow := Wells.window_densities hlists (List.getElem_mem hlt)
      (by rw [hitem]; exact List.getElem?_eq_getElem hl)
    rw [List.getElem_map, List.getElem_map, List.getElem_zipWith, hwindow, hitem]
    exact (WellUnit.segments_setDensities hsegments _ hdensities).2

/-! ### What a density depends on -/

namespace ConnectionProperties

/-- Whether two sets of properties agree at a connection each. -/
structure SameAt (props : ConnectionProperties α) (i : Nat) (props' : ConnectionProperties α) (i' : Nat) : Prop where
  invB : props.invB[i]? = props'.invB[i']?
  rsMax : props.rsMax[i]? = props'.rsMax[i']?
  rvMax : props.rvMax[i]? = props'.rvMax[i']?
  surfaceDensity : props.surfaceDensity[i]? = props'.surfaceDensity[i']?

variable {props props' : ConnectionProperties α} {n n' i i' : Nat}

private theorem Covers.exists_density (h : props.Covers n) (hi : i < n) (phases : PhaseSet) (mix : PerPhase α) :
    ∃ d, props.density phases mix i = .ok d := by
  have hb : i < props.invB.length := h.invB.symm ▸ hi
  have hr : i < props.surfaceDensity.length := h.surfaceDensity.symm ▸ hi
  exact ⟨_, h.density_eq hi (List.getElem?_eq_getElem hb) (List.getElem?_eq_getElem hr) phases mix⟩

private theorem SameAt.density_eq (hsame : props.SameAt i props' i') (h : props.Covers n) (hi : i < n)
    (h' : props'.Covers n')
    (hi' : i' < n') (phases : PhaseSet) (mix : PerPhase α) :
    props.density phases mix i = props'.density phases mix i' := by
  have hb : i < props.invB.length := h.invB.symm ▸ hi
  have hr : i < props.surfaceDensity.length := h.surfaceDensity.symm ▸ hi
  have hinvB := List.getElem?_eq_getElem hb
  have hdensity := List.getElem?_eq_getElem hr
  rw [h.density_eq hi hinvB hdensity, h'.density_eq hi' (hsame.invB ▸ hinvB) (hsame.surfaceDensity ▸ hdensity),
    hsame.rsMax, hsame.rvMax]

end ConnectionProperties

namespace Well

variable {ws : Wells α} {p : Placed (Well α)} {s : FlowState α} {props : ConnectionProperties α}

/-- With all rates and properties at hand there is a density at each connection, that of the mix above it. -/
theorem exists_density (hp : p ∈ ws.placed) (hrates : s.connectionRates.length = 3 * ws.numConnections)
    (hcovers : props.Covers ws.numConnections) (phases : PhaseSet) :
    ∃ rates ls, p.item.connections.zipIdx.mapM (fun ck => s.ratesAt (p.first + ck.2)) = .ok rates ∧
      densities p s phases props = .ok ls ∧ ∀ k < p.item.connections.length, ∃ mix d,
        (p.item.segmentMixes rates)[k]? = some mix ∧ ls[k]? = some d ∧
          props.density phases mix (p.first + k) = .ok d := by
  obtain ⟨rates, hall⟩ := exists_connectionRates hp hrates
  have hmixes : (p.item.segmentMixes rates).length = p.item.connections.length := by
    rw [segmentMixes, List.length_map, length_upwardFlows, (Outcome.mapM_zipIdx.1 hall).1]
  obtain ⟨ls, hls, hdensity⟩ := exists_densities hall phases props fun k mix hmix => by
    have hk := (List.getElem?_eq_some_iff.1 hmix).1
    exact hcovers.exists_density (Wells.first_add_lt hp (hmixes ▸ hk)) phases mix
  refine ⟨rates, ls, hall, hls, fun k hk => ?_⟩
  have hmix := List.getElem?_eq_getElem (hmixes.symm ▸ hk)
  have hd := List.getElem?_eq_getElem ((length_densities hls).symm ▸ hk)
  exact ⟨_, _, hmix, hd, hdensity k _ _ hmix hd⟩

omit [Scalar α] in
private theorem drop_connectionRates {p' : Placed (Well α)} {s' : FlowState α} (hitem : p'.item = p.item)
    {rates rates' : List (PerPhase α)}
    (h : p.item.connections.zipIdx.mapM (fun ck => s.ratesAt (p.first + ck.2)) = .ok rates)
    (h' : p'.item.connections.zipIdx.mapM (fun ck => s'.ratesAt (p'.first + ck.2)) = .ok rates') {k : Nat}
    (hsame : ∀ j, k ≤ j → j < p.item.connections.length → s'.ratesAt (p'.first + j) = s.ratesAt (p.first + j)) :
    rates'.drop k = rates.drop k := by
  obtain ⟨hlength, hget⟩ := Outcome.mapM_zipIdx.1 h
  obtain ⟨hlength', hget'⟩ := Outcome.mapM_zipIdx.1 h'
  rw [hitem] at hlength'
  refine List.ext_getElem (by simp [← hlength, ← hlength']) fun j hj hj' => ?_
  rw [List.length_drop] at hj hj'
  have hconn : k + j < p.item.connections.length := by omega
  have hrates := hget (k + j) hconn (hlength ▸ hconn)
  have hrates' := hget' (k + j) (hitem.symm ▸ hconn) (hlength' ▸ hconn)
  rw [hsame (k + j) (Nat.le_add_right ..) hconn, hrates] at hrates'
  rw [List.getElem_drop, List.getElem_drop]
  exact (Except.ok.inj hrates').symm

end Well

/-! ### What a place of the columns depends on -/

namespace Wells

variable {ws ws' : Wells α} {p p' : Placed (Well α)}

private theorem exists_densities {s : FlowState α} {props : ConnectionProperties α}
    (hrates : s.connectionRates.length = 3 * ws.numConnections) (hcovers : props.Covers ws.numConnections)
    (phases : PhaseSet) : ∃ ds, ws.densities s phases props = .ok ds := by
  obtain ⟨lists, hlists⟩ : ∃ lists, ws.placed.mapM (fun p => Well.densities p s phases props) = .ok lists :=
    Outcome.exists_mapM fun p hp => by
      obtain ⟨-, ls, -, hls, -⟩ := Well.exists_density hp hrates hcovers phases
      exact ⟨ls, hls⟩
  exact ⟨_, Outcome.map_ok.2 ⟨lists, hlists, rfl⟩⟩

private theorem densities_local {s s' : FlowState α} {props props' : ConnectionProperties α} (hp : p ∈ ws.placed)
    (hp' : p' ∈ ws'.placed) (hitem : p'.item = p.item) (hrates : s.connectionRates.length = 3 * ws.numConnections)
    (hrates' : s'.connectionRates.length = 3 * ws'.numConnections) (hcovers : props.Covers ws.numConnections)
    (hcovers' : props'.Covers ws'.numConnections) (phases : PhaseSet) {k : Nat} (hk : k < p.item.connections.length)
    (hsame : ∀ j, k ≤ j → j < p.item.connections.length → s'.ratesAt (p'.first + j) = s.ratesAt (p.first + j))
    (hprops : props'.SameAt (p'.first + k) props (p.first + k)) :
    ∃ ds ds' d, ws.densities s phases props = .ok ds ∧ ws'.densities s' phases props' = .ok ds' ∧
      ds[p.first + k]? = some d ∧ ds'[p'.first + k]? = some d := by
  have hk' : k < p'.item.connections.length := hitem.symm ▸ hk
  obtain ⟨ds, hds⟩ := exists_densities hrates hcovers phases
  obtain ⟨ds', hds'⟩ := exists_densities hrates' hcovers' phases
  obtain ⟨ls, hls, hplace⟩ := getElem?_densities hds hp
  obtain ⟨ls', hls', hplace'⟩ := getElem?_densities hds' hp'
  obtain ⟨rates, ls₀, hall, hls₀, hat⟩ := Well.exists_density hp hrates hcovers phases
  obtain ⟨rates', ls₀', hall', hls₀', hat'⟩ := Well.exists_density hp' hrates' hcovers' phases
  obtain rfl : ls = ls₀ := Except.ok.inj (hls.symm.trans hls₀)
  obtain rfl : ls' = ls₀' := Except.ok.inj (hls'.symm.trans hls₀')
  obtain ⟨mix, d, hmix, hd, hdensity⟩ := hat k hk
  obtain ⟨mix', d', hmix', hd', hdensity'⟩ := hat' k hk'
  -- the same flow from below gives the same mix
  have hmixes := Well.segmentMixes_congr (congrArg Well.composition hitem)
    (Well.drop_connectionRates hitem hall hall' hsame)
  obtain rfl : mix' = mix := Option.some.inj (hmix'.symm.trans (hmixes.trans hmix))
  rw [hprops.density_eq hcovers' (first_add_lt hp' hk') hcovers (first_add_lt hp hk), hdensity] at hdensity'
  obtain rfl : d = d' := Except.ok.inj hdensity'
  exact ⟨ds, ds', d, hds, hds', (hplace k hk).trans hd, (hplace' k hk').trans hd'⟩

private theorem heads_local {ds ds' : List α} (hp : p ∈ ws.placed) (hp' : p' ∈ ws'.placed) (hitem : p'.item = p.item)
    (hlength : ds.length = ws.numConnections) (hlength' : ds'.length = ws'.numConnections) (gravity : α) {k : Nat}
    (hk : k < p.item.connections.length) (hsame : ∀ j ≤ k, ds'[p'.first + j]? = ds[p.first + j]?) :
    ∃ z, (ws.heads gravity ds)[p.first + k]? = some z ∧ (ws'.heads gravity ds')[p'.first + k]? = some z := by
  have hwindow : (window p'.first p.item.connections.length ds').take (k + 1) =
      (window p.first p.item.connections.length ds).take (k + 1) := by
    refine List.ext_getElem? fun j => ?_
    rcases Nat.lt_or_ge j (k + 1) with hj | hj
    · rw [List.getElem?_take_of_lt hj, List.getElem?_take_of_lt hj, getElem?_window _ (by omega),
        getElem?_window _ (by omega), hsame j (Nat.le_of_lt_succ hj)]
    · rw [List.getElem?_take_eq_none hj, List.getElem?_take_eq_none hj]
  have hplace := getElem?_heads hlength gravity hp hk
  have hplace' := getElem?_heads hlength' gravity hp' (hitem.symm ▸ hk)
  rw [hitem, p.item.heads_congr gravity hwindow, ← hplace] at hplace'
  have hget : k < (p.item.heads gravity (window p.first p.item.connections.length ds)).length := by
    rwa [p.item.length_heads gravity (length_window_of_mem hlength hp)]
  rw [List.getElem?_eq_getElem hget] at hplace
  exact ⟨_, hplace, hplace'.trans hplace⟩

/-- What one place of the columns depends on, for a well among any others.  The density above a connection is the same
in two states that agree on the rates of the connections of the well at and below it, with properties that agree at the
connection; the pressure difference at a connection is the same at densities that agree in the segments of the well down
to it. -/
theorem columns_local (hp : p ∈ ws.placed) (hp' : p' ∈ ws'.placed) (hitem : p'.item = p.item) {k : Nat}
    (hk : k < p.item.connections.length) :
    (∀ (s s' : FlowState α) (props props' : ConnectionProperties α) (phases : PhaseSet),
      s.connectionRates.length = 3 * ws.numConnections → s'.connectionRates.length = 3 * ws'.numConnections →
      props.Covers ws.numConnections → props'.Covers ws'.numConnections →
      (∀ j, k ≤ j → j < p.item.connections.length → s'.ratesAt (p'.first + j) = s.ratesAt (p.first + j)) →
      props'.SameAt (p'.first + k) props (p.first + k) →
      ∃ ds ds' d, ws.densities s phases props = .ok ds ∧ ws'.densities s' phases props' = .ok ds' ∧
        ds[p.first + k]? = some d ∧ ds'[p'.first + k]? = some d) ∧
    ∀ (gravity : α) (ds ds' : List α), ds.length = ws.numConnections → ds'.length = ws'.numConnections →
      (∀ j ≤ k, ds'[p'.first + j]? = ds[p.first + j]?) →
      ∃ z, (ws.heads gravity ds)[p.first + k]? = some z ∧ (ws'.heads gravity ds')[p'.first + k]? = some z :=
  ⟨fun _ _ _ _ phases hrates hrates' hcovers hcovers' hsame hprops =>
    densities_local hp hp' hitem hrates hrates' hcovers hcovers' phases hk hsame hprops,
  fun gravity _ _ hlength hlength' hsame => heads_local hp hp' hitem hlength hlength' gravity hk hsame⟩

/-! ### A producer with different neighbours -/

/-- A producer with two connections. -/
def columnProducer : Well ℚ :=
  .producer "P" 0 [⟨0, 2, 10, 1⟩, ⟨1, 2, 30, 1⟩] ⟨[⟨.bhp, 90, .replicate 0⟩], 0⟩

/-- A well with one connection. -/
def columnNeighbour : Well ℚ :=
  .producer "N" 0 [⟨2, 2, 20, 1⟩] ⟨[⟨.bhp, 90, .replicate 0⟩], 0⟩

/-- A state of two wells with three connections that flow at given rates. -/
def columnFlow (connectionRates : List (PerPhase ℚ)) : FlowState ℚ :=
  ⟨[90, 90], [0, 0], .replicate 6 0, .replicate 6 0, [0, 0], .replicate 3 90, connectionRates.flatMap (·.toList),
    .replicate 9 0, 0⟩

/-- Properties of three connections of given inverse volume factors of oil. -/
def columnProperties (invB : List ℚ) : ConnectionProperties ℚ :=
  ⟨invB.map fun b => ⟨1, b, 1⟩, [], [], invB.map fun _ => ⟨1000, 800, 0⟩⟩

/-- The producer comes after its neighbour and before it.  At its lower connection it flows the same in both states, and
the rest of the rates is different. -/
theorem columns_local_columnProducer :
    (∃ ds ds' d, (⟨[columnNeighbour, columnProducer]⟩ : Wells ℚ).densities
        (columnFlow [⟨-5, 0, 0⟩, ⟨0, -1, 0⟩, ⟨-1, -3, 0⟩]) .oilWater (columnProperties [1, 1, 4 / 5]) = .ok ds ∧
      (⟨[columnProducer, columnNeighbour]⟩ : Wells ℚ).densities
        (columnFlow [⟨7, 0, 0⟩, ⟨-1, -3, 0⟩, ⟨0, -2, 0⟩]) .oilWater (columnProperties [1 / 2, 4 / 5, 1]) = .ok ds' ∧
      ds[2]? = some d ∧ ds'[1]? = some d) ∧
    ∃ z, ((⟨[columnNeighbour, columnProducer]⟩ : Wells ℚ).heads 10 [1000, 800, 900])[2]? = some z ∧
      ((⟨[columnProducer, columnNeighbour]⟩ : Wells ℚ).heads 10 [800, 900, 0])[1]? = some z := by
  have hplaced : ⟨1, 1, columnProducer⟩ ∈ (⟨[columnNeighbour, columnProducer]⟩ : Wells ℚ).placed :=
    List.mem_cons_of_mem _ (List.mem_cons_self ..)
  have hplaced' : ⟨0, 0, columnProducer⟩ ∈ (⟨[columnProducer, columnNeighbour]⟩ : Wells ℚ).placed :=
    List.mem_cons_self ..
  have hk : 1 < columnProducer.connections.length := Nat.lt_succ_self 1
  have hcovers (a b c : ℚ) : (columnProperties [a, b, c]).Covers 3 :=
    ⟨rfl, fun h => Bool.noConfusion h, fun h => Bool.noConfusion h, rfl⟩
  obtain ⟨hdensities, hheads⟩ := columns_local hplaced hplaced' rfl hk
  refine ⟨hdensities _ _ _ _ .oilWater rfl rfl (hcovers ..) (hcovers ..) (fun j hle hlt => ?_) ⟨rfl, rfl, rfl, rfl⟩,
    hheads 10 [1000, 800, 900] [800, 900, 0] rfl rfl fun j hj => ?_⟩
  · obtain rfl : j = 1 := Nat.le_antisymm (Nat.le_of_lt_succ hlt) hle
    rfl
  · obtain rfl | rfl : j = 0 ∨ j = 1 := by omega
    · rfl
    · rfl

end Wells

end BlackOilWells
