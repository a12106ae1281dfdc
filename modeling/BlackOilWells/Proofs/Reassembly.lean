import BlackOilWells.Model.Session
import BlackOilWells.Proofs.Attempts

/-!
# Repeated assembly

An assembly reads the wells, their unknowns, segments and start fractions, and of the flow state only what it holds
for the wells; it writes the systems and sources of the wells and the flow through the connections.  So it does not
depend on an earlier assembly (`Model.assemble_congr`), and assembling again gives the systems that are there already
(`Model.assemble_again`).
-/

namespace BlackOilWells

variable {α : Type}

/-! ### The flow through the connections -/

namespace FlowState

/-- The state without the flow through the connections. -/
def atWells (s : FlowState α) : FlowState α := { s with connectionPressure := [], connectionRates := [] }

theorem slot_of_atWells {s t : FlowState α} (h : s.atWells = t.atWells) (w : Nat) : s.slot w = t.slot w := by
  change s.atWells.slot w = t.atWells.slot w
  rw [h]

theorem run_putConnection (i : Nat) (p : α) (q : PerPhase α) (s : FlowState α) : putConnection i p q s =
    if i < s.connectionPressure.length ∧ 3 * i + 2 < s.connectionRates.length then
      (.ok ⟨⟩, { s with
        connectionPressure := s.connectionPressure.set i p
        connectionRates := Stride.set s.connectionRates i q.toVec })
    else (.error .outOfRange, s) := by
  unfold putConnection pressureAt ratesAt
  rw [Attempt.run_get_bind, Attempt.run_outcome_bind]
  by_cases hp : i < s.connectionPressure.length
  · rw [List.getElem?_eq_getElem hp]
    dsimp only [Outcome.need]
    rw [Attempt.run_outcome_bind]
    have hr := Stride.get?_isSome_iff s.connectionRates i
    cases hq : Stride.get? s.connectionRates i with
    | none =>
      rw [hq] at hr
      rw [if_neg fun h => nomatch hr.2 h.2]
      rfl
    | some v =>
      rw [hq] at hr
      rw [if_pos ⟨hp, hr.1 rfl⟩]
      rfl
  · rw [List.getElem?_eq_none (Nat.le_of_not_lt hp), if_neg fun h => hp h.1]
    rfl

/-- Whether a property depends on the flow through the connections only by its size. -/
def IgnoresConnections (P : FlowState α → Prop) : Prop :=
  ∀ {s ps qs}, ps.length = s.connectionPressure.length → qs.length = s.connectionRates.length →
    P s → P { s with connectionPressure := ps, connectionRates := qs }

/-- Writing the flow through a connection keeps such properties. -/
private theorem putConnection_keeps {P : FlowState α → Prop} {F : Fault α → Prop}
    (hP : IgnoresConnections P) {i : Nat}
    (hF : ∀ {s}, P s → ¬(i < s.connectionPressure.length ∧ 3 * i + 2 < s.connectionRates.length) → F .outOfRange)
    (p : α) (q : PerPhase α) : Attempt.Keeps P F (putConnection i p q) := by
  intro s hs
  rw [run_putConnection]
  split
  · exact ⟨hP (List.length_set ..) (Stride.length_set ..) hs, .ok _⟩
  · exact ⟨hs, .error (hF hs ‹_›)⟩

/-- Whether the flow through a connection can be written depends on the sizes only. -/
private theorem putConnection_agrees (i : Nat) (p : α) (q : PerPhase α) :
    Attempt.Agrees (fun s t : FlowState α => s.connectionPressure.length = t.connectionPressure.length ∧
      s.connectionRates.length = t.connectionRates.length) (putConnection i p q) (putConnection i p q) := by
  rintro s t ⟨hp, hr⟩
  rw [run_putConnection, run_putConnection, hp, hr]
  split
  · refine ⟨rfl, ?_, ?_⟩
    · rw [List.length_set, List.length_set, hp]
    · rw [Stride.length_set, Stride.length_set, hr]
  · exact ⟨rfl, hp, hr⟩

end FlowState

variable [Scalar α]

/-! ### What an assembly reads -/

namespace WellUnit

/-- The well before any assembly. -/
def bare (u : WellUnit α) : WellUnit α := { u with system := .empty [], sources := [] }

private theorem bare_of_assemble {u u' : WellUnit α} {setup : Setup α} {cells : List (Cell α)} {dt : α} {s : Slot α}
    {flows : List (ConnectionFlow α)} (h : u.assemble setup cells dt s = .ok (u', flows)) : u'.bare = u.bare := by
  obtain ⟨control, -, h⟩ := Outcome.bind_ok.1 h
  obtain ⟨flows, -, h⟩ := Outcome.bind_ok.1 h
  obtain ⟨system, -, h⟩ := Outcome.bind_ok.1 h
  cases h
  rfl

omit [Scalar α] in
theorem length_links_le (u : WellUnit α) : u.links.length ≤ u.well.connections.length := by
  rw [links, List.length_zip]
  exact Nat.min_le_left ..

/-- An assembly has at most one flow for each connection. -/
private theorem length_of_assemble {u u' : WellUnit α} {setup : Setup α} {cells : List (Cell α)} {dt : α} {s : Slot α}
    {flows : List (ConnectionFlow α)} (h : u.assemble setup cells dt s = .ok (u', flows)) :
    flows.length ≤ u.well.connections.length := by
  obtain ⟨control, -, h⟩ := Outcome.bind_ok.1 h
  obtain ⟨flows', hf, h⟩ := Outcome.bind_ok.1 h
  obtain ⟨system, -, h⟩ := Outcome.bind_ok.1 h
  cases h
  obtain ⟨bhp, -, hf⟩ := Outcome.bind_ok.1 hf
  obtain ⟨crossFlow, -, hf⟩ := Outcome.bind_ok.1 hf
  rw [← (Outcome.mapM_ok.1 hf).length_eq]
  exact length_links_le u

end WellUnit

namespace Model

/-- The model before any assembly. -/
def bare (m : Model α) : Model α := { m with units := m.units.map .bare }

/-- The assembled wells with the flows through their connections. -/
def assembled (m : Model α) (cells : List (Cell α)) (dt : α) (s : FlowState α) :
    Outcome α (List (WellUnit α × List (ConnectionFlow α))) :=
  m.units.zipIdx.mapM fun (u, w) => u.assemble m.setup cells dt (s.slot w)

theorem length_of_assembled {m : Model α} {cells : List (Cell α)} {dt : α} {s : FlowState α}
    {wells : List (WellUnit α × List (ConnectionFlow α))} (h : m.assembled cells dt s = .ok wells) {i : Nat}
    {u : WellUnit α} {x : WellUnit α × List (ConnectionFlow α)} (hu : m.units[i]? = some u) (hx : wells[i]? = some x) :
    x.2.length ≤ u.well.connections.length := by
  have hz : m.units.zipIdx[i]? = some (u, i) := by rw [List.getElem?_zipIdx, hu, Option.map_some, Nat.zero_add]
  exact WellUnit.length_of_assemble (Outcome.ok_of_getElem? h hz hx)

omit [Scalar α] in
theorem putFlows_keeps {P : FlowState α → Prop} {F : Fault α → Prop}
    (hP : FlowState.IgnoresConnections P) {first : Nat} {flows : List (ConnectionFlow α)}
    (hF : ∀ {s k}, P s → k < flows.length →
      ¬(first + k < s.connectionPressure.length ∧ 3 * (first + k) + 2 < s.connectionRates.length) → F .outOfRange) :
    Attempt.Keeps P F (putFlows first flows) := by
  refine .forM ?_
  rintro ⟨f, k⟩ hk
  have hlt : k < flows.length := (List.getElem?_eq_some_iff.1 (List.mem_zipIdx_iff_getElem?.1 hk)).1
  exact FlowState.putConnection_keeps hP (fun hs => hF hs hlt) _ _

/-- Write the flows through the connections of all wells. -/
def putAllFlows (m : Model α) (wells : List (WellUnit α × List (ConnectionFlow α))) :
    Attempt α (FlowState α) PUnit :=
  (m.placed.zip wells).forM fun (p, _, flows) => putFlows p.first flows

omit [Scalar α] in
private theorem putAllFlows_maintains {P : FlowState α → Prop} (m : Model α)
    (wells : List (WellUnit α × List (ConnectionFlow α))) (hP : FlowState.IgnoresConnections P) :
    Attempt.Maintains P (m.putAllFlows wells) :=
  .forM fun _ _ => (putFlows_keeps (F := fun _ => True) hP fun _ _ _ => trivial).maintains

theorem assemble_eq (m : Model α) (cells : List (Cell α)) (dt : α) (s : FlowState α) :
    m.assemble cells dt s = match m.assembled cells dt s with
      | .ok wells => match m.putAllFlows wells s with
        | (.ok _, s') => (.ok { m with units := wells.map (·.1) }, s')
        | (.error e, s') => (.error e, s')
      | .error e => (.error e, s) := by
  have hmap : (m.units.zipIdx.mapM fun (u, w) => liftM (u.assemble m.setup cells dt (s.slot w)) :
      Attempt α (FlowState α) _) s = (m.assembled cells dt s, s) := Attempt.run_mapM_outcome ..
  unfold assemble
  rw [Attempt.run_bind, Attempt.run_get]
  change (_ >>= _ : Attempt α (FlowState α) (Model α)) s = _
  rw [Attempt.run_bind]
  simp only [hmap]
  cases m.assembled cells dt s with
  | error e => rfl
  | ok wells =>
    change (m.putAllFlows wells >>= _ : Attempt α (FlowState α) (Model α)) s = _
    rw [Attempt.run_bind]
    dsimp only
    rcases m.putAllFlows wells s with ⟨_ | _, t⟩ <;> rfl

/-- Also where an assembly stops, what the state holds for the wells stays. -/
theorem atWells_of_assemble (m : Model α) (cells : List (Cell α)) (dt : α) (s : FlowState α) :
    (m.assemble cells dt s).2.atWells = s.atWells := by
  rw [assemble_eq]
  cases m.assembled cells dt s with
  | error e => rfl
  | ok wells =>
    have hk := putAllFlows_maintains (P := fun t => t.atWells = s.atWells) m wells (fun _ _ h => h) s rfl
    dsimp only
    rcases hp : m.putAllFlows wells s with ⟨_ | _, t⟩ <;> rw [hp] at hk <;> exact hk

theorem assemble_ok {m m' : Model α} {cells : List (Cell α)} {dt : α} {s s' : FlowState α}
    (h : m.assemble cells dt s = (.ok m', s')) :
    ∃ wells, m.assembled cells dt s = .ok wells ∧ m' = { m with units := wells.map (·.1) } ∧
      s'.atWells = s.atWells := by
  have hk := atWells_of_assemble m cells dt s
  rw [h] at hk
  rw [assemble_eq] at h
  cases hw : m.assembled cells dt s with
  | error e =>
    rw [hw] at h
    cases h
  | ok wells =>
    rw [hw] at h
    dsimp only at h
    rcases hp : m.putAllFlows wells s with ⟨_ | _, t⟩
    · rw [hp] at h
      cases h
    · rw [hp] at h
      cases h
      exact ⟨wells, rfl, rfl, hk⟩

private theorem assembled_bare (m : Model α) (cells : List (Cell α)) (dt : α) (s : FlowState α) :
    m.bare.assembled cells dt s = m.assembled cells dt s := by
  unfold assembled bare
  rw [List.zipIdx_map, List.mapM_map]
  rfl

/-- What is assembled depends on the bare wells and on what the state holds for the wells. -/
theorem assembled_congr {m m' : Model α} {s s' : FlowState α} (hm : m.bare = m'.bare) (hs : s.atWells = s'.atWells)
    (cells : List (Cell α)) (dt : α) : m.assembled cells dt s = m'.assembled cells dt s' := by
  rw [← assembled_bare, hm, assembled_bare, assembled, assembled]
  simp only [FlowState.slot_of_atWells hs]

theorem bare_of_assemble {m m' : Model α} {cells : List (Cell α)} {dt : α} {s s' : FlowState α}
    (h : m.assemble cells dt s = (.ok m', s')) : m'.bare = m.bare := by
  obtain ⟨wells, hw, rfl, -⟩ := assemble_ok h
  have hb : wells.map (WellUnit.bare ∘ Prod.fst) = m.units.map .bare :=
    Outcome.map_of_mapM_zipIdx (fun _ _ _ => WellUnit.bare_of_assemble) hw
  rw [bare, bare, List.map_map, hb]

/-- Assembling again changes nothing but, possibly, the flow through the connections. -/
theorem assemble_again {m m₁ m₂ : Model α} {cells : List (Cell α)} {dt : α} {s s₁ s₂ : FlowState α}
    (h₁ : m.assemble cells dt s = (.ok m₁, s₁)) (h₂ : m₁.assemble cells dt s₁ = (.ok m₂, s₂)) :
    m₂ = m₁ ∧ s₂.atWells = s₁.atWells := by
  have hb := bare_of_assemble h₁
  obtain ⟨wells₁, hw₁, rfl, hs₁⟩ := assemble_ok h₁
  obtain ⟨wells₂, hw₂, rfl, hs₂⟩ := assemble_ok h₂
  rw [assembled_congr hb hs₁, hw₁] at hw₂
  cases hw₂
  exact ⟨rfl, hs₂⟩

omit [Scalar α] in
private theorem ofListFrom_map {β δ : Type} (c : δ → Nat) (g : β → δ) (w first : Nat) (bs : List β) :
    Placed.ofListFrom c w first (bs.map g) =
      (Placed.ofListFrom (fun b => c (g b)) w first bs).map fun p => ⟨p.index, p.first, g p.item⟩ := by
  induction bs generalizing w first with
  | nil => rfl
  | cons b bs ih => rw [List.map_cons, Placed.ofListFrom, ih]; rfl

private theorem putAllFlows_bare (m : Model α) (wells : List (WellUnit α × List (ConnectionFlow α))) :
    m.bare.putAllFlows wells = m.putAllFlows wells := by
  have hp : m.bare.placed = m.placed.map fun p => ⟨p.index, p.first, p.item.bare⟩ :=
    ofListFrom_map (fun u : WellUnit α => u.well.connections.length) WellUnit.bare 0 0 m.units
  rw [putAllFlows, putAllFlows, hp, List.zip_map_left, List.forM_eq_forM, List.forM_map]
  rfl

/-- An assembly depends on the bare wells only. -/
theorem assemble_congr {m m' : Model α} (h : m.bare = m'.bare) (cells : List (Cell α)) (dt : α) (s : FlowState α) :
    m.assemble cells dt s = m'.assemble cells dt s := by
  have hb (m : Model α) : m.bare.assemble cells dt s = m.assemble cells dt s := by
    rw [assemble_eq, assemble_eq, assembled_bare]
    simp only [putAllFlows_bare]
    rfl
  rw [← hb m, h, hb]

/-- Assembling again succeeds. -/
theorem assemble_again_ok {m m₁ : Model α} {cells : List (Cell α)} {dt : α} {s s₁ : FlowState α}
    (h : m.assemble cells dt s = (.ok m₁, s₁)) : ∃ m₂ s₂, m₁.assemble cells dt s₁ = (.ok m₂, s₂) := by
  have hb := bare_of_assemble h
  obtain ⟨-, -, -, hs⟩ := assemble_ok h
  rw [assemble_congr hb, assemble_eq, assembled_congr rfl hs]
  rw [assemble_eq] at h
  cases hw : m.assembled cells dt s with
  | error e =>
    rw [hw] at h
    cases h
  | ok wells =>
    have hsize := putAllFlows_maintains m wells (P := fun t =>
      s.connectionPressure.length = t.connectionPressure.length ∧ s.connectionRates.length = t.connectionRates.length)
      (fun hp hr h => ⟨h.1.trans hp.symm, h.2.trans hr.symm⟩) s ⟨rfl, rfl⟩
    have hagree : Attempt.Agrees _ (m.putAllFlows wells) (m.putAllFlows wells) :=
      .forM fun p _ => .forM fun f _ => FlowState.putConnection_agrees _ _ _
    rw [hw] at h
    dsimp only at h ⊢
    rcases hp : m.putAllFlows wells s with ⟨_ | _, t⟩
    · rw [hp] at h
      cases h
    · rw [hp] at h hsize
      cases h
      have ho := (hagree s _ hsize).1
      rw [hp] at ho
      rcases hq : m.putAllFlows wells s₁ with ⟨_ | _, t⟩
      · rw [hq] at ho
        cases ho
      · exact ⟨_, _, rfl⟩

end Model

end BlackOilWells
