import BlackOilWells.Model.Relations

/-!
# Potentials

The potential of a connection is the rate at which it would flow if the well were held at its tightest pressure limit:
the least one for an injector and the greatest one for a producer.  A tubing-head limit counts with the bottom-hole
pressure that it implies at the current rates.
-/

namespace BlackOilWells

variable {α : Type} [Scalar α]

namespace WellUnit

/-- The bottom-hole pressure that a constraint permits at rates, if it limits a pressure. -/
def pressureLimit? (u : WellUnit α) (setup : Setup α) (rates : PerPhase α) (c : Control α) :
    Outcome α (Option α) :=
  match c.kind with
  | .bhp => .ok (some c.target)
  | .thp table _ => do
    let bhp ← u.bhpOfThp setup table (rates.map .const) c.target
    return some bhp.value
  | .surfaceRate | .reservoirRate => .ok none

/-- The tighter of two pressure limits. -/
def tighter (type : WellType) (a b : α) : α :=
  match type with
  | .injector => Scalar.min a b
  | .producer => Scalar.max a b

/-- The tightest pressure limit at rates. -/
def tightestLimit (u : WellUnit α) (setup : Setup α) (rates : PerPhase α) : Outcome α α := do
  let limits ← u.well.controls.list.mapM (u.pressureLimit? setup rates)
  match limits.filterMap id with
  | [] => throw (.logic (.noPressureLimit u.well.name))
  | limit :: rest => return rest.foldl (tighter u.well.type) limit

/-- Write the potentials of the connections of a well. -/
def putPotentials (p : Placed (WellUnit α)) (setup : Setup α) (cells : List (Cell α)) :
    Attempt α (FlowState α) Unit := do
  let u := p.item
  let s := (← get).slot p.index
  let limit ← u.tightestLimit setup (← Attempt.need s.rates)
  let crossFlow ← u.admitsCrossFlow setup cells (s.currentControl u.well)
  u.links.zipIdx.forM fun (link, k) => do
    let flux ← u.connectionFlux setup cells crossFlow (.const limit) link
    FlowState.putPotential (p.first + k) (flux.map (·.value))

end WellUnit

/-- Write the potentials of all connections. -/
def Model.putPotentials (m : Model α) (cells : List (Cell α)) : Attempt α (FlowState α) Unit := do
  m.checkState (← get)
  m.placed.forM fun p => WellUnit.putPotentials p m.setup cells

end BlackOilWells
