import BlackOilWells.Model.Journal

/-!
# Economic limits

Limits below or above which a producer is not worth keeping open: least rates, and a largest water cut.  Some limits
are accepted but not evaluated; `Limits.rateNotices` and `Limits.ratioNotices` say so.

A broken water cut limit names the connection of greatest water cut.
-/

namespace BlackOilWells

/-- What the limits of a well are to be evaluated on. -/
inductive LimitQuantity where
  | rate
  /-- The potentials; the rates stand in for them. -/
  | potential
deriving DecidableEq, Repr

/-- The economic limits of a producer. -/
structure Limits (α : Type) where
  /-- The least oil rate. -/
  minOil : Option α
  /-- The least gas rate. -/
  minGas : Option α
  /-- The least rate of oil and water together. -/
  minLiquid : Option α
  /-- The least rate at reservoir conditions. -/
  minReservoir : Option α
  /-- The largest water cut. -/
  maxWaterCut : Option α
  /-- The largest ratio of gas to oil. -/
  maxGasOil : Option α
  /-- The largest ratio of water to gas. -/
  maxWaterGas : Option α
  /-- The largest ratio of gas to liquid. -/
  maxGasLiquid : Option α
  /-- What the limits are to be evaluated on. -/
  quantity : LimitQuantity
  /-- Whether the run is to end when the well is closed. -/
  endRun : Bool
  /-- The well to open when this one is closed. -/
  followOn : Option String
  /-- Whether to shut the well off from the reservoir, rather than stop it at the surface. -/
  shutIn : Bool
deriving Repr

/-- A broken ratio limit. -/
structure RatioViolation (α : Type) where
  /-- Whether no other connection is open. -/
  lastConnection : Bool
  /-- The worst connection among the open ones. -/
  worst : Nat
  /-- Its ratio in units of the limit. -/
  extent : α
deriving Repr

/-- A ratio; zero over a vanishing denominator. -/
def ratioOrZero {α : Type} [Scalar α] (a b : α) : α := if Scalar.abs b == 0 then 0 else a / b

/-- The share of water in the liquid of some rates. -/
def PerPhase.waterCut {α : Type} [Scalar α] (q : PerPhase α) : α := ratioOrZero q.water (q.oil + q.water)

namespace Limits

variable {α : Type}

/-- No limits. -/
def none : Limits α where
  minOil := .none
  minGas := .none
  minLiquid := .none
  minReservoir := .none
  maxWaterCut := .none
  maxGasOil := .none
  maxWaterGas := .none
  maxGasLiquid := .none
  quantity := .rate
  endRun := false
  followOn := .none
  shutIn := true

/-- Whether there is any limit on a rate. -/
def hasRate (l : Limits α) : Bool :=
  l.minOil.isSome || l.minGas.isSome || l.minLiquid.isSome || l.minReservoir.isSome

/-- Whether there is any limit on a ratio. -/
def hasRatio (l : Limits α) : Bool :=
  l.maxWaterCut.isSome || l.maxGasOil.isSome || l.maxWaterGas.isSome || l.maxGasLiquid.isSome

/-- Whether there is any limit at all. -/
def hasAny (l : Limits α) : Bool := l.hasRate || l.hasRatio

variable [Scalar α]

/-! ### Rates -/

/-- Whether a rate limit is broken. -/
def isRateBroken (l : Limits α) (q : PerPhase α) : Bool :=
  l.minOil.any (fun least => decide (Scalar.abs q.oil < least)) ||
    l.minGas.any (fun least => decide (Scalar.abs q.gas < least)) ||
    l.minLiquid.any (fun least => decide (Scalar.abs (q.oil + q.water) < least))

/-- The notices of a check of the rate limits.  The limit at reservoir conditions comes last in the check. -/
def rateNotices (l : Limits α) (q : PerPhase α) : List (Notice α) :=
  if l.minReservoir.isSome && !l.isRateBroken q then [.reservoirVolumeLimit] else []

/-! ### Ratios -/

/-- The first among the greatest entries of a list, if that is positive: its index and its value. -/
def greatestPositive (xs : List α) : Option (Nat × α) :=
  xs.zipIdx.foldl (fun best (x, k) => if (best.elim 0 (·.2)) < x then some (k, x) else best) .none

/-- Whether a water cut exceeds a limit.  A cut that is not a number does not. -/
def isCutBroken (limit : α) (q : PerPhase α) : Bool :=
  !(decide (q.waterCut ≤ limit) || Scalar.isNaN q.waterCut)

/-- The violation of a water cut limit by a well with given open connections.  A single connection is to blame in any
case; with several or none of them there is none to blame without a positive water cut. -/
def waterCutViolation (limit : α) (q : PerPhase α) (connections : List (PerPhase α)) : Option (RatioViolation α) :=
  if isCutBroken limit q then
    match connections.map (·.waterCut) with
    | [cut] => some ⟨true, 0, cut / limit⟩
    | cuts => (greatestPositive cuts).map fun (k, cut) => ⟨false, k, cut / limit⟩
  else .none

/-- The notices of a check of a water cut limit. -/
def waterCutNotices (limit : α) (q : PerPhase α) (connections : List (PerPhase α)) : List (Notice α) :=
  if isCutBroken limit q && (waterCutViolation limit q connections).isNone then
    [.waterCutWithoutConnection q.waterCut limit]
  else []

/-- The violation of the ratio limits. -/
def ratioViolation (l : Limits α) (q : PerPhase α) (connections : List (PerPhase α)) : Option (RatioViolation α) :=
  l.maxWaterCut.bind fun limit => waterCutViolation limit q connections

/-- The notices of a check of the ratio limits. -/
def ratioNotices (l : Limits α) (q : PerPhase α) (connections : List (PerPhase α)) : List (Notice α) :=
  l.maxWaterCut.elim [] (fun limit => waterCutNotices limit q connections) ++
    (if l.maxGasOil.isSome then [.ratioLimit .gasOil] else []) ++
    (if l.maxWaterGas.isSome then [.ratioLimit .waterGas] else []) ++
    (if l.maxGasLiquid.isSome then [.ratioLimit .gasLiquid] else [])

end Limits

/-! ### Schedules -/

/-- The limits of wells, each in effect from a report step onwards. -/
structure LimitSchedule (α : Type) where
  /-- For each well the limits by the step from which they hold. -/
  wells : List (String × List (Nat × Limits α))
deriving Repr

namespace LimitSchedule

variable {α : Type}

/-- No limits for any well. -/
def empty : LimitSchedule α := ⟨[]⟩

/-- Set an entry of an association list, at its place if the key is there and at the end otherwise. -/
def insertAt {κ β : Type} [BEq κ] (key : κ) (b : β) : List (κ × β) → List (κ × β)
  | [] => [(key, b)]
  | (k, c) :: rest => if k == key then (k, b) :: rest else (k, c) :: insertAt key b rest

/-- Set the limits of a well from a step onwards. -/
def set (s : LimitSchedule α) (well : String) (fromStep : Nat) (limits : Limits α) : LimitSchedule α :=
  ⟨insertAt well (insertAt fromStep limits ((s.wells.lookup well).getD [])) s.wells⟩

/-- The later of two entries. -/
def later (best : Option (Nat × Limits α)) (e : Nat × Limits α) : Option (Nat × Limits α) :=
  if best.any (e.1 < ·.1) then best else some e

/-- The limits of a well that are in effect at a step: those set last at or before it. -/
def limitsAt (s : LimitSchedule α) (well : String) (step : Nat) : Option (Limits α) :=
  let entries := ((s.wells.lookup well).getD []).filter (·.1 ≤ step)
  (entries.foldl later none).map (·.2)

end LimitSchedule

end BlackOilWells
