import BlackOilWells.Numeric.Scalar

/-!
# Units

Conversions between the units of scenarios and reports and the coherent units of the equations.  Each adds zero first,
so that a negative zero loses its sign.
-/

namespace BlackOilWells.Units

variable {α : Type} [Scalar α]

/-- The seconds of a day. -/
def secondsPerDay : α := 86400.0

/-- A pressure in bar as pascals. -/
def pascalOfBar (p : α) : α := (p + 0) * 1.0e5

/-- A pressure in pascals as bar. -/
def barOfPascal (p : α) : α := (p + 0) / 1.0e5

/-- A time in days as seconds. -/
def secondOfDay (t : α) : α := (t + 0) * secondsPerDay

/-- A daily rate as a rate per second. -/
def perSecondOfDaily (q : α) : α := q / secondsPerDay + 0

/-- A rate per second as a daily rate, by way of the hourly rate. -/
def dailyOfPerSecond (q : α) : α := (q + 0) * 3600.0 * 24.0

end BlackOilWells.Units
