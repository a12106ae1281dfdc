import BlackOilWells.Main
import BlackOilWells.Report.Dual
import BlackOilWells.Proofs.FailedAssembly
import BlackOilWells.Proofs.FailedSolution
import BlackOilWells.Proofs.Fractions
import BlackOilWells.Proofs.Independence
import BlackOilWells.Proofs.Jacobian
import BlackOilWells.Proofs.OutOfStep
import BlackOilWells.Proofs.Rollback
import BlackOilWells.Proofs.Scenarios
import BlackOilWells.Proofs.ControlUpdates
import BlackOilWells.Proofs.TubingHead
import BlackOilWells.Proofs.GroupFlags
import BlackOilWells.Proofs.VoidageBalance
import BlackOilWells.Proofs.FlowInvariants
import BlackOilWells.Proofs.AbsentPhases
import BlackOilWells.Proofs.ReducedOperator
import BlackOilWells.Proofs.StoredInverse
import BlackOilWells.Proofs.LastConnections
import BlackOilWells.Proofs.ControlTransitions
import BlackOilWells.Proofs.SurfaceRates
import BlackOilWells.Proofs.StoppedUpdates
import BlackOilWells.Proofs.Targets
import BlackOilWells.Proofs.ZeroSteps
import BlackOilWells.Proofs.Encoding
import BlackOilWells.Proofs.FractionSteps
import BlackOilWells.Proofs.ReservoirVolume
import BlackOilWells.Proofs.DefinedFlows
import BlackOilWells.Proofs.FlowDirections
import BlackOilWells.Proofs.VoidageVolume
import BlackOilWells.Proofs.LiftCurves
import BlackOilWells.Proofs.PotentialFlows
import BlackOilWells.Proofs.SegmentDensities
import BlackOilWells.Proofs.DensityBounds
import BlackOilWells.Proofs.RepeatedReviews
import BlackOilWells.Proofs.WaterCuts
import BlackOilWells.Proofs.SharedFailures
import BlackOilWells.Proofs.AbsentUnknowns
import BlackOilWells.Proofs.AcceptedWells
import BlackOilWells.Proofs.ReviewOrder
import BlackOilWells.Proofs.Expressions
