import Calibration.Main
import Calibration.Proofs.Graph.Accepted
import Calibration.Proofs.Plan.Retyping
import Calibration.Proofs.Plan.Offender
import Calibration.Proofs.Import.Loaded
import Calibration.Proofs.Plan.Recalibration
import Calibration.Proofs.Table.Files
import Calibration.Proofs.Table.Hints
import Calibration.Proofs.Table.LineEnds
import Calibration.Proofs.Table.Numbers
import Calibration.Proofs.Table.Reading
import Calibration.Proofs.Plan.Edits
import Calibration.Proofs.Plan.Boundaries
import Calibration.Proofs.Plan.TwoRuns
import Calibration.Proofs.Plan.Footprint
import Calibration.Proofs.Plan.Settings
import Calibration.Proofs.Plan.Functionwise
import Calibration.Proofs.Plan.Frame
import Calibration.Proofs.Import.Calls
import Calibration.Proofs.Table.Feeding
import Calibration.Proofs.Plan.ZeroPoints
import Calibration.Proofs.Table.Stored
import Calibration.Proofs.Table.Written
import Calibration.Proofs.Import.Stages
import Calibration.Proofs.Table.Shapes
import Calibration.Proofs.Table.Vectors
import Calibration.Proofs.Graph.Faults
import Calibration.Proofs.Graph.Refresh
import Calibration.Proofs.Graph.Queries
import Calibration.Proofs.Plan.WeightScales
import Calibration.Proofs.Plan.Independence
import Calibration.Proofs.Plan.Offsets
