import BuildMatrix.Main
import BuildMatrix.Proofs.Run.StepOutput
import BuildMatrix.Proofs.Starter.RoundTrip
import BuildMatrix.Proofs.Arguments.Positional
import BuildMatrix.Proofs.Run.Contract
import BuildMatrix.Proofs.Files.Writing
import BuildMatrix.Proofs.Prompt.Submission
import BuildMatrix.Proofs.Run.Consent
import BuildMatrix.Proofs.Job.Descriptor
import BuildMatrix.Proofs.Matrix.History
import BuildMatrix.Proofs.Config.Builds
import BuildMatrix.Proofs.Config.Acceptance
import BuildMatrix.Proofs.Config.Direct
import BuildMatrix.Proofs.Run.Dependence
import BuildMatrix.Proofs.Job.Command
import BuildMatrix.Proofs.Run.Options
import BuildMatrix.Proofs.Table.Rows
import BuildMatrix.Proofs.Table.Framed
import BuildMatrix.Proofs.Job.Options
import BuildMatrix.Proofs.Config.Lossless
import BuildMatrix.Proofs.Table.Columns
import BuildMatrix.Proofs.Config.Selection
import BuildMatrix.Proofs.Ref.Description
import BuildMatrix.Proofs.Arguments.Groups
import BuildMatrix.Proofs.Json.KeyOrder
import BuildMatrix.Proofs.Matrix.KeyOrder
import BuildMatrix.Proofs.Number.Rounding
import BuildMatrix.Proofs.Number.Decimal
import BuildMatrix.Proofs.Number.Double
import BuildMatrix.Proofs.Number.ReadBack
import BuildMatrix.Proofs.Config.Counts
import BuildMatrix.Proofs.Table.Environment
