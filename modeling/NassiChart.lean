import NassiChart.Cli.World
import NassiChart.Main
import NassiChart.Proofs.Below
import NassiChart.Proofs.Drawn
import NassiChart.Proofs.Drawing
import NassiChart.Proofs.Elements
import NassiChart.Proofs.TreeOfLines
import NassiChart.Proofs.Verdict
import NassiChart.Proofs.Excerpt
import NassiChart.Proofs.Context
import NassiChart.Proofs.Calls
import NassiChart.Proofs.TextsKept
import NassiChart.Proofs.OneDocument
import NassiChart.Proofs.CaseArms
import NassiChart.Proofs.Insertion
import NassiChart.Proofs.StatementsOfNodes
import NassiChart.Proofs.RoundTrip
import NassiChart.Proofs.BodyText
import NassiChart.Proofs.EntryPoints
import NassiChart.Proofs.RightHandSides
import NassiChart.Proofs.Units
import NassiChart.Proofs.NoExport
import NassiChart.Proofs.StoreWrites
import NassiChart.Proofs.Batch
import NassiChart.Proofs.Alternatives
import NassiChart.Proofs.Decisions
import NassiChart.Proofs.LoopBodies
import NassiChart.Proofs.OutputNames
import NassiChart.Proofs.DatabaseLines
import NassiChart.Proofs.Writing
import NassiChart.Proofs.AddedTexts
