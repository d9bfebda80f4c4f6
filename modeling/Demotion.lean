import Demotion.Text.Blank
import Demotion.Text.Split
import Demotion.Text.Digit
import Demotion.Text.LowerCase
import Demotion.Text.Utf8
import Demotion.Number.Decimal
import Demotion.Number.Real
import Demotion.Json.Reader
import Demotion.Json.Printer
import Demotion.FloatMap.Basic
import Demotion.MemoryReport.Savings
import Demotion.LineDiff
import Demotion.Analysis.Given
import Demotion.Service.Banner
import Demotion.Service.Running
import Demotion.Main
import Demotion.Proofs.Text.Content
import Demotion.Proofs.FloatMap.Repair
import Demotion.Proofs.Json.Grammar
import Demotion.Proofs.Json.Leaves
import Demotion.Proofs.Json.Reading
import Demotion.Proofs.Json.Writing
import Demotion.Proofs.FloatMap.Document
import Demotion.Proofs.FloatMap.Printed
import Demotion.Proofs.FileTree.Laws
import Demotion.Proofs.FileTree.Site
import Demotion.Proofs.FileTree.Growth
import Demotion.Proofs.Log.Delivery
import Demotion.Proofs.Workspace.Berth
import Demotion.Proofs.Workspace.Names
import Demotion.Proofs.Workspace.Acquire
import Demotion.Proofs.Analysis.Cleanup
import Demotion.Proofs.Analysis.Stages
import Demotion.Proofs.Analysis.Isolation
import Demotion.Proofs.Text.Utf8
import Demotion.Proofs.MemoryReport.Meaning
import Demotion.Proofs.Artifacts
import Demotion.Proofs.Analysis.Outcome
import Demotion.Proofs.Analysis.Diagnostics
import Demotion.Proofs.Analysis.Independence
import Demotion.Proofs.Service.Upload
import Demotion.Proofs.Analysis.Surroundings
import Demotion.Proofs.Service.Sending
import Demotion.Proofs.CommandLine.Agreement
import Demotion.Proofs.LineDiff.Patch
import Demotion.Proofs.MemoryReport.Blocks
import Demotion.Proofs.FloatMap.Conservation
import Demotion.Proofs.FloatMap.Extraction
import Demotion.Proofs.MemoryReport.Keys
import Demotion.Proofs.MemoryReport.Printed
import Demotion.Proofs.Workspace.Confinement
import Demotion.Proofs.Number.Division
import Demotion.Proofs.MemoryReport.Savings
import Demotion.Proofs.Text.Lossy
import Demotion.Proofs.Tool.Output
import Demotion.Proofs.Artifacts.Collection
import Demotion.Proofs.LineDiff.Blocks
import Demotion.Proofs.FloatMap.Totality
import Demotion.Proofs.MemoryReport.Padding
import Demotion.Proofs.LineDiff.Ends
import Demotion.Proofs.Analysis.Summary
import Demotion.Proofs.Log.Levels
import Demotion.Proofs.Log.Setups
