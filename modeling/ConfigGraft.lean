import ConfigGraft.Association
import ConfigGraft.ChangeSet.Apply
import ConfigGraft.ChangeSet.Check
import ConfigGraft.CommandLine.Reader
import ConfigGraft.CommandLine.Usage
import ConfigGraft.Disk
import ConfigGraft.Document
import ConfigGraft.Fault
import ConfigGraft.KeyPath
import ConfigGraft.Log
import ConfigGraft.Main
import ConfigGraft.Master
import ConfigGraft.Master.Loading
import ConfigGraft.MissingNames
import ConfigGraft.Placeholder
import ConfigGraft.Program
import ConfigGraft.Proofs.ChangeSet.Ahead
import ConfigGraft.Proofs.ChangeSet.DryRun
import ConfigGraft.Proofs.ChangeSet.Faults
import ConfigGraft.Proofs.ChangeSet.File
import ConfigGraft.Proofs.ChangeSet.Flags
import ConfigGraft.Proofs.ChangeSet.Fold
import ConfigGraft.Proofs.ChangeSet.Foreseen
import ConfigGraft.Proofs.ChangeSet.Frame
import ConfigGraft.Proofs.ChangeSet.Growth
import ConfigGraft.Proofs.ChangeSet.Independent
import ConfigGraft.Proofs.ChangeSet.Missing
import ConfigGraft.Proofs.ChangeSet.Order
import ConfigGraft.Proofs.ChangeSet.Overwrite
import ConfigGraft.Proofs.ChangeSet.Reload
import ConfigGraft.Proofs.ChangeSet.Rewrite
import ConfigGraft.Proofs.ChangeSet.Sequence
import ConfigGraft.Proofs.ChangeSet.Step
import ConfigGraft.Proofs.ChangeSet.Supplied
import ConfigGraft.Proofs.ChangeSet.Untouched
import ConfigGraft.Proofs.Disk.Agree
import ConfigGraft.Proofs.Disk.Directories
import ConfigGraft.Proofs.Disk.Growth
import ConfigGraft.Proofs.Disk.Parent
import ConfigGraft.Proofs.Disk.Room
import ConfigGraft.Proofs.Disk.Shape
import ConfigGraft.Proofs.Document.Again
import ConfigGraft.Proofs.Document.Conflict
import ConfigGraft.Proofs.Document.Content
import ConfigGraft.Proofs.Document.Difference
import ConfigGraft.Proofs.Document.Outline
import ConfigGraft.Proofs.Document.PointUpdate
import ConfigGraft.Proofs.Document.ReadBack
import ConfigGraft.Proofs.Document.Sealed
import ConfigGraft.Proofs.Document.Store
import ConfigGraft.Proofs.Document.Stored
import ConfigGraft.Proofs.Document.Tree
import ConfigGraft.Proofs.Document.Unchanged
import ConfigGraft.Proofs.Document.Updates
import ConfigGraft.Proofs.FileName
import ConfigGraft.Proofs.Format
import ConfigGraft.Proofs.Format.Ending
import ConfigGraft.Proofs.Json.Number
import ConfigGraft.Proofs.Json.Quoted
import ConfigGraft.Proofs.Json.Regular
import ConfigGraft.Proofs.Json.RoundTrip
import ConfigGraft.Proofs.Json.Row
import ConfigGraft.Proofs.KeyPath
import ConfigGraft.Proofs.Master.RoundTrip
import ConfigGraft.Proofs.Master.Spelling
import ConfigGraft.Proofs.Nested
import ConfigGraft.Proofs.Nested.Difference
import ConfigGraft.Proofs.Nested.Translation
import ConfigGraft.Proofs.Placeholder
import ConfigGraft.Proofs.Program
import ConfigGraft.Proofs.Program.ExitStatus
import ConfigGraft.Proofs.Program.Setting
import ConfigGraft.Proofs.Properties.Division
import ConfigGraft.Proofs.Properties.Escapes
import ConfigGraft.Proofs.Properties.Layout
import ConfigGraft.Proofs.Properties.LogicalLine
import ConfigGraft.Proofs.Properties.Malformed
import ConfigGraft.Proofs.Properties.RoundTrip
import ConfigGraft.Proofs.Toml.Growth
import ConfigGraft.Proofs.Toml.Quoted
import ConfigGraft.Proofs.Toml.RoundTrip
import ConfigGraft.Proofs.Toml.Statement
import ConfigGraft.Proofs.VariableFile
import ConfigGraft.Proofs.World.Logged
import ConfigGraft.Proofs.Yaml.Remarks
import ConfigGraft.Proofs.Yaml.RoundTrip
import ConfigGraft.VariableFile
import ConfigGraft.VariableFile.Loading
import ConfigGraft.Variables
import ConfigGraft.World
