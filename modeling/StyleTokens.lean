import StyleTokens.Main
import StyleTokens.Shell.Evaluation
import StyleTokens.Proofs.Builtin.Properties
import StyleTokens.Proofs.Builtin.RuleSets
import StyleTokens.Proofs.Revision.Single
import StyleTokens.Proofs.World.Fallible
import StyleTokens.Proofs.World.Conduct
import StyleTokens.Proofs.Disk.Walk
import StyleTokens.Proofs.Disk.Destination
import StyleTokens.Proofs.Disk.Change
import StyleTokens.Proofs.Batch.Results
import StyleTokens.Proofs.World.Frame
import StyleTokens.Proofs.Vault.Snapshot
import StyleTokens.Proofs.Batch.Prediction
import StyleTokens.Proofs.Batch.Phases
import StyleTokens.Proofs.Batch.Statuses
import StyleTokens.Proofs.Gate.Check
import StyleTokens.Proofs.Batch.Verification
import StyleTokens.Proofs.Batch.Backup
import StyleTokens.Proofs.Command.Refusal
import StyleTokens.Proofs.Command.Filing
import StyleTokens.Proofs.Command.Exit
import StyleTokens.Proofs.Disk.Gap
import StyleTokens.Proofs.World.Growth
import StyleTokens.Proofs.Batch.Resumption
import StyleTokens.Proofs.Batch.Steady
import StyleTokens.Proofs.Scan.Agreement
import StyleTokens.Proofs.Batch.Windows
import StyleTokens.Proofs.Json.Records
import StyleTokens.Proofs.Path.Parent
import StyleTokens.Proofs.Disk.Reach
import StyleTokens.Proofs.World.Granting
import StyleTokens.Proofs.Vault.Reading
import StyleTokens.Proofs.Vault.Restore
import StyleTokens.Proofs.Batch.Rollback
import StyleTokens.Proofs.World.Pool
import StyleTokens.Proofs.Disk.Gain
import StyleTokens.Proofs.Command.Interleaving
import StyleTokens.Proofs.Path.Below
import StyleTokens.Proofs.Disk.Tree
import StyleTokens.Proofs.Vault.Locations
import StyleTokens.Proofs.Glob.Ending
import StyleTokens.Proofs.Disk.Look
import StyleTokens.Proofs.Batch.Unseen
import StyleTokens.Proofs.Command.Relisting
import StyleTokens.Proofs.Disk.Passage
import StyleTokens.Proofs.Disk.Admission
import StyleTokens.Proofs.Vault.Return
import StyleTokens.Proofs.Vault.History
import StyleTokens.Proofs.Comment.Recognition
import StyleTokens.Proofs.Revision.Isolation
import StyleTokens.Proofs.Table.LengthKeys
import StyleTokens.Proofs.Vault.Accounting
import StyleTokens.Proofs.Vault.Turns
import StyleTokens.Proofs.Command.Record
import StyleTokens.Proofs.Path.Relative
import StyleTokens.Proofs.Catalog.Listing
import StyleTokens.Proofs.Catalog.Pruning
import StyleTokens.Proofs.Catalog.Entries
import StyleTokens.Proofs.Json.Plain
import StyleTokens.Proofs.Scan.WorkList
import StyleTokens.Proofs.Configuration.Soundness
import StyleTokens.Proofs.Command.Reports
import StyleTokens.Proofs.Command.Handover
import StyleTokens.Proofs.Batch.Exclusion
import StyleTokens.Proofs.Table.Keys
import StyleTokens.Proofs.Revision.Lists
import StyleTokens.Proofs.Vault.Addresses
import StyleTokens.Proofs.Gate.Limit
