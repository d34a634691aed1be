import BulkEdit.Access.Memory
import BulkEdit.Access.Scripted
import BulkEdit.CommandLine.Basic
import BulkEdit.Disk.Change
import BulkEdit.Main
import BulkEdit.Proofs.Access.Memory
import BulkEdit.Proofs.Edit.Landing
import BulkEdit.Proofs.Edit.LineChains
import BulkEdit.Proofs.Session.Preview
import BulkEdit.Proofs.Session.Faults
import BulkEdit.Proofs.Edit.Keys
import BulkEdit.Proofs.Session.Passes
import BulkEdit.Proofs.Text.Substitution
import BulkEdit.Proofs.Session.Interleaving
import BulkEdit.Proofs.Session.Snapshots
import BulkEdit.Proofs.Session.Everywhere
import BulkEdit.Proofs.Plan.Validity
import BulkEdit.Proofs.Plan.Entries
import BulkEdit.Proofs.Plan.Scopes
import BulkEdit.Proofs.Session.Repeats
import BulkEdit.Proofs.Disk.Selected
import BulkEdit.Proofs.Disk.Forbidden
import BulkEdit.Proofs.CommandLine.DryRun
import BulkEdit.Proofs.Disk.Replacing
import BulkEdit.Proofs.Disk.Confinement
import BulkEdit.Proofs.Session.Visits
import BulkEdit.Proofs.Session.Deferral
import BulkEdit.Proofs.Session.Accounting
import BulkEdit.Proofs.Plan.Tallies
import BulkEdit.Proofs.Disk.Eligible
import BulkEdit.Proofs.Text.Leftmost
import BulkEdit.Proofs.Edit.Earliest
import BulkEdit.Proofs.Session.Once
import BulkEdit.Proofs.Session.Stopping
import BulkEdit.Proofs.Plan.Violations
import BulkEdit.Proofs.Text.Clearing
import BulkEdit.Proofs.Access.Clearing
import BulkEdit.Proofs.Disk.Outline
import BulkEdit.Proofs.Session.Rerun
import BulkEdit.Proofs.Glob.Selecting
import BulkEdit.Proofs.Session.Patterns
import BulkEdit.Proofs.Access.Spelling
