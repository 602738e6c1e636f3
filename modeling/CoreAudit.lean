import CoreAudit.Audit.Batch
import CoreAudit.CommandLine.Basic
import CoreAudit.Main
import CoreAudit.Proofs.Audit.Consistency
import CoreAudit.Proofs.Audit.Crashes
import CoreAudit.Proofs.Audit.Decision
import CoreAudit.Proofs.Audit.FailedScrambler
import CoreAudit.Proofs.Audit.Handed
import CoreAudit.Proofs.Audit.Isolation
import CoreAudit.Proofs.Audit.Lateness
import CoreAudit.Proofs.Audit.Loaded
import CoreAudit.Proofs.Audit.Told
import CoreAudit.Proofs.CommandLine.Delivery
import CoreAudit.Proofs.LogicTable.Loading
import CoreAudit.Proofs.Pool.Gathered
import CoreAudit.Proofs.Pool.Settlement
import CoreAudit.Proofs.Process.Signals
import CoreAudit.Proofs.Script.Append
import CoreAudit.Proofs.Script.Heads
import CoreAudit.Proofs.Script.Rescan
import CoreAudit.Proofs.Transcript.Decoration
import CoreAudit.Proofs.Validation.Concurrency
import CoreAudit.Proofs.Validation.Prover
import CoreAudit.Proofs.Transcript.FirstLine
import CoreAudit.Proofs.Settings.Registry
import CoreAudit.Proofs.Validation.OwnDirectories
