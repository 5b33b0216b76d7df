import AuditTrail.Json.Reader
import AuditTrail.KeyRing
import AuditTrail.Options
import AuditTrail.Rule.Change
import AuditTrail.Rule.Scanner
import AuditTrail.Scenario.Run
import AuditTrail.Transaction.Wire
import AuditTrail.Proofs.Coordinator.Session
import AuditTrail.Proofs.Coordinator.Capture
import AuditTrail.Proofs.Coordinator.Accounting
import AuditTrail.Proofs.Coordinator.Quiet
import AuditTrail.Proofs.Coordinator.Course
import AuditTrail.Proofs.Coordinator.HostTransaction
import AuditTrail.Proofs.Coordinator.Notices
import AuditTrail.Proofs.Coordinator.Delivery
import AuditTrail.Proofs.Coordinator.Reports
import AuditTrail.Proofs.Coordinator.Attribution
import AuditTrail.Proofs.Coordinator.Content
import AuditTrail.Proofs.Coordinator.Start
import AuditTrail.Proofs.Memory.Balance
import AuditTrail.Proofs.Memory.Digest
import AuditTrail.Proofs.Memory.Modes
import AuditTrail.Proofs.Memory.Recapture
import AuditTrail.Proofs.Memory.FailedStart
import AuditTrail.Proofs.Memory.Recorded
import AuditTrail.Proofs.Memory.Ledger
import AuditTrail.Proofs.Memory.Tracker
import AuditTrail.Proofs.Value.KeyText
import AuditTrail.Proofs.Coordinator.Hidden
import AuditTrail.Proofs.Coordinator.ConsumerAnswers
import AuditTrail.Proofs.Coordinator.Cancellation
import AuditTrail.Proofs.Coordinator.Title
import AuditTrail.Proofs.Coordinator.Rest
import AuditTrail.Proofs.Coordinator.Merging
import AuditTrail.Proofs.Coordinator.Verdict
import AuditTrail.Proofs.Coordinator.OwnDelivery
import AuditTrail.Proofs.Coordinator.Saving
import AuditTrail.Proofs.Coordinator.DeliveryOrder
import AuditTrail.Proofs.Coordinator.Provenance
import AuditTrail.Proofs.Rule.Nesting
import AuditTrail.Proofs.Rule.Recording
import AuditTrail.Proofs.Rule.Building
import AuditTrail.Proofs.Coordinator.Standing
import AuditTrail.Proofs.Rule.Scanning
import AuditTrail.Proofs.KeyRing.Rotation
import AuditTrail.Proofs.Value.Projection
import AuditTrail.Proofs.Transaction.Wire
