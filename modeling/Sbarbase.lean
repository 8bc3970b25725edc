import Sbarbase.Gateway.Proofs.Drain
import Sbarbase.Control.Proofs.Keys
import Sbarbase.Control.Proofs.Invitations
import Sbarbase.Control.Proofs.Attempts
import Sbarbase.Notify.Proofs.Escalations
import Sbarbase.OnDemand.Proofs.Wakes
import Sbarbase.Transfer.Proofs.Recovery
import Sbarbase.Transfer.Proofs.History
import Sbarbase.Scheduler.Proofs.CatchUp
import Sbarbase.Scheduler.Proofs.Redirects
import Sbarbase.Scheduler.Proofs.Refusals
import Sbarbase.Inventory.Proofs.Generations
import Sbarbase.Offsite.Proofs.Copies
import Sbarbase.Scheduler.Proofs.RunnerLaw
import Sbarbase.Scheduler.Proofs.WireMessages
import Sbarbase.Database.Proofs.Forwarding
import Sbarbase.Rolling.Proofs.Address
import Sbarbase.Settlement.Proofs.InventoryLaw
import Sbarbase.Transfer.Proofs.ContractLaw
import Sbarbase.Hba.Proofs.AuthorityLaw
import Sbarbase.Backup.Proofs.RetentionLaw
import Sbarbase.Control.Proofs.RoutingLaw
import Sbarbase.Control.Proofs.ShareLaw
import Sbarbase.Control.Proofs.AuditLaw
import Sbarbase.OnDemand.Proofs.Quiet
import Sbarbase.SignIn.Proofs.SmtpLaw
import Sbarbase.Lifecycle.Proofs.RetainedLaw
import Sbarbase.SignIn.Proofs.ReconcileLaw
import Sbarbase.OnDemand.Proofs.HoldingLaw
import Sbarbase.Control.Proofs.AccessTokens
import Sbarbase.Control.Proofs.StudioLaw
import Sbarbase.Functions.Proofs.DeployLaw
import Sbarbase.Updates.Proofs.UpdateLaw
import Sbarbase.Starts.Proofs.KeptLaw
import Sbarbase.Gateway.Proofs.GatewayLaw
import Sbarbase.Gateway.Proofs.Pressure
import Sbarbase.Scheduler.Proofs.CronLaw
import Sbarbase.Rolling.Proofs.DueLaw
import Sbarbase.Updates.Proofs.ReleaseOrder
import Sbarbase.Control.Proofs.MigrationVersions
import Sbarbase.Control.Proofs.LifecycleReplays
import Sbarbase.Settlement.Proofs.MaterialLaw
import Sbarbase.Database.Proofs.GuardLaw
import Sbarbase.Functions.Proofs.StoreLaw
import Sbarbase.Handover.Proofs.ProcAddress
import Sbarbase.Gateway.Proofs.ObserveLaw
