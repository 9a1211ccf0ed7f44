import Nehemiah.Billing.Quarantine
import Nehemiah.Billing.Order
import Nehemiah.Billing.Closure
import Nehemiah.Billing.Receipt
import Nehemiah.Billing.Cutover
import Nehemiah.Billing.DaySplit
import Nehemiah.Billing.PeriodDrift
import Nehemiah.Billing.Stripe
import Nehemiah.Host.Leases
import Nehemiah.Host.Readopt
import Nehemiah.Host.Durable
import Nehemiah.Host.Cleanup
import Nehemiah.Host.Expiry
import Nehemiah.Host.TerminalFailure
import Nehemiah.Host.Outbox
import Nehemiah.Host.Journal
import Nehemiah.Control.Reaper
import Nehemiah.Control.SpendCap
import Nehemiah.Control.Locks
import Nehemiah.Control.Terminal
import Nehemiah.Control.Forks
import Nehemiah.Control.Streams
import Nehemiah.Control.Trust
import Nehemiah.Control.IdentitySync
import Nehemiah.Control.DeviceScopes
import Nehemiah.Host.Console
import Nehemiah.Control.TemplatePublish
import Nehemiah.Control.VolumeBytes
import Nehemiah.Control.TemplateUse
import Nehemiah.Control.ForkAudit
import Nehemiah.Control.NetworkPolicy
import Nehemiah.Host.Egress
import Nehemiah.Host.Floor
import Nehemiah.Host.Dns
import Nehemiah.Host.Fingerprint
import Nehemiah.Host.Archive
import Nehemiah.Host.Cadence
import Nehemiah.Control.EgressMeaning
import Nehemiah.Guest.Exec
import Nehemiah.Guest.Files
import Nehemiah.Gateway.Credentials
import Nehemiah.Gateway.Transparent
import Nehemiah.Gateway.Limiter
import Nehemiah.Gateway.Readiness
import Nehemiah.Cli.CredentialLock
import Nehemiah.Cli.Binding
import Nehemiah.Cli.DevicePoll
import Nehemiah.Host.Rfb
import Nehemiah.Host.Snapshot
import Nehemiah.Host.Clones
import Nehemiah.Host.Evidence
import Nehemiah.Host.VolumeSave
import Nehemiah.Sdk.Requests
import Nehemiah.Control.HostWire
import Nehemiah.Control.Extend
import Nehemiah.Sdk.Channel
import Nehemiah.Host.Capture
import Nehemiah.Gateway.Connections
import Nehemiah.Gateway.StreamLife
import Nehemiah.Control.Shutdown
import Nehemiah.Control.ApiKeyRuns
import Nehemiah.Control.ApiKeyUse
import Nehemiah.Control.ApiAdmission
import Nehemiah.Control.Migrate
