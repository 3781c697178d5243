import PeerHours.Library.Checked
import PeerHours.Library.Sorting
import PeerHours.Library.KeyedMap
import PeerHours.Library.Json
import PeerHours.Library.JsonText
import PeerHours.Library.Text
import PeerHours.Library.Base64Url
import PeerHours.Library.Timestamp
import PeerHours.Crypto
import PeerHours.Domain
import PeerHours.Ledger.Transfer
import PeerHours.Ledger.ApplyTransfers
import PeerHours.Identity.Keys
import PeerHours.Identity.Statements
import PeerHours.Identity.Lifecycle
import PeerHours.Identity.Verification
import PeerHours.Settlement.Exchange
import PeerHours.Settlement.Rules
import PeerHours.Records.Envelope
import PeerHours.Records.MemberSigned
import PeerHours.Records.IdentityRecords
import PeerHours.Records.TimebankRecords
import PeerHours.Records.Rules
import PeerHours.Ledger.Rules
import PeerHours.Records.Resolve
import PeerHours.Records.FeedResolution
import PeerHours.Records.Resolution
import PeerHours.Records.Convergence
import PeerHours.Records.Authorizations
import PeerHours.Records.Standing
import PeerHours.Records.Encoding
import PeerHours.Desktop.StoredIdentity
import PeerHours.Desktop.DeclaredFeeds
import PeerHours.Exchanges.Community
import PeerHours.Exchanges.Publications
import PeerHours.Identity.Transparent
import PeerHours.Exchanges.Histories
import PeerHours.Exchanges.Settlement
import PeerHours.Exchanges.Garden
import PeerHours.Ledger.Balances
import PeerHours.Ledger.Conservation
import PeerHours.Ledger.Reversals
import PeerHours.Ledger.Growth
import PeerHours.Exchanges.Growth
import PeerHours.Records.Declarations
import PeerHours.Exchanges.AdditionalFeeds
import PeerHours.Identity.Revocation
import PeerHours.Exchanges.Provenance
import PeerHours.Desktop.ResolvedMemberState
import PeerHours.Exchanges.Reversal
import PeerHours.Exchanges.SettledView
import PeerHours.Records.Extension
import PeerHours.Records.Signatures
import PeerHours.Records.UnknownWriters
import PeerHours.Exchanges.UnknownWriters
import PeerHours.Identity.LateRevocation
import PeerHours.Records.Revocations
import PeerHours.Desktop.DeviceKeys
import PeerHours.Identity.OrderlyLifecycle
import PeerHours.Desktop.OwnFeed
import PeerHours.Exchanges.DeviceRevocation
import PeerHours.Library.Stateful
import PeerHours.Desktop.MemberIdentity
import PeerHours.Desktop.ServiceEffects
import PeerHours.Desktop.FeedGrowth
import PeerHours.Desktop.ServiceRuns
import PeerHours.Exchanges.IdentityRuns
import PeerHours.Library.Interleaving
import PeerHours.Desktop.PendingCalls
import PeerHours.Records.RecordIds
import PeerHours.Desktop.PendingEffects
import PeerHours.Desktop.PendingRuns
import PeerHours.Exchanges.FeedRuns
import PeerHours.Identity.SharedKeys
import PeerHours.Exchanges.NamedListings
import PeerHours.Library.Hex
import PeerHours.Runtime.Receipts
import PeerHours.Runtime.Manifest
import PeerHours.Runtime.BootstrapAgreement
import PeerHours.Runtime.SampleHost
import PeerHours.Library.WorkerPool
import PeerHours.Desktop.SettlementDurability
import PeerHours.Runtime.Genesis
import PeerHours.Records.RecordNamespace
import PeerHours.Library.JsonTree
import PeerHours.Payloads.Binding
import PeerHours.Payloads.Builders
import PeerHours.Runtime.HttpJson
import PeerHours.Library.EventRun
import PeerHours.Ledger.ReversalRounds
import PeerHours.Library.Rounding
import PeerHours.Ledger.ExactArithmetic
import PeerHours.Runtime.AnnouncementCache
import PeerHours.Runtime.PeerPresence
import PeerHours.Library.Latest
import PeerHours.Desktop.KeyStatuses
import PeerHours.Desktop.IdentitySetup
import PeerHours.Desktop.RootIdentity
import PeerHours.Exchanges.SetupRuns
import PeerHours.Desktop.DeviceKeyCalls
import PeerHours.Desktop.DeviceKeyRuns
import PeerHours.Exchanges.StoredKeys
import PeerHours.Library.JsonParse
import PeerHours.Records.StoredRecords
import PeerHours.Records.TransferPayloads
import PeerHours.Records.RoundTrips
import PeerHours.Desktop.ConcurrentMapping
import PeerHours.Desktop.CommunityRegistry
import PeerHours.Ledger.Renaming
import PeerHours.Records.DomainValues
import PeerHours.Library.PropertyOrder
import PeerHours.Records.UnsignedProperties
import PeerHours.Library.PlainData
import PeerHours.Runtime.ReceiptDigests
import PeerHours.Exchanges.ReceiptDigests
import PeerHours.Runtime.RecordStore
import PeerHours.Records.CanonicalForm
import PeerHours.Runtime.RecordLog
import PeerHours.Runtime.RecordLogRuns
import PeerHours.Library.JsonIndent
import PeerHours.Library.FileTree
import PeerHours.Node.FileSystem
import PeerHours.Node.Backup
import PeerHours.Node.BackupManifest
import PeerHours.Node.BackupInventory
import PeerHours.Node.BackupVerification
import PeerHours.Node.Publication
import PeerHours.Node.BackupRuns
import PeerHours.Node.FaithfulBackups
import PeerHours.Desktop.GuardedAppends
import PeerHours.Desktop.GuardedAppendRuns
import PeerHours.Exchanges.GuardedAppends
import PeerHours.Records.Impersonation
import PeerHours.Exchanges.SettlementSoundness
import PeerHours.Runtime.Invitations
import PeerHours.Runtime.Discovery
import PeerHours.Runtime.BootstrapScope
import PeerHours.Runtime.Rendezvous
import PeerHours.Runtime.DiscoveredCommunity
import PeerHours.Library.PercentEncoding
import PeerHours.Desktop.ReceiptFetch
import PeerHours.Node.Receipts
import PeerHours.Exchanges.ReceiptLookups
import PeerHours.Exchanges.UncountedSettlements
import PeerHours.Library.JsonNumbers
import PeerHours.Library.Doubles
import PeerHours.Identity.KeyStandings
import PeerHours.Records.KeyEvents
import PeerHours.Library.JsonReader
import PeerHours.Library.PlainText
import PeerHours.Records.PlainRecords
import PeerHours.Records.TextRecords
import PeerHours.Library.PlainObjects
import PeerHours.Runtime.InvitationTexts
import PeerHours.Exchanges.Replicas
