import PocketSkynet.Client.Arrival
import PocketSkynet.Client.Blocking
import PocketSkynet.Client.Cursor
import PocketSkynet.Client.OlderPages
import PocketSkynet.Client.SseTier
import PocketSkynet.Client.TransferOutcome
import PocketSkynet.Core.AbiSafety
import PocketSkynet.Core.Amount
import PocketSkynet.Core.MacBinding
import PocketSkynet.Core.Password
import PocketSkynet.Server.Aggregation
import PocketSkynet.Server.Caps
import PocketSkynet.Server.ClientIp
import PocketSkynet.Server.Database
import PocketSkynet.Server.Departures
import PocketSkynet.Server.DirectMessageSafety
import PocketSkynet.Server.EpochGate
import PocketSkynet.Server.Eviction
import PocketSkynet.Server.GallerySafety
import PocketSkynet.Server.Grants
import PocketSkynet.Server.HubSafety
import PocketSkynet.Server.InviteBudget
import PocketSkynet.Server.KeyCompleteness
import PocketSkynet.Server.Knowledge
import PocketSkynet.Server.LoginSafety
import PocketSkynet.Server.MediaImport
import PocketSkynet.Server.OrphanWraps
import PocketSkynet.Server.Passwords
import PocketSkynet.Server.PaymentSafety
import PocketSkynet.Server.PresenceSafety
import PocketSkynet.Server.PurgeSafety
import PocketSkynet.Server.Ranges
import PocketSkynet.Server.RateLimit
import PocketSkynet.Server.Reconciliation
import PocketSkynet.Server.ReplayCompleteness
import PocketSkynet.Server.RoomAdmins
import PocketSkynet.Server.RoomStreams
import PocketSkynet.Server.RotationCoverage
import PocketSkynet.Server.SerialOrder
import PocketSkynet.Server.Sites
import PocketSkynet.Server.StreamFilters
import PocketSkynet.Server.Suspension
import PocketSkynet.Server.ThreadSafety
import PocketSkynet.Server.TicketSafety
import PocketSkynet.Server.UnreadCount
import PocketSkynet.Server.UploadCommit
import PocketSkynet.Server.WebhookSafety
import PocketSkynet.Tss.OpenShares
import PocketSkynet.Tss.Relay
import PocketSkynet.Web.Banker
import PocketSkynet.Web.Composing
import PocketSkynet.Web.FaithfulRendering
import PocketSkynet.Web.MyNote
import PocketSkynet.Web.RoomComplete
import PocketSkynet.Web.TabsSafety
import PocketSkynet.Web.Timestamps
import PocketSkynet.Web.TruthfulOutcomes
