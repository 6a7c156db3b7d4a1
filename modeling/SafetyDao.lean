import SafetyDao.CheckInRace
import SafetyDao.MissedAlerts
import SafetyDao.ConcurrentPasses
import SafetyDao.AlertResolution
import SafetyDao.AlertOwnership
import SafetyDao.CheckInPrivacy
import SafetyDao.SchemaScripts
import SafetyDao.VoteTally
import SafetyDao.VoteDeadline
import SafetyDao.ProposalOutcome
import SafetyDao.MockSearch
import SafetyDao.AttestationRuns
import SafetyDao.RateLimiter
import SafetyDao.GatewayAuth
import SafetyDao.GatewayRouting
import SafetyDao.IdentityHeaders
import SafetyDao.ClientLimits
import SafetyDao.IdentityLookup
import SafetyDao.ModeSwitch
import SafetyDao.DedupRuns
import SafetyDao.ReportForm
import SafetyDao.JsonWebToken
import SafetyDao.TokenReaders
import SafetyDao.UserStore
import SafetyDao.AuthRuns
import SafetyDao.BrowserSession
import SafetyDao.Participation
import SafetyDao.FormUrlencoded
import SafetyDao.TwilioSms
import SafetyDao.MissedPass
import SafetyDao.UriRewrite
import SafetyDao.ProposalCreation
import SafetyDao.VoteReceipt
import SafetyDao.LikePattern
import SafetyDao.ReportStore
import SafetyDao.RegistryQueries
import SafetyDao.ReportSearch
import SafetyDao.Moderation
import SafetyDao.QuotaConfig
import SafetyDao.NewtonRoot
import SafetyDao.HashVector
import SafetyDao.CosineSimilarity
import SafetyDao.Envelope
import SafetyDao.ProofBinding
import SafetyDao.ReportDetails
import SafetyDao.GatewayTokens
import SafetyDao.Histogram
import SafetyDao.ReportTrends
import SafetyDao.VoterRetention
import SafetyDao.ReportConfidence
import SafetyDao.SafetyLifecycle
import SafetyDao.DaoSnapshots
import SafetyDao.RegistryRuns
import SafetyDao.GatewayReach
import SafetyDao.RouteGates
import SafetyDao.ServiceAccess
import SafetyDao.CheckinServer
import SafetyDao.ServerRuns
import SafetyDao.DuplicateSearch
import SafetyDao.AttestationListing
import SafetyDao.AttestationReplies
import SafetyDao.NotificationDelivery
import SafetyDao.ApiCalls
import SafetyDao.CheckinStats
