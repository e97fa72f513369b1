import MayflyAgent.Programs
import MayflyAgent.Contracts
import MayflyAgent.Words
import MayflyAgent.Codes
import MayflyAgent.KeyedSort
import MayflyAgent.RustText
import MayflyAgent.Errors
import MayflyAgent.Checks
import MayflyAgent.Bundles
import MayflyAgent.BundleEncoding
import MayflyAgent.BundleValidation
import MayflyAgent.RelatedEnvelopes
import MayflyAgent.TrustedCa
import MayflyAgent.BundleRendering
import MayflyAgent.DistinctKeys
import MayflyAgent.StateFiles
import MayflyAgent.CaSync
import MayflyAgent.SyncPasses
import MayflyAgent.SyncCourses
import MayflyAgent.SyncProgress
import MayflyAgent.SyncRuns
import MayflyAgent.SyncResults
import MayflyAgent.Acknowledgements
import MayflyAgent.HonestHost
import MayflyAgent.HonestServer
import MayflyAgent.Convergence
import MayflyAgent.SuccessfulPasses
import MayflyAgent.Resynchronization
import MayflyAgent.Framing
import MayflyAgent.Helper
import MayflyAgent.HelperStreams
import MayflyAgent.HelperExchanges
import MayflyAgent.HelperOutcomes
import MayflyAgent.Heartbeats
import MayflyAgent.PollingRuns
import MayflyAgent.Enrollment
import MayflyAgent.RequestSigning
import MayflyAgent.EnrollmentRuns
import MayflyAgent.Boots
import MayflyAgent.Scheduling
import MayflyAgent.Handlers
import MayflyAgent.Daemons
import MayflyAgent.Lifecycles
import MayflyAgent.LifeInvariants
import MayflyAgent.CleanStops
import MayflyAgent.Timetables
import MayflyAgent.Spacing
import MayflyAgent.PollCycles
import MayflyAgent.Budgets
import MayflyAgent.Shutdowns
import MayflyAgent.Attempts
import MayflyAgent.CleanExits
import MayflyAgent.PinProvenance
import MayflyAgent.LoadedIdentities
import MayflyAgent.Base64Groups
import MayflyAgent.TrustedCaForms
import MayflyAgent.Configs
import MayflyAgent.ParsedUrls
import MayflyAgent.SignedUrls
import MayflyAgent.RetriedAttempts
import MayflyAgent.ConfiguredEnrollment
import MayflyAgent.FrameSizes
import MayflyAgent.KeyFiles
import MayflyAgent.FileSystems
import MayflyAgent.SecureWrites
import MayflyAgent.StatusReports
import MayflyAgent.Identities
import MayflyAgent.Simulations
import MayflyAgent.TokenSecrecy
import MayflyAgent.CallLists
import MayflyAgent.PromptStops
import MayflyAgent.Overrides
import MayflyAgent.ConfigSources
import MayflyAgent.ConfigLoads
import MayflyAgent.HelperCalls
import MayflyAgent.MainRuns
