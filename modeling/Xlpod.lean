import Xlpod.Library.GuardedRuns
import Xlpod.Library.JsonText
import Xlpod.Library.JsonRoundTrip
import Xlpod.Library.Substring
import Xlpod.Library.JsonContent
import Xlpod.JsonStrings
import Xlpod.ByteEncodings
import Xlpod.BundlePayload
import Xlpod.BundleFile
import Xlpod.Library.Entries
import Xlpod.BundleArchive
import Xlpod.BundleRoundTrip
import Xlpod.CostLedger
import Xlpod.CostRollup
import Xlpod.WorkerLoop
import Xlpod.BundleShapes
import Xlpod.WorkerFraming
import Xlpod.ApiErrors
import Xlpod.WorkerPipe
import Xlpod.WorkerIds
import Xlpod.WorkerResponses
import Xlpod.WorkerDeadline
import Xlpod.Library.Programs
import Xlpod.Library.Interleaving
import Xlpod.Auth
import Xlpod.AiTypes
import Xlpod.AnthropicWire
import Xlpod.SessionStores
import Xlpod.ServerState
import Xlpod.ServerCalls
import Xlpod.ToolDispatch
import Xlpod.ChatRoute
import Xlpod.Routes
import Xlpod.Server
import Xlpod.Footprints
import Xlpod.AuditTrail
import Xlpod.Serving
import Xlpod.SessionEscalation
import Xlpod.BilledModel
import Xlpod.Library.Pairing
import Xlpod.TranscriptPairing
import Xlpod.OwnConsent
import Xlpod.Provenance
import Xlpod.ToolGates
import Xlpod.TrustRevocation
import Xlpod.Mediation
import Xlpod.Library.FileTree
import Xlpod.Confinement
import Xlpod.RangeMatrix
import Xlpod.Library.TwinPrograms
import Xlpod.Library.TwinRuns
import Xlpod.Secrecy
import Xlpod.WideStrings
import Xlpod.ConsentDialog
import Xlpod.Library.SoloRuns
import Xlpod.ChatTranscript
import Xlpod.LivingPanel
import Xlpod.PanelInStep
import Xlpod.ChatOutcome
import Xlpod.HandshakeRoots
import Xlpod.BundleNormalForm
import Xlpod.BundleErrors
import Xlpod.SnippetOutcome
import Xlpod.AtomicWrite
import Xlpod.Library.XmlPieces
import Xlpod.ContentTypes
import Xlpod.Library.SlidingWindow
import Xlpod.RateWindow
import Xlpod.Bursts
import Xlpod.Attribution
import Xlpod.RateBound
import Xlpod.CostTotals
import Xlpod.UpstreamAnswers
import Xlpod.Library.Regrouping
import Xlpod.PemFile
import Xlpod.RequestArrival
import Xlpod.Verdicts
import Xlpod.Histories
import Xlpod.Metering
import Xlpod.Library.Lines
import Xlpod.LogLines
import Xlpod.PythonClient
import Xlpod.ClientSessions
import Xlpod.Library.Relaunches
import Xlpod.CaLaunches
import Xlpod.BundleStore
