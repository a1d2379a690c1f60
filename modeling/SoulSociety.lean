import SoulSociety.Lib.Check
import SoulSociety.Lib.Attempts
import SoulSociety.Lib.JsonText
import SoulSociety.Lib.Linearizable
import SoulSociety.Lib.Loop
import SoulSociety.Lib.MerklePath
import SoulSociety.Lib.Notifier
import SoulSociety.Lib.Numeral
import SoulSociety.Lib.Assoc
import SoulSociety.Lib.Run
import SoulSociety.Lib.Slots
import SoulSociety.Lib.Window
import SoulSociety.Lib.Json
import SoulSociety.Lib.JsonPretty
import SoulSociety.Lib.Normalizer
import SoulSociety.Lib.Url
import SoulSociety.Core.Constants
import SoulSociety.Core.Types
import SoulSociety.Core.Felt
import SoulSociety.Core.Results
import SoulSociety.Core.Sizes
import SoulSociety.Core.NostrEvents
import SoulSociety.Core.Documents
import SoulSociety.Core.RequestCodec
import SoulSociety.Core.SerdeJson
import SoulSociety.Core.RequestImage
import SoulSociety.Prover.Output
import SoulSociety.Prover.Statement
import SoulSociety.Prover.Verifier
import SoulSociety.Cairo.Program
import SoulSociety.Cairo.Computations
import SoulSociety.Wasm.Verifier
import SoulSociety.Wasm.Browser
import SoulSociety.Provider.Dedupe
import SoulSociety.Provider.Processor
import SoulSociety.Provider.Artifacts
import SoulSociety.Provider.BoundedStores
import SoulSociety.Provider.Handler
import SoulSociety.Provider.ArtifactRuns
import SoulSociety.Provider.Restarts
import SoulSociety.Provider.HandlerRuns
import SoulSociety.Provider.ProvingSlots
import SoulSociety.Provider.HandlerOnce
import SoulSociety.Provider.HandlerReplay
import SoulSociety.Provider.Publishing
import SoulSociety.Provider.Engine
import SoulSociety.Provider.Emitted
import SoulSociety.Provider.Router
import SoulSociety.Provider.Intake
import SoulSociety.Sdk.Types
import SoulSociety.Sdk.Validation
import SoulSociety.Sdk.Correspondence
import SoulSociety.Sdk.Proof
import SoulSociety.Sdk.Relays
import SoulSociety.Sdk.Signer
import SoulSociety.Sdk.Decoders
import SoulSociety.Sdk.Download
import SoulSociety.Sdk.ResultDecoders
import SoulSociety.Protocol.FieldElements
import SoulSociety.Protocol.Requests
import SoulSociety.Protocol.Encoders
import SoulSociety.Protocol.ResultForm
import SoulSociety.Protocol.Statements
import SoulSociety.Protocol.Pipeline
import SoulSociety.Protocol.ArtifactUrls
import SoulSociety.Protocol.EmbeddedRequest
import SoulSociety.Protocol.Results
import SoulSociety.Protocol.Binding
import SoulSociety.Protocol.Emission
import SoulSociety.Protocol.Backing
import SoulSociety.Protocol.Serving
import SoulSociety.Protocol.Manifest
import SoulSociety.Session.Client
import SoulSociety.Session.WaitForResult
import SoulSociety.Session.Run
import SoulSociety.Session.SoulJob
import SoulSociety.Session.JobSession
import SoulSociety.Session.Frames
import SoulSociety.Session.Provenance
import SoulSociety.Session.Points
import SoulSociety.Session.Delivery
import SoulSociety.Session.Observers
import SoulSociety.Session.Lifecycle
import SoulSociety.Session.QuietRun
import SoulSociety.Session.Cancellation
import SoulSociety.Session.Retry
import SoulSociety.Session.Soundness
import SoulSociety.Session.Correctness
import SoulSociety.Session.Network
import SoulSociety.Session.Completeness
import SoulSociety.Session.Effects
import SoulSociety.Web.Workbench
