import SoulSociety.Protocol.Emission
import SoulSociety.Sdk.Proof
import SoulSociety.Sdk.Signer

/-! The client of the SDK and what a job takes from it (`soul-sdk/src/client.ts`). Clock readings are
    natural numbers of seconds; the durations of timers are left out, a timer can always fire. -/

namespace SoulSociety.Session
open Lib Sdk
open SoulSociety.Core (ErrorCode maxSafeInteger)

/-- A `SoulNostrClient`, as its constructor leaves it. -/
structure SoulNostrClient where
  platform : Platform
  sha256 : ProofBytes → JsString
  signer : SoulSigner
  trustedProgramHash : JsString
  trustedProviderPubkeys : List JsString
  isFieldElement_trustedProgramHash : isFieldElement trustedProgramHash = true
  isHex64_of_mem : ∀ key ∈ trustedProviderPubkeys, isHex64 key = true

/-- Only the listed providers are heard. -/
def SoulNostrClient.acceptsProvider (C : SoulNostrClient) (pubkey : JsString) : Bool :=
  isHex64 pubkey && pubkey ∈ C.trustedProviderPubkeys

/-- `Required<CreateJobOptions>`, as `validateJobOptions` leaves them. -/
structure JobOptions where
  bidMsats : ℕ
  expiresInSeconds : ℕ
  publishRetries : ℕ
  proofRetries : ℕ
  bidMsats_le : bidMsats ≤ maxSafeInteger
  expiresInSeconds_pos : 0 < expiresInSeconds
  expiresInSeconds_le : expiresInSeconds ≤ 60 * 60

/-- The template that `run` makes of the input at a clock reading. -/
def requestTemplate (options : JobOptions) (input : JobInput) (createdAt : ℕ) :
    Except JsError EventTemplate := do
  let content := buildRequestContent input (some (createdAt + options.expiresInSeconds))
  let tags ← requestTags content (some options.bidMsats)
  return {
    kind := getRequestKind content.service
    created_at := createdAt
    tags := tags
    content := ofText (serializeRequestContent content) }

/-- The options admit every template. -/
theorem requestTemplate_eq_ok (options : JobOptions) (input : JobInput) (createdAt : ℕ) :
    ∃ template, requestTemplate options input createdAt = .ok template ∧
      template.created_at = createdAt ∧ template.kind = getRequestKind (serviceForInput input) ∧
      template.content = ofText (serializeRequestContent
        (buildRequestContent input (some (createdAt + options.expiresInSeconds)))) := by
  have hbid : ¬ ∃ v ∈ some options.bidMsats, v > maxSafeInteger := by
    rintro ⟨v, ⟨⟩, hv⟩
    exact Nat.not_lt.mpr options.bidMsats_le hv
  rw [requestTemplate, requestTags, rejectIf, if_neg hbid]
  exact ⟨_, rfl, rfl, rfl, rfl⟩

/-! ### Failures -/

/-- What an aborted wait throws. -/
def cancelled : JsError := .soulWire .cancelled (js "The job was cancelled locally.") false

/-- `RETRYABLE_PROVIDER_ERRORS`. -/
def retryableProviderError : ErrorCode → Bool
  | .busy | .provingFailed | .artifactUnavailable | .internal => true
  | _ => false

/-- The failure of an error result. -/
def providerFailure (error : JobError) : JobFailure :=
  ⟨.provider error.code, error.message, retryableProviderError error.code⟩

/-- The failure that the snapshot shows for an error. -/
def failureFor : JsError → JobFailure
  | .provider failure => failure
  | .soulWire code message retryable => ⟨.sdk code, message, retryable⟩
  | error => ⟨.provider .invalidRequest, errorMessage error, false⟩

/-- The failure of a cancelled job. -/
def cancelledFailure : JobFailure := ⟨.sdk .cancelled, js "The job was cancelled locally.", false⟩

/-- No attempt to publish succeeded. -/
def publishFailed (lastError : JsError) : JsError :=
  .soulWire .publishFailed
    (js "No configured relay accepted the signed request: " ++ errorMessage lastError) true

/-- The timer of the subscription fired first. -/
def resultTimeout : JsError :=
  .soulWire .resultTimeout
    (js "No authentic Soul Wire result arrived before the local timeout.") true

/-- The descriptor names another program. -/
def untrustedProgram : JsError :=
  .soulWire .untrustedProgram
    (js "The proof descriptor does not match the reviewed program manifest.") false

/-! ### A client -/

/-- The options that the signed request in `protocol/fixtures/wire` was made with. -/
def exampleOptions : JobOptions where
  bidMsats := 21
  expiresInSeconds := 600
  publishRetries := 0
  proofRetries := 0
  bidMsats_le := by decide
  expiresInSeconds_pos := by decide
  expiresInSeconds_le := by decide

/-- The template of an event. -/
def templateOf (event : Core.Event) : EventTemplate :=
  ⟨event.kind, event.created_at, event.toSdk.tags, event.toSdk.content⟩

theorem requestTemplate_golden :
    requestTemplate exampleOptions (canonicalizeInput (.fibonacci 10)) 1900000000 =
      .ok (templateOf Core.goldenRequest) := by
  decide +kernel

/-- What a browser answers that signs the event. -/
def answerOf (event : Core.Event) : Nip07Answer := ⟨.ok event.toSdk.pubkey, .ok event.toSdk⟩

theorem signEvent_answerOf {P : Platform} {event : Core.Event}
    (hcreated : event.created_at < 2 ^ 53) (hkind : event.kind < 2 ^ 53)
    (hkey : isHex64 event.toSdk.pubkey = true) (hverify : P.verifyEvent event.toSdk = true) :
    (Nip07Signer P).signEvent (templateOf event) (answerOf event) = .ok event.toSdk :=
  Nip07Signer_signs hkey hverify
    ⟨(Protocol.natToSdk_eq_nat hkind).mpr rfl, (Protocol.natToSdk_eq_nat hcreated).mpr rfl, rfl, rfl⟩

/-- A browser client that trusts the provider of the signed results, for the events in
    `protocol/fixtures/wire`. -/
def exampleClient : SoulNostrClient where
  platform := Protocol.exactPlatform Protocol.signedEvents Protocol.fixtureParseUrl
  sha256 _ := ofText Protocol.fixtureSha
  signer := Nip07Signer (Protocol.exactPlatform Protocol.signedEvents Protocol.fixtureParseUrl)
  trustedProgramHash := (Core.FeltHex.fromU64 9).toSdk
  trustedProviderPubkeys := [Protocol.goldenResult.toSdk.pubkey]
  isFieldElement_trustedProgramHash := Core.FeltHex.isFieldElement_toSdk _
  isHex64_of_mem := by
    rintro key hkey
    rw [List.mem_singleton.mp hkey]
    decide +kernel

theorem exampleClient_verifies {event : Core.Event} (h : event ∈ Protocol.signedEvents) :
    exampleClient.platform.verifyEvent event.toSdk = true :=
  decide_eq_true (List.mem_map_of_mem h)

theorem exampleClient_accepts_request :
    validateRequestEvent exampleClient.platform Core.goldenRequest.toSdk 1900000005 =
      .ok Protocol.goldenValidated :=
  (Protocol.goldenRequest_accepted Protocol.goldenRequest_mem _).2

theorem exampleClient_accepts_result :
    validateResultEvent exampleClient.platform Protocol.goldenResult.toSdk Protocol.goldenValidated
        1900000005 =
      .ok ⟨Protocol.goldenResult.toSdk, (Protocol.resultContent 10).toSdk⟩ := by
  have hclock : 1900000005 < 2 ^ 53 - 4000 := by decide
  refine (Protocol.validateResultEvent_eq_ok hclock Core.goldenRequest_form hclock (some 21)).mpr
    ⟨Core.eventText Core.goldenRequest, (Protocol.resultContent 10).toSdk, ?_, ?_, ?_, ?_, ?_, rfl⟩
  · exact exampleClient_verifies (by simp [Protocol.signedEvents])
  · exact Protocol.goldenResult_form
  · have hparse : Protocol.fixtureParseUrl Protocol.fixtureUrlText = some Protocol.fixtureUrl :=
      if_pos rfl
    change isSafeArtifactUrl Protocol.fixtureParseUrl (ofText Protocol.fixtureUrlText) = true
    rw [isSafeArtifactUrl, toUsv_ofText, hparse]
    decide +kernel
  · rintro _ ⟨⟩
    rfl
  · exact (Protocol.readsRequest_iff hclock Core.goldenRequest_form
      (exampleClient_verifies Protocol.goldenRequest_mem)).mpr
        (Protocol.spells_eventText (by decide) (by decide)
          (Protocol.signedEvents_hexForm _ Protocol.goldenRequest_mem))

end SoulSociety.Session
