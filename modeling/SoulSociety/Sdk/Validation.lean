import SoulSociety.Core.NostrEvents
import SoulSociety.Sdk.Types

/-! Validators of the SDK (`soul-sdk/src/validation.ts`, `utils.ts`).

    A value read from JSON is a `Json`; a missing property is `none`. A type guard returns what it
    admits, so `orReject (guard v) e` is `if (!guard(v)) throw e` followed by the use of `v`. The
    signature check of `nostr-tools` and the URL parser are parameters. -/

namespace SoulSociety.Sdk
open Lib SoulSociety.Core

/-- What the validators take from `nostr-tools` and the platform. -/
structure Platform where
  verifyEvent : Event → Bool
  parseUrl : Text → Option Url

/-! ### Utilities -/

/-- `[0-9a-f]`. -/
def isHexUnit : CodePoint → Bool
  | .scalar c => isLowerHexDigit c
  | .lone _ => false

/-- `/^[0-9a-f]{n}$/`. -/
def isHexString (n : ℕ) (s : JsString) : Bool := s.length = n && s.all isHexUnit

/-- `/^[0-9a-f]{64}$/`: event ids, public keys and digests. -/
def isHex64 (s : JsString) : Bool := isHexString 64 s

/-- UTF-16 code units, by which JavaScript compares strings. -/
def codeUnits (s : JsString) : List ℕ :=
  s.flatMap fun
    | .scalar c =>
      if c.toNat < 0x10000 then [c.toNat]
      else [0xd800 + (c.toNat - 0x10000) / 0x400, 0xdc00 + (c.toNat - 0x10000) % 0x400]
    | .lone u => [0xd800 + u]

/-- `isFieldElement` on a string: `/^0x[0-9a-f]{64}$/`, below the modulus. -/
def isFieldElement : JsString → Bool
  | .scalar '0' :: .scalar 'x' :: digits =>
    isHexString 64 digits && decide (codeUnits digits < codeUnits (ofText cairoPrimeHex))
  | _ => false

/-- `feltFromNumber`, which throws a `RangeError` outside the safe integers. -/
def feltFromNumber (value : ℕ) : Except JsError JsString := do
  rejectIf (value > maxSafeInteger)
    (.other (js "A field element source needs to be a non-negative safe integer."))
  return js "0x" ++ ofText (List.leftpad 64 '0' (Nat.toDigits 16 value))

/-- `hasExactKeys`: sorted, the two lists of keys are the same. -/
def hasExactKeys (record : List (JsString × Json)) (keys : List JsString) : Bool :=
  (record.map Prod.fst).isPerm keys

/-- One to three decimal digits. -/
def isOctet (t : Text) : Bool := 1 ≤ t.length && t.length ≤ 3 && t.all Char.isDigit

/-- `/^127(?:\.[0-9]{1,3}){3}$/`. -/
def isDotted127 (t : Text) : Bool :=
  match t.splitOn '.' with
  | [a, b, c, d] => a = text "127" && isOctet b && isOctet c && isOctet d
  | _ => false

/-- The hosts to which plain HTTP is allowed, names under `localhost` among them. -/
def isLoopbackHostname (hostname : Text) : Bool :=
  hostname = text "localhost" || (text ".localhost").isSuffixOf hostname || isDotted127 hostname ||
    hostname = text "[::1]"

/-- The conditions of `isSafeArtifactUrl` on the parsed URL. -/
def urlAllowed (url : Url) : Bool :=
  url.hostname ≠ [] && url.username = [] && url.passwordText = [] && url.hash = [] &&
    (url.protocol = text "https:" || (url.protocol = text "http:" && isLoopbackHostname url.hostname))

/-- Whether a proof may be fetched from the URL. What the platform cannot parse is not safe. -/
def isSafeArtifactUrl (parseUrl : Text → Option Url) (value : JsString) : Bool :=
  match parseUrl (toUsv value) with
  | some url => urlAllowed url
  | none => false

/-! ### Type guards -/

/-- `isPlainRecord`. -/
def plainRecord : Option Json → Option (List (JsString × Json))
  | some (.obj ms) => some ms
  | _ => none

/-- `typeof value === 'string'`. -/
def asString : Option Json → Option JsString
  | some (.str s) => some s
  | _ => none

/-- `typeof value === 'boolean'`. -/
def asBoolean : Option Json → Option Bool
  | some (.bool b) => some b
  | _ => none

/-- `isNonNegativeSafeInteger` on a number. -/
def safeNumber : Number → Option ℕ
  | .nat n => if n ≤ maxSafeInteger then some n else none
  | .other => none

/-- `isNonNegativeSafeInteger`. -/
def safeInteger : Option Json → Option ℕ
  | some (.num x) => safeNumber x
  | _ => none

/-- `isFieldElement`. -/
def fieldElement (value : Option Json) : Option JsString :=
  (asString value).filter fun s => isFieldElement s

/-- `isHex64`. -/
def hex64 (value : Option Json) : Option JsString := (asString value).filter fun s => isHex64 s

/-- `Array.isArray(value)`. -/
def asArray : Option Json → Option (List Json)
  | some (.arr xs) => some xs
  | _ => none

/-- `value.every(isFieldElement)`. -/
def fieldElements (values : List Json) : Option (List JsString) :=
  values.mapM fun v => fieldElement (some v)

/-- `value === literal`. -/
def isLiteral (value : Option Json) (literal : JsString) : Prop := asString value = some literal

instance (value : Option Json) (literal : JsString) : Decidable (isLiteral value literal) := by
  unfold isLiteral; infer_instance

/-- The service whose identifier is `value`. -/
def serviceOf (value : JsString) : Option ServiceType :=
  [ServiceType.fibonacci, .hashVerify, .merkleProof].find? fun s => serviceValue s = value

/-- The error code whose identifier is `value`. -/
def errorCodeOf (value : JsString) : Option ErrorCode :=
  [ErrorCode.invalidRequest, .unsupportedService, .expired, .duplicate, .busy, .provingFailed,
    .artifactUnavailable, .internal].find? fun c => errorCodeValue c = value

/-! ### Inputs and request content -/

/-- A service identifier; the guard throws one error for a wrong type and a wrong value. -/
def parseService (value : Option Json) : Except JsError ServiceType := do
  let s ← orReject (asString value)
    (invalid "The service identifier is not supported by Soul Wire v1.")
  orReject (serviceOf s) (invalid "The service identifier is not supported by Soul Wire v1.")

/-- The index must be at most 363, the last whose Fibonacci number is below the modulus. -/
def validateFibonacciInput (value : List (JsString × Json)) : Except JsError JobInput := do
  rejectIf (¬ hasExactKeys value [js "type", js "n"])
    (invalid "A Fibonacci input must contain only type and n.")
  let n ← orReject (safeInteger (value.lookup (js "n")))
    (invalid "Fibonacci n must be an integer from 0 through 363.")
  rejectIf (n > 363) (invalid "Fibonacci n must be an integer from 0 through 363.")
  return .fibonacci n

/-- The hash and the preimage are field elements. -/
def validateHashInput (value : List (JsString × Json)) : Except JsError JobInput := do
  rejectIf (¬ hasExactKeys value [js "type", js "hash", js "preimage"])
    (invalid "A hash input must contain only type, hash, and preimage.")
  let hash ← orReject (fieldElement (value.lookup (js "hash")))
    (invalid "Hash inputs must be canonical Cairo field elements.")
  let preimage ← orReject (fieldElement (value.lookup (js "preimage")))
    (invalid "Hash inputs must be canonical Cairo field elements.")
  return .hashVerify hash preimage

/-- The path has at most 32 elements, and the index fits a tree of its depth. -/
def validateMerkleInput (value : List (JsString × Json)) : Except JsError JobInput := do
  rejectIf (¬ hasExactKeys value [js "type", js "root", js "leaf", js "proof", js "index"])
    (invalid "A Merkle input must contain only type, root, leaf, proof, and index.")
  let root ← orReject (fieldElement (value.lookup (js "root")))
    (invalid "Merkle roots and leaves must be canonical Cairo field elements.")
  let leaf ← orReject (fieldElement (value.lookup (js "leaf")))
    (invalid "Merkle roots and leaves must be canonical Cairo field elements.")
  let path ← orReject (asArray (value.lookup (js "proof")))
    (invalid "A Merkle path may contain at most 32 field elements.")
  rejectIf (path.length > 32) (invalid "A Merkle path may contain at most 32 field elements.")
  let proof ← orReject (fieldElements path)
    (invalid "A Merkle path may contain at most 32 field elements.")
  let index ← orReject (safeInteger (value.lookup (js "index")))
    (invalid "A Merkle index must be a non-negative safe integer.")
  rejectIf (index ≥ if path.length = 0 then 1 else 2 ^ path.length)
    (invalid "The Merkle index does not fit the supplied authentication path.")
  return .merkleProof root leaf proof index

/-- An input of one of the services, with exactly the members of its type. -/
def validateJobInput (value : Option Json) : Except JsError JobInput := do
  let value ← orReject (plainRecord value) (invalid "A typed Soul Wire input object is required.")
  let type ← orReject (asString (value.lookup (js "type")))
    (invalid "A typed Soul Wire input object is required.")
  match serviceOf type with
  | some .fibonacci => validateFibonacciInput value
  | some .hashVerify => validateHashInput value
  | some .merkleProof => validateMerkleInput value
  | none => .error (invalid "The input type is not supported by Soul Wire v1.")

/-- One error covers an expiry that has passed and one that is too far. -/
def expiryMessage : String := "The request is expired or exceeds the maximum one-hour lifetime."

/-- `'expires_at' in value` and the checks on it. -/
def parseExpiry (value : List (JsString × Json)) (createdAt now : ℕ) :
    Except JsError (Option ℕ) :=
  match value.lookup (js "expires_at") with
  | none => .ok none
  | some v => do
    let expiresAt ← orReject (safeInteger (some v)) (invalid "The request expiry is invalid.")
    rejectIf (expiresAt ≤ now ∨ expiresAt < createdAt ∨ expiresAt - createdAt > 60 * 60)
      (invalid expiryMessage)
    return some expiresAt

/-- The content of a request. What is returned is rebuilt from the checked input and expiry. -/
def parseRequestContent (value : Json) (createdAt now : ℕ) : Except JsError JobRequestContent := do
  let value ← orReject (plainRecord (some value))
    (invalid "The request content has an invalid shape.")
  rejectIf (¬ hasExactKeys value [js "protocol", js "service", js "input"] ∧
      ¬ hasExactKeys value [js "protocol", js "service", js "input", js "expires_at"])
    (invalid "The request content has an invalid shape.")
  rejectIf (¬ isLiteral (value.lookup (js "protocol")) (ofText soulWireProtocol))
    (invalid "The request uses an unsupported Soul Wire protocol.")
  let input ← validateJobInput (value.lookup (js "input"))
  let service ← parseService (value.lookup (js "service"))
  rejectIf (service ≠ serviceForInput input)
    (invalid "The declared service does not match the typed request input.")
  let expiresAt ← parseExpiry value createdAt now
  return buildRequestContent input expiresAt

/-! ### Result content -/

/-- A typed output, with exactly the members of its type. -/
def parseOutput (value : Option Json) : Except JsError JobOutput := do
  let value ← orReject (plainRecord value) (invalid "The result output is not a typed object.")
  let type ← orReject (asString (value.lookup (js "type")))
    (invalid "The result output is not a typed object.")
  match serviceOf type with
  | some .fibonacci => do
    rejectIf (¬ hasExactKeys value [js "type", js "result"])
      (invalid "The Fibonacci output is malformed.")
    let result ← orReject (fieldElement (value.lookup (js "result")))
      (invalid "The Fibonacci output is malformed.")
    return .fibonacci result
  | some .hashVerify => do
    rejectIf (¬ hasExactKeys value [js "type", js "valid"])
      (invalid "The hash verification output is malformed.")
    let valid ← orReject (asBoolean (value.lookup (js "valid")))
      (invalid "The hash verification output is malformed.")
    return .hashVerify valid
  | some .merkleProof => do
    rejectIf (¬ hasExactKeys value [js "type", js "valid"])
      (invalid "The Merkle verification output is malformed.")
    let valid ← orReject (asBoolean (value.lookup (js "valid")))
      (invalid "The Merkle verification output is malformed.")
    return .merkleProof valid
  | none => .error (invalid "The result output type is unsupported.")

/-- `feltFromNumber(valid ? 1 : 0)`. -/
def booleanFelt (valid : Bool) : Except JsError JsString := feltFromNumber (if valid then 1 else 0)

/-- `typedLayoutMatches`. -/
def typedLayoutMatches (output : JobOutput) (publicInput publicOutput : List JsString) :
    Except JsError Bool :=
  match output with
  | .fibonacci result => .ok (publicInput.length = 1 && publicOutput = [result])
  | .hashVerify valid => do
    let felt ← booleanFelt valid
    return publicInput.length = 1 && publicOutput = [felt]
  | .merkleProof valid => do
    let felt ← booleanFelt valid
    return publicInput.length = 3 && publicOutput = [felt]

/-- One error covers both lists of public values, their lengths and their elements. -/
def publicFeltsMessage : String := "The proof statement contains invalid public field elements."

/-- A statement whose typed output is the one that its raw output spells. -/
def parseStatement (value : Option Json) : Except JsError ProofStatement := do
  let value ← orReject (plainRecord value) (invalid "The proof statement has an invalid shape.")
  rejectIf (¬ hasExactKeys value
      [js "service", js "program", js "public_input", js "public_output", js "output"])
    (invalid "The proof statement has an invalid shape.")
  let service ← parseService (value.lookup (js "service"))
  rejectIf (¬ isLiteral (value.lookup (js "program")) (ofText cairoProgram))
    (invalid "The proof statement names an untrusted program identifier.")
  let rawInput ← orReject (asArray (value.lookup (js "public_input"))) (invalid publicFeltsMessage)
  rejectIf (rawInput.length > 32 + 4) (invalid publicFeltsMessage)
  let publicInput ← orReject (fieldElements rawInput) (invalid publicFeltsMessage)
  let rawOutput ← orReject (asArray (value.lookup (js "public_output"))) (invalid publicFeltsMessage)
  rejectIf (rawOutput.length > 32 + 8) (invalid publicFeltsMessage)
  let publicOutput ← orReject (fieldElements rawOutput) (invalid publicFeltsMessage)
  let output ← parseOutput (value.lookup (js "output"))
  rejectIf (output.type ≠ service)
    (invalid "The proof output service does not match the statement.")
  let layout ← typedLayoutMatches output publicInput publicOutput
  rejectIf (¬ layout) (invalid "The typed output does not match the Cairo public output layout.")
  return {
    service := service
    program := ofText cairoProgram
    public_input := publicInput
    public_output := publicOutput
    output := output }

/-- The members of a descriptor, all required. -/
def descriptorKeys : List JsString :=
  [js "format", js "media_type", js "url", js "sha256", js "byte_size", js "program_hash",
    js "channel"]

/-- One error covers everything in a descriptor but its shape and its URL. -/
def metadataMessage : String := "The proof descriptor metadata is invalid."

/-- A descriptor of the one format, media type and channel, at a URL that is safe to fetch. -/
def parseProofDescriptor (P : Platform) (value : Option Json) : Except JsError ProofDescriptor := do
  let value ← orReject (plainRecord value) (invalid "The proof descriptor has an invalid shape.")
  rejectIf (¬ hasExactKeys value descriptorKeys)
    (invalid "The proof descriptor has an invalid shape.")
  rejectIf (¬ isLiteral (value.lookup (js "format")) (ofText proofFormat)) (invalid metadataMessage)
  rejectIf (¬ isLiteral (value.lookup (js "media_type")) (ofText proofMediaType))
    (invalid metadataMessage)
  rejectIf (¬ isLiteral (value.lookup (js "channel")) (ofText proofChannel))
    (invalid metadataMessage)
  let sha256 ← orReject (hex64 (value.lookup (js "sha256"))) (invalid metadataMessage)
  let program_hash ← orReject (fieldElement (value.lookup (js "program_hash")))
    (invalid metadataMessage)
  let byte_size ← orReject (safeInteger (value.lookup (js "byte_size"))) (invalid metadataMessage)
  rejectIf (byte_size = 0 ∨ byte_size > 32 * 1024 * 1024) (invalid metadataMessage)
  let url ← orReject (asString (value.lookup (js "url"))) (invalid metadataMessage)
  rejectIf (¬ isSafeArtifactUrl P.parseUrl url) (invalid
    "The proof artifact must use HTTPS without credentials or fragments; HTTP is loopback-only.")
  return {
    format := ofText proofFormat
    media_type := ofText proofMediaType
    url := url
    sha256 := sha256
    byte_size := byte_size
    program_hash := program_hash
    channel := ofText proofChannel }

/-- Three durations. -/
def parseMetrics (value : Option Json) : Except JsError JobMetrics := do
  let value ← orReject (plainRecord value) (invalid "The provider metrics are malformed.")
  rejectIf (¬ hasExactKeys value [js "execution_ms", js "proving_ms", js "verification_ms"])
    (invalid "The provider metrics are malformed.")
  let execution_ms ← orReject (safeInteger (value.lookup (js "execution_ms")))
    (invalid "The provider metrics are malformed.")
  let proving_ms ← orReject (safeInteger (value.lookup (js "proving_ms")))
    (invalid "The provider metrics are malformed.")
  let verification_ms ← orReject (safeInteger (value.lookup (js "verification_ms")))
    (invalid "The provider metrics are malformed.")
  return ⟨execution_ms, proving_ms, verification_ms⟩

/-- `CONTROL_CHARACTER`: `/[\u0000-\u001f\u007f-\u009f]/u`. -/
def controlCharacter : CodePoint → Bool
  | .scalar c => c.toNat ≤ 0x1f || (0x7f ≤ c.toNat && c.toNat ≤ 0x9f)
  | .lone _ => false

/-- The error of a provider. The length of its message is bounded and control characters are out. -/
def parseFailedResult (value : List (JsString × Json)) (request_id : JsString) :
    Except JsError FailedJobResult := do
  let malformed := invalid "The provider error is malformed."
  rejectIf (¬ hasExactKeys value [js "status", js "protocol", js "request_id", js "error"]) malformed
  let error ← orReject (plainRecord (value.lookup (js "error"))) malformed
  rejectIf (¬ hasExactKeys error [js "code", js "message"]) malformed
  let codeText ← orReject (asString (error.lookup (js "code"))) malformed
  let code ← orReject (errorCodeOf codeText) malformed
  let message ← orReject (asString (error.lookup (js "message"))) malformed
  rejectIf (message = [] ∨ message.length > 160 ∨ message.any controlCharacter) malformed
  return ⟨ofText soulWireProtocol, request_id, ⟨code, message⟩⟩

/-- The members of a success, all required. -/
def resultKeys : List JsString :=
  [js "status", js "protocol", js "request_id", js "statement", js "proof", js "metrics"]

/-- A success: statement, descriptor and metrics, in this order. -/
def parseSuccessfulResult (P : Platform) (value : List (JsString × Json)) (request_id : JsString) :
    Except JsError SuccessfulJobResult := do
  rejectIf (¬ hasExactKeys value resultKeys)
    (invalid "The successful result has an invalid shape.")
  let statement ← parseStatement (value.lookup (js "statement"))
  let proof ← parseProofDescriptor P (value.lookup (js "proof"))
  let metrics ← parseMetrics (value.lookup (js "metrics"))
  return ⟨ofText soulWireProtocol, request_id, statement, proof, metrics⟩

/-- The content of a result. Status, protocol and request id are checked before the rest. -/
def parseResult (P : Platform) (value : Json) : Except JsError JobResult := do
  let value ← orReject (plainRecord (some value))
    (invalid "The result content does not contain a supported status.")
  rejectIf (¬ isLiteral (value.lookup (js "status")) (js "success") ∧
      ¬ isLiteral (value.lookup (js "status")) (js "error"))
    (invalid "The result content does not contain a supported status.")
  rejectIf (¬ isLiteral (value.lookup (js "protocol")) (ofText soulWireProtocol))
    (invalid "The result header is invalid.")
  let request_id ← orReject (hex64 (value.lookup (js "request_id")))
    (invalid "The result header is invalid.")
  if isLiteral (value.lookup (js "status")) (js "error") then
    return .error (← parseFailedResult value request_id)
  else
    return .success (← parseSuccessfulResult P value request_id)

/-! ### Request events -/

/-- `/^(0|[1-9][0-9]*)$/`. -/
def isDecimalLiteral (s : JsString) : Bool :=
  match s with
  | [.scalar '0'] => true
  | .scalar c :: rest =>
    c.isDigit && c ≠ '0' && rest.all fun | .scalar d => d.isDigit | .lone _ => false
  | _ => false

/-- `Number(digits)` of a decimal literal. -/
def numberOfDigits (s : JsString) : Number :=
  readNumber false (Nat.ofDigitChars 10 (toUsv s) 0) 0

/-- The bid in the tags: none, or one tag of a decimal without leading zeros. -/
def readBid (tags : List (List JsString)) : Except JsError (Option ℕ) :=
  match tags.filter fun tag => tag.head? = some (js "bid") with
  | [] => .ok none
  | [[_, value]] => do
    rejectIf (¬ isDecimalLiteral value) (invalid "The bid tag is malformed or duplicated.")
    let bid ← orReject (safeNumber (numberOfDigits value))
      (invalid "The bid is outside the JavaScript safe-integer range.")
    return some bid
  | _ => .error (invalid "The bid tag is malformed or duplicated.")

/-- The tags that a request with this content and bid has, in their order. -/
def requestTags (content : JobRequestContent) (bidMsats : Option ℕ) :
    Except JsError (List (List JsString)) := do
  rejectIf (∃ v ∈ bidMsats, v > maxSafeInteger)
    (invalid "The bid must be a non-negative safe integer in millisatoshis.")
  let canonical := ofText (serializeRequestContent content)
  return [[js "i", canonical, js "text"], [js "protocol", ofText soulWireProtocol],
      [js "service", serviceValue content.service], [js "t", ofText topic]] ++
    (content.expires_at.map fun e => [js "expiration", ofText (decimal e)]).toList ++
    (bidMsats.map fun b => [js "bid", ofText (decimal b)]).toList

/-- `JSON.stringify` of tag arrays. -/
def stringifyTags (tags : List (List JsString)) : Text := Json.stringify (tagsJson tags)

/-- A signed request, within its time window, whose content and tags are canonical: both are written
    again from what was read and compared with what came. -/
def validateRequestEvent (P : Platform) (event : Event) (now : ℕ) :
    Except JsError ValidatedRequest := do
  rejectIf (¬ P.verifyEvent event) (invalid "The request event ID or signature is invalid.")
  let service ← orReject (serviceFromKind event.kind)
    (invalid "The event kind is not a Soul Wire request kind.")
  rejectIf (event.kind ≠ .nat (getRequestKind service))
    (invalid "The event kind is not a Soul Wire request kind.")
  rejectIf (encodedLen event.content > 16 * 1024)
    (invalid "The request content exceeds the 16 KiB limit.")
  let created_at ← orReject (safeNumber event.created_at)
    (invalid "The request timestamp is outside the accepted observation window.")
  rejectIf (created_at > now + 5 * 60 ∨ now - created_at > 10 * 60)
    (invalid "The request timestamp is outside the accepted observation window.")
  let parsed ← orReject (Json.parse event.content) (invalid "The request content is not valid JSON.")
  let content ← parseRequestContent parsed created_at now
  rejectIf (content.service ≠ service)
    (invalid "The request kind does not match the declared service.")
  let canonicalContent := ofText (serializeRequestContent content)
  rejectIf (canonicalContent ≠ event.content)
    (invalid "The request content is not canonical Soul Wire JSON.")
  let bid ← readBid event.tags
  let tags ← requestTags content bid
  rejectIf (stringifyTags event.tags ≠ stringifyTags tags)
    (invalid "The request tags are missing, reordered, duplicated, or inconsistent.")
  return ⟨event, content, canonicalContent⟩

/-! ### Result events -/

/-- The tag arrays of an embedded event: non-empty arrays of strings. -/
def parseTags (value : Option Json) : Option (List (List JsString)) :=
  (asArray value).bind fun tags => tags.mapM fun tag =>
    (asArray (some tag)).bind fun parts =>
      if parts.length > 0 then parts.mapM fun part => asString (some part) else none

/-- The members of an event. -/
def embeddedKeys : List JsString :=
  [js "id", js "pubkey", js "created_at", js "kind", js "tags", js "content", js "sig"]

/-- The event in a `request` tag: one of the right shape, with a signature that holds. -/
def parseEmbeddedEvent (P : Platform) (serialized : JsString) : Except JsError Event := do
  let shape := invalid "The embedded request event has an invalid shape."
  let value ← orReject (Json.parse serialized)
    (invalid "The embedded request tag is not valid JSON.")
  let value ← orReject (plainRecord (some value)) shape
  rejectIf (¬ hasExactKeys value embeddedKeys) shape
  let id ← orReject (hex64 (value.lookup (js "id"))) shape
  let pubkey ← orReject (hex64 (value.lookup (js "pubkey"))) shape
  let sig ← orReject (asString (value.lookup (js "sig"))) shape
  rejectIf (¬ isHexString 128 sig) shape
  let created_at ← orReject (safeInteger (value.lookup (js "created_at"))) shape
  let kind ← orReject (safeInteger (value.lookup (js "kind"))) shape
  let content ← orReject (asString (value.lookup (js "content"))) shape
  let tags ← orReject (parseTags (value.lookup (js "tags"))) shape
  let event : Event := ⟨id, pubkey, .nat created_at, .nat kind, tags, content, sig⟩
  rejectIf (¬ P.verifyEvent event) (invalid "The embedded request event is not authentic.")
  return event

/-- `assertSameEvent`. Tag arrays are compared by their JSON. -/
def assertSameEvent (actual expected : Event) : Except JsError Unit :=
  rejectIf (actual.id ≠ expected.id ∨ actual.pubkey ≠ expected.pubkey ∨
      actual.created_at ≠ expected.created_at ∨ actual.kind ≠ expected.kind ∨
      actual.content ≠ expected.content ∨ actual.sig ≠ expected.sig ∨
      stringifyTags actual.tags ≠ stringifyTags expected.tags)
    (invalid "The result embeds a different request event.")

/-- `JSON.stringify` of a list of strings. -/
def stringifyStrings (values : List JsString) : Text := Json.stringify (.arr (values.map .str))

/-- The public values that the request and the typed output call for. -/
def expectedPublic (input : JobInput) (output : JobOutput) :
    Except JsError (List JsString × List JsString) :=
  match input, output with
  | .fibonacci n, .fibonacci result => do
    return ([← feltFromNumber n], [result])
  | .fibonacci _, _ => .error (invalid "The Fibonacci proof output is malformed.")
  | .hashVerify hash _, .hashVerify valid => do
    return ([hash], [← booleanFelt valid])
  | .hashVerify _ _, _ => .error (invalid "The hash proof output is malformed.")
  | .merkleProof root leaf _ index, .merkleProof valid => do
    return ([root, leaf, ← feltFromNumber index], [← booleanFelt valid])
  | .merkleProof _ _ _ _, _ => .error (invalid "The Merkle proof output is malformed.")

/-- A statement about the service, the public input and the typed output of the request. -/
def assertStatementBoundToRequest (statement : ProofStatement) (request : JobRequestContent) :
    Except JsError Unit := do
  rejectIf (statement.service ≠ request.service ∨ statement.output.type ≠ request.service)
    (invalid "The proof statement service is not bound to the request.")
  let (expectedInput, expectedOutput) ← expectedPublic request.input statement.output
  rejectIf (stringifyStrings statement.public_input ≠ stringifyStrings expectedInput ∨
      stringifyStrings statement.public_output ≠ stringifyStrings expectedOutput)
    (invalid "The proof statement public values do not match the signed request and output.")

/-- The binding check of a success; an error result has none. -/
def assertBound (content : JobResult) (request : JobRequestContent) : Except JsError Unit :=
  match content with
  | .success result => assertStatementBoundToRequest result.statement request
  | .error _ => .ok ()

/-- `event.tags[0][1]` of eight tags, the first of which is a `request` tag with one value. -/
def embeddedRequest (tags : List (List JsString)) : Option JsString :=
  match tags with
  | [name, value] :: rest => if rest.length = 7 ∧ name = js "request" then some value else none
  | _ => none

/-- The tags of a result, given its `request` tag. -/
def expectedTags (embedded : JsString) (request : ValidatedRequest) (content : JobResult) :
    List (List JsString) :=
  [[js "request", embedded], [js "e", request.event.id], [js "p", request.event.pubkey],
    [js "i", request.canonicalContent, js "text"], [js "status", content.status],
    [js "protocol", ofText soulWireProtocol], [js "service", serviceValue request.content.service],
    [js "t", ofText topic]]

/-- `event.created_at < request.event.created_at`, for a safe integer on the left. -/
def precedes (created_at : ℕ) : Number → Prop
  | .nat r => created_at < r
  | .other => False

instance (created_at : ℕ) : ∀ x : Number, Decidable (precedes created_at x)
  | .nat r => inferInstanceAs (Decidable (created_at < r))
  | .other => inferInstanceAs (Decidable False)

/-- A signed answer to the request, canonical in content and tags, that embeds the very event of the
    request. Who signed it is not checked here. -/
def validateResultEvent (P : Platform) (event : Event) (request : ValidatedRequest) (now : ℕ) :
    Except JsError ValidatedResult := do
  rejectIf (¬ P.verifyEvent event) (invalid "The result event ID or signature is invalid.")
  rejectIf (event.kind ≠ .nat (getResultKind request.content.service))
    (invalid "The result kind does not match the request service.")
  rejectIf (encodedLen event.content > 32 * 1024)
    (invalid "The result content exceeds the 32 KiB limit.")
  let created_at ← orReject (safeNumber event.created_at)
    (invalid "The result timestamp is inconsistent with the request.")
  rejectIf (precedes created_at request.event.created_at ∨ created_at > now + 5 * 60)
    (invalid "The result timestamp is inconsistent with the request.")
  let parsed ← orReject (Json.parse event.content) (invalid "The result content is not valid JSON.")
  let content ← parseResult P parsed
  rejectIf (ofText (serializeResult content) ≠ event.content)
    (invalid "The result content is not canonical Soul Wire JSON.")
  rejectIf (content.requestId ≠ request.event.id)
    (invalid "The result request ID does not match the signed request.")
  assertBound content request.content
  let embeddedText ← orReject (embeddedRequest event.tags)
    (invalid "The result tags have an invalid canonical shape.")
  let embedded ← parseEmbeddedEvent P embeddedText
  assertSameEvent embedded request.event
  rejectIf (stringifyTags event.tags ≠ stringifyTags (expectedTags embeddedText request content))
    (invalid "The result tags are reordered, duplicated, or inconsistent.")
  return ⟨event, content⟩

end SoulSociety.Sdk
