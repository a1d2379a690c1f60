import SoulSociety.Core.Documents
import SoulSociety.Sdk.Decoders

/-! What the result decoders of the SDK accept. A statement that decodes is a statement that
    `soul-core` validates. A descriptor or an error may hold strings that no Rust value has, so
    their shape is a predicate on SDK values: everything the decoder checks but the URL policy. -/

namespace SoulSociety.Sdk
open Lib SoulSociety.Core

/-! ### Statements -/

theorem parseOutput_toJson : ∀ o : Core.JobOutput, parseOutput (some o.toJson) = .ok o.toSdk
  | .fibonacci result => by
    change (do
      rejectIf (¬ hasExactKeys [(js "type", jsonText (text "fibonacci")),
        (js "result", result.toJson)] [js "type", js "result"])
        (invalid "The Fibonacci output is malformed.")
      let result ← orReject (fieldElement (some result.toJson))
        (invalid "The Fibonacci output is malformed.")
      return JobOutput.fibonacci result : Except JsError JobOutput) = _
    simp only [bind_eq_ok, rejectIf_eq_ok, orReject_eq_ok, pure_eq_ok, exists_unit, not_not]
    exact ⟨rfl, _, fieldElement_toJson result, rfl⟩
  | .hashVerify _ => rfl
  | .merkleProof _ => rfl

theorem parseOutput_sound {v : Option Json} {o : JobOutput} (h : parseOutput v = .ok o) :
    ∃ c : Core.JobOutput, c.toSdk = o := by
  simp only [parseOutput, bind_eq_ok, orReject_eq_ok] at h
  obtain ⟨ms, -, ty, -, h⟩ := h
  split at h
  · simp only [bind_eq_ok, rejectIf_eq_ok, orReject_eq_ok, pure_eq_ok, exists_unit] at h
    obtain ⟨-, s, hs, rfl⟩ := h
    obtain ⟨f, rfl⟩ := exists_of_fieldElement hs
    exact ⟨.fibonacci f, rfl⟩
  · simp only [bind_eq_ok, rejectIf_eq_ok, orReject_eq_ok, pure_eq_ok, exists_unit] at h
    obtain ⟨-, b, -, rfl⟩ := h
    exact ⟨.hashVerify b, rfl⟩
  · simp only [bind_eq_ok, rejectIf_eq_ok, orReject_eq_ok, pure_eq_ok, exists_unit] at h
    obtain ⟨-, b, -, rfl⟩ := h
    exact ⟨.merkleProof b, rfl⟩
  · cases h

theorem booleanFelt_eq (valid : Bool) :
    booleanFelt valid = .ok (FeltHex.fromU64 (Core.ProofStatement.boolU64 valid)).toSdk := by
  rw [booleanFelt, Core.ProofStatement.boolU64]
  cases valid
  · exact feltFromNumber_eq (by decide)
  · exact feltFromNumber_eq (by decide)

theorem map_toSdk_eq_singleton {fs : List FeltHex} {f : FeltHex} :
    fs.map FeltHex.toSdk = [f.toSdk] ↔ fs = [f] :=
  (List.map_injective_iff.mpr FeltHex.toSdk_injective).eq_iff (b := [f])

/-- The layout check is the one of `ProofStatement::validate`. -/
theorem typedLayoutMatches_toSdk (s : Core.ProofStatement) (hservice : s.output.service = s.service) :
    typedLayoutMatches s.output.toSdk (s.public_input.map FeltHex.toSdk)
      (s.public_output.map FeltHex.toSdk) = .ok s.layoutMatches := by
  obtain ⟨service, program, inputs, outputs, output⟩ := s
  cases output with
  | fibonacci result =>
    obtain rfl : ServiceType.fibonacci = service := hservice
    simp only [Core.JobOutput.toSdk, typedLayoutMatches, Core.ProofStatement.layoutMatches,
      List.length_map, map_toSdk_eq_singleton]
  | hashVerify valid =>
    obtain rfl : ServiceType.hashVerify = service := hservice
    simp only [Core.JobOutput.toSdk, typedLayoutMatches, Core.ProofStatement.layoutMatches,
      List.length_map, booleanFelt_eq, bind_eq_ok, pure_eq_ok]
    exact ⟨_, rfl, by rw [decide_eq_decide.mpr map_toSdk_eq_singleton]⟩
  | merkleProof valid =>
    obtain rfl : ServiceType.merkleProof = service := hservice
    simp only [Core.JobOutput.toSdk, typedLayoutMatches, Core.ProofStatement.layoutMatches,
      List.length_map, booleanFelt_eq, bind_eq_ok, pure_eq_ok]
    exact ⟨_, rfl, by rw [decide_eq_decide.mpr map_toSdk_eq_singleton]⟩

/-- A matching layout fixes the service, and both lists are short. -/
theorem layoutMatches_bounds {s : Core.ProofStatement} (h : s.layoutMatches = true) :
    s.output.service = s.service ∧ s.public_input.length ≤ 32 + 4 ∧
      s.public_output.length ≤ 32 + 8 := by
  obtain ⟨service, program, inputs, outputs, output⟩ := s
  cases service <;> cases output <;> simp_all [Core.ProofStatement.layoutMatches] <;> rfl

/-- The decoder of statements undoes the encoder. -/
theorem parseStatement_toJson {s : Core.ProofStatement} (h : s.validate = .ok ()) :
    parseStatement (some s.toJson) = .ok s.toSdk := by
  obtain ⟨hprogram, hlayout⟩ := Core.ProofStatement.validate_iff.mp h
  obtain ⟨hservice, hin, hout⟩ := layoutMatches_bounds hlayout
  have hread := typedLayoutMatches_toSdk s hservice
  rw [hlayout] at hread
  have hdeclared : serviceOf (ofText s.service.asStr) = some s.service := by
    rw [← serviceValue_eq]; exact serviceOf_serviceValue _
  rw [parseStatement, Core.ProofStatement.toJson]
  simp only [plainRecord, bind_eq_ok, orReject_eq_ok, rejectIf_eq_ok, pure_eq_ok, exists_unit,
    Option.some.injEq, exists_eq_left', not_not]
  refine ⟨rfl, s.service, ?_, congrArg (fun p => some (ofText p)) hprogram, _, rfl, ?_, _,
    fieldElements_toJson s.public_input, _, rfl, ?_, _, fieldElements_toJson s.public_output,
    s.output.toSdk, parseOutput_toJson s.output, ?_, true, hread, rfl, ?_⟩
  · simp only [parseService, bind_eq_ok, orReject_eq_ok]
    exact ⟨_, rfl, hdeclared⟩
  · rw [List.length_map]; exact Nat.not_lt.mpr hin
  · rw [List.length_map]; exact Nat.not_lt.mpr hout
  · rw [type_toSdk, hservice]
  · rw [Core.ProofStatement.toSdk, hprogram]

/-- What the decoder of statements returns is a statement that `soul-core` validates. -/
theorem parseStatement_sound {v : Option Json} {s : ProofStatement} (h : parseStatement v = .ok s) :
    ∃ c : Core.ProofStatement, c.validate = .ok () ∧ c.toSdk = s := by
  simp only [parseStatement, bind_eq_ok, orReject_eq_ok, rejectIf_eq_ok, pure_eq_ok, exists_unit,
    not_not] at h
  obtain ⟨ms, -, -, service, -, -, rawIn, -, -, ins, hins, rawOut, -, -, outs, houts, output,
    houtput, htype, layout, hlayout, hok, rfl⟩ := h
  obtain ⟨-, fs, rfl⟩ := exists_of_fieldElements hins
  obtain ⟨-, gs, rfl⟩ := exists_of_fieldElements houts
  obtain ⟨o, rfl⟩ := parseOutput_sound houtput
  rw [type_toSdk] at htype
  let c : Core.ProofStatement := ⟨service, cairoProgram, fs, gs, o⟩
  have hread := typedLayoutMatches_toSdk c htype
  rw [hlayout] at hread
  refine ⟨c, Core.ProofStatement.validate_iff.mpr ⟨rfl, ?_⟩, rfl⟩
  rw [← Except.ok.inj hread]
  exact hok

/-! ### Descriptors, metrics, errors -/

/-- Every check of the descriptor decoder but the URL policy. -/
structure ProofDescriptor.Shaped (p : ProofDescriptor) : Prop where
  format : p.format = ofText proofFormat
  media_type : p.media_type = ofText proofMediaType
  channel : p.channel = ofText proofChannel
  sha256 : isHex64 p.sha256 = true
  program_hash : isFieldElement p.program_hash = true
  byte_size : p.byte_size ≠ 0 ∧ p.byte_size ≤ Core.maxProofBytes
  url : Paired p.url

theorem parseProofDescriptor_json {P : Platform} {p : ProofDescriptor} (h : p.Shaped)
    (hurl : isSafeArtifactUrl P.parseUrl p.url = true) :
    parseProofDescriptor P (some (descriptorJson p)) = .ok p := by
  obtain ⟨hzero, hmax⟩ := h.byte_size
  rw [Core.maxProofBytes] at hmax
  have hsafe : p.byte_size ≤ maxSafeInteger := by rw [maxSafeInteger]; omega
  rw [parseProofDescriptor, descriptorJson]
  simp only [plainRecord, bind_eq_ok, orReject_eq_ok, rejectIf_eq_ok, pure_eq_ok, exists_unit,
    Option.some.injEq, exists_eq_left', not_not]
  refine ⟨rfl, congrArg some h.format, congrArg some h.media_type, congrArg some h.channel,
    p.sha256, ?_, p.program_hash, ?_, p.byte_size, safeInteger_jsonNat hsafe, by omega, p.url, rfl,
    hurl, ?_⟩
  · exact Option.filter_eq_some_iff.mpr ⟨rfl, h.sha256⟩
  · exact Option.filter_eq_some_iff.mpr ⟨rfl, h.program_hash⟩
  · rw [← h.format, ← h.media_type, ← h.channel]

theorem paired_of_asString {v : Option Json} (hv : ∀ w, v = some w → w.StringsPaired)
    {s : JsString} (h : asString v = some s) : Paired s := by
  rw [asString.eq_def] at h
  split at h
  · cases h; exact hv _ rfl
  · cases h

/-- The members of a record of a parsed document. -/
theorem membersPaired_of_plainRecord {v : Option Json} {ms : List (JsString × Json)}
    (hv : ∀ w, v = some w → w.StringsPaired) (h : plainRecord v = some ms) :
    Json.MembersPaired ms := by
  rw [plainRecord.eq_def] at h
  split at h
  · cases h; exact hv _ rfl
  · cases h

theorem parseProofDescriptor_sound {P : Platform} {v : Option Json} {p : ProofDescriptor}
    (hv : ∀ w, v = some w → w.StringsPaired) (h : parseProofDescriptor P v = .ok p) :
    p.Shaped ∧ isSafeArtifactUrl P.parseUrl p.url = true := by
  simp only [parseProofDescriptor, bind_eq_ok, orReject_eq_ok, rejectIf_eq_ok, pure_eq_ok,
    exists_unit, not_not] at h
  obtain ⟨ms, hms, -, -, -, -, sha, hsha, hash, hhash, size, hsize, hbounds, url, hurl, hsafe,
    rfl⟩ := h
  have hpaired : Paired url :=
    paired_of_asString (fun w hw => (membersPaired_of_plainRecord hv hms).lookup hw) hurl
  refine ⟨⟨rfl, rfl, rfl, (Option.filter_eq_some_iff.mp hsha).2,
    (Option.filter_eq_some_iff.mp hhash).2, ?_, hpaired⟩, hsafe⟩
  rw [Core.maxProofBytes]
  exact ⟨fun h => hbounds (Or.inl h), Nat.not_lt.mp fun h => hbounds (Or.inr h)⟩

theorem parseMetrics_json {m : JobMetrics} (h : m.Safe) :
    parseMetrics (some (metricsJson m)) = .ok m := by
  obtain ⟨hexecution, hproving, hverification⟩ := h
  rw [parseMetrics, metricsJson]
  simp only [plainRecord, bind_eq_ok, orReject_eq_ok, rejectIf_eq_ok, pure_eq_ok, exists_unit,
    Option.some.injEq, exists_eq_left', not_not]
  exact ⟨rfl, _, safeInteger_jsonNat hexecution, _, safeInteger_jsonNat hproving, _,
    safeInteger_jsonNat hverification, rfl⟩

theorem parseMetrics_sound {v : Option Json} {m : JobMetrics} (h : parseMetrics v = .ok m) :
    m.Safe := by
  simp only [parseMetrics, bind_eq_ok, orReject_eq_ok, rejectIf_eq_ok, pure_eq_ok, exists_unit] at h
  obtain ⟨ms, -, -, a, ha, b, hb, c, hc, rfl⟩ := h
  exact ⟨safeInteger_le ha, safeInteger_le hb, safeInteger_le hc⟩

/-- Every check on a provider error. -/
structure JobError.Shaped (e : JobError) : Prop where
  nonempty : e.message ≠ []
  bounded : e.message.length ≤ 160
  printable : e.message.any controlCharacter = false
  paired : Paired e.message

/-! ### Results -/

/-- Every check on the result content but the URL policy. -/
def JobResult.Shaped : JobResult → Prop
  | .success r => r.protocol = ofText soulWireProtocol ∧ isHex64 r.request_id = true ∧
      (∃ c : Core.ProofStatement, c.validate = .ok () ∧ c.toSdk = r.statement) ∧ r.proof.Shaped ∧
      r.metrics.Safe
  | .error r => r.protocol = ofText soulWireProtocol ∧ isHex64 r.request_id = true ∧ r.error.Shaped

/-- The URL policy, where there is a URL. -/
def JobResult.UrlOk (parseUrl : Text → Option Url) : JobResult → Prop
  | .success r => isSafeArtifactUrl parseUrl r.proof.url = true
  | .error _ => True

/-- On shaped values canonicalization changes nothing. -/
theorem canonicalizeResult_eq : ∀ {c : JobResult}, c.Shaped → canonicalizeResult c = c
  | .success r, h => by
    obtain ⟨hprotocol, -, ⟨s, hs, hstatement⟩, hproof, -⟩ := h
    have hprogram : r.statement.program = ofText cairoProgram := by
      rw [← hstatement, Core.ProofStatement.toSdk, (Core.ProofStatement.validate_iff.mp hs).1]
    have hs' : canonicalizeStatement r.statement = r.statement := by
      rw [canonicalizeStatement, canonicalizeOutput_eq, ← hprogram]
    have hp' : canonicalizeProofDescriptor r.proof = r.proof := by
      rw [canonicalizeProofDescriptor, ← hproof.format, ← hproof.media_type, ← hproof.channel]
    rw [canonicalizeResult, hs', hp', ← hprotocol]
  | .error r, h => by
    rw [canonicalizeResult, ← h.1]

theorem parseFailedResult_json {r : FailedJobResult} (hprotocol : r.protocol = ofText soulWireProtocol)
    (h : r.error.Shaped) {ms : List (JsString × Json)} (hms : resultJson (.error r) = .obj ms) :
    parseFailedResult ms r.request_id = .ok r := by
  cases hms
  rw [parseFailedResult]
  simp only [bind_eq_ok, orReject_eq_ok, rejectIf_eq_ok, pure_eq_ok, exists_unit, not_not]
  refine ⟨rfl, _, rfl, rfl, _, rfl, _, errorCodeOf_errorCodeValue _, _, rfl, ?_, ?_⟩
  · rintro (hnil | hlong | hctl)
    · exact h.nonempty hnil
    · exact absurd h.bounded (Nat.not_le.mpr hlong)
    · rw [h.printable] at hctl; cases hctl
  · rw [← hprotocol]

theorem parseFailedResult_sound {ms : List (JsString × Json)} (hms : Json.MembersPaired ms)
    {id : JsString} {r : FailedJobResult} (h : parseFailedResult ms id = .ok r) :
    r.protocol = ofText soulWireProtocol ∧ r.request_id = id ∧ r.error.Shaped := by
  simp only [parseFailedResult, bind_eq_ok, orReject_eq_ok, rejectIf_eq_ok, pure_eq_ok,
    exists_unit, not_or] at h
  obtain ⟨-, err, herr, -, codeText, -, code, -, message, hmessage, ⟨hnil, hlong, hctl⟩, rfl⟩ := h
  have herrs := membersPaired_of_plainRecord (fun w hw => hms.lookup hw) herr
  exact ⟨rfl, rfl, hnil, Nat.not_lt.mp hlong, Bool.not_eq_true _ ▸ hctl,
    paired_of_asString (fun w hw => herrs.lookup hw) hmessage⟩

/-- The decoder of results undoes the encoder. -/
theorem parseResult_json {P : Platform} {c : JobResult} (h : c.Shaped) (hurl : c.UrlOk P.parseUrl) :
    parseResult P (resultJson c) = .ok c := by
  cases c with
  | success r =>
    obtain ⟨hprotocol, hid, ⟨s, hs, hstatement⟩, hproof, hmetrics⟩ := h
    have hread : parseStatement (some (statementJson r.statement)) = .ok r.statement := by
      rw [← hstatement, statementJson_toSdk]; exact parseStatement_toJson hs
    have hsuccess : parseSuccessfulResult P [(js "status", .str (js "success")),
        (js "protocol", .str r.protocol), (js "request_id", .str r.request_id),
        (js "statement", statementJson r.statement), (js "proof", descriptorJson r.proof),
        (js "metrics", metricsJson r.metrics)] r.request_id = .ok r := by
      rw [parseSuccessfulResult]
      simp only [bind_eq_ok, rejectIf_eq_ok, pure_eq_ok, exists_unit, not_not]
      exact ⟨rfl, _, hread, _, parseProofDescriptor_json hproof hurl, _, parseMetrics_json hmetrics,
        by rw [← hprotocol]⟩
    rw [parseResult, resultJson]
    simp only [plainRecord, bind_eq_ok, orReject_eq_ok, rejectIf_eq_ok, exists_unit,
      Option.some.injEq, exists_eq_left']
    refine ⟨fun hbad => hbad.1 rfl, not_not.mpr (congrArg some hprotocol), r.request_id,
      Option.filter_eq_some_iff.mpr ⟨rfl, hid⟩, ?_⟩
    have hstatus : ¬ isLiteral (some (.str (js "success"))) (js "error") := by decide
    exact (if_neg hstatus).trans (bind_eq_ok.mpr ⟨r, hsuccess, rfl⟩)
  | error r =>
    obtain ⟨hprotocol, hid, herror⟩ := h
    rw [parseResult, resultJson]
    simp only [plainRecord, bind_eq_ok, orReject_eq_ok, rejectIf_eq_ok, exists_unit,
      Option.some.injEq, exists_eq_left']
    refine ⟨fun hbad => hbad.2 rfl, not_not.mpr (congrArg some hprotocol), r.request_id,
      Option.filter_eq_some_iff.mpr ⟨rfl, hid⟩, ?_⟩
    have hstatus : isLiteral (some (.str (js "error"))) (js "error") := rfl
    exact (if_pos hstatus).trans
      (bind_eq_ok.mpr ⟨r, parseFailedResult_json hprotocol herror rfl, rfl⟩)

/-- What the decoder of results returns from a parsed document is shaped and has a safe URL. -/
theorem parseResult_sound {P : Platform} {v : Json} (hv : v.StringsPaired) {c : JobResult}
    (h : parseResult P v = .ok c) : c.Shaped ∧ c.UrlOk P.parseUrl := by
  simp only [parseResult, bind_eq_ok, orReject_eq_ok, rejectIf_eq_ok, exists_unit] at h
  obtain ⟨ms, hms, -, -, id, hid, h⟩ := h
  have hpaired : Json.MembersPaired ms :=
    membersPaired_of_plainRecord (fun w hw => Option.some.inj hw ▸ hv) hms
  have hid' : isHex64 id = true := (Option.filter_eq_some_iff.mp hid).2
  split at h
  · obtain ⟨r, hr, hc⟩ := bind_eq_ok.mp h
    rw [pure_eq_ok] at hc
    subst hc
    obtain ⟨hprotocol, hrid, herror⟩ := parseFailedResult_sound hpaired hr
    exact ⟨⟨hprotocol, hrid ▸ hid', herror⟩, trivial⟩
  · obtain ⟨r, hr, hc⟩ := bind_eq_ok.mp h
    rw [pure_eq_ok] at hc
    subst hc
    simp only [parseSuccessfulResult, bind_eq_ok, rejectIf_eq_ok, pure_eq_ok, exists_unit] at hr
    obtain ⟨-, s, hs, p, hp, m, hm, rfl⟩ := hr
    obtain ⟨hproof, hurl⟩ := parseProofDescriptor_sound (fun w hw => hpaired.lookup hw) hp
    exact ⟨⟨rfl, hid', parseStatement_sound hs, hproof, parseMetrics_sound hm⟩, hurl⟩

/-! ### Shaped results and `soul-core` -/

/-- The strings that JSON leaves open are Unicode text. -/
def JobResult.Unicode : JobResult → Prop
  | .success r => IsText r.proof.url
  | .error r => IsText r.error.message

theorem shaped_descriptor_toSdk {d : Core.ProofDescriptor} :
    d.toSdk.Shaped ↔ d.MetadataOk ∧ isLowerHex d.sha256 64 = true := by
  have hsha : isHex64 d.toSdk.sha256 = isLowerHex d.sha256 64 := isHexString_ofText 64 d.sha256
  constructor
  · intro h
    refine ⟨⟨ofText_inj.mp h.format, ofText_inj.mp h.media_type, ofText_inj.mp h.channel,
      h.byte_size⟩, ?_⟩
    rw [← hsha]
    exact h.sha256
  · rintro ⟨⟨hformat, hmedia, hchannel, hsize⟩, hhex⟩
    exact ⟨congrArg ofText hformat, congrArg ofText hmedia, congrArg ofText hchannel,
      hsha.trans hhex, d.program_hash.isFieldElement_toSdk, hsize, paired_ofText d.url⟩

theorem controlCharacter_ofText (t : Text) : (ofText t).any controlCharacter = t.any isControl := by
  rw [ofText, List.any_map]
  congr 1
  funext c
  simp only [Function.comp_apply, controlCharacter, isControl]
  congr 1
  · exact decide_eq_decide.mpr (by omega)
  · congr 1
    exact decide_eq_decide.mpr (by omega)

theorem shaped_error_toSdk {code : ErrorCode} {message : Text} :
    (JobError.mk code (ofText message)).Shaped ↔ Core.JobError.MessageOk message := by
  have hlen : (ofText message).length = message.length := List.length_map ..
  have hnil : ofText message = [] ↔ message = [] := List.map_eq_nil_iff
  constructor
  · rintro ⟨hne, hbound, hprint, -⟩
    refine ⟨fun h => hne (hnil.mpr h), hlen ▸ hbound, ?_⟩
    rw [← controlCharacter_ofText]
    exact hprint
  · rintro ⟨hne, hbound, hprint⟩
    exact ⟨fun h => hne (hnil.mp h), hlen ▸ hbound, (controlCharacter_ofText message).trans hprint,
      paired_ofText message⟩

/-- Both languages check the same of a result. -/
theorem shaped_toSdk : ∀ {c : JobResultContent}, c.toSdk.Shaped ↔ c.Shaped
  | .success protocol request_id statement proof metrics => by
    have hid : isHex64 (ofText request_id) = isLowerHex request_id 64 :=
      isHexString_ofText 64 request_id
    have hstatement : (∃ s : Core.ProofStatement, s.validate = .ok () ∧ s.toSdk = statement.toSdk) ↔
        statement.program = cairoProgram ∧ statement.layoutMatches = true := by
      rw [← Core.ProofStatement.validate_iff]
      constructor
      · rintro ⟨s, hs, heq⟩
        rw [← Core.ProofStatement.toSdk_injective heq]
        exact hs
      · intro h
        exact ⟨statement, h, rfl⟩
    simp only [JobResultContent.toSdk, JobResult.Shaped, JobResultContent.Shaped, ofText_inj, hid,
      hstatement, shaped_descriptor_toSdk]
  | .error protocol request_id err => by
    have hid : isHex64 (ofText request_id) = isLowerHex request_id 64 :=
      isHexString_ofText 64 request_id
    simp only [JobResultContent.toSdk, JobResult.Shaped, JobResultContent.Shaped, ofText_inj, hid,
      shaped_error_toSdk]

/-- A shaped result of Unicode text is a value of `soul-core`. -/
theorem JobResult.Shaped.unicode_iff : ∀ {c : JobResult}, c.Shaped →
    (c.Unicode ↔ ∃ r : JobResultContent, r.toSdk = c)
  | .success ⟨protocol, request_id, statement, proof, metrics⟩,
      ⟨hprotocol, hhex, ⟨s, _, hstatement⟩, hproof, _⟩ => by
    constructor
    · rintro ⟨url, hurl⟩
      obtain ⟨id, hid⟩ := isText_of_isHexString hhex
      obtain ⟨sha, hsha⟩ := isText_of_isHexString hproof.sha256
      obtain ⟨f, hf⟩ := isFieldElement_iff.mp hproof.program_hash
      obtain ⟨hformat, hmedia, hchannel, -, -, -, -⟩ := hproof
      obtain ⟨format, media, url', sha', size, hash, channel⟩ := proof
      simp only at hprotocol hid hurl hsha hf hformat hmedia hchannel hstatement
      subst hprotocol hid hurl hsha hf hformat hmedia hchannel hstatement
      exact ⟨.success soulWireProtocol id s ⟨proofFormat, proofMediaType, url, sha, size, f,
        proofChannel⟩ metrics, rfl⟩
    · rintro ⟨r, hr⟩
      cases r with
      | success _ _ _ d _ =>
        cases hr
        exact ⟨d.url, rfl⟩
      | error _ _ _ => cases hr
  | .error ⟨protocol, request_id, ⟨code, message⟩⟩, ⟨hprotocol, hhex, _⟩ => by
    constructor
    · rintro ⟨m, hm⟩
      obtain ⟨id, hid⟩ := isText_of_isHexString hhex
      simp only at hprotocol hid hm
      subst hprotocol hid hm
      exact ⟨.error soulWireProtocol id ⟨code, m⟩, rfl⟩
    · rintro ⟨r, hr⟩
      cases r with
      | success _ _ _ _ _ => cases hr
      | error _ _ err =>
        cases hr
        exact ⟨err.message, rfl⟩

/-- On shaped results the SDK writes the bytes that `soul-core` writes. -/
theorem serializeResult_toSdk {c : JobResultContent} (h : c.Shaped) :
    serializeResult c.toSdk = c.toText := by
  rw [serializeResult, canonicalizeResult_eq (shaped_toSdk.mpr h), resultJson_toSdk]; rfl

/-! ### Documents of shaped results -/

theorem plain_str {ok : ℕ → Prop} {s : JsString} (h : Paired s) : Json.PlainFor ok (.str s) := h

theorem paired_of_isHexString {n : ℕ} {s : JsString} (h : isHexString n s = true) : Paired s :=
  (isText_of_isHexString h).paired

theorem paired_of_isFieldElement {s : JsString} (h : isFieldElement s = true) : Paired s := by
  obtain ⟨f, rfl⟩ := isFieldElement_iff.mp h
  exact paired_ofText f.value

/-- The document of a shaped result survives the round trip. -/
theorem plain_resultJson : ∀ {c : JobResult}, c.Shaped → (resultJson c).Plain
  | .success r, h => by
    obtain ⟨hprotocol, hid, ⟨s, -, hstatement⟩, hproof, hmetrics⟩ := h
    obtain ⟨-, hsize⟩ := hproof.byte_size
    obtain ⟨hexecution, hproving, hverification⟩ := hmetrics
    rw [Core.maxProofBytes] at hsize
    rw [maxSafeInteger] at hexecution hproving hverification
    have hs : (statementJson r.statement).Plain := by
      rw [← hstatement, statementJson_toSdk]; exact s.plain
    have hp : (descriptorJson r.proof).Plain := by
      refine Json.plain_obj descriptorKeys rfl (by decide) ?_
      simp only [List.forall_mem_cons]
      refine ⟨plain_str ?_, plain_str ?_, plain_str hproof.url,
        plain_str (paired_of_isHexString hproof.sha256),
        show r.proof.byte_size < 2 ^ 53 by omega,
        plain_str (paired_of_isFieldElement hproof.program_hash), plain_str ?_, by simp⟩
      · rw [hproof.format]; exact paired_ofText _
      · rw [hproof.media_type]; exact paired_ofText _
      · rw [hproof.channel]; exact paired_ofText _
    have hm : (metricsJson r.metrics).Plain :=
      Core.JobMetrics.plain ⟨by omega, by omega, by omega⟩
    refine Json.plain_obj resultKeys rfl (by decide) ?_
    simp only [List.forall_mem_cons]
    refine ⟨plain_str (paired_ofText _), plain_str ?_, plain_str (paired_of_isHexString hid), hs, hp,
      hm, by simp⟩
    rw [hprotocol]; exact paired_ofText _
  | .error r, h => by
    obtain ⟨hprotocol, hid, herror⟩ := h
    have hcode : Paired (errorCodeValue r.error.code) := by
      rw [errorCodeValue_eq]; exact paired_ofText _
    have he : (Json.obj [(js "code", .str (errorCodeValue r.error.code)),
        (js "message", .str r.error.message)]).Plain := by
      refine Json.plain_obj [js "code", js "message"] rfl (by decide) ?_
      simp only [List.forall_mem_cons]
      exact ⟨plain_str hcode, plain_str herror.paired, by simp⟩
    refine Json.plain_obj [js "status", js "protocol", js "request_id", js "error"] rfl
      (by decide) ?_
    simp only [List.forall_mem_cons]
    refine ⟨plain_str (paired_ofText _), plain_str ?_, plain_str (paired_of_isHexString hid), he,
      by simp⟩
    rw [hprotocol]; exact paired_ofText _

/-- What the SDK writes for a shaped result it reads back as the same document. -/
theorem parse_serializeResult {c : JobResult} (h : c.Shaped) :
    Json.parse (ofText (serializeResult c)) = some (resultJson c) := by
  rw [serializeResult, canonicalizeResult_eq h]
  exact Json.parse_stringify (plain_resultJson h)

/-- The decoder undoes the encoder, so a text stands for one shaped result. -/
theorem serializeResult_inj {c d : JobResult} (hc : c.Shaped) (hd : d.Shaped)
    (h : serializeResult c = serializeResult d) : c = d := by
  -- a platform with which every URL passes, so that only the shape matters
  obtain ⟨P, hurl⟩ : ∃ P : Platform, ∀ x : JobResult, x.UrlOk P.parseUrl := by
    let u : Url := ⟨text "https", [], none, some (.domain (text "a")), none, [], none, none⟩
    have hu : urlAllowed u = true := rfl
    refine ⟨⟨fun _ => false, fun _ => some u⟩, ?_⟩
    rintro (r | r)
    · exact hu
    · exact trivial
  have hdoc : resultJson c = resultJson d := by
    have hparse := parse_serializeResult hc
    rw [h, parse_serializeResult hd] at hparse
    exact (Option.some.inj hparse).symm
  have hread := parseResult_json hc (hurl c)
  rw [hdoc, parseResult_json hd (hurl d)] at hread
  exact (Except.ok.inj hread).symm

end SoulSociety.Sdk
