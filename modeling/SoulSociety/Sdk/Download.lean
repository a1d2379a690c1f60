import SoulSociety.Lib.Run
import SoulSociety.Sdk.Correspondence
import SoulSociety.Sdk.Proof

/-! A download depends on the bytes of the body, not on how they are split into chunks, and the read loop
    never keeps more than the descriptor and the limit allow. -/

namespace SoulSociety.Sdk
open Lib SoulSociety.Core

/-- Each byte as two hexadecimal digits. -/
def bytesToHex (bytes : ProofBytes) : JsString :=
  ofText (bytes.flatMap fun byte => List.leftpad 2 '0' (Nat.toDigits 16 byte.toNat))

/-- The body is too long for its descriptor. -/
def exceeded : JsError := fetchFailed "The proof response exceeded its declared size." false

variable {P : Platform} {sha256 : ProofBytes → JsString} {descriptor : ProofDescriptor}
  {response : HttpResponse} {signals : FetchSignals} {bytes : ProofBytes}
  {body : ResponseBody} {byteSize total : ℕ} {values chunks : List ProofBytes}

/-! ### The read loop -/

/-- The loop goes through the states of `readStep`. -/
theorem readChunks_append {state : ℕ × List ProofBytes} (rest : List ProofBytes) :
    ∀ {pre : List ProofBytes} {total : ℕ} {chunks : List ProofBytes},
      exec (readStep byteSize) (total, chunks) pre = some state →
      readChunks byteSize body (pre ++ rest) total chunks =
        readChunks byteSize body rest state.1 state.2
  | [], total, chunks, h => by
    cases h
    rfl
  | value :: pre, total, chunks, h => by
    obtain ⟨next, hnext, h⟩ := Option.bind_eq_some_iff.mp h
    rw [List.cons_append, readChunks, hnext]
    exact readChunks_append rest h

/-- The count is the size of what is kept, which stays within both limits. -/
def Bounded (byteSize : ℕ) (state : ℕ × List ProofBytes) : Prop :=
  state.2.flatten.length = state.1 ∧ state.1 ≤ min byteSize maxProofBytes

theorem bounded_step {state next : ℕ × List ProofBytes} {value : ProofBytes}
    (h : Bounded byteSize state) (hstep : readStep byteSize state value = some next) :
    Bounded byteSize next := by
  rw [readStep] at hstep
  obtain ⟨hlimit, hstep⟩ := Option.ite_none_left_eq_some.mp hstep
  obtain rfl := Option.some.inj hstep
  rw [not_or, not_lt, not_lt] at hlimit
  refine ⟨?_, le_min hlimit.2 hlimit.1⟩
  rw [List.flatten_append, List.length_append, h.1]
  simp

theorem bounded_visits {state : ℕ × List ProofBytes}
    (h : Visits (readStep byteSize) (0, []) values state) : Bounded byteSize state :=
  h.invariant ⟨rfl, Nat.zero_le _⟩ fun _ _ _ ht hbounded => bounded_step hbounded ht.enabled

/-- What the loop comes to, by the size of the body. -/
theorem readChunks_eq (hmax : total ≤ maxProofBytes) (hsize : total ≤ byteSize) :
    readChunks byteSize body values total chunks =
      if total + values.flatten.length > maxProofBytes ∨ total + values.flatten.length > byteSize then
        (do body.cancel; .error exceeded)
      else match body.failure with
        | some error => .error error
        | none => .ok (total + values.flatten.length, chunks ++ values) := by
  induction values generalizing total chunks with
  | nil =>
    have hlimit : ¬ (total > maxProofBytes ∨ total > byteSize) := by omega
    rewrite [readChunks, List.flatten_nil, List.length_nil, Nat.add_zero, List.append_nil,
      if_neg hlimit]
    cases body.failure <;> rfl
  | cons value rest ih =>
    rw [readChunks, List.flatten_cons, List.length_append]
    by_cases hlimit : total + value.length > maxProofBytes ∨ total + value.length > byteSize
    · rw [readStep, if_pos hlimit, if_pos (by omega)]
      rfl
    · rw [readStep, if_neg hlimit]
      rw [not_or, not_lt, not_lt] at hlimit
      dsimp only
      rw [ih hlimit.1 hlimit.2, Nat.add_assoc, List.append_assoc]
      rfl

/-! ### Downloads -/

/-- What `fetchProofArtifact` makes of a body. -/
def readBody (sha256 : ProofBytes → JsString) (descriptor : ProofDescriptor) (body : ResponseBody) :
    Except JsError ProofBytes := do
  let (total, chunks) ← readChunks descriptor.byte_size body body.chunks 0 []
  rejectIf (total ≠ descriptor.byte_size)
    (fetchFailed "The proof byte count does not match its signed descriptor." true)
  let bytes ← copyChunks chunks (List.replicate total 0) 0
  rejectIf (sha256 bytes ≠ descriptor.sha256) (.soulWire .proofHashMismatch
    (js "The proof bytes do not match the signed SHA-256 digest.") true)
  return bytes

/-- The bytes that a body carries decide. -/
theorem readBody_eq (sha256 : ProofBytes → JsString) (descriptor : ProofDescriptor)
    (body : ResponseBody) : readBody sha256 descriptor body =
    if body.chunks.flatten.length > maxProofBytes ∨
        body.chunks.flatten.length > descriptor.byte_size then (do body.cancel; .error exceeded)
    else match body.failure with
      | some failure => .error failure
      | none => (do
        rejectIf (body.chunks.flatten.length ≠ descriptor.byte_size)
          (fetchFailed "The proof byte count does not match its signed descriptor." true)
        rejectIf (sha256 body.chunks.flatten ≠ descriptor.sha256) (.soulWire .proofHashMismatch
          (js "The proof bytes do not match the signed SHA-256 digest.") true)
        return body.chunks.flatten) := by
  have hcopy : copyChunks body.chunks (List.replicate body.chunks.flatten.length 0) 0 =
      .ok body.chunks.flatten := copyChunks_new rfl
  rw [readBody, readChunks_eq (Nat.zero_le _) (Nat.zero_le _), Nat.zero_add, List.nil_append]
  split
  · cases body.cancel <;> rfl
  · cases body.failure with
    | some failure => rfl
    | none =>
      change (rejectIf _ _ >>= fun _ => copyChunks body.chunks
        (List.replicate body.chunks.flatten.length 0) 0 >>= _) = _
      rw [hcopy]
      rfl

theorem readBody_congr {body' : ResponseBody} (hbytes : body'.chunks.flatten = body.chunks.flatten)
    (hfailure : body'.failure = body.failure) (hcancel : body'.cancel = body.cancel) :
    readBody sha256 descriptor body' = readBody sha256 descriptor body := by
  rw [readBody_eq, readBody_eq, hbytes, hfailure, hcancel]

theorem readBody_eq_ok (hfailure : body.failure = none) : readBody sha256 descriptor body = .ok bytes ↔
    body.chunks.flatten.length = descriptor.byte_size ∧ descriptor.byte_size ≤ maxProofBytes ∧
      sha256 body.chunks.flatten = descriptor.sha256 ∧ bytes = body.chunks.flatten := by
  rw [readBody_eq, hfailure]
  split
  · rename_i hlimit
    constructor
    · intro h
      obtain ⟨_, -, h⟩ := bind_eq_ok.mp h
      cases h
    · rintro ⟨hsize, hmax, -⟩
      omega
  · rename_i hlimit
    simp only [bind_eq_ok, rejectIf_eq_ok, pure_eq_ok, exists_unit, not_not]
    constructor
    · rintro ⟨hsize, hdigest, rfl⟩
      exact ⟨hsize, by omega, hdigest, rfl⟩
    · rintro ⟨hsize, -, hdigest, rfl⟩
      exact ⟨hsize, hdigest, rfl⟩

/-- A successful response whose headers agree with the descriptor. -/
structure HttpResponse.Matches (P : Platform) (descriptor : ProofDescriptor)
    (response : HttpResponse) : Prop where
  ok : response.ok = true
  url : response.url = [] ∨ isSafeArtifactUrl P.parseUrl response.url = true
  mediaType : response.mediaType = some (ofText proofMediaType)
  contentLength : ∀ length ∈ response.contentLength, length = .nat descriptor.byte_size

/-- The checks on the headers, then the body. -/
theorem readResponse_eq_ok (h : readResponse P sha256 descriptor response = .ok bytes)
    (hbody : response.body = some body) : readBody sha256 descriptor body = .ok bytes := by
  simp only [readResponse, bind_eq_ok, exists_unit, orReject_eq_ok, hbody, Option.some.injEq,
    exists_eq_left'] at h
  simp only [readBody, bind_eq_ok, exists_unit]
  exact h.2.2.2.2

/-- Headers that agree let a body of an admitted size through. -/
theorem readResponse_of_matches (h : response.Matches P descriptor)
    (hurl : isSafeArtifactUrl P.parseUrl descriptor.url = true)
    (hsize : descriptor.byte_size ≤ maxProofBytes) (hbody : response.body = some body)
    (hread : readBody sha256 descriptor body = .ok bytes) :
    readResponse P sha256 descriptor response = .ok bytes := by
  have hsafe : isSafeArtifactUrl P.parseUrl
      (if response.url = [] then descriptor.url else response.url) = true := by
    split
    · exact hurl
    · rename_i hne
      exact h.url.resolve_left hne
  have hlength : ¬ ∃ length ∈ response.contentLength,
      ∀ n ∈ safeNumber length, n > maxProofBytes ∨ n ≠ descriptor.byte_size := by
    rintro ⟨length, hmem, hbad⟩
    have hn : safeNumber (.nat descriptor.byte_size) = some descriptor.byte_size :=
      if_pos (Nat.le_trans hsize (by decide))
    rw [h.contentLength length hmem] at hbad
    rcases hbad _ hn with hgt | hne
    · omega
    · exact hne rfl
  simp only [readBody, bind_eq_ok, exists_unit, rejectIf_eq_ok, not_not] at hread
  simp only [readResponse, bind_eq_ok, exists_unit, orReject_eq_ok, hbody, Option.some.injEq,
    exists_eq_left', validateFetchedUrl, rejectIf_eq_ok, not_not]
  exact ⟨h.ok, hsafe, h.mediaType, hlength, hread⟩

theorem readResponse_congr {body' : ResponseBody}
    (hread : readBody sha256 descriptor body' = readBody sha256 descriptor body) :
    readResponse P sha256 descriptor { response with body := some body' } =
      readResponse P sha256 descriptor { response with body := some body } := by
  simp only [readResponse]
  refine bind_congr fun _ => bind_congr fun _ => bind_congr fun _ => bind_congr fun _ => ?_
  exact hread

theorem fetchProofArtifact_response (hurl : isSafeArtifactUrl P.parseUrl descriptor.url = true) :
    fetchProofArtifact P sha256 descriptor signals (.response response) =
      match readResponse P sha256 descriptor response with
      | .ok bytes => .ok bytes
      | .error error => .error (fetchError signals error) := by
  have havailable : rejectIf (FetchAnswer.response response = .unavailable)
      (fetchFailed "No Fetch implementation is available." false) = .ok () :=
    if_neg FetchAnswer.noConfusion
  have hvalid : validateFetchedUrl P descriptor.url = .ok () := rejectIf_eq_ok.mpr (not_not.mpr hurl)
  rw [fetchProofArtifact, havailable, hvalid]
  rfl

/-- A download returns the concatenation of the chunks when it has the declared size, at most the limit,
    and the declared digest, and nothing else; the way the body is split does not matter; and at every
    point of the read loop what is kept is within both limits. -/
theorem download_exact (digest : ProofBytes → ProofBytes) (signals : FetchSignals)
    (hurl : isSafeArtifactUrl P.parseUrl descriptor.url = true)
    (hmatches : response.Matches P descriptor) (cancel : Except JsError Unit)
    (hbody : response.body = some ⟨chunks, none, cancel⟩) :
    (∀ bytes, fetchProofArtifact P (fun b => bytesToHex (digest b)) descriptor signals
          (.response response) = .ok bytes ↔
        chunks.flatten.length = descriptor.byte_size ∧ descriptor.byte_size ≤ maxProofBytes ∧
          bytesToHex (digest chunks.flatten) = descriptor.sha256 ∧ bytes = chunks.flatten) ∧
      (∀ chunks' : List ProofBytes, chunks'.flatten = chunks.flatten →
        fetchProofArtifact P (fun b => bytesToHex (digest b)) descriptor signals
            (.response { response with body := some ⟨chunks', none, cancel⟩ }) =
          fetchProofArtifact P (fun b => bytesToHex (digest b)) descriptor signals
            (.response response)) ∧
      ∀ (pre rest : List ProofBytes) (total : ℕ) (retained : List ProofBytes), chunks = pre ++ rest →
        exec (readStep descriptor.byte_size) (0, []) pre = some (total, retained) →
        readChunks descriptor.byte_size ⟨chunks, none, cancel⟩ chunks 0 [] =
            readChunks descriptor.byte_size ⟨chunks, none, cancel⟩ rest total retained ∧
          retained.flatten.length ≤ min descriptor.byte_size maxProofBytes := by
  refine ⟨fun bytes => ?_, fun chunks' hchunks => ?_, fun pre rest total retained hsplit hpre => ?_⟩
  · have hbytes : readBody (fun b => bytesToHex (digest b)) descriptor ⟨chunks, none, cancel⟩ =
        .ok bytes ↔ _ := readBody_eq_ok rfl
    refine Iff.trans ?_ hbytes
    rw [fetchProofArtifact_response hurl]
    constructor
    · intro h
      split at h
      · rename_i hread
        cases h
        exact readResponse_eq_ok hread hbody
      · cases h
    · intro h
      obtain ⟨-, hsize, -, -⟩ := (readBody_eq_ok rfl).mp h
      rw [readResponse_of_matches hmatches hurl hsize hbody h]
  · have hread : readBody (fun b => bytesToHex (digest b)) descriptor ⟨chunks', none, cancel⟩ =
        readBody (fun b => bytesToHex (digest b)) descriptor ⟨chunks, none, cancel⟩ :=
      readBody_congr hchunks rfl rfl
    have hsame : { response with body := some ⟨chunks, none, cancel⟩ } = response := by
      rw [← hbody]
    rw [fetchProofArtifact_response hurl, fetchProofArtifact_response hurl, readResponse_congr hread,
      hsame]
  · have hvisits : Visits (readStep descriptor.byte_size) (0, []) pre (total, retained) :=
      (Visits.last hpre)
    have hbounded := bounded_visits hvisits
    refine ⟨?_, ?_⟩
    · subst hsplit
      exact readChunks_append rest hpre
    · rw [hbounded.1]
      exact hbounded.2

/-! ### A download in three chunks -/

def examplePlatform : Platform where
  verifyEvent _ := false
  parseUrl _ := some ⟨text "https", [], none, some (.domain (text "proofs.example")), none, [], none,
    none⟩

/-- A digest of 32 zeros. -/
def exampleDescriptor : ProofDescriptor where
  format := ofText proofFormat
  media_type := ofText proofMediaType
  url := js "https://proofs.example/v1/proof.json"
  sha256 := bytesToHex (List.replicate 32 0)
  byte_size := 3
  program_hash := (FeltHex.fromU64 9).toSdk
  channel := ofText proofChannel

def exampleResponse : HttpResponse where
  ok := true
  status := 200
  url := []
  mediaType := some (ofText proofMediaType)
  contentLength := some (.nat 3)
  body := some ⟨[[1], [], [2, 3]], none, .ok ()⟩

theorem example_download : fetchProofArtifact examplePlatform
    (fun _ => bytesToHex (List.replicate 32 0)) exampleDescriptor ⟨false, false⟩
    (.response exampleResponse) = .ok [1, 2, 3] := by
  have hmatches : exampleResponse.Matches examplePlatform exampleDescriptor := by
    refine ⟨rfl, Or.inl rfl, rfl, fun length h => ?_⟩
    cases h
    rfl
  have h := download_exact (fun _ => List.replicate 32 0) ⟨false, false⟩
    (by decide : isSafeArtifactUrl examplePlatform.parseUrl exampleDescriptor.url = true) hmatches
    (.ok ()) rfl
  exact (h.1 [1, 2, 3]).mpr ⟨rfl, by decide, rfl, rfl⟩

end SoulSociety.Sdk
