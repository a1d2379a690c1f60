import SoulSociety.Sdk.Validation

/-! Download and verification of a proof (`soul-sdk/src/proof.ts`). The HTTP exchange and the verdict
    of the verifier are arguments; SHA-256 is a parameter. -/

namespace SoulSociety.Sdk
open Lib SoulSociety.Core

abbrev ProofBytes := List UInt8

/-- The body of a response: its chunks, how it ends, and what cancelling its reader does. -/
structure ResponseBody where
  chunks : List ProofBytes
  failure : Option JsError
  cancel : Except JsError Unit
  deriving DecidableEq

/-- What `fetchProofArtifact` reads of a `Response`. The media type is the first part of the content
    type, trimmed and in lower case; the content length is as `Number` reads it. -/
structure HttpResponse where
  ok : Bool
  status : ℕ
  url : JsString
  mediaType : Option JsString
  contentLength : Option Number
  body : Option ResponseBody
  deriving DecidableEq

/-- What comes of a call of `fetch`. -/
inductive FetchAnswer where
  | unavailable
  | rejected (error : JsError)
  | response (response : HttpResponse)
  deriving DecidableEq

/-- The signals in the end: that of the caller, and the one combined from it and the timeout. -/
structure FetchSignals where
  source : Bool
  combined : Bool
  deriving DecidableEq

def fetchFailed (message : String) (retryable : Bool) : JsError :=
  .soulWire .proofFetchFailed (js message) retryable

def validateFetchedUrl (P : Platform) (value : JsString) : Except JsError Unit :=
  rejectIf (¬ isSafeArtifactUrl P.parseUrl value) (fetchFailed
    "Proof URLs require HTTPS without credentials or fragments; HTTP is loopback-only." false)

/-- `LIMITS.MAX_PROOF_BYTES`. -/
def maxProofBytes : ℕ := 32 * 1024 * 1024

/-- A turn of the read loop with the bytes and the chunks so far, or `none` where the body is too long
    for its descriptor. -/
def readStep (byteSize : ℕ) (state : ℕ × List ProofBytes) (value : ProofBytes) :
    Option (ℕ × List ProofBytes) :=
  if state.1 + value.length > maxProofBytes ∨ state.1 + value.length > byteSize then none
  else some (state.1 + value.length, state.2 ++ [value])

/-- The read loop, with the bytes and the chunks so far. -/
def readChunks (byteSize : ℕ) (body : ResponseBody) :
    List ProofBytes → ℕ → List ProofBytes → Except JsError (ℕ × List ProofBytes)
  | [], total, chunks =>
    match body.failure with
    | some error => .error error
    | none => .ok (total, chunks)
  | value :: rest, total, chunks =>
    match readStep byteSize (total, chunks) value with
    | some next => readChunks byteSize body rest next.1 next.2
    | none => do
      body.cancel
      .error (fetchFailed "The proof response exceeded its declared size." false)

/-- `bytes.set(chunk, offset)`. -/
def setBytes (bytes chunk : ProofBytes) (offset : ℕ) : Except JsError ProofBytes := do
  rejectIf (offset + chunk.length > bytes.length) (.other (js "offset is out of bounds"))
  return bytes.take offset ++ chunk ++ bytes.drop (offset + chunk.length)

/-- The copy loop. -/
def copyChunks : List ProofBytes → ProofBytes → ℕ → Except JsError ProofBytes
  | [], bytes, _ => .ok bytes
  | chunk :: rest, bytes, offset => do
    let bytes ← setBytes bytes chunk offset
    copyChunks rest bytes (offset + chunk.length)

/-- The checks on the response, and its bytes. -/
def readResponse (P : Platform) (sha256 : ProofBytes → JsString) (descriptor : ProofDescriptor)
    (response : HttpResponse) : Except JsError ProofBytes := do
  rejectIf (¬ response.ok) (.soulWire .proofFetchFailed
    (js "The proof server returned HTTP " ++ ofText (decimal response.status) ++ js ".")
    (response.status ≥ 500 ∨ response.status = 408 ∨ response.status = 429))
  validateFetchedUrl P (if response.url = [] then descriptor.url else response.url)
  rejectIf (response.mediaType ≠ some (ofText proofMediaType)) (.soulWire .proofFetchFailed
    (js "The proof server must return " ++ ofText proofMediaType ++ js ".") false)
  rejectIf (∃ length ∈ response.contentLength,
      ∀ n ∈ safeNumber length, n > maxProofBytes ∨ n ≠ descriptor.byte_size)
    (fetchFailed "The HTTP content length does not match the signed proof descriptor." false)
  let body ← orReject response.body
    (fetchFailed "The Fetch implementation cannot stream the proof response safely." false)
  let (total, chunks) ← readChunks descriptor.byte_size body body.chunks 0 []
  rejectIf (total ≠ descriptor.byte_size)
    (fetchFailed "The proof byte count does not match its signed descriptor." true)
  let bytes ← copyChunks chunks (List.replicate total 0) 0
  rejectIf (sha256 bytes ≠ descriptor.sha256) (.soulWire .proofHashMismatch
    (js "The proof bytes do not match the signed SHA-256 digest.") true)
  return bytes

/-- The `catch` of `fetchProofArtifact`. -/
def fetchError (signals : FetchSignals) : JsError → JsError
  | .soulWire code message retryable => .soulWire code message retryable
  | _ =>
    if signals.combined then
      fetchFailed (if signals.source then "The proof download was cancelled."
        else "The proof download timed out.") (!signals.source)
    else fetchFailed "The proof artifact could not be downloaded." true

def fetchProofArtifact (P : Platform) (sha256 : ProofBytes → JsString) (descriptor : ProofDescriptor)
    (signals : FetchSignals) (answer : FetchAnswer) : Except JsError ProofBytes := do
  rejectIf (answer = .unavailable) (fetchFailed "No Fetch implementation is available." false)
  validateFetchedUrl P descriptor.url
  match answer with
  | .response response =>
    match readResponse P sha256 descriptor response with
    | .ok bytes => .ok bytes
    | .error error => .error (fetchError signals error)
  | .rejected error => .error (fetchError signals error)
  | .unavailable => .error (fetchError signals (.other []))

/-- `verifyProofBytes` before it calls the verifier. -/
def checkProgram (result : SuccessfulJobResult) (trustedProgramHash : JsString) :
    Except JsError Unit :=
  rejectIf (result.proof.program_hash ≠ trustedProgramHash ∨
      result.statement.program ≠ js "soul-cairo-v1")
    (.soulWire .untrustedProgram
      (js "The result does not match the reviewed Cairo program hash.") false)

/-- `verifyProofBytes` after the verifier: what it returned, or `none` when it threw. -/
def judge : Option Bool → Except JsError Unit
  | some true => .ok ()
  | some false => .error (.soulWire .verificationFailed
      (js "The local STWO verifier rejected this proof.") false)
  | none => .error (.soulWire .verificationFailed
      (js "The local STWO verifier could not validate this proof.") false)

/-! ### What a download returns -/

variable {P : Platform} {sha256 : ProofBytes → JsString} {descriptor : ProofDescriptor}
  {response : HttpResponse} {signals : FetchSignals} {answer : FetchAnswer} {bytes : ProofBytes}
  {body : ResponseBody} {byteSize total n : ℕ} {values chunks retained : List ProofBytes}

/-- The count is the length of the chunks that are kept. -/
theorem readChunks_length (hcount : chunks.flatten.length = total)
    (h : readChunks byteSize body values total chunks = .ok (n, retained)) :
    retained.flatten.length = n := by
  induction values generalizing total chunks with
  | nil =>
    rw [readChunks] at h
    split at h
    · cases h
    · cases h
      exact hcount
  | cons value rest ih =>
    rw [readChunks] at h
    split at h
    · rename_i next hnext
      obtain ⟨-, hnext⟩ := Option.ite_none_left_eq_some.mp hnext
      obtain rfl := Option.some.inj hnext
      refine ih ?_ h
      rw [List.flatten_append, List.length_append, hcount]
      simp
    · obtain ⟨_, -, h⟩ := bind_eq_ok.mp h
      cases h

/-- A chunk goes behind what was copied before. -/
theorem setBytes_append (copied chunk : ProofBytes) (n : ℕ) :
    setBytes (copied ++ List.replicate (chunk.length + n) 0) chunk copied.length =
      .ok (copied ++ chunk ++ List.replicate n 0) := by
  have hdrop : (copied ++ List.replicate (chunk.length + n) 0).drop (copied.length + chunk.length) =
      List.replicate n 0 := by
    rw [List.drop_append, List.drop_replicate, List.drop_eq_nil_of_le (Nat.le_add_right _ _),
      Nat.add_sub_cancel_left, Nat.add_sub_cancel_left]
    rfl
  simp only [setBytes, bind_eq_ok, rejectIf_eq_ok, pure_eq_ok, exists_unit]
  refine ⟨?_, ?_⟩
  · rw [List.length_append, List.length_replicate]
    omega
  · rw [List.take_left, hdrop]

/-- The chunks fill what is left of the array. -/
theorem copyChunks_eq : ∀ (chunks : List ProofBytes) (copied : ProofBytes),
    copyChunks chunks (copied ++ List.replicate chunks.flatten.length 0) copied.length =
      .ok (copied ++ chunks.flatten)
  | [], copied => by simp [copyChunks]
  | chunk :: rest, copied => by
    have ih := copyChunks_eq rest (copied ++ chunk)
    rw [List.length_append, List.append_assoc copied chunk rest.flatten] at ih
    rw [copyChunks, List.flatten_cons, List.length_append, setBytes_append]
    exact ih

/-- The array is the concatenation of the chunks. -/
theorem copyChunks_new (h : chunks.flatten.length = total) :
    copyChunks chunks (List.replicate total 0) 0 = .ok chunks.flatten := by
  rw [← h]
  exact copyChunks_eq chunks []

/-- Downloaded bytes have the size and the digest of the descriptor. -/
theorem readResponse_ok (h : readResponse P sha256 descriptor response = .ok bytes) :
    bytes.length = descriptor.byte_size ∧ sha256 bytes = descriptor.sha256 := by
  simp only [readResponse, bind_eq_ok, rejectIf_eq_ok, orReject_eq_ok, pure_eq_ok, exists_unit,
    not_not] at h
  obtain ⟨-, -, -, -, body, -, ⟨total, chunks⟩, hread, htotal, copied, hcopied, hdigest, rfl⟩ := h
  have hempty : ([] : List ProofBytes).flatten.length = 0 := rfl
  have hlength := readChunks_length hempty hread
  rw [copyChunks_new hlength] at hcopied
  obtain rfl := Except.ok.inj hcopied
  exact ⟨hlength.trans htotal, hdigest⟩

theorem fetchProofArtifact_ok (h : fetchProofArtifact P sha256 descriptor signals answer = .ok bytes) :
    bytes.length = descriptor.byte_size ∧ sha256 bytes = descriptor.sha256 := by
  simp only [fetchProofArtifact, bind_eq_ok, exists_unit] at h
  obtain ⟨-, -, h⟩ := h
  split at h
  · split at h
    · rename_i hread
      cases h
      exact readResponse_ok hread
    · cases h
  · cases h
  · cases h

theorem judge_eq_ok {verdict : Option Bool} : judge verdict = .ok () ↔ verdict = some true := by
  match verdict with
  | some true => simp [judge]
  | some false => simp [judge]
  | none => simp [judge]

end SoulSociety.Sdk
