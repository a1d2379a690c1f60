import Mathlib.Data.List.Basic
import SoulSociety.Provider.Artifacts

/-! The public HTTP application (`artifact_router` of `provider/src/artifacts.rs`). The store is what
    its `get` answers; the decoding of a path segment comes from `axum`. Of the CORS layer the allowed
    origin and the preflight answer are kept; the `content-length` that `axum` adds where a handler
    sets none is left out. -/

namespace SoulSociety.Provider
open Lib SoulSociety.Core

/-- A response. The names of headers are in lower case. -/
structure Response where
  status : ℕ
  headers : List (Text × Text)
  body : Bytes
  deriving DecidableEq

/-- `response.headers().get(name)`. -/
def Response.header (r : Response) (name : Text) : Option Text := r.headers.lookup name

/-- The methods that the routes tell apart. -/
inductive Method where
  | get
  | head
  | options
  | other
  deriving DecidableEq, Repr

/-- `HeaderValue::from_str`: visible ASCII, blanks and tabs. -/
def headerValue (value : Text) : Option Text :=
  if value.all fun c => (' ' ≤ c && c ≤ '~') || c = '\t' then some value else none

/-- A status without a body. -/
def emptyResponse (status : ℕ) : Response := ⟨status, [], []⟩

/-- A stored artifact. A header whose value is not valid is left out. -/
def immutableResponse (sha256 : Text) (bytes : Bytes) (head_only : Bool) : Response where
  status := 200
  headers := [(text "content-type", proofMediaType),
    (text "cache-control", text "public, max-age=31536000, immutable"),
    (text "x-content-type-options", text "nosniff"),
    (text "access-control-expose-headers", text "content-length, etag")] ++
    ((headerValue (decimal bytes.length)).map fun value => (text "content-length", value)).toList ++
    ((headerValue (['"'] ++ sha256 ++ ['"'])).map fun value => (text "etag", value)).toList
  body := if head_only then [] else bytes

/-- What the two handlers of artifacts do: they differ in the body only. -/
def artifactResponse (get : Text → Except ArtifactError (Option Bytes)) (artifact : Text)
    (head_only : Bool) : Response :=
  match artifact.dropSuffix? (text ".json") with
  | none => emptyResponse 404
  | some sha256 =>
    match get sha256 with
    | .ok (some bytes) => immutableResponse sha256 bytes head_only
    | .ok none => emptyResponse 404
    | .error _ => emptyResponse 500

/-- `GET` under `/v1/proofs/`. -/
def getArtifact (get : Text → Except ArtifactError (Option Bytes)) (artifact : Text) : Response :=
  artifactResponse get artifact false

/-- `HEAD` under `/v1/proofs/`. -/
def headArtifact (get : Text → Except ArtifactError (Option Bytes)) (artifact : Text) : Response :=
  artifactResponse get artifact true

/-- The bytes of an ASCII text. -/
def asciiBytes (t : Text) : Bytes := t.map fun c => UInt8.ofNat c.toNat

/-- The answer of `/healthz`. -/
def health : Response where
  status := 200
  headers := [(text "content-type", text "application/json")]
  body := asciiBytes (Json.stringify (.obj [(key "status", jsonText (text "ok")),
    (key "protocol", jsonText soulWireProtocol)]))

/-- The answer of `axum` to a segment that is not UTF-8 once it is decoded. -/
def invalidPath : Response where
  status := 400
  headers := [(text "content-type", text "text/plain; charset=utf-8")]
  body := asciiBytes (text "Invalid URL: Invalid UTF-8 in `artifact`")

/-- The answer of `axum` to a method without a handler. -/
def methodNotAllowed : Response := ⟨405, [(text "allow", text "GET,HEAD")], []⟩

/-- The routes: `/healthz`, and one segment under `/v1/proofs/`. -/
inductive Route where
  | health
  | artifact (segment : Text)
  deriving DecidableEq

/-- What stands before the name of an artifact. -/
def proofsPath : Text := text "/v1/proofs/"

/-- The route of a path. A segment is not empty and has no slash. -/
def route (path : Text) : Option Route :=
  if path = text "/healthz" then some .health
  else
    match path.dropPrefix? proofsPath with
    | some segment => if segment ≠ [] ∧ '/' ∉ segment then some (.artifact segment) else none
    | none => none

/-- What the routes answer before the CORS layer. -/
def routed (decode : Text → Option Text) (get : Text → Except ArtifactError (Option Bytes))
    (method : Method) (path : Text) : Response :=
  match route path, method with
  | none, _ => emptyResponse 404
  | some .health, .get => health
  | some .health, .head => { health with body := [] }
  | some (.artifact segment), .get =>
    match decode segment with
    | some artifact => getArtifact get artifact
    | none => invalidPath
  | some (.artifact segment), .head =>
    match decode segment with
    | some artifact => headArtifact get artifact
    | none => { invalidPath with body := [] }
  | some _, _ => methodNotAllowed

/-- Build the public proof and health HTTP application. -/
def artifactRouter (decode : Text → Option Text) (get : Text → Except ArtifactError (Option Bytes))
    (method : Method) (path : Text) : Response :=
  if method = .options then
    ⟨200, [(text "access-control-allow-origin", text "*"),
      (text "access-control-allow-methods", text "GET,HEAD"),
      (text "access-control-max-age", text "86400")], []⟩
  else
    let response := routed decode get method path
    { response with
      headers := response.headers ++ [(text "access-control-allow-origin", text "*")] }

/-! ### What is served -/

variable {decode : Text → Option Text} {get : Text → Except ArtifactError (Option Bytes)}
  {path segment sha256 : Text} {bytes : Bytes}

theorem headerValue_decimal (n : ℕ) : headerValue (decimal n) = some (decimal n) := by
  refine if_pos (List.all_eq_true.mpr fun c hc => ?_)
  have hdigit := isDigit_of_mem_decimal hc
  simp only [Char.isDigit, Bool.and_eq_true, decide_eq_true_eq] at hdigit
  have hlow : ' ' ≤ c := Nat.le_trans (by decide : (32 : ℕ) ≤ 48) hdigit.1
  have hhigh : c ≤ '~' := Nat.le_trans hdigit.2 (by decide : (57 : ℕ) ≤ 126)
  simp [hlow, hhigh]

theorem headerValue_quoted (h : sha256.all isLowerHexDigit = true) :
    headerValue (['"'] ++ sha256 ++ ['"']) = some (['"'] ++ sha256 ++ ['"']) := by
  have hhex : ∀ c ∈ sha256, ((' ' ≤ c && c ≤ '~') || c = '\t') = true := by
    intro c hc
    have hdigit := List.all_eq_true.mp h c hc
    simp only [isLowerHexDigit, Bool.or_eq_true, Bool.and_eq_true, decide_eq_true_eq] at hdigit
    have hbounds : ' ' ≤ c ∧ c ≤ '~' := by
      rcases hdigit with ⟨hlow, hhigh⟩ | ⟨hlow, hhigh⟩
      · exact ⟨Nat.le_trans (by decide : (32 : ℕ) ≤ 48) hlow,
          Nat.le_trans hhigh (by decide : (57 : ℕ) ≤ 126)⟩
      · exact ⟨Nat.le_trans (by decide : (32 : ℕ) ≤ 97) hlow,
          Nat.le_trans hhigh (by decide : (102 : ℕ) ≤ 126)⟩
    simp [hbounds.1, hbounds.2]
  refine if_pos (List.all_eq_true.mpr fun c hc => ?_)
  simp only [List.cons_append, List.nil_append, List.mem_cons, List.mem_append, List.not_mem_nil,
    or_false] at hc
  rcases hc with rfl | hc | rfl
  · decide
  · exact hhex c hc
  · decide

/-- The headers of a stored artifact. -/
def artifactHeaders (sha256 : Text) (byte_size : ℕ) : List (Text × Text) :=
  [(text "content-type", proofMediaType),
    (text "cache-control", text "public, max-age=31536000, immutable"),
    (text "x-content-type-options", text "nosniff"),
    (text "access-control-expose-headers", text "content-length, etag"),
    (text "content-length", decimal byte_size),
    (text "etag", ['"'] ++ sha256 ++ ['"']),
    (text "access-control-allow-origin", text "*")]

theorem immutableResponse_eq (h : isLowerHex sha256 64 = true) (bytes : Bytes) (head_only : Bool) :
    immutableResponse sha256 bytes head_only =
      ⟨200, (artifactHeaders sha256 bytes.length).dropLast, if head_only then [] else bytes⟩ := by
  obtain ⟨-, hhex⟩ := (Bool.and_eq_true _ _).mp h
  rw [immutableResponse, headerValue_decimal, headerValue_quoted hhex]
  rfl

theorem dropSuffix_json (t : Text) : (t ++ text ".json").dropSuffix? (text ".json") = some t :=
  List.dropSuffix?_eq_some_iff.mpr ⟨_, rfl, beq_self_eq_true _⟩

theorem slash_not_mem_artifact (h : isLowerHex sha256 64 = true) : '/' ∉ sha256 ++ text ".json" := by
  obtain ⟨-, hhex⟩ := (Bool.and_eq_true _ _).mp h
  intro hmem
  rcases List.mem_append.mp hmem with hmem | hmem
  · exact absurd (List.all_eq_true.mp hhex _ hmem) (by decide)
  · exact absurd hmem (by decide)

theorem route_artifact (hne : segment ≠ []) (hslash : '/' ∉ segment) :
    route (proofsPath ++ segment) = some (.artifact segment) := by
  have hprefix : (proofsPath ++ segment).dropPrefix? proofsPath = some segment :=
    List.dropPrefix?_eq_some_iff.mpr ⟨_, rfl, beq_self_eq_true _⟩
  have hhealth : proofsPath ++ segment ≠ text "/healthz" := by
    intro heq
    have hsecond : some 'v' = some 'h' := congrArg (fun t : Text => t[1]?) heq
    exact absurd hsecond (by decide)
  rw [route, if_neg hhealth, hprefix]
  exact if_pos ⟨hne, hslash⟩

/-- An artifact in the store is served under the path of its descriptor, and `HEAD` sends the same
    headers. -/
theorem artifactRouter_artifact (hsha : isLowerHex sha256 64 = true)
    (hdecode : decode (sha256 ++ text ".json") = some (sha256 ++ text ".json"))
    (hget : get sha256 = .ok (some bytes)) :
    artifactRouter decode get .get ('/' :: artifactPath sha256) =
        ⟨200, artifactHeaders sha256 bytes.length, bytes⟩ ∧
      artifactRouter decode get .head ('/' :: artifactPath sha256) =
        ⟨200, artifactHeaders sha256 bytes.length, []⟩ := by
  have hne : sha256 ++ text ".json" ≠ [] := by simp
  have hroute : route ('/' :: artifactPath sha256) = some (.artifact (sha256 ++ text ".json")) :=
    route_artifact hne (slash_not_mem_artifact hsha)
  have hresponse : ∀ head_only, artifactResponse get (sha256 ++ text ".json") head_only =
      immutableResponse sha256 bytes head_only := by
    intro head_only
    rw [artifactResponse, dropSuffix_json]
    simp only [hget]
  constructor
  · simp only [artifactRouter, routed, hroute, hdecode, getArtifact, hresponse,
      immutableResponse_eq hsha, if_neg (by decide : ¬ Method.get = .options)]
    rfl
  · simp only [artifactRouter, routed, hroute, hdecode, headArtifact, hresponse,
      immutableResponse_eq hsha, if_neg (by decide : ¬ Method.head = .options)]
    rfl

theorem path_of_route_health (h : route path = some .health) : path = text "/healthz" := by
  rw [route] at h
  split at h
  · rename_i heq
    exact heq
  · split at h
    · cases (Option.ite_none_right_eq_some.mp h).2
    · cases h

theorem path_of_route_artifact (h : route path = some (.artifact segment)) :
    path = proofsPath ++ segment := by
  rw [route] at h
  split at h
  · cases h
  · split at h
    · rename_i heq
      obtain ⟨-, hsegment⟩ := Option.ite_none_right_eq_some.mp h
      cases hsegment
      obtain ⟨p, rfl, hp⟩ := List.dropPrefix?_eq_some_iff.mp heq
      rw [eq_of_beq hp]
    · cases h

/-- A handler succeeds only with what the store returns for the name before `.json`. -/
theorem artifactResponse_of_status {artifact : Text} {head_only : Bool}
    (h : (artifactResponse get artifact head_only).status = 200) : ∃ sha256 bytes,
      artifact = sha256 ++ text ".json" ∧ get sha256 = .ok (some bytes) ∧
        (artifactResponse get artifact head_only).body = if head_only then [] else bytes := by
  rw [artifactResponse] at h ⊢
  split at h
  · cases h
  · rename_i sha256 hsuffix
    obtain ⟨p, rfl, hp⟩ := List.dropSuffix?_eq_some_iff.mp hsuffix
    split at h
    · rename_i bytes hget
      rw [eq_of_beq hp]
      exact ⟨sha256, bytes, rfl, hget, rfl⟩
    · cases h
    · cases h

/-- What `GET` serves is the health document, or the bytes that the store has under the digest that the
    path names. -/
theorem served_of_status (hstatus : (artifactRouter decode get .get path).status = 200) :
    path = text "/healthz" ∨ ∃ segment sha256 bytes, path = proofsPath ++ segment ∧
      decode segment = some (sha256 ++ text ".json") ∧ get sha256 = .ok (some bytes) ∧
        (artifactRouter decode get .get path).body = bytes := by
  have hrouted : (routed decode get .get path).status = 200 := hstatus
  change _ ∨ ∃ segment sha256 bytes, _ ∧ _ ∧ _ ∧ (routed decode get .get path).body = bytes
  cases hroute : route path with
  | none =>
    simp only [routed, hroute] at hrouted
    cases hrouted
  | some r =>
    cases r with
    | health => exact Or.inl (path_of_route_health hroute)
    | artifact segment =>
      simp only [routed, hroute] at hrouted ⊢
      cases hdecode : decode segment with
      | none =>
        simp only [hdecode] at hrouted
        cases hrouted
      | some artifact =>
        simp only [hdecode] at hrouted ⊢
        obtain ⟨sha256, bytes, rfl, hget, hbody⟩ := artifactResponse_of_status hrouted
        exact Or.inr ⟨segment, sha256, bytes, path_of_route_artifact hroute, hdecode, hget, hbody⟩

/-- In front of the store in memory: under the name of a digest nothing is served that does not hash
    to it, in any state of the store. -/
theorem served_hashes {H : Bytes → Digest} (m : MemoryProofArtifactStore H)
    (hstatus : (artifactRouter decode m.get .get path).status = 200) :
    path = text "/healthz" ∨ ∃ segment, path = proofsPath ++ segment ∧
      decode segment = some ((H (artifactRouter decode m.get .get path).body).val ++ text ".json") ∧
      SizeOk (artifactRouter decode m.get .get path).body.length := by
  refine (served_of_status hstatus).imp_right ?_
  rintro ⟨segment, sha256, bytes, hpath, hdecode, hget, hbody⟩
  have hstored : m.artifacts sha256 = some bytes := by
    rw [MemoryProofArtifactStore.get] at hget
    split at hget
    · exact Except.ok.inj hget
    · cases hget
  obtain ⟨haddressed, hsize⟩ := m.addressed sha256 bytes hstored
  rw [hbody, haddressed]
  exact ⟨segment, hpath, hdecode, hsize⟩

end SoulSociety.Provider
