import Mathlib.Data.List.Sort
import SoulSociety.Lib.JsonPretty
import SoulSociety.Provider.Engine
import SoulSociety.Sdk.Correspondence
import SoulSociety.Wasm.Browser

/-! The reviewed program manifest on its way from the build to the browser. The generator
    (`soul-prover/src/bin/soul-proof-fixture.rs`) finds the program hash and writes it to a file,
    `scripts/write-program-manifest.mjs` makes `protocol/programs.json` of that file, and the web
    application takes the hash from there (`apps/web/src/lib/wasmVerifier.ts`). -/

namespace SoulSociety.Protocol
open Lib SoulSociety.Core
open Sdk (js isHexString isHex64 codeUnits plainRecord asString isLiteral fieldElement hex64
  safeInteger)

/-! ### The generator -/

/-- `manifest.json`. The `json!` object keeps the order of its keys. -/
def fixtureManifest (program_hash : FeltHex) : Json :=
  .obj [(js "protocol", .str (ofText soulWireProtocol)), (js "program", .str (ofText cairoProgram)),
    (js "program_hash", .str program_hash.toSdk)]

open Provider in
/-- `run` of the generator, with the manifest that it writes. The proof is verified again, against the
    hash that was found. -/
def soulProofFixture {V : Prover.Stwo} (M : CairoVm V) (files : Files) (executable : Text)
    (metrics : JobMetrics) : Except (Fault ProverError) Text := do
  let generator ← mapReject (ProgramManifestGenerator.new files executable) .err
  let artifact ← generator.proveFixture M files (.fibonacci 10) metrics
  mapReject (Prover.verifySerialized V artifact.proof_bytes artifact.program_hash.value
    artifact.statement) (Fault.map .verification)
  return Json.document (fixtureManifest artifact.program_hash)

/-! ### The script -/

/-- `canonicalFelt.test(value)`. It makes a string of the value, of an array with one element that of
    the element. -/
def canonicalFelt : Json → Bool
  | .str (.scalar '0' :: .scalar 'x' :: digits) => isHexString 64 digits
  | .arr [x] => canonicalFelt x
  | _ => false

def programManifest (program_hash : Json) (artifactSha256 : JsString) : Json :=
  .obj [(js "schema_version", .num (.nat 1)), (js "protocol", .str (ofText soulWireProtocol)),
    (js "programs", .obj [(ofText cairoProgram, .obj [
      (js "program_hash", program_hash),
      (js "artifact_sha256", .str artifactSha256),
      (js "artifact", .str (js "crates/soul-cairo/target/dev/soul_cairo.executable.json")),
      (js "cairo", .str (js "2.15.0")),
      (js "scarb", .str (js "2.15.1")),
      (js "stwo_cairo", .str (js "1.3.0")),
      (js "proof_format", .str (js "stwo-cairo-json-v1")),
      (js "channel", .str (js "blake2s"))])])]

/-- The file that the script writes. `none` is an error. -/
def writeProgramManifest (source artifactSha256 : JsString) : Option Text := do
  let source ← plainRecord (Json.parse source)
  guard (isLiteral (source.lookup (js "protocol")) (ofText soulWireProtocol))
  guard (isLiteral (source.lookup (js "program")) (ofText cairoProgram))
  let program_hash ← source.lookup (js "program_hash")
  guard (canonicalFelt program_hash = true)
  return Json.document (programManifest program_hash artifactSha256)

/-! ### The web application -/

/-- `keys.sort().join(',')`. -/
def sortedKeys (keys : List JsString) : JsString :=
  (js ",").intercalate (keys.insertionSort fun a b => ¬ codeUnits b < codeUnits a)

structure VerifierManifest where
  protocol : JsString
  program : JsString
  program_hash : JsString
  deriving DecidableEq

/-- `none` is an error. -/
def parseManifest (value : Json) : Option VerifierManifest := do
  let record ← plainRecord (some value)
  let programs := plainRecord (record.lookup (js "programs"))
  let program := programs.bind fun programs => plainRecord (programs.lookup (ofText cairoProgram))
  guard (sortedKeys (record.map Prod.fst) = js "programs,protocol,schema_version")
  guard (safeInteger (record.lookup (js "schema_version")) = some 1)
  guard (isLiteral (record.lookup (js "protocol")) (ofText soulWireProtocol))
  let program ← program
  guard (sortedKeys (program.map Prod.fst) =
    js "artifact,artifact_sha256,cairo,channel,program_hash,proof_format,scarb,stwo_cairo")
  let program_hash ← fieldElement (program.lookup (js "program_hash"))
  let _ ← hex64 (program.lookup (js "artifact_sha256"))
  let _ ← asString (program.lookup (js "artifact"))
  let _ ← asString (program.lookup (js "cairo"))
  let _ ← asString (program.lookup (js "scarb"))
  let _ ← asString (program.lookup (js "stwo_cairo"))
  guard (isLiteral (program.lookup (js "proof_format")) (js "stwo-cairo-json-v1"))
  guard (isLiteral (program.lookup (js "channel")) (js "blake2s"))
  return ⟨ofText soulWireProtocol, ofText cairoProgram, program_hash⟩

/-- `load`, with the manifest that was fetched and the module that was imported. -/
def load (manifest : JsString) (stwo : Prover.Stwo)
    (statementFromStr : Text → Except Text ProofStatement) (unwinds : Bool) :
    Option Wasm.LoadedBrowserVerifier :=
  ((Json.parse manifest).bind parseManifest).map fun manifest =>
    ⟨manifest.program_hash, stwo, statementFromStr, unwinds⟩

/-! ### What is written is read back -/

theorem plain_of_canonicalFelt {v : Json} (h : canonicalFelt v = true) : v.Plain := by
  fun_induction canonicalFelt v with
  | case1 digits =>
    obtain ⟨t, rfl⟩ := Sdk.isText_of_isHexString h
    exact paired_ofText ('0' :: 'x' :: t)
  | case2 x ih => exact ⟨ih h, trivial⟩
  | case3 => cases h

theorem programManifest_plain {program_hash : Json} (hhash : program_hash.Plain) {sha256 : JsString}
    (hsha256 : isHex64 sha256 = true) : (programManifest program_hash sha256).Plain := by
  obtain ⟨t, rfl⟩ := Sdk.isText_of_isHexString hsha256
  refine Json.plain_obj [js "schema_version", js "protocol", js "programs"] rfl (by decide) ?_
  simp only [List.forall_mem_cons, List.not_mem_nil, false_imp_iff, implies_true, and_true]
  refine ⟨(by decide : 1 < 2 ^ 53), paired_ofText _, ?_⟩
  refine Json.plain_obj [ofText cairoProgram] rfl (by decide) ?_
  simp only [List.forall_mem_cons, List.not_mem_nil, false_imp_iff, implies_true, and_true]
  refine Json.plain_obj [js "program_hash", js "artifact_sha256", js "artifact", js "cairo", js "scarb",
    js "stwo_cairo", js "proof_format", js "channel"] rfl (by decide) ?_
  simp only [List.forall_mem_cons, List.not_mem_nil, false_imp_iff, implies_true, and_true]
  exact ⟨hhash, paired_ofText _, paired_ofText _, paired_ofText _, paired_ofText _, paired_ofText _,
    paired_ofText _, paired_ofText _⟩

theorem sortedKeys_manifest : sortedKeys [js "schema_version", js "protocol", js "programs"] =
    js "programs,protocol,schema_version" := by
  decide

theorem sortedKeys_program : sortedKeys [js "program_hash", js "artifact_sha256", js "artifact",
    js "cairo", js "scarb", js "stwo_cairo", js "proof_format", js "channel"] =
    js "artifact,artifact_sha256,cairo,channel,program_hash,proof_format,scarb,stwo_cairo" := by
  decide

/-- Of a written manifest the browser only checks the hash. -/
theorem parseManifest_programManifest {program_hash : Json} {sha256 : JsString}
    (hsha256 : isHex64 sha256 = true) {m : VerifierManifest} :
    parseManifest (programManifest program_hash sha256) = some m ↔ ∃ hash,
      fieldElement (some program_hash) = some hash ∧
        m = ⟨ofText soulWireProtocol, ofText cairoProgram, hash⟩ := by
  simp only [parseManifest, Option.bind_eq_bind, Option.bind_eq_some_iff, Option.guard_eq_some',
    exists_unit, Option.pure_def, Option.some.injEq]
  constructor
  · rintro ⟨_, ⟨⟩, -, -, -, _, ⟨_, ⟨⟩, ⟨⟩⟩, -, hash, hhash, -, -, -, -, -, -, -, -, -, -, -, -, rfl⟩
    exact ⟨hash, hhash, rfl⟩
  · rintro ⟨hash, hhash, rfl⟩
    have hhex : hex64 (some (.str sha256)) = some sha256 := by simp [hex64, asString, hsha256]
    exact ⟨_, rfl, sortedKeys_manifest, rfl, rfl, _, ⟨_, rfl, rfl⟩, sortedKeys_program, hash, hhash,
      sha256, hhex, _, rfl, _, rfl, _, rfl, _, rfl, rfl, rfl, rfl⟩

theorem writeProgramManifest_eq_some {source sha256 : JsString} {written : Text} :
    writeProgramManifest source sha256 = some written ↔ ∃ record program_hash,
      Json.parse source = some (.obj record) ∧
      isLiteral (record.lookup (js "protocol")) (ofText soulWireProtocol) ∧
      isLiteral (record.lookup (js "program")) (ofText cairoProgram) ∧
      record.lookup (js "program_hash") = some program_hash ∧ canonicalFelt program_hash = true ∧
      written = Json.document (programManifest program_hash sha256) := by
  have hrecord : ∀ {v : Option Json} {ms}, plainRecord v = some ms ↔ v = some (.obj ms) := by
    intro v ms
    rcases v with - | v
    · simp [plainRecord]
    · cases v <;> simp [plainRecord]
  simp only [writeProgramManifest, Option.bind_eq_bind, Option.bind_eq_some_iff,
    Option.guard_eq_some', exists_unit, Option.pure_def, Option.some.injEq, hrecord]
  constructor
  · rintro ⟨record, hparse, hprotocol, hprogram, program_hash, hlookup, hfelt, rfl⟩
    exact ⟨record, program_hash, hparse, hprotocol, hprogram, hlookup, hfelt, rfl⟩
  · rintro ⟨record, program_hash, hparse, hprotocol, hprogram, hlookup, hfelt, rfl⟩
    exact ⟨record, hparse, hprotocol, hprogram, program_hash, hlookup, hfelt, rfl⟩

theorem canonicalFelt_of_isFieldElement {s : JsString} (h : Sdk.isFieldElement s = true) :
    canonicalFelt (.str s) = true := by
  rw [Sdk.isFieldElement.eq_def] at h
  split at h
  · rw [Bool.and_eq_true] at h
    rw [canonicalFelt]
    exact h.1
  · cases h

theorem fieldElement_toSdk (f : FeltHex) : fieldElement (some (.str f.toSdk)) = some f.toSdk :=
  Option.filter_eq_some_iff.mpr ⟨rfl, f.isFieldElement_toSdk⟩

/-- The value in so many arrays of one element. -/
def inArrays : ℕ → Json → Json
  | 0, v => v
  | n + 1, v => .arr [inArrays n v]

/-- What the script takes for a program hash. -/
theorem canonicalFelt_iff {v : Json} : canonicalFelt v = true ↔ ∃ n digits,
    isHexString 64 digits = true ∧ v = inArrays n (.str (js "0x" ++ digits)) := by
  constructor
  · intro h
    fun_induction canonicalFelt v with
    | case1 digits => exact ⟨0, digits, h, rfl⟩
    | case2 x ih =>
      obtain ⟨n, digits, hdigits, rfl⟩ := ih h
      exact ⟨n + 1, digits, hdigits, rfl⟩
    | case3 => cases h
  · rintro ⟨n, digits, hdigits, rfl⟩
    induction n with
    | zero => exact hdigits
    | succ n ih => exact ih

/-- A file as the generator writes it, with any hash. -/
def manifestWith (program_hash : Json) : Json :=
  .obj [(js "protocol", .str (ofText soulWireProtocol)), (js "program", .str (ofText cairoProgram)),
    (js "program_hash", program_hash)]

theorem parse_manifestWith {program_hash : Json} (h : program_hash.Plain) :
    Json.parse (ofText (Json.document (manifestWith program_hash))) =
      some (manifestWith program_hash) := by
  refine Json.parse_document (Json.plain_obj [js "protocol", js "program", js "program_hash"] rfl
    (by decide) ?_)
  simp only [List.forall_mem_cons, List.not_mem_nil, false_imp_iff, implies_true, and_true]
  exact ⟨paired_ofText _, paired_ofText _, h⟩

theorem writeProgramManifest_manifestWith {program_hash : Json}
    (h : canonicalFelt program_hash = true) (sha256 : JsString) :
    writeProgramManifest (ofText (Json.document (manifestWith program_hash))) sha256 =
      some (Json.document (programManifest program_hash sha256)) :=
  writeProgramManifest_eq_some.mpr ⟨_, program_hash, parse_manifestWith (plain_of_canonicalFelt h),
    rfl, rfl, rfl, h, rfl⟩

/-- The browser takes exactly the written manifests whose hash is a string that writes an element of the
    field. -/
theorem accepted_iff {program_hash : Json} {sha256 : JsString} (hsha256 : isHex64 sha256 = true)
    (hfelt : canonicalFelt program_hash = true) {m : VerifierManifest} :
    (Json.parse (ofText (Json.document (programManifest program_hash sha256)))).bind parseManifest =
        some m ↔
      ∃ f : FeltHex, program_hash = .str f.toSdk ∧
        m = ⟨ofText soulWireProtocol, ofText cairoProgram, f.toSdk⟩ := by
  rw [Json.parse_document (programManifest_plain (plain_of_canonicalFelt hfelt) hsha256),
    Option.bind_some, parseManifest_programManifest hsha256]
  constructor
  · rintro ⟨hash, hhash, rfl⟩
    obtain ⟨hstring, hcanonical⟩ := Option.filter_eq_some_iff.mp hhash
    obtain ⟨f, rfl⟩ := Sdk.isFieldElement_iff.mp hcanonical
    cases program_hash with
    | str s =>
      cases hstring
      exact ⟨f, rfl, rfl⟩
    | _ => cases hstring
  · rintro ⟨f, rfl, rfl⟩
    exact ⟨f.toSdk, fieldElement_toSdk f, rfl⟩

/-- Whatever file the script read: the browser accepts what it wrote exactly when the hash in that
    file is a string that writes an element of the field, and trusts this hash then. The script takes
    any 64 digits, and arrays around them too, and the browser refuses what it writes of those. -/
theorem written_manifest_accepted_iff {sha256 : JsString} (hsha256 : isHex64 sha256 = true) :
    (∀ source written, writeProgramManifest source sha256 = some written →
      ∃ record program_hash, Json.parse source = some (.obj record) ∧
        record.lookup (js "program_hash") = some program_hash ∧
        ∀ m, (Json.parse (ofText written)).bind parseManifest = some m ↔ ∃ f : FeltHex,
          program_hash = .str f.toSdk ∧
            m = ⟨ofText soulWireProtocol, ofText cairoProgram, f.toSdk⟩) ∧
    ∀ n digits, isHexString 64 digits = true → ∃ source written record,
      Json.parse source = some (.obj record) ∧
      record.lookup (js "program_hash") = some (inArrays n (.str (js "0x" ++ digits))) ∧
      writeProgramManifest source sha256 = some written ∧
      ((∃ m, (Json.parse (ofText written)).bind parseManifest = some m) ↔
        n = 0 ∧ Sdk.isFieldElement (js "0x" ++ digits) = true) := by
  constructor
  · intro source written h
    obtain ⟨record, program_hash, hparse, -, -, hlookup, hfelt, rfl⟩ :=
      writeProgramManifest_eq_some.mp h
    exact ⟨record, program_hash, hparse, hlookup, fun m => accepted_iff hsha256 hfelt⟩
  · intro n digits hdigits
    have hfelt := canonicalFelt_iff.mpr ⟨n, digits, hdigits, rfl⟩
    refine ⟨_, _, _, parse_manifestWith (plain_of_canonicalFelt hfelt), rfl,
      writeProgramManifest_manifestWith hfelt sha256, ?_⟩
    simp only [accepted_iff hsha256 hfelt]
    constructor
    · rintro ⟨m, f, hhash, -⟩
      cases n with
      | zero => exact ⟨rfl, Json.str.inj hhash ▸ f.isFieldElement_toSdk⟩
      | succ n => cases hhash
    · rintro ⟨rfl, hcanonical⟩
      obtain ⟨f, hf⟩ := Sdk.isFieldElement_iff.mp hcanonical
      exact ⟨_, f, congrArg Json.str hf.symm, rfl⟩

/-- From a file with this hash the script writes a manifest that the browser refuses. -/
def WrittenAndRefused (program_hash : Json) : Prop :=
  ∃ source written record, Json.parse source = some (.obj record) ∧
    record.lookup (js "program_hash") = some program_hash ∧
    writeProgramManifest source (ofText (List.replicate 64 '0')) = some written ∧
    (Json.parse (ofText written)).bind parseManifest = none

/-- A hash that is not below the modulus, and one in an array. -/
theorem wideManifest_refused :
    WrittenAndRefused (.str (js "0x" ++ ofText (List.replicate 64 'f'))) ∧
      WrittenAndRefused (.arr [.str (js "0x" ++ ofText (List.replicate 64 '0'))]) := by
  have hrefused : ∀ n digits, isHexString 64 digits = true →
      ¬ (n = 0 ∧ Sdk.isFieldElement (js "0x" ++ digits) = true) →
        WrittenAndRefused (inArrays n (.str (js "0x" ++ digits))) := by
    intro n digits hdigits hnot
    obtain ⟨source, written, record, hparse, hlookup, hwrite, hiff⟩ := (written_manifest_accepted_iff
      (by decide : isHex64 (ofText (List.replicate 64 '0')) = true)).2 n digits hdigits
    exact ⟨source, written, record, hparse, hlookup, hwrite,
      Option.eq_none_iff_forall_ne_some.mpr fun m hm => hnot (hiff.mp ⟨m, hm⟩)⟩
  constructor
  · exact hrefused 0 _ (by decide) (by decide)
  · exact hrefused 1 _ (by decide) (by decide)

/-! ### The hash that was found is the one that is trusted -/

theorem writeProgramManifest_fixture (program_hash : FeltHex) (sha256 : JsString) :
    writeProgramManifest (ofText (Json.document (fixtureManifest program_hash))) sha256 =
      some (Json.document (programManifest (.str program_hash.toSdk) sha256)) :=
  writeProgramManifest_manifestWith
    (canonicalFelt_of_isFieldElement program_hash.isFieldElement_toSdk) sha256

open Provider in
/-- The file that the generator writes becomes a manifest that the browser accepts. The engine with
    the hash in it makes proofs, and of the proofs that any engine returns the browser accepts those
    of the engines with this hash. -/
theorem generated_manifest_pins_browser {V : Prover.Stwo} (M : CairoVm V) (files : Files)
    (executable : Text) (metrics : JobMetrics) {fixture : Text}
    (hfixture : soulProofFixture M files executable metrics = .ok fixture) {sha256 : JsString}
    (hsha256 : isHex64 sha256 = true) (statementFromStr : Text → Except Text ProofStatement)
    (hread : ∀ p : ProofStatement, statementFromStr (Json.stringify p.toJson) = .ok p)
    (unwinds : Bool) :
    ∃ written B, writeProgramManifest (ofText fixture) sha256 = some written ∧
      load (ofText written) V statementFromStr unwinds = some B ∧
      ∃ h : FeltHex, B.program_hash = h.toSdk ∧
        (∃ a, VerifiableJobEngine.proveJob M ⟨executable, h⟩ files (.fibonacci 10) metrics = .ok a) ∧
        ∀ (engine : VerifiableJobEngine) (files' : Files) (input : JobInput) (metrics' : JobMetrics)
          (a : VerifiedProofArtifact), engine.proveJob M files' input metrics' = .ok a →
            (B.verifyProof a.proof_bytes a.program_hash.toSdk (Json.stringify a.statement.toJson) =
              some true ↔ engine.expected_program_hash = h) := by
  simp only [soulProofFixture, bind_eq_ok, mapReject_eq_ok, exists_unit, pure_eq_ok,
    ProgramManifestGenerator.new, ensureExecutable, rejectIf_eq_ok] at hfixture
  obtain ⟨_, ⟨-, rfl⟩, artifact, hgenerated, -, rfl⟩ := hfixture
  obtain ⟨hproves, hbinds, hmetrics⟩ := proveJobInner_none_eq_ok.mp hgenerated
  have hload : load (ofText (Json.document (programManifest (.str artifact.program_hash.toSdk) sha256)))
      V statementFromStr unwinds =
        some ⟨artifact.program_hash.toSdk, V, statementFromStr, unwinds⟩ := by
    have hfelt := canonicalFelt_of_isFieldElement artifact.program_hash.isFieldElement_toSdk
    rw [load, Json.parse_document (programManifest_plain (plain_of_canonicalFelt hfelt) hsha256),
      Option.bind_some, (parseManifest_programManifest hsha256).mpr ⟨_, fieldElement_toSdk _, rfl⟩]
    rfl
  refine ⟨_, _, writeProgramManifest_fixture _ sha256, hload, artifact.program_hash, rfl,
    ⟨artifact, proveJob_eq_ok.mpr ⟨hproves, hbinds, rfl, hmetrics⟩⟩, ?_⟩
  intro engine files' input metrics' a ha
  obtain ⟨-, hbinds, hpinned, -⟩ := proveJob_eq_ok.mp ha
  rw [Wasm.LoadedBrowserVerifier.verifyProof_eq_true (hread a.statement), FeltHex.toSdk_inj, hpinned]
  refine ⟨fun haccepts => haccepts.1, fun heq => ⟨heq, ?_⟩⟩
  have hhash : toUsv engine.expected_program_hash.toSdk = engine.expected_program_hash.value :=
    toUsv_ofText _
  rw [hhash]
  exact hbinds

open Provider in
theorem exampleFixture : soulProofFixture (exampleVm Wasm.fixtureStwo () [123, 125]) exampleFiles
    exampleEngine.executable ⟨1, 2, 3⟩ =
      .ok (Json.document (fixtureManifest exampleArtifact.program_hash)) := by
  simp only [soulProofFixture, bind_eq_ok, mapReject_eq_ok, exists_unit, pure_eq_ok]
  exact ⟨_, rfl, exampleArtifact,
    proveJobInner_none_eq_ok.mpr ⟨exampleVm_proves rfl, ⟨(), _, Wasm.fixture_binds⟩, rfl⟩,
    (Prover.verifySerialized_eq_ok Wasm.fixtureStwo).mpr ⟨(), _, Wasm.fixture_binds⟩, rfl⟩

open Provider in
theorem exampleFixture_pins : ∃ written B h a,
    writeProgramManifest (ofText (Json.document (fixtureManifest exampleArtifact.program_hash)))
      (ofText (List.replicate 64 '0')) = some written ∧
    load (ofText written) Wasm.fixtureStwo Wasm.exactStatementFromStr false = some B ∧
    VerifiableJobEngine.proveJob (exampleVm Wasm.fixtureStwo () [123, 125])
      ⟨exampleEngine.executable, h⟩ exampleFiles (.fibonacci 10) ⟨1, 2, 3⟩ = .ok a ∧
    B.verifyProof a.proof_bytes a.program_hash.toSdk (Json.stringify a.statement.toJson) =
      some true := by
  have hsha256 : isHex64 (ofText (List.replicate 64 '0')) = true := by decide
  obtain ⟨written, B, hwritten, hload, h, -, ⟨a, ha⟩, hiff⟩ := generated_manifest_pins_browser _ _ _ _
    exampleFixture hsha256 Wasm.exactStatementFromStr Wasm.exactStatementFromStr_stringify false
  exact ⟨written, B, h, a, hwritten, hload, ha, (hiff _ _ _ _ _ ha).mpr rfl⟩

end SoulSociety.Protocol
