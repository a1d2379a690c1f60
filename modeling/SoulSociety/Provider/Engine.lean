import SoulSociety.Lib.Attempts
import SoulSociety.Provider.Processor
import SoulSociety.Wasm.Verifier

/-! The engine of the provider: Cairo-authoritative execution, STWO proving, and native
    self-verification (`soul-prover/src/prover.rs`, `executor.rs`), behind the `ProofEngine` of
    `provider/src/processor.rs`.

    The compiler's executable format, the virtual machine, the trace adapter and the prover come from
    other crates and are fields of `CairoVm`. A panic is `none` or a `Fault`. The measured times are an
    input. -/

namespace SoulSociety.Provider
open Lib SoulSociety.Core Prover

/-! ### What comes from other crates -/

/-- The hashes that a channel can have. -/
inductive ChannelHash where
  | blake2s
  | poseidon252
  deriving DecidableEq, Repr

/-- What the prover is configured with. -/
structure ProverParameters where
  channel_hash : ChannelHash
  channel_salt : ℕ
  pcs_config : PcsConfig
  preprocessed_trace : PreProcessedTraceVariant
  store_polynomials_coefficients : Bool
  include_all_preprocessed_columns : Bool
  deriving DecidableEq, Repr

/-- The kinds of entry points, of which only one is looked for. -/
inductive EntryPointKind where
  | standalone
  | bootloader
  deriving DecidableEq, Repr

/-- Where an executable starts, and the builtins it needs. -/
structure ExecutableEntryPoint (BuiltinName : Type) where
  kind : EntryPointKind
  builtins : List BuiltinName
  offset : ℕ

/-- A Cairo executable: `program.bytecode`, `program.hints` and `entrypoints`. -/
structure Executable (BuiltinName Hints : Type) where
  bytecode : List ℤ
  hints : Hints
  entrypoints : List (ExecutableEntryPoint BuiltinName)

/-- A trace with its public segments. -/
structure ProverInput (Trace PublicSegmentContext : Type) where
  trace : Trace
  public_segment_context : PublicSegmentContext

/-- The Cairo compiler, the virtual machine in proof mode, the trace adapter, the prover and its
    serializer. -/
structure CairoVm (V : Stwo) where
  BuiltinName : Type
  Hints : Type
  HintsDict : Type
  Program : Type
  Runner : Type
  Trace : Type
  PublicSegmentContext : Type
  fromReader : List UInt8 → Except Text (Executable BuiltinName Hints)
  buildHintsDict : Hints → HintsDict
  newForProof : List BuiltinName → List Felt → ℕ → ℕ → HintsDict → Except Text Program
  cairoRunProgram : Program → HintsDict → List Felt → Except Text Runner
  adapt : Runner → Except Text (ProverInput Trace PublicSegmentContext)
  newContext : List BuiltinName → PublicSegmentContext
  proveCairo : ProverInput Trace PublicSegmentContext → ProverParameters →
    Option (Except Text V.Proof)
  toVec : V.Proof → Except Text (List UInt8)

/-- The files of the provider: which paths are regular files, and what opening and reading gives. -/
structure Files where
  isFile : Text → Bool
  read : Text → Except Text (List UInt8)

/-! ### Execution -/

/-- What goes wrong before there is a trace. -/
inductive ExecutionError where
  | open (path source : Text)
  | invalidExecutable (error : Text)
  | missingEntrypoint
  | cairoVm (error : Text)
  | traceAdaptation (error : Text)
  deriving DecidableEq, Repr

/-- `Felt252::from` a big integer. -/
def feltOfInt (v : ℤ) : Felt := feltOfNat (v % (cairoPrime : ℤ)).toNat

variable {V : Stwo} (M : CairoVm V)

/-- What the virtual machine is given. -/
structure RunnableProgram where
  program : M.Program
  string_to_hint : M.HintsDict
  user_args : List Felt
  builtins : List M.BuiltinName

/-- The program of the standalone entry point, for proof mode. -/
def programAndHints (executable : Executable M.BuiltinName M.Hints) (arguments : List Felt) :
    Except ExecutionError (RunnableProgram M) := do
  let data := executable.bytecode.map feltOfInt
  let hints := M.buildHintsDict executable.hints
  let entrypoint ←
    orReject (executable.entrypoints.find? fun e => e.kind = .standalone) .missingEntrypoint
  let program ← mapReject
    (M.newForProof entrypoint.builtins data entrypoint.offset (entrypoint.offset + 4) hints)
    .invalidExecutable
  return ⟨program, hints, arguments, entrypoint.builtins⟩

/-- Execute a Cairo executable and adapt its trace. The segments are those of its own entry point. -/
def executeAndAdapt (files : Files) (executable_path : Text) (flattened_arguments : List Felt) :
    Except ExecutionError (ProverInput M.Trace M.PublicSegmentContext) := do
  let file ← mapReject (files.read executable_path) (.open executable_path)
  let executable ← mapReject (M.fromReader file) .invalidExecutable
  let runnable ← programAndHints M executable flattened_arguments
  let runner ← mapReject
    (M.cairoRunProgram runnable.program runnable.string_to_hint runnable.user_args) .cairoVm
  let input ← mapReject (M.adapt runner) .traceAdaptation
  return { input with public_segment_context := M.newContext runnable.builtins }

/-! ### Proving -/

/-- What goes wrong in an engine. -/
inductive ProverError where
  | missingExecutable (path : Text)
  | executableRead (path source : Text)
  | invalidExecutableDigest
  | executableDigestMismatch (expected actual : Text)
  | statement (e : StatementError)
  | execution (e : ExecutionError)
  | proving (error : Text)
  | serialization (error : Text)
  | proofTooLarge
  | verification (e : VerificationError)
  deriving DecidableEq

/-- The one profile that the verifiers take. Only the salt varies. -/
def productionParameters (channel_salt : ℕ) : ProverParameters where
  channel_hash := .blake2s
  channel_salt := channel_salt
  pcs_config := requiredPcsConfig
  preprocessed_trace := .canonical
  store_polynomials_coefficients := false
  include_all_preprocessed_columns := false

/-- One attempt to prove. A panic is caught. -/
def proveWithSalt (prover_input : ProverInput M.Trace M.PublicSegmentContext) (channel_salt : ℕ) :
    Except Text V.Proof :=
  match M.proveCairo prover_input (productionParameters channel_salt) with
  | some result => result
  | none => .error (text "prover panicked for channel salt " ++ decimal channel_salt)

/-- The first of eight salts that does not fail. The last failure is reported. -/
def proveWithSaltRetries (prover_input : ProverInput M.Trace M.PublicSegmentContext) :
    Except ProverError V.Proof :=
  mapReject (firstOk (proveWithSalt M prover_input) (List.range 8)
    (text "prover rejected every channel salt")) .proving

/-- Encode, execute, prove, serialize, and verify what was serialized; where a program hash is
    expected, verify it once more against that hash. -/
def proveJobInner (files : Files) (executable : Text) (input : JobInput)
    (expected_program_hash : Option FeltHex) (metrics : JobMetrics) :
    Except (Fault ProverError) VerifiedProofArtifact := do
  let arguments ← mapReject (encodeJob input) fun e => .err (.statement e)
  let prover_input ← mapReject (executeAndAdapt M files executable arguments) fun e =>
    .err (.execution e)
  let proof ← mapReject (proveWithSaltRetries M prover_input) .err
  let proof_bytes ← mapReject (M.toVec proof) fun e => .err (.serialization e)
  rejectIf (proof_bytes.length > maxProofBytes) (.err .proofTooLarge)
  let verified ← mapReject (verifyAndDecode V proof_bytes) (Fault.map .verification)
  match expected_program_hash with
  | some expected =>
    mapReject (verifySerialized V proof_bytes expected.value verified.statement)
      (Fault.map .verification)
  | none => pure ()
  return {
    proof_bytes := proof_bytes
    statement := verified.statement
    program_hash := verified.program_hash
    metrics := metrics }

/-- `VerifiableJobEngine`. -/
structure VerifiableJobEngine where
  executable : Text
  expected_program_hash : FeltHex

/-- `ProgramManifestGenerator`. -/
structure ProgramManifestGenerator where
  executable : Text

/-- The executable is a regular file. -/
def ensureExecutable (files : Files) (executable : Text) : Except ProverError Unit :=
  rejectIf (¬ files.isFile executable) (.missingExecutable executable)

/-- The executable has the digest that was reviewed. -/
def ensureExecutableDigest (sha256 : List UInt8 → Text) (files : Files) (executable expected : Text) :
    Except ProverError Unit := do
  rejectIf (¬ isLowerHex expected 64) .invalidExecutableDigest
  let bytes ← mapReject (files.read executable) (.executableRead executable)
  let actual := sha256 bytes
  rejectIf (actual ≠ expected) (.executableDigestMismatch expected actual)

/-- Bind an engine to an explicit executable and trusted program hash. -/
def VerifiableJobEngine.new (sha256 : List UInt8 → Text) (files : Files) (executable : Text)
    (expected_program_hash : FeltHex) (expected_executable_sha256 : Text) :
    Except ProverError VerifiableJobEngine := do
  ensureExecutable files executable
  ensureExecutableDigest sha256 files executable expected_executable_sha256
  return ⟨executable, expected_program_hash⟩

/-- The files are read anew for every job. -/
def VerifiableJobEngine.proveJob (engine : VerifiableJobEngine) (files : Files) (input : JobInput)
    (metrics : JobMetrics) : Except (Fault ProverError) VerifiedProofArtifact :=
  proveJobInner M files engine.executable input (some engine.expected_program_hash) metrics

/-- A generator is bound to no hash: it is there to find one. -/
def ProgramManifestGenerator.new (files : Files) (executable : Text) :
    Except ProverError ProgramManifestGenerator := do
  ensureExecutable files executable
  return ⟨executable⟩

/-- A proof under whatever program hash the executable has. -/
def ProgramManifestGenerator.proveFixture (generator : ProgramManifestGenerator) (files : Files)
    (input : JobInput) (metrics : JobMetrics) : Except (Fault ProverError) VerifiedProofArtifact :=
  proveJobInner M files generator.executable input none metrics

/-! ### What the engine returns -/

/-- The bytes are a proof that was made for the input: of the trace of the executable on the encoded
    arguments, at the first of the eight salts that does not fail. -/
def Proves (files : Files) (executable : Text) (input : JobInput) (bytes : List UInt8) : Prop :=
  ∃ prover_input salt proof, input.validate = .ok () ∧
    executeAndAdapt M files executable
      (serializeArgs (serviceId input.service) (publicArgs input) (privateArgs input)) =
        .ok prover_input ∧
    salt < 8 ∧ (∀ k < salt, Fails (proveWithSalt M prover_input) k) ∧
    M.proveCairo prover_input (productionParameters salt) = some (.ok proof) ∧
    M.toVec proof = .ok bytes

variable {M} {files : Files} {executable : Text} {input : JobInput} {metrics : JobMetrics}
  {a : VerifiedProofArtifact} {h : FeltHex} {bytes : List UInt8}

theorem verifyAndDecode_eq_ok {d : VerifiedPublicData} : verifyAndDecode V bytes = .ok d ↔
    ∃ proof data, Binds V bytes d.program_hash.value d.statement proof data := by
  have hdecode : ∀ {output : List Felt} {s : ProofStatement}, decodeStatement output = .ok s ↔
      s.validate = .ok () ∧ flatten s = output := Dialect.decodeStatement_eq_ok (by decide)
  have hfelt : ∀ v : Felt, Prover.fieldToFelt v = .ok (FeltHex.ofFelt v) := fun v =>
    Dialect.fieldToFelt_eq v
  simp only [verifyAndDecode, bind_eq_ok, rejectIf_eq_ok, mapReject_eq_ok, orReject_eq_ok,
    validateProofProfile_eq_ok, exists_unit, pure_eq_ok, hfelt, hdecode, Except.ok.injEq,
    exists_eq_left', gt_iff_lt, Nat.not_lt]
  constructor
  · rintro ⟨hsize, proof, hread, ⟨hconfig, hvariant⟩, _, hverified, rfl, data, houtput, s,
      ⟨hvalid, hflat⟩, rfl⟩
    exact ⟨proof, data, hsize, hread, hconfig, hvariant, hverified, houtput, rfl, hvalid, hflat⟩
  · rintro ⟨proof, data, hb⟩
    obtain ⟨program_hash, s⟩ := d
    obtain rfl : program_hash = FeltHex.ofFelt data.program_hash := FeltHex.value_inj.mp hb.program
    exact ⟨hb.size, proof, hb.read, ⟨hb.config, hb.variant⟩, _, hb.verified, rfl, data, hb.output, s,
      ⟨hb.valid, hb.statement⟩, rfl⟩

theorem proveWithSalt_eq_ok {prover_input : ProverInput M.Trace M.PublicSegmentContext} {salt : ℕ}
    {proof : V.Proof} : proveWithSalt M prover_input salt = .ok proof ↔
      M.proveCairo prover_input (productionParameters salt) = some (.ok proof) := by
  rw [proveWithSalt]
  cases M.proveCairo prover_input (productionParameters salt) with
  | none => simp
  | some result => rw [Option.some.injEq]

/-- Without a trusted hash, what is made is returned exactly when the verifier accepts it. -/
theorem proveJobInner_none_eq_ok : proveJobInner M files executable input none metrics = .ok a ↔
    Proves M files executable input a.proof_bytes ∧
      (∃ proof data, Binds V a.proof_bytes a.program_hash.value a.statement proof data) ∧
      a.metrics = metrics := by
  simp only [proveJobInner, proveWithSaltRetries, bind_eq_ok, mapReject_eq_ok, rejectIf_eq_ok,
    exists_unit, pure_eq_ok, encodeJob_eq_ok, firstOk_range_eq_ok, proveWithSalt_eq_ok,
    verifyAndDecode_eq_ok]
  constructor
  · rintro ⟨_, ⟨hvalid, rfl⟩, prover_input, hrun, proof, ⟨salt, hsalt, hfails, hproof⟩, bytes, hbytes,
      -, verified, hverified, rfl⟩
    exact ⟨⟨prover_input, salt, proof, hvalid, hrun, hsalt, hfails, hproof, hbytes⟩, hverified, rfl⟩
  · rintro ⟨⟨prover_input, salt, proof, hvalid, hrun, hsalt, hfails, hproof, hbytes⟩,
      ⟨proof', data, hb⟩, rfl⟩
    exact ⟨_, ⟨hvalid, rfl⟩, prover_input, hrun, proof, ⟨salt, hsalt, hfails, hproof⟩, a.proof_bytes,
      hbytes, Nat.not_lt.mpr hb.size, ⟨a.program_hash, a.statement⟩, ⟨proof', data, hb⟩, rfl⟩

/-- The second pass of the verifier compares the program hash, and rejects nothing else. -/
theorem verifySerialized_of_decoded {d : VerifiedPublicData} (hd : verifyAndDecode V bytes = .ok d) :
    verifySerialized V bytes h.value d.statement = if d.program_hash = h then .ok () else
      .error (.err (.programHashMismatch h d.program_hash)) := by
  obtain ⟨proof, data, hb⟩ := verifyAndDecode_eq_ok.mp hd
  have hparse : FeltHex.parse h.value = .ok h := parse_eq_ok.mpr rfl
  have hvalid : validateStatement d.statement = .ok () := Dialect.validateStatement_eq_ok.mpr hb.valid
  rw [verifySerialized, hparse, hvalid, hd]
  by_cases heq : d.program_hash = h
  · rw [if_pos heq]
    simp [mapReject, rejectIf, heq, bind, Except.bind]
  · rw [if_neg heq]
    simp [mapReject, rejectIf, heq, bind, Except.bind]

/-- A trusted hash changes nothing but that an artifact of another program is rejected. -/
theorem proveJobInner_some (files : Files) (executable : Text) (input : JobInput)
    (metrics : JobMetrics) (h : FeltHex) : proveJobInner M files executable input (some h) metrics =
      proveJobInner M files executable input none metrics >>= fun a =>
        if a.program_hash = h then .ok a else
          .error (.err (.verification (.programHashMismatch h a.program_hash))) := by
  simp only [proveJobInner, bind_assoc]
  refine bind_congr fun arguments => bind_congr fun prover_input => bind_congr fun proof =>
    bind_congr fun proof_bytes => bind_congr fun _ => ?_
  cases hd : verifyAndDecode V proof_bytes with
  | error e => rfl
  | ok d =>
    have hsecond := verifySerialized_of_decoded (h := h) hd
    by_cases heq : d.program_hash = h
    · rw [if_pos heq] at hsecond
      simp [mapReject, hsecond, heq, bind, Except.bind, pure, Except.pure]
    · rw [if_neg heq] at hsecond
      simp [mapReject, hsecond, heq, bind, Except.bind, pure, Except.pure, Fault.map]

theorem proveJob_eq_ok {engine : VerifiableJobEngine} : engine.proveJob M files input metrics = .ok a ↔
    Proves M files engine.executable input a.proof_bytes ∧
      (∃ proof data, Binds V a.proof_bytes engine.expected_program_hash.value a.statement proof data) ∧
      a.program_hash = engine.expected_program_hash ∧ a.metrics = metrics := by
  simp only [VerifiableJobEngine.proveJob, proveJobInner_some, bind_eq_ok, proveJobInner_none_eq_ok]
  constructor
  · rintro ⟨a', ⟨hproves, hbinds, rfl⟩, hpinned⟩
    split at hpinned
    · rename_i heq
      cases hpinned
      rw [heq] at hbinds
      exact ⟨hproves, hbinds, heq, rfl⟩
    · cases hpinned
  · rintro ⟨hproves, hbinds, heq, rfl⟩
    rw [← heq] at hbinds
    exact ⟨a, ⟨hproves, hbinds, rfl⟩, if_pos heq⟩

/-- The engine returns an artifact exactly when the bytes are a proof that was made for the input, and
    the verifier accepts them for the trusted program and the statement that is returned with them;
    the verifier of the browser then accepts them too. Whatever the files hold by then, an artifact of
    another program is never returned. -/
theorem engine_exact (engine : VerifiableJobEngine) (files : Files) (input : JobInput)
    (metrics : JobMetrics) (a : VerifiedProofArtifact) :
    (engine.proveJob M files input metrics = .ok a ↔
      Proves M files engine.executable input a.proof_bytes ∧
        verifySerialized V a.proof_bytes engine.expected_program_hash.value a.statement = .ok () ∧
        a.program_hash = engine.expected_program_hash ∧ a.metrics = metrics) ∧
      (engine.proveJob M files input metrics = .ok a →
        ∀ (statementFromStr : Text → Except Text ProofStatement) (unwinds : Bool),
          statementFromStr (Json.stringify a.statement.toJson) = .ok a.statement →
            Wasm.verifyProofImpl V statementFromStr unwinds a.proof_bytes
              engine.expected_program_hash.value (Json.stringify a.statement.toJson) = .ok ()) := by
  refine ⟨by rw [verifySerialized_eq_ok]; exact proveJob_eq_ok,
    fun hok statementFromStr unwinds hjson => ?_⟩
  obtain ⟨-, hbinds, -⟩ := proveJob_eq_ok.mp hok
  exact (Wasm.verifyProofImpl_eq_ok V statementFromStr unwinds hjson).mpr hbinds

/-- The hash that the generator finds is the one to pin: an engine with this hash returns what the
    generator returned, and an engine with another one rejects it. -/
theorem generated_hash_pins (generator : ProgramManifestGenerator) (files : Files) (input : JobInput)
    (metrics : JobMetrics) (a : VerifiedProofArtifact)
    (hgenerated : generator.proveFixture M files input metrics = .ok a) (h : FeltHex) :
    VerifiableJobEngine.proveJob M ⟨generator.executable, h⟩ files input metrics =
      if a.program_hash = h then .ok a else
        .error (.err (.verification (.programHashMismatch h a.program_hash))) := by
  have hinner : proveJobInner M files generator.executable input none metrics = .ok a := hgenerated
  rw [VerifiableJobEngine.proveJob, proveJobInner_some, hinner]
  rfl

/-! ### An engine -/

/-- A prover that panics at the first salt and makes one proof, with these bytes, at the others. -/
def exampleVm (V : Stwo) (proof : V.Proof) (bytes : List UInt8) : CairoVm V where
  BuiltinName := Unit
  Hints := Unit
  HintsDict := Unit
  Program := ℕ
  Runner := List Felt
  Trace := List Felt
  PublicSegmentContext := List Unit
  fromReader _ := .ok ⟨[], (), [⟨.bootloader, [], 0⟩, ⟨.standalone, [()], 4⟩]⟩
  buildHintsDict _ := ()
  newForProof _ _ start _ _ := .ok start
  cairoRunProgram _ _ arguments := .ok arguments
  adapt runner := .ok ⟨runner, []⟩
  newContext builtins := builtins
  proveCairo _ parameters := if parameters.channel_salt = 0 then none else some (.ok proof)
  toVec _ := .ok bytes

def exampleFiles : Files where
  isFile _ := true
  read _ := .ok []

def exampleEngine : VerifiableJobEngine := ⟨text "soul_cairo.executable.json", .ofFelt (feltOfNat 99)⟩

def exampleArtifact : VerifiedProofArtifact :=
  ⟨[123, 125], Wasm.fibonacciTen, .ofFelt (feltOfNat 99), ⟨1, 2, 3⟩⟩

theorem exampleVm_proves {proof : V.Proof} (hinput : input.validate = .ok ()) :
    Proves (exampleVm V proof bytes) exampleFiles executable input bytes := by
  refine ⟨_, 1, proof, hinput, rfl, by decide, ?_, rfl, rfl⟩
  intro k hk
  obtain rfl : k = 0 := by omega
  exact ⟨_, rfl⟩

theorem exampleEngine_proves :
    exampleEngine.proveJob (exampleVm Wasm.fixtureStwo () [123, 125]) exampleFiles (.fibonacci 10)
      ⟨1, 2, 3⟩ = .ok exampleArtifact ∧
      Wasm.verifyProofImpl Wasm.fixtureStwo Wasm.exactStatementFromStr false [123, 125]
        (FeltHex.ofFelt (feltOfNat 99)).value (Json.stringify Wasm.fibonacciTen.toJson) = .ok () := by
  obtain ⟨hiff, hbrowser⟩ := engine_exact (M := exampleVm Wasm.fixtureStwo () [123, 125])
    exampleEngine exampleFiles (.fibonacci 10) ⟨1, 2, 3⟩ exampleArtifact
  have hnative := (verifySerialized_eq_ok Wasm.fixtureStwo).mpr ⟨(), _, Wasm.fixture_binds⟩
  have hok := hiff.mpr ⟨exampleVm_proves rfl, hnative, rfl, rfl⟩
  exact ⟨hok, hbrowser hok _ false (Wasm.exactStatementFromStr_stringify _)⟩

theorem exampleEngine_pins :
    VerifiableJobEngine.proveJob (exampleVm Wasm.fixtureStwo () [123, 125])
      ⟨exampleEngine.executable, .ofFelt (feltOfNat 98)⟩ exampleFiles (.fibonacci 10) ⟨1, 2, 3⟩ =
        .error (.err (.verification (.programHashMismatch (.ofFelt (feltOfNat 98))
          (.ofFelt (feltOfNat 99))))) := by
  have hgenerated : ProgramManifestGenerator.proveFixture (exampleVm Wasm.fixtureStwo () [123, 125])
      ⟨exampleEngine.executable⟩ exampleFiles (.fibonacci 10) ⟨1, 2, 3⟩ = .ok exampleArtifact :=
    proveJobInner_none_eq_ok.mpr ⟨exampleVm_proves rfl, ⟨(), _, Wasm.fixture_binds⟩, rfl⟩
  have hdistinct : exampleArtifact.program_hash ≠ FeltHex.ofFelt (feltOfNat 98) := by decide
  rw [generated_hash_pins _ _ _ _ _ hgenerated, if_neg hdistinct]
  rfl

end SoulSociety.Provider
