import SoulSociety.Core.Documents
import SoulSociety.Prover.Verifier

/-! The browser-local verifier (`soul-wasm/src/lib.rs`): a second copy of the profile check, the
    decoder, the statement check and the comparisons, in another order and on 32-bit words. It accepts
    what the native one accepts.

    `serde_json` gives the reader of the expected statement. A panic is caught where the target unwinds,
    and aborts the call where it does not. -/

namespace SoulSociety.Wasm
open Lib SoulSociety.Core Prover

inductive BrowserVerificationError where
  | proofTooLarge (limit : ℕ)
  | invalidExpectedProgramHash
  | invalidExpectedStatement (error : Text)
  | malformedProof
  | invalidProof
  | unsupportedProofProfile
  | invalidOutput (reason : String)
  | programHashMismatch
  | statementMismatch
  deriving DecidableEq

/-- The texts of validation failures. -/
def displayValidationError : ValidationError → Text
  | .invalidFelt =>
    text "field element must be canonical lowercase 0x-prefixed 64-nibble Cairo felt"
  | .unsupportedProtocol => text "unsupported Soul Wire protocol"
  | .serviceMismatch => text "service does not match the typed input"
  | .fibonacciOutOfRange => text "Fibonacci index is outside the supported Cairo field range"
  | .merkleDepthOutOfRange => text "Merkle proof exceeds the maximum depth"
  | .merkleIndexOutOfRange => text "Merkle index does not fit the authentication path"
  | .expired => text "request has expired"
  | .invalidExpiry => text "request expiry is invalid"
  | .invalidStatement => text "proof statement is invalid"
  | .invalidProofDescriptor => text "proof descriptor is invalid"
  | .invalidResult => text "result is invalid"

/-- The copy of `soul-wasm`, on 32-bit words. -/
def browser : Dialect BrowserVerificationError where
  usizeBits := 32
  invalidOutput := .invalidOutput
  notCanonical := "non-canonical field element"
  invalidStatement e := .invalidExpectedStatement (displayValidationError e)
  disagreement :=
    .invalidExpectedStatement (text "service, arity, raw output, and typed output disagree")

def fieldToFelt : Felt → Except (Fault BrowserVerificationError) FeltHex := browser.fieldToFelt

def validateStatement : ProofStatement → Except (Fault BrowserVerificationError) Unit :=
  browser.validateStatement

def decodeStatement : List Felt → Except (Fault BrowserVerificationError) ProofStatement :=
  browser.decodeStatement

def requiredPcsConfig : PcsConfig where
  pow_bits := 26
  fri_config :=
    { log_last_layer_degree_bound := 0
      log_blowup_factor := 1
      n_queries := 70
      fold_step := 1 }
  lifting_log_size := none

def validateProofProfile (config : PcsConfig) (variant : PreProcessedTraceVariant) :
    Except (Fault BrowserVerificationError) Unit :=
  rejectIf (config ≠ requiredPcsConfig ∨ variant ≠ .canonical) (.err .unsupportedProofProfile)

variable (V : Stwo) (statementFromStr : Text → Except Text ProofStatement) (unwinds : Bool)

/-- `catch_unwind`, and the error for a panic. -/
def catchUnwind {α : Type} (result : Option α) : Except (Fault BrowserVerificationError) α :=
  orReject result (if unwinds then .err .invalidProof else .panic)

def verifyProofImpl (proof_bytes : List UInt8)
    (expected_program_hash expected_statement_json : Text) :
    Except (Fault BrowserVerificationError) Unit := do
  rejectIf (proof_bytes.length > maxProofBytes) (.err (.proofTooLarge maxProofBytes))
  let expected_program_hash ← mapReject (FeltHex.parse expected_program_hash) fun _ =>
    .err .invalidExpectedProgramHash
  let expected_statement ← mapReject (statementFromStr expected_statement_json) fun e =>
    .err (.invalidExpectedStatement e)
  validateStatement expected_statement
  let proof ← mapReject (V.fromSlice proof_bytes) (Fault.map fun _ => .malformedProof)
  validateProofProfile (V.config proof) (V.preprocessedTraceVariant proof)
  let verification ← catchUnwind unwinds (V.verifyCairo proof)
  mapReject verification fun _ => .err .invalidProof
  let public_data ← catchUnwind unwinds (V.getVerificationOutput (V.publicMemory proof))
  let program_hash ← fieldToFelt public_data.program_hash
  rejectIf (program_hash ≠ expected_program_hash) (.err .programHashMismatch)
  let statement ← decodeStatement public_data.output
  rejectIf (statement ≠ expected_statement) (.err .statementMismatch)

/-! ### What is accepted -/

theorem decodeStatement_eq_ok {output : List Felt} {s : ProofStatement} :
    decodeStatement output = .ok s ↔ s.validate = .ok () ∧ flatten s = output :=
  Dialect.decodeStatement_eq_ok (by decide)

theorem validateProofProfile_eq_ok {config : PcsConfig} {variant : PreProcessedTraceVariant}
    {u : Unit} : validateProofProfile config variant = .ok u ↔
      config = requiredPcsConfig ∧ variant = .canonical := by
  rw [validateProofProfile, rejectIf_eq_ok, not_or, not_not, not_not]

theorem verifyProofImpl_eq_ok {bytes : List UInt8} {hash json : Text} {s : ProofStatement}
    (hjson : statementFromStr json = .ok s) :
    verifyProofImpl V statementFromStr unwinds bytes hash json = .ok () ↔
      ∃ proof data, Binds V bytes hash s proof data := by
  have hfelt : ∀ v : Felt, fieldToFelt v = .ok (FeltHex.ofFelt v) := fun v =>
    Dialect.fieldToFelt_eq v
  simp only [verifyProofImpl, catchUnwind, hjson, bind_eq_ok, rejectIf_eq_ok, mapReject_eq_ok,
    orReject_eq_ok, validateProofProfile_eq_ok, exists_unit, not_not, parse_eq_ok, hfelt,
    decodeStatement_eq_ok, Except.ok.injEq, exists_eq_left', gt_iff_lt, Nat.not_lt]
  constructor
  · rintro ⟨hsize, _, rfl, -, proof, hread, ⟨hconfig, hvariant⟩, _, hverified, rfl, data, houtput,
      rfl, _, ⟨hvalid, hflat⟩, rfl⟩
    exact ⟨proof, data, hsize, hread, hconfig, hvariant, hverified, houtput, rfl, hvalid, hflat⟩
  · rintro ⟨proof, data, h⟩
    exact ⟨h.size, _, h.program, Dialect.validateStatement_eq_ok.mpr h.valid, proof, h.read,
      ⟨h.config, h.variant⟩, _, h.verified, rfl, data, h.output, rfl, s, ⟨h.valid, h.statement⟩, rfl⟩

/-- The two verifiers accept the same proofs for the same expectations. What either accepts has the
    required profile, passes the cryptographic verifier, and binds the expected program and statement. -/
theorem verifiers_agree (hjson : ∀ s, statementFromStr (Json.stringify s.toJson) = .ok s)
    (bytes : List UInt8) (hash : Text) (s : ProofStatement) :
    (verifySerialized V bytes hash s = .ok () ↔
        verifyProofImpl V statementFromStr unwinds bytes hash (Json.stringify s.toJson) = .ok ()) ∧
      (verifySerialized V bytes hash s = .ok () ∨
          verifyProofImpl V statementFromStr unwinds bytes hash (Json.stringify s.toJson) = .ok () →
        ∃ proof data, V.fromSlice bytes = .ok proof ∧
          V.config proof = Prover.requiredPcsConfig ∧ V.config proof = requiredPcsConfig ∧
          V.preprocessedTraceVariant proof = .canonical ∧
          V.verifyCairo proof = some (.ok ()) ∧
          V.getVerificationOutput (V.publicMemory proof) = some data ∧
          (FeltHex.ofFelt data.program_hash).value = hash ∧
          Prover.decodeStatement data.output = .ok s ∧ decodeStatement data.output = .ok s) := by
  have hbrowser : verifyProofImpl V statementFromStr unwinds bytes hash (Json.stringify s.toJson) =
      .ok () ↔ ∃ proof data, Binds V bytes hash s proof data :=
    verifyProofImpl_eq_ok V statementFromStr unwinds (hjson s)
  rw [verifySerialized_eq_ok, hbrowser, or_self]
  refine ⟨Iff.rfl, ?_⟩
  rintro ⟨proof, data, h⟩
  exact ⟨proof, data, h.read, h.config, h.config, h.variant, h.verified, h.output, h.program.symm,
    (Dialect.decodeStatement_eq_ok (by decide)).mpr ⟨h.valid, h.statement⟩,
    decodeStatement_eq_ok.mpr ⟨h.valid, h.statement⟩⟩

/-! ### An accepted proof -/

theorem statementText_injective :
    Function.Injective fun s : ProofStatement => Json.stringify s.toJson := by
  have hplain : ∀ s : ProofStatement, Json.PlainFor (fun _ => True) s.toJson := fun s => s.plain
  exact fun a b h => ProofStatement.toJson_injective (Json.stringify_inj (hplain a) (hplain b) h)

/-- A reader of exactly what the writer writes. -/
noncomputable def exactStatementFromStr (t : Text) : Except Text ProofStatement :=
  orReject (Function.partialInv (fun s : ProofStatement => Json.stringify s.toJson) t) []

theorem exactStatementFromStr_stringify (s : ProofStatement) :
    exactStatementFromStr (Json.stringify s.toJson) = .ok s :=
  orReject_eq_ok.mpr (Function.partialInv_left statementText_injective s)

/-- The tenth Fibonacci number is 55. -/
def fibonacciTen : ProofStatement where
  service := .fibonacci
  program := cairoProgram
  public_input := [.ofFelt (feltOfNat 10)]
  public_output := [.ofFelt (feltOfNat 55)]
  output := .fibonacci (.ofFelt (feltOfNat 55))

/-- Proofs of one statement, by a program with hash 99. -/
def fixtureStwo : Stwo where
  Proof := Unit
  PublicMemory := Unit
  fromSlice bytes := if bytes = [123, 125] then .ok () else .error (.err (text "expected value"))
  config _ := requiredPcsConfig
  preprocessedTraceVariant _ := .canonical
  publicMemory _ := ()
  verifyCairo _ := some (.ok ())
  getVerificationOutput _ := some ⟨feltOfNat 99, flatten fibonacciTen⟩

theorem fixture_binds : Binds fixtureStwo [123, 125] (FeltHex.ofFelt (feltOfNat 99)).value fibonacciTen
    () ⟨feltOfNat 99, flatten fibonacciTen⟩ where
  size := by decide
  read := rfl
  config := rfl
  variant := rfl
  verified := rfl
  output := rfl
  program := rfl
  valid := ProofStatement.validate_iff.mpr ⟨rfl, by simp [fibonacciTen, ProofStatement.layoutMatches]⟩
  statement := rfl

theorem fixture_accepted_by_both :
    verifyProofImpl fixtureStwo exactStatementFromStr false [123, 125]
        (FeltHex.ofFelt (feltOfNat 99)).value (Json.stringify fibonacciTen.toJson) = .ok () ∧
      Prover.decodeStatement (flatten fibonacciTen) = .ok fibonacciTen := by
  have hnative := (verifySerialized_eq_ok fixtureStwo).mpr ⟨(), _, fixture_binds⟩
  obtain ⟨hiff, hfacts⟩ := verifiers_agree fixtureStwo exactStatementFromStr false
    exactStatementFromStr_stringify [123, 125] (FeltHex.ofFelt (feltOfNat 99)).value fibonacciTen
  obtain ⟨_, _, -, -, -, -, -, houtput, -, hdecode, -⟩ := hfacts (.inl hnative)
  cases houtput
  exact ⟨hiff.mp hnative, hdecode⟩

end SoulSociety.Wasm
