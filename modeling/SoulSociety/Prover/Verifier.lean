import SoulSociety.Prover.Statement

/-! Native STWO verification and Soul Cairo statement binding (`soul-prover/src/verifier.rs`). The
    proof reader and the cryptographic verifier come from other crates and are fields of `Stwo`. -/

namespace SoulSociety.Prover
open Lib SoulSociety.Core

/-! ### What comes from STWO -/

structure FriConfig where
  log_last_layer_degree_bound : ℕ
  log_blowup_factor : ℕ
  n_queries : ℕ
  fold_step : ℕ
  deriving DecidableEq, Repr

structure PcsConfig where
  pow_bits : ℕ
  fri_config : FriConfig
  lifting_log_size : Option ℕ
  deriving DecidableEq, Repr

inductive PreProcessedTraceVariant where
  | canonical
  | canonicalWithoutPedersen
  | canonicalSmall
  deriving DecidableEq, Repr

/-- What is read off the public memory of a proof. -/
structure VerificationOutput where
  program_hash : Felt
  output : List Felt

/-- The proof reader, and the functions of `cairo_air`. `none` is a panic. -/
structure Stwo where
  Proof : Type
  PublicMemory : Type
  fromSlice : List UInt8 → Except (Fault Text) Proof
  config : Proof → PcsConfig
  preprocessedTraceVariant : Proof → PreProcessedTraceVariant
  publicMemory : Proof → PublicMemory
  verifyCairo : Proof → Option (Except Text Unit)
  getVerificationOutput : PublicMemory → Option VerificationOutput

/-! ### The verifier -/

/-- Public data recovered only after cryptographic proof verification. -/
structure VerifiedPublicData where
  program_hash : FeltHex
  statement : ProofStatement
  deriving DecidableEq

/-- A stable, non-panicking proof rejection reason. -/
inductive VerificationError where
  | proofTooLarge (limit : ℕ)
  | malformedProof (error : Text)
  | invalidProof
  | unsupportedProofProfile
  | invalidExpectedProgramHash
  | programHashMismatch (expected actual : FeltHex)
  | statementMismatch
  | invalidStatement (e : StatementError)
  deriving DecidableEq

def requiredPcsConfig : PcsConfig where
  pow_bits := 26
  fri_config :=
    { log_last_layer_degree_bound := 0
      log_blowup_factor := 1
      n_queries := 70
      fold_step := 1 }
  lifting_log_size := none

def validateProofProfile (config : PcsConfig) (variant : PreProcessedTraceVariant) :
    Except (Fault VerificationError) Unit :=
  rejectIf (config ≠ requiredPcsConfig ∨ variant ≠ .canonical) (.err .unsupportedProofProfile)

variable (V : Stwo)

/-- Verify STWO JSON and recover its trusted public data. Panics of the verifier are caught. -/
def verifyAndDecode (proof_json : List UInt8) :
    Except (Fault VerificationError) VerifiedPublicData := do
  rejectIf (proof_json.length > maxProofBytes) (.err (.proofTooLarge maxProofBytes))
  let proof ← mapReject (V.fromSlice proof_json) (Fault.map .malformedProof)
  validateProofProfile (V.config proof) (V.preprocessedTraceVariant proof)
  let verification ← orReject (V.verifyCairo proof) (.err .invalidProof)
  mapReject verification fun _ => .err .invalidProof
  let public_data ←
    orReject (V.getVerificationOutput (V.publicMemory proof)) (.err .invalidProof)
  let program_hash ← mapReject (fieldToFelt public_data.program_hash) (Fault.map .invalidStatement)
  let statement ← mapReject (decodeStatement public_data.output) (Fault.map .invalidStatement)
  return { program_hash := program_hash, statement := statement }

/-- Verify a proof and bind it to an independently trusted program hash and expected public
    statement. -/
def verifySerialized (proof_json : List UInt8) (expected_program_hash : Text)
    (expected_statement : ProofStatement) : Except (Fault VerificationError) Unit := do
  let expected_program_hash ← mapReject (FeltHex.parse expected_program_hash) fun _ =>
    .err .invalidExpectedProgramHash
  mapReject (validateStatement expected_statement) (Fault.map .invalidStatement)
  let verified ← verifyAndDecode V proof_json
  rejectIf (verified.program_hash ≠ expected_program_hash)
    (.err (.programHashMismatch expected_program_hash verified.program_hash))
  rejectIf (verified.statement ≠ expected_statement) (.err .statementMismatch)

/-! ### What is accepted -/

/-- A proof of the required profile that the cryptographic verifier accepts, and whose public data
    are the expected program and statement. -/
structure Binds (bytes : List UInt8) (hash : Text) (s : ProofStatement) (proof : V.Proof)
    (data : VerificationOutput) : Prop where
  size : bytes.length ≤ maxProofBytes
  read : V.fromSlice bytes = .ok proof
  config : V.config proof = requiredPcsConfig
  variant : V.preprocessedTraceVariant proof = .canonical
  verified : V.verifyCairo proof = some (.ok ())
  output : V.getVerificationOutput (V.publicMemory proof) = some data
  program : hash = (FeltHex.ofFelt data.program_hash).value
  valid : s.validate = .ok ()
  statement : flatten s = data.output

theorem parse_eq_ok {t : Text} {f : FeltHex} : FeltHex.parse t = .ok f ↔ t = f.value := by
  rw [FeltHex.parse]
  split
  · rw [Except.ok.injEq, ← FeltHex.value_inj]
  · rename_i h
    constructor
    · rintro ⟨⟩
    · rintro rfl
      exact absurd f.canonical h

theorem validateProofProfile_eq_ok {config : PcsConfig} {variant : PreProcessedTraceVariant}
    {u : Unit} : validateProofProfile config variant = .ok u ↔
      config = requiredPcsConfig ∧ variant = .canonical := by
  rw [validateProofProfile, rejectIf_eq_ok, not_or, not_not, not_not]

theorem verifySerialized_eq_ok {bytes : List UInt8} {hash : Text} {s : ProofStatement} :
    verifySerialized V bytes hash s = .ok () ↔ ∃ proof data, Binds V bytes hash s proof data := by
  have hdecode : ∀ {output : List Felt} {s : ProofStatement}, decodeStatement output = .ok s ↔
      s.validate = .ok () ∧ flatten s = output := Dialect.decodeStatement_eq_ok (by decide)
  have hfelt : ∀ v : Felt, fieldToFelt v = .ok (FeltHex.ofFelt v) := fun v =>
    Dialect.fieldToFelt_eq v
  simp only [verifySerialized, verifyAndDecode, bind_eq_ok, rejectIf_eq_ok, mapReject_eq_ok,
    orReject_eq_ok, validateProofProfile_eq_ok, exists_unit, pure_eq_ok, not_not, parse_eq_ok, hfelt,
    hdecode, Except.ok.injEq, exists_eq_left', gt_iff_lt, Nat.not_lt]
  constructor
  · rintro ⟨_, rfl, -, _, ⟨hsize, proof, hread, ⟨hconfig, hvariant⟩, _, hverified, rfl, data, houtput,
      _, ⟨hvalid, hflat⟩, rfl⟩, rfl, rfl⟩
    exact ⟨proof, data, hsize, hread, hconfig, hvariant, hverified, houtput, rfl, hvalid, hflat⟩
  · rintro ⟨proof, data, h⟩
    exact ⟨_, h.program, Dialect.validateStatement_eq_ok.mpr h.valid, _, ⟨h.size, proof, h.read,
      ⟨h.config, h.variant⟩, _, h.verified, rfl, data, h.output, s, ⟨h.valid, h.statement⟩, rfl⟩, rfl,
      rfl⟩

end SoulSociety.Prover
