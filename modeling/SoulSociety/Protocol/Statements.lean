import SoulSociety.Sdk.ResultDecoders
import SoulSociety.Wasm.Verifier

/-! The check of a proof statement, which is written four times: in `soul-core`, in `soul-prover`, in
    `soul-wasm` and in the SDK. One rule says what all four accept; the size limits of two of them and
    the second look at the layout of two others change nothing. -/

namespace SoulSociety.Protocol
open Lib SoulSociety.Core

/-- The number of public inputs. -/
def publicArity : ServiceType → ℕ
  | .fibonacci | .hashVerify => 1
  | .merkleProof => 3

/-- The field element that encodes a typed output. -/
def encodedOutput : JobOutput → FeltHex
  | .fibonacci result => result
  | .hashVerify valid | .merkleProof valid => FeltHex.fromU64 (ProofStatement.boolU64 valid)

/-- The rule for statements. -/
structure StatementRule (s : ProofStatement) : Prop where
  program : s.program = cairoProgram
  service : s.output.service = s.service
  arity : s.public_input.length = publicArity s.service
  encoding : s.public_output = [encodedOutput s.output]

variable {s : ProofStatement}

theorem layoutMatches_iff : s.layoutMatches = true ↔ s.output.service = s.service ∧
    s.public_input.length = publicArity s.service ∧ s.public_output = [encodedOutput s.output] := by
  obtain ⟨service, program, inputs, outputs, output⟩ := s
  cases service <;> cases output <;>
    simp [ProofStatement.layoutMatches, JobOutput.service, publicArity, encodedOutput]

theorem validate_iff_rule : s.validate = .ok () ↔ StatementRule s := by
  rw [ProofStatement.validate_iff, layoutMatches_iff]
  constructor
  · rintro ⟨hprogram, hservice, harity, hencoding⟩
    exact ⟨hprogram, hservice, harity, hencoding⟩
  · rintro ⟨hprogram, hservice, harity, hencoding⟩
    exact ⟨hprogram, hservice, harity, hencoding⟩

/-- A statement that the SDK parses from its document is that statement, and `soul-core` accepts it. -/
theorem parseStatement_document {r : Sdk.ProofStatement}
    (h : Sdk.parseStatement (some s.toJson) = .ok r) : s.validate = .ok () ∧ r = s.toSdk := by
  simp only [Sdk.parseStatement, bind_eq_ok, orReject_eq_ok, rejectIf_eq_ok, pure_eq_ok, exists_unit,
    not_not] at h
  obtain ⟨ms, hms, -, service, hservice, hprogram, rawIn, hrawIn, -, ins, hins, rawOut, hrawOut, -,
    outs, houts, output, houtput, htype, layout, hlayout, hok, rfl⟩ := h
  obtain rfl := Option.some.inj hms
  -- every member is read back as the field it was written from
  have hservice : Sdk.parseService (some (jsonText s.service.asStr)) = .ok service := hservice
  have hprogram : some (ofText s.program) = some (ofText cairoProgram) := hprogram
  have houtput : Sdk.parseOutput (some s.output.toJson) = .ok output := houtput
  obtain rfl : rawIn = s.public_input.map FeltHex.toJson := (Option.some.inj hrawIn).symm
  obtain rfl : rawOut = s.public_output.map FeltHex.toJson := (Option.some.inj hrawOut).symm
  rw [Sdk.fieldElements_toJson] at hins houts
  obtain rfl := Option.some.inj hins
  obtain rfl := Option.some.inj houts
  rw [Sdk.parseOutput_toJson] at houtput
  obtain rfl := Except.ok.inj houtput
  obtain rfl : s.service = service := by
    simp only [Sdk.parseService, bind_eq_ok, orReject_eq_ok] at hservice
    obtain ⟨name, hname, hof⟩ := hservice
    obtain rfl := Option.some.inj hname
    rw [← serviceValue_eq, Sdk.serviceOf_serviceValue] at hof
    exact Option.some.inj hof
  rw [type_toSdk] at htype
  rw [Sdk.typedLayoutMatches_toSdk s htype] at hlayout
  obtain rfl := Except.ok.inj hlayout
  have hname : s.program = cairoProgram := ofText_injective (Option.some.inj hprogram)
  refine ⟨ProofStatement.validate_iff.mpr ⟨hname, hok⟩, ?_⟩
  rw [ProofStatement.toSdk, hname]

/-- The four checks accept the same statements, the ones that meet the rule. -/
theorem statement_checks_agree (s : ProofStatement) :
    (s.validate = .ok () ↔ StatementRule s) ∧
      (Prover.validateStatement s = .ok () ↔ StatementRule s) ∧
      (Wasm.validateStatement s = .ok () ↔ StatementRule s) ∧
      ((∃ r, Sdk.parseStatement (some s.toJson) = .ok r) ↔ StatementRule s) ∧
      ∀ r, Sdk.parseStatement (some s.toJson) = .ok r → r = s.toSdk := by
  refine ⟨validate_iff_rule, Prover.Dialect.validateStatement_eq_ok.trans validate_iff_rule,
    Prover.Dialect.validateStatement_eq_ok.trans validate_iff_rule, ?_, fun r hr =>
    (parseStatement_document hr).2⟩
  rw [← validate_iff_rule]
  constructor
  · rintro ⟨r, hr⟩
    exact (parseStatement_document hr).1
  · intro h
    exact ⟨_, Sdk.parseStatement_toJson h⟩

end SoulSociety.Protocol
