import SoulSociety.Lib.Url
import SoulSociety.Wasm.Verifier

/-! The verifier that the web application loads (`verifyProof` of `apps/web/src/lib/wasmVerifier.ts`),
    around `WasmVerifier` of `crates/soul-wasm/src/lib.rs`. It refuses every program but the one of its
    manifest. -/

namespace SoulSociety.Wasm
open Lib SoulSociety.Core Prover

/-- `verifyProof` of `WasmVerifier`. The wrapper makes a JavaScript error of an error. -/
def WasmVerifier.verifyProof (V : Stwo) (statementFromStr : Text → Except Text ProofStatement)
    (unwinds : Bool) (proof_bytes : List UInt8)
    (expected_program_hash expected_statement_json : Text) :
    Except (Fault BrowserVerificationError) Bool := do
  verifyProofImpl V statementFromStr unwinds proof_bytes expected_program_hash
    expected_statement_json
  return true

/-- What `load` gives back: the program hash of the manifest, and the module. -/
structure LoadedBrowserVerifier where
  program_hash : JsString
  stwo : Stwo
  statementFromStr : Text → Except Text ProofStatement
  unwinds : Bool

/-- `none` is a thrown error. Strings pass to the module as UTF-8. -/
def LoadedBrowserVerifier.verifyProof (B : LoadedBrowserVerifier) (proofBytes : List UInt8)
    (expectedProgramHash : JsString) (expectedStatementJson : Text) : Option Bool :=
  if expectedProgramHash ≠ B.program_hash then some false
  else (WasmVerifier.verifyProof B.stwo B.statementFromStr B.unwinds proofBytes
    (toUsv expectedProgramHash) expectedStatementJson).toOption

theorem LoadedBrowserVerifier.verifyProof_eq_true {B : LoadedBrowserVerifier}
    {proofBytes : List UInt8} {hash : JsString} {json : Text} {s : ProofStatement}
    (hjson : B.statementFromStr json = .ok s) :
    B.verifyProof proofBytes hash json = some true ↔
      hash = B.program_hash ∧ ∃ proof data, Binds B.stwo proofBytes (toUsv hash) s proof data := by
  rw [← verifyProofImpl_eq_ok B.stwo B.statementFromStr B.unwinds hjson, verifyProof]
  by_cases hhash : hash = B.program_hash
  · rw [if_neg (not_not.mpr hhash), WasmVerifier.verifyProof]
    cases verifyProofImpl B.stwo B.statementFromStr B.unwinds proofBytes (toUsv hash) json with
    | ok u => exact iff_of_true rfl ⟨hhash, rfl⟩
    | error e =>
      refine iff_of_false ?_ ?_
      · rintro ⟨⟩
      · rintro ⟨-, h⟩
        cases h
  · rw [if_pos hhash]
    refine iff_of_false ?_ ?_
    · rintro ⟨⟩
    · exact fun h => hhash h.1

end SoulSociety.Wasm
