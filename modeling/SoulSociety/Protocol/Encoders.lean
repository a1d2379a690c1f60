import SoulSociety.Core.SerdeJson
import SoulSociety.Sdk.ResultDecoders

/-! The canonical encoders of the two languages. On values that validate, the SDK writes the bytes that
    `serde_json` writes for the value of `soul-core`, and a text stands for one value. -/

namespace SoulSociety.Protocol
open Lib SoulSociety.Core

/-- A validated request has the protocol and the service that the SDK writes. -/
theorem serializeRequestContent_eq {c : JobRequestContent} {created_at now : ℕ}
    (h : c.validate created_at now = .ok ()) :
    Sdk.serializeRequestContent c.toSdk = Serde.toText c.toJson := by
  obtain ⟨hnew, -, -⟩ := JobRequestContent.validate_iff.mp h
  rw [Serde.toText_eq c.textual, hnew, serializeRequestContent_toSdk]
  rfl

/-- A validated statement has the program name that the SDK writes. -/
theorem serializeProofStatement_eq {s : ProofStatement} (h : s.validate = .ok ()) :
    Sdk.serializeProofStatement s.toSdk = Serde.toText s.toJson := by
  obtain ⟨hprogram, -⟩ := ProofStatement.validate_iff.mp h
  have hcanonical : Sdk.canonicalizeStatement s.toSdk = s.toSdk := by
    rw [Sdk.canonicalizeStatement, canonicalizeOutput_eq, ProofStatement.toSdk, hprogram]
  rw [Serde.toText_eq s.textual, Sdk.serializeProofStatement, hcanonical, statementJson_toSdk]

theorem serializeResult_eq {parseUrl : Text → Option Url} {c : JobResultContent}
    (h : c.validate parseUrl = .ok ()) :
    Sdk.serializeResult c.toSdk = Serde.toText c.toJson := by
  rw [Serde.toText_eq c.textual]
  exact Sdk.serializeResult_toSdk (JobResultContent.validate_iff.mp h).1

theorem toText_request_injective : Function.Injective fun c : JobRequestContent =>
    Serde.toText c.toJson := by
  intro a b h
  dsimp only at h
  rw [Serde.toText_eq a.textual, Serde.toText_eq b.textual] at h
  exact JobRequestContent.canonicalJson_injective h

theorem toText_statement_injective : Function.Injective fun s : ProofStatement =>
    Serde.toText s.toJson := by
  intro a b h
  have hplain (s : ProofStatement) : Json.PlainFor (fun _ => True) s.toJson := s.plain
  dsimp only at h
  rw [Serde.toText_eq a.textual, Serde.toText_eq b.textual] at h
  exact ProofStatement.toJson_injective (Json.stringify_inj (hplain a) (hplain b) h)

theorem toText_result_injective : Function.Injective fun c : JobResultContent =>
    Serde.toText c.toJson := by
  intro a b h
  dsimp only at h
  rw [Serde.toText_eq a.textual, Serde.toText_eq b.textual] at h
  exact JobResultContent.toText_injective h

/-- Both encoders write the same bytes for the same validated value, and for no other value. What the
    SDK hands to the verifier for a statement it decoded reads back, with a reader that inverts
    `serde_json`'s writer, as the statement of `soul-core` with that SDK form, which validates. -/
theorem canonical_encoders_agree :
    (∀ (c : JobRequestContent) (created_at now : ℕ), c.validate created_at now = .ok () →
        Sdk.serializeRequestContent c.toSdk = Serde.toText c.toJson) ∧
      (∀ s : ProofStatement, s.validate = .ok () →
        Sdk.serializeProofStatement s.toSdk = Serde.toText s.toJson) ∧
      (∀ (parseUrl : Text → Option Url) (c : JobResultContent), c.validate parseUrl = .ok () →
        Sdk.serializeResult c.toSdk = Serde.toText c.toJson) ∧
      Function.Injective (fun c : JobRequestContent => Serde.toText c.toJson) ∧
      Function.Injective (fun s : ProofStatement => Serde.toText s.toJson) ∧
      Function.Injective (fun c : JobResultContent => Serde.toText c.toJson) ∧
      ∀ fromStr : Text → Except Text ProofStatement,
        (∀ s, fromStr (Serde.toText s.toJson) = .ok s) →
        ∀ (v : Option Json) (r : Sdk.ProofStatement), Sdk.parseStatement v = .ok r →
          ∃ s : ProofStatement, s.toSdk = r ∧ s.validate = .ok () ∧
            fromStr (Sdk.serializeProofStatement r) = .ok s := by
  refine ⟨fun _ _ _ => serializeRequestContent_eq, fun _ => serializeProofStatement_eq,
    fun _ _ => serializeResult_eq, toText_request_injective, toText_statement_injective,
    toText_result_injective, fun fromStr hread v r hr => ?_⟩
  obtain ⟨s, hvalid, rfl⟩ := Sdk.parseStatement_sound hr
  exact ⟨s, rfl, hvalid, by rw [serializeProofStatement_eq hvalid, hread]⟩

end SoulSociety.Protocol
