import SoulSociety.Cairo.Program
import SoulSociety.Protocol.ResultForm

/-! The honest way of a job: the arguments that the encoder writes, the run of the Cairo program on
    them, and the statement that the decoder reads from the output. The virtual machine and the prover
    reproduce the return value, so the output segment is its Serde text. -/

namespace SoulSociety.Protocol
open Lib SoulSociety.Core Prover

variable (poseidon : List Felt → Felt)

/-- What a job is to compute: the Fibonacci number itself, not only its residue; whether the preimage
    has the hash; whether folding the path, by the bits of the index from the lowest up, leads from
    the leaf to the root. -/
def Computes : JobInput → JobOutput → Prop
  | .fibonacci n, .fibonacci result => result.toFelt.val = Nat.fib n
  | .hashVerify hash preimage, .hashVerify valid =>
    valid = true ↔ poseidon [preimage.toFelt] = hash.toFelt
  | .merkleProof root leaf proof index, .merkleProof valid =>
    valid = true ↔ (proof.map FeltHex.toFelt).zipIdx.foldl
      (MerklePath.level (Cairo.hashPair poseidon) index) leaf.toFelt = root.toFelt
  | _, _ => False

/-- The typed output of an honest run. -/
def honestOutput : JobInput → JobOutput
  | .fibonacci n => .fibonacci (.ofFelt (feltOfNat (Nat.fib n)))
  | .hashVerify hash preimage => .hashVerify (poseidon [preimage.toFelt] = hash.toFelt)
  | .merkleProof root leaf proof index => .merkleProof (MerklePath.root (Cairo.hashPair poseidon)
      leaf.toFelt (proof.map FeltHex.toFelt) index = root.toFelt)

/-- The statement of an honest run. -/
def honestStatement (i : JobInput) : ProofStatement where
  service := i.service
  program := cairoProgram
  public_input := Provider.publicInput i
  public_output := [.ofFelt (Cairo.computation poseidon i)]
  output := honestOutput poseidon i

/-- The largest admitted Fibonacci number is below the prime. -/
theorem fib_lt_cairoPrime {n : ℕ} (h : n ≤ maxFibonacciN) : Nat.fib n < cairoPrime := by
  have hmax : Nat.fib maxFibonacciN < cairoPrime := by decide +kernel
  exact Nat.lt_of_le_of_lt (Nat.fib_mono h) hmax

theorem computes_honestOutput {i : JobInput} (h : i.validate = .ok ()) :
    Computes poseidon i (honestOutput poseidon i) := by
  have h := JobInput.validate_iff.mp h
  cases i with
  | fibonacci n =>
    have hval : (feltOfNat (Nat.fib n)).val = Nat.fib n := Nat.mod_eq_of_lt (fib_lt_cairoPrime h)
    rw [honestOutput, Computes, FeltHex.toFelt_ofFelt, hval]
  | hashVerify hash preimage => exact decide_eq_true_iff
  | merkleProof root leaf proof index =>
    rw [honestOutput, Computes, ← MerklePath.root_eq_foldl]
    exact decide_eq_true_iff

theorem ofFelt_boolFelt (valid : Bool) :
    FeltHex.ofFelt (Cairo.boolFelt valid) = FeltHex.fromU64 (ProofStatement.boolU64 valid) := by
  rw [FeltHex.ofFelt_eq_iff, toFelt_fromU64 (boolU64_lt valid)]
  cases valid <;> rfl

theorem honestStatement_valid (i : JobInput) : (honestStatement poseidon i).validate = .ok () := by
  refine ProofStatement.validate_iff.mpr ⟨rfl, ?_⟩
  cases i with
  | fibonacci n =>
    simp [honestStatement, honestOutput, ProofStatement.layoutMatches, JobInput.service,
      Provider.publicInput, Cairo.computation]
  | hashVerify hash preimage =>
    simp [honestStatement, honestOutput, ProofStatement.layoutMatches, JobInput.service,
      Provider.publicInput, Cairo.computation, ofFelt_boolFelt]
  | merkleProof root leaf proof index =>
    simp [honestStatement, honestOutput, ProofStatement.layoutMatches, JobInput.service,
      Provider.publicInput, Cairo.computation, ofFelt_boolFelt]

/-- The program is given the public projection of the input. -/
theorem publicArgs_eq {i : JobInput} (h : i.validate = .ok ()) :
    publicArgs i = (Provider.publicInput i).map FeltHex.toFelt := by
  have h := JobInput.validate_iff.mp h
  cases i with
  | fibonacci n =>
    have hn : n ≤ 363 := h
    rw [publicArgs, Provider.publicInput, List.map_singleton, toFelt_fromU64 (by omega)]
  | hashVerify hash preimage => rfl
  | merkleProof root leaf proof index =>
    have hindex : index < 2 ^ 64 := Nat.lt_trans h.2 (Cairo.two_pow_lt h.1)
    rw [publicArgs, Provider.publicInput, List.map_cons, List.map_cons, List.map_singleton,
      toFelt_fromU64 hindex]

/-- The output segment of an honest run is the flattening of its statement. -/
theorem flatten_honestStatement {i : JobInput} (h : i.validate = .ok ()) :
    flatten (honestStatement poseidon i) =
      serializeArgs (serviceId i.service) (publicArgs i) [Cairo.computation poseidon i] := by
  rw [serializeArgs, publicArgs_eq h, List.length_map, flatten, honestStatement, List.map_singleton,
    FeltHex.toFelt_ofFelt]
  rfl

theorem serviceId_ofNat (s : ServiceType) : (UInt8.ofNat (serviceId s)).toNat = serviceId s := by
  cases s <;> rfl

/-- A valid job is encoded, read, run, decoded, and bound to its request by both parties, and the
    decoded output is the specified computation. -/
theorem honest_pipeline {i : JobInput} (h : i.validate = .ok ()) :
    ∃ encoded service public_input private_input service' public_input' public_output s,
      encodeJob i = .ok encoded ∧
      Cairo.deserializeArgs encoded = some (service, public_input, private_input) ∧
      Cairo.main poseidon service public_input private_input =
        some (service', public_input', public_output) ∧
      decodeStatement (serializeArgs service'.toNat public_input' public_output) = .ok s ∧
      s.validate = .ok () ∧
      Provider.statementMatchesRequest s i = true ∧
      (∀ expires_at, Sdk.assertStatementBoundToRequest s.toSdk
        (JobRequestContent.new i expires_at).toSdk = .ok ()) ∧
      Computes poseidon i s.output := by
  have hid := serviceId_ofNat i.service
  obtain ⟨hpublic, hprivate⟩ := Cairo.length_args_le h
  have hread : Cairo.deserializeArgs (serializeArgs (UInt8.ofNat (serviceId i.service)).toNat
      (publicArgs i) (privateArgs i)) = some (UInt8.ofNat (serviceId i.service), publicArgs i,
        privateArgs i) := Cairo.deserializeArgs_serializeArgs (by omega) (by omega)
  rw [hid] at hread
  have hdecode : decodeStatement (flatten (honestStatement poseidon i)) =
      .ok (honestStatement poseidon i) :=
    (Dialect.decodeStatement_eq_ok (by decide)).mpr ⟨honestStatement_valid poseidon i, rfl⟩
  rw [flatten_honestStatement poseidon h, ← hid] at hdecode
  have hmatch : Provider.statementMatchesRequest (honestStatement poseidon i) i = true :=
    Provider.statementMatchesRequest_iff.mpr ⟨rfl, rfl⟩
  have hrequest : (JobRequestContent.new i none).validate 0 0 = .ok () :=
    JobRequestContent.validate_iff.mpr ⟨rfl, h, by rintro e ⟨⟩⟩
  refine ⟨_, _, _, _, _, _, _, honestStatement poseidon i, encodeJob_eq_ok.mpr ⟨h, rfl⟩, hread,
    (Cairo.main_eq_some_iff poseidon).mpr ⟨i, h, hid, rfl, rfl, rfl⟩, hdecode,
    honestStatement_valid poseidon i, hmatch, ?_, computes_honestOutput poseidon h⟩
  intro expires_at
  exact (assertStatementBound_iff hrequest (honestStatement_valid poseidon i)).mpr hmatch

theorem honest_fibonacci_ten : ∃ s, decodeStatement (serializeArgs 1 [feltOfNat 10] [feltOfNat 55]) =
    .ok s ∧ Provider.statementMatchesRequest s (.fibonacci 10) = true ∧
      Computes (fun _ => feltOfNat 0) (.fibonacci 10) s.output := by
  obtain ⟨_, _, _, _, _, _, _, s, hencode, hread, hrun, hdecode, -, hmatch, -, houtput⟩ :=
    honest_pipeline (fun _ => feltOfNat 0) (i := .fibonacci 10) rfl
  cases hencode
  cases hread
  have hmain : Cairo.main (fun _ => feltOfNat 0) 1 [feltOfNat 10] [] =
      some (1, [feltOfNat 10], [feltOfNat 55]) :=
    (Cairo.main_fibonacci _).mpr ⟨10, by decide, rfl, rfl, rfl⟩
  cases hmain.symm.trans hrun
  exact ⟨s, hdecode, hmatch, houtput⟩

end SoulSociety.Protocol
