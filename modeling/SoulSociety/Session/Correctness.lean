import SoulSociety.Protocol.Encoders
import SoulSociety.Protocol.Pipeline
import SoulSociety.Session.Soundness
import SoulSociety.Wasm.Browser

/-! What a verified job says about the computation, with the verifier of the web application. That an
    accepted STWO proof comes from a run of the proven program is assumed. A verified statement is then
    that of an honest run with the public input of the job; the private input may be another one. -/

namespace SoulSociety.Session
open Lib Sdk

/-! ### What a proof says -/

/-- The STWO assumption: an accepted proof of the required profile for a program hash is about a run of
    that program, here the Soul Cairo program, and its output segment is the Serde text of what that
    run returned. -/
def StwoSound (V : Prover.Stwo) (poseidon : List Core.Felt → Core.Felt) (hash : Text) : Prop :=
  ∀ proof data, V.config proof = Prover.requiredPcsConfig →
    V.preprocessedTraceVariant proof = .canonical → V.verifyCairo proof = some (.ok ()) →
    V.getVerificationOutput (V.publicMemory proof) = some data →
    (Core.FeltHex.ofFelt data.program_hash).value = hash →
    ∃ args service public_input private_input service' public_input' public_output,
      Cairo.deserializeArgs args = some (service, public_input, private_input) ∧
      Cairo.main poseidon service public_input private_input =
        some (service', public_input', public_output) ∧
      data.output = Prover.serializeArgs service'.toNat public_input' public_output

variable {V : Prover.Stwo} {poseidon : List Core.Felt → Core.Felt} {hash : Text}

/-- An accepted statement is that of an honest run. -/
theorem honest_of_binds {bytes : List UInt8} {s : Core.ProofStatement} {proof : V.Proof}
    {data : Prover.VerificationOutput} (hsound : StwoSound V poseidon hash)
    (h : Prover.Binds V bytes hash s proof data) :
    ∃ w : Core.JobInput, w.validate = .ok () ∧ s = Protocol.honestStatement poseidon w := by
  obtain ⟨_, service, public_input, private_input, service', public_input', public_output, -, hmain,
    houtput⟩ := hsound proof data h.config h.variant h.verified h.output h.program.symm
  obtain ⟨w, hvalid, hservice, rfl, rfl, hret⟩ := (Cairo.main_eq_some_iff poseidon).mp hmain
  cases hret
  rw [hservice, ← Protocol.flatten_honestStatement poseidon hvalid, ← h.statement] at houtput
  refine ⟨w, hvalid, ?_⟩
  have hdecode : Prover.decodeStatement (Prover.flatten s) = .ok s :=
    (Prover.Dialect.decodeStatement_eq_ok (by decide)).mpr ⟨h.valid, rfl⟩
  have hhonest : Prover.decodeStatement (Prover.flatten s) =
      .ok (Protocol.honestStatement poseidon w) :=
    (Prover.Dialect.decodeStatement_eq_ok (by decide)).mpr
      ⟨Protocol.honestStatement_valid poseidon w, houtput.symm⟩
  exact Except.ok.inj (hdecode.symm.trans hhonest)

/-- What an output says about a job, whoever computed it: the Fibonacci number; of a hash, that there
    is a preimage; of a leaf, that a path leads from it to the root. -/
def Warrants (poseidon : List Core.Felt → Core.Felt) : Core.JobInput → Core.JobOutput → Prop
  | .fibonacci n, .fibonacci result => result.toFelt.val = Nat.fib n
  | .hashVerify hash _, .hashVerify valid =>
    valid = true → ∃ preimage, poseidon [preimage] = hash.toFelt
  | .merkleProof root leaf _ index, .merkleProof valid =>
    valid = true → ∃ path : List Core.Felt, path.length ≤ 32 ∧ index < 2 ^ path.length ∧
      MerklePath.root (Cairo.hashPair poseidon) leaf.toFelt path index = root.toFelt
  | _, _ => False

/-- The output of an honest run of any job with the same public input. -/
theorem warrants_honestOutput {i w : Core.JobInput} (hi : i.validate = .ok ())
    (hw : w.validate = .ok ()) (hservice : w.service = i.service)
    (hpublic : Provider.publicInput w = Provider.publicInput i) :
    Warrants poseidon i (Protocol.honestOutput poseidon w) := by
  have hcomputes := Protocol.computes_honestOutput poseidon hw
  have hw := Core.JobInput.validate_iff.mp hw
  have hi := Core.JobInput.validate_iff.mp hi
  cases i with
  | fibonacci n =>
    cases w with
    | fibonacci m =>
      have hle : m ≤ 363 ∧ n ≤ 363 := ⟨hw, hi⟩
      obtain ⟨heq, -⟩ := List.cons.inj hpublic
      have hmn : m = n := (Prover.Dialect.fromU64_inj (by omega) (by omega)).mp heq
      rw [← hmn]
      exact hcomputes
    | hashVerify hash preimage => cases hservice
    | merkleProof root leaf path index => cases hservice
  | hashVerify hash preimage =>
    cases w with
    | hashVerify hash' preimage' =>
      obtain ⟨rfl, -⟩ := List.cons.inj hpublic
      exact fun hvalid => ⟨preimage'.toFelt, hcomputes.mp hvalid⟩
    | fibonacci n => cases hservice
    | merkleProof root leaf path index => cases hservice
  | merkleProof root leaf path index =>
    cases w with
    | merkleProof root' leaf' path' index' =>
      have hroot : root' = root := (List.cons.inj hpublic).1
      have hrest := (List.cons.inj hpublic).2
      have hleaf : leaf' = leaf := (List.cons.inj hrest).1
      have hindex : Core.FeltHex.fromU64 index' = Core.FeltHex.fromU64 index :=
        (List.cons.inj (List.cons.inj hrest).2).1
      obtain rfl : index' = index :=
        (Prover.Dialect.fromU64_inj (Nat.lt_trans hw.2 (Cairo.two_pow_lt hw.1))
          (Nat.lt_trans hi.2 (Cairo.two_pow_lt hi.1))).mp hindex
      subst hroot hleaf
      intro hvalid
      refine ⟨path'.map Core.FeltHex.toFelt, ?_, ?_, ?_⟩
      · rw [List.length_map]; exact hw.1
      · rw [List.length_map]; exact hw.2
      · rw [MerklePath.root_eq_foldl]
        exact hcomputes.mp hvalid
    | fibonacci n => cases hservice
    | hashVerify hash preimage => cases hservice

/-! ### A verified job -/

variable {C : SoulNostrClient} {options : JobOptions} {input : JobInput} {log : List Observation}
  {t : ℕ} {job : VerifiedJob} {i : Core.JobInput}

/-- The statement that was accepted is one of `soul-core`, about the service and the public input of
    the job. -/
theorem Checked.statement (hinput : i.toSdk = input) {proofBytes : ProofBytes}
    (hsound : job.Sound C options input log proofBytes)
    (h : Checked C options input t log job proofBytes) :
    ∃ p : Core.ProofStatement, p.validate = .ok () ∧ p.toSdk = job.result.content.statement ∧
      p.service = i.service ∧ p.public_input = Provider.publicInput i := by
  obtain ⟨_, _, _, _, -, -, hvalid⟩ := h.signed
  obtain ⟨event, now, -, hresult⟩ := h.accepted
  obtain ⟨-, q, created_at, hq, hcontent⟩ := content_of_validate hvalid
  obtain ⟨createdAt, -, hbuild, -⟩ := hsound.requestContent
  -- the content that was validated is the one of the job
  have hown : q = .new i (some (createdAt + options.expiresInSeconds)) := by
    refine content_eq_of_serialize hq ?_
    rw [hcontent, hbuild, hinput]
  simp only [validateResultEvent, bind_eq_ok, rejectIf_eq_ok, orReject_eq_ok, pure_eq_ok,
    exists_unit, not_not] at hresult
  obtain ⟨-, -, -, _, -, -, doc, hdoc, c, hparse, -, -, hbound, _, -, _, -, -, -, heq⟩ := hresult
  obtain rfl : c = .success job.result.content := congrArg ValidatedResult.content heq
  obtain ⟨hshaped, -⟩ := parseResult_sound (Json.stringsPaired_of_parse hdoc) hparse
  rw [← hcontent] at hbound
  obtain ⟨hservice, hpublic⟩ := (Protocol.assertBound_iff hq hshaped).mp hbound
  obtain ⟨-, -, ⟨p, hp, hstatement⟩, -⟩ := hshaped
  have hservice := hservice _ rfl
  have hpublic := hpublic _ rfl
  rw [← hstatement] at hservice hpublic
  rw [hown] at hservice hpublic
  exact ⟨p, hp, hstatement, hservice,
    List.map_injective_iff.mpr Core.FeltHex.toSdk_injective hpublic⟩

/-- In every state of every run of a job whose verifier is the one of the web application: a verified
    snapshot holds the statement of an honest run of the Soul Cairo program, for the service and the
    public input of the job, and its output is right about the job. -/
theorem verified_computed (C : SoulNostrClient) (hsigner : BuiltIn C.platform C.signer)
    (options : JobOptions) {value : Option Json} (hinput : validateJobInput value = .ok input)
    (B : Wasm.LoadedBrowserVerifier) (poseidon : List Core.Felt → Core.Felt)
    (hread : ∀ p : Core.ProofStatement, B.statementFromStr (Core.Serde.toText p.toJson) = .ok p)
    (hsound : StwoSound B.stwo poseidon (toUsv C.trustedProgramHash))
    (ls : List (Label C.signer.Answer)) (s : SoulJob)
    (hs : exec (SoulJob.step C options) (.new input) ls = some s)
    (hverifier : ∀ j proofBytes programHash statement answer left,
      .answered j proofBytes programHash statement answer left ∈ s.log →
        answer = B.verifyProof proofBytes programHash statement)
    (hstate : s.snapshot.state = .verified) :
    ∃ job i w, s.snapshot.verified = some job ∧ i.toSdk = input ∧ w.validate = .ok () ∧
      w.service = i.service ∧ Provider.publicInput w = Provider.publicInput i ∧
      job.result.content.statement = (Protocol.honestStatement poseidon w).toSdk ∧
      Warrants poseidon i (Protocol.honestOutput poseidon w) := by
  obtain ⟨i, hi, hinput⟩ := validateJobInput_sound hinput
  have hprovenance := Provenance.visits (Visits.last hs)
  rw [Core.canonicalizeInput_eq] at hprovenance
  obtain ⟨job, t, proofBytes, hjob, hchecked⟩ := hprovenance.checked hstate
  obtain ⟨p, hp, hstatement, hservice, hpublic⟩ :=
    hchecked.statement hinput (hchecked.sound hsigner hinput)
  obtain ⟨j, hmem⟩ := hchecked.verified.of_session
  have hanswer := hverifier _ _ _ _ _ _ hmem
  rw [← hstatement, Protocol.serializeProofStatement_eq hp] at hanswer
  obtain ⟨-, proof, data, hbinds⟩ :=
    (Wasm.LoadedBrowserVerifier.verifyProof_eq_true (hread p)).mp hanswer.symm
  obtain ⟨w, hw, rfl⟩ := honest_of_binds hsound hbinds
  exact ⟨job, i, w, hjob, hinput, hw, hservice, hpublic, hstatement.symm,
    warrants_honestOutput hi hw hservice hpublic⟩

/-! ### An honest proof -/

/-- A hash function for the program. A Fibonacci job does not use it. -/
def exampleHash (_ : List Core.Felt) : Core.Felt := Prover.feltOfNat 0

/-- The statement of the signed result. -/
def goldenStatement : Core.ProofStatement := Protocol.honestStatement exampleHash (.fibonacci 10)

/-- The proof that is downloaded in the signed run, for the program of the client. -/
def goldenStwo : Prover.Stwo where
  Proof := Unit
  PublicMemory := Unit
  fromSlice bytes := if bytes = List.replicate 29 0 then .ok () else .error (.err [])
  config _ := Prover.requiredPcsConfig
  preprocessedTraceVariant _ := .canonical
  publicMemory _ := ()
  verifyCairo _ := some (.ok ())
  getVerificationOutput _ := some ⟨Prover.feltOfNat 9, Prover.flatten goldenStatement⟩

noncomputable def goldenVerifier : Wasm.LoadedBrowserVerifier :=
  ⟨exampleClient.trustedProgramHash, goldenStwo, Wasm.exactStatementFromStr, false⟩

theorem goldenStwo_sound :
    StwoSound goldenStwo exampleHash (toUsv exampleClient.trustedProgramHash) := by
  intro proof data _ _ _ houtput _
  obtain rfl := (Option.some.inj houtput).symm
  have hmain : Cairo.main exampleHash 1 [Prover.feltOfNat 10] [] =
      some (1, [Prover.feltOfNat 10], [Prover.feltOfNat 55]) :=
    (Cairo.main_fibonacci _).mpr ⟨10, by decide, rfl, rfl, rfl⟩
  exact ⟨Prover.serializeArgs 1 [Prover.feltOfNat 10] [], 1, _, _, 1, _, _, by decide +kernel, hmain,
    by decide +kernel⟩

theorem goldenVerifier_reads (p : Core.ProofStatement) :
    goldenVerifier.statementFromStr (Core.Serde.toText p.toJson) = .ok p := by
  rw [Core.Serde.toText_eq p.textual]
  exact Wasm.exactStatementFromStr_stringify p

theorem golden_binds : Prover.Binds goldenStwo (List.replicate 29 0)
    (toUsv exampleClient.trustedProgramHash) goldenStatement ()
    ⟨Prover.feltOfNat 9, Prover.flatten goldenStatement⟩ where
  size := by decide
  read := rfl
  config := rfl
  variant := rfl
  verified := rfl
  output := rfl
  program := by decide +kernel
  valid := Protocol.honestStatement_valid exampleHash _
  statement := rfl

theorem goldenVerifier_accepts :
    goldenVerifier.verifyProof (List.replicate 29 0) exampleClient.trustedProgramHash
      (serializeProofStatement goldenSuccess.statement) = some true := by
  have hstatement : goldenSuccess.statement = goldenStatement.toSdk := by decide +kernel
  rw [hstatement, Protocol.serializeProofStatement_eq golden_binds.valid,
    Wasm.LoadedBrowserVerifier.verifyProof_eq_true (goldenVerifier_reads goldenStatement)]
  exact ⟨rfl, (), _, golden_binds⟩

/-- The tenth Fibonacci number, in the signed run. -/
theorem golden_verified_computed : ∃ s job i,
    exec (SoulJob.step exampleClient exampleOptions) (.new (.fibonacci 10))
        (goldenRun (List.replicate 29 0)) = some s ∧
      s.snapshot.verified = some job ∧ i.toSdk = .fibonacci 10 ∧
      ∃ w, Warrants exampleHash i (Protocol.honestOutput exampleHash w) := by
  obtain ⟨s, hs, hverifies⟩ := goldenRun_verifies (List.replicate 29 0)
  obtain ⟨job, i, w, hjob, hi, -, -, -, -, hwarrants⟩ :=
    verified_computed exampleClient .nip07 exampleOptions golden_validates goldenVerifier exampleHash
      goldenVerifier_reads goldenStwo_sound _ s hs (by
        intro j bytes hash statement verdict left hmem
        obtain ⟨-, rfl, rfl, rfl, rfl, -⟩ := hverifies.answered _ _ _ _ _ _ hmem
        exact goldenVerifier_accepts.symm) hverifies.state
  exact ⟨s, job, i, hs, hjob, hi, w, hwarrants⟩

end SoulSociety.Session
