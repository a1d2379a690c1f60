import Mathlib.Data.Nat.Fib.Basic
import SoulSociety.Lib.MerklePath
import SoulSociety.Prover.Statement

/-! The Soul Cairo program (`soul-cairo/src`). A panic is `none`. Arrays of felts are lists, machine
    integers are numbers below their bound, and the Poseidon hash is a parameter. The program runs
    exactly on the arguments of valid jobs. -/

namespace SoulSociety.Cairo
open Lib SoulSociety.Core Prover

/-! ### Fibonacci -/

/-- The loop of `compute_fibonacci`. The counter is a `u64`. -/
def fibonacciLoop (n : ℕ) (a b : Felt) (i : ℕ) : Option Felt :=
  if i > n then some b
  else if i + 1 < 2 ^ 64 then fibonacciLoop n b (a + b) (i + 1)
  else none
termination_by n + 1 - i

def computeFibonacci (n : ℕ) : Option Felt :=
  if n = 0 then some (feltOfNat 0)
  else if n = 1 then some (feltOfNat 1)
  else fibonacciLoop n (feltOfNat 0) (feltOfNat 1) 2

/-! ### Hashes -/

variable (poseidon : List Felt → Felt)

def verifyHash (expected_hash preimage : Felt) : Bool := poseidon [preimage] = expected_hash

/-- `hash_pair`. -/
def hashPair (left right : Felt) : Felt := poseidon [left, right]

/-- The loop of `compute_root`. The position is a `u32`. -/
def computeRootLoop (proof : List Felt) (current : Felt) (idx i : ℕ) : Option Felt :=
  if h : i < proof.length then
    if i + 1 < 2 ^ 32 then
      let sibling := proof[i]
      let data := if idx % 2 = 0 then [current, sibling] else [sibling, current]
      computeRootLoop proof (poseidon data) (idx / 2) (i + 1)
    else none
  else some current
termination_by proof.length - i

def computeRoot (leaf : Felt) (proof : List Felt) (index : ℕ) : Option Felt :=
  computeRootLoop poseidon proof leaf index 0

def verifyMerkleProof (root leaf : Felt) (proof : List Felt) (index : ℕ) : Option Bool :=
  (computeRoot poseidon leaf proof index).map fun computed_root => computed_root = root

/-! ### The executable -/

/-- `try_into` from `felt252` to `u64`. -/
def tryIntoU64 (value : Felt) : Option ℕ := if value.val < 2 ^ 64 then some value.val else none

/-- `base.pow(exp)` on `u64`, which panics on overflow. -/
def powU64 (base exp : ℕ) : Option ℕ := if base ^ exp < 2 ^ 64 then some (base ^ exp) else none

/-- `if valid { 1 } else { 0 }`. -/
def boolFelt (valid : Bool) : Felt := if valid then feltOfNat 1 else feltOfNat 0

/-- Execute one supported computation. -/
def main (service : UInt8) (public_input private_input : List Felt) :
    Option (UInt8 × List Felt × List Felt) :=
  if service = 1 then do
    guard (public_input.length = 1)
    guard (private_input = [])
    let n ← tryIntoU64 (← public_input[0]?)
    guard (n ≤ 363)
    let result ← computeFibonacci n
    return (service, public_input, [result])
  else if service = 2 then do
    guard (public_input.length = 1)
    guard (private_input.length = 1)
    let valid := verifyHash poseidon (← public_input[0]?) (← private_input[0]?)
    return (service, public_input, [boolFelt valid])
  else if service = 3 then do
    guard (public_input.length = 3)
    guard (private_input.length ≤ 32)
    let index ← tryIntoU64 (← public_input[2]?)
    let max_index ← powU64 2 private_input.length
    guard (index < max_index)
    let valid ← verifyMerkleProof poseidon (← public_input[0]?) (← public_input[1]?) private_input
      index
    return (service, public_input, [boolFelt valid])
  else none

/-! ### Cairo Serde -/

/-- `deserialize_array_helper`. -/
def takeArray : ℕ → List Felt → Option (List Felt × List Felt)
  | 0, rest => some ([], rest)
  | _ + 1, [] => none
  | remaining + 1, value :: rest => (takeArray remaining rest).map fun (array, rest) =>
      (value :: array, rest)

/-- An array behind its length. -/
def deserializeArray : List Felt → Option (List Felt × List Felt)
  | [] => none
  | length :: rest => takeArray length.val rest

/-- The parameters of `main`, which have to use up the input. -/
def deserializeArgs : List Felt → Option (UInt8 × List Felt × List Felt)
  | [] => none
  | service :: rest => do
    guard (service.val < 256)
    let (public_input, rest) ← deserializeArray rest
    let (private_input, rest) ← deserializeArray rest
    guard (rest = [])
    return (UInt8.ofNat service.val, public_input, private_input)

/-! ### The loops -/

theorem feltOfNat_add (a b : ℕ) : feltOfNat a + feltOfNat b = feltOfNat (a + b) :=
  Fin.ext (Nat.add_mod a b cairoPrime).symm

/-- Two neighbours of the sequence enter the loop, and the loop walks on to `n`. -/
theorem fibonacciLoop_eq {n k : ℕ} (hn : n + 1 < 2 ^ 64) (hk : k + 1 ≤ n) :
    fibonacciLoop n (feltOfNat (Nat.fib k)) (feltOfNat (Nat.fib (k + 1))) (k + 2) =
      some (feltOfNat (Nat.fib n)) := by
  rw [fibonacciLoop]
  split
  · rename_i hend
    obtain rfl : n = k + 1 := by omega
    rfl
  · rename_i hmore
    have hcounter : k + 2 + 1 < 2 ^ 64 := by omega
    rw [if_pos hcounter, feltOfNat_add, ← Nat.fib_add_two]
    exact fibonacciLoop_eq hn (by omega)
termination_by n - k

theorem computeFibonacci_eq {n : ℕ} (hn : n + 1 < 2 ^ 64) :
    computeFibonacci n = some (feltOfNat (Nat.fib n)) := by
  rw [computeFibonacci]
  split
  · rename_i h
    rw [h]; rfl
  · split
    · rename_i h
      rw [h]; rfl
    · exact fibonacciLoop_eq (k := 0) hn (by omega)

/-- From position `i` on, the loop folds what is left of the path. -/
theorem computeRootLoop_eq {proof : List Felt} (hlen : proof.length < 2 ^ 32) (current : Felt)
    (idx i : ℕ) : computeRootLoop poseidon proof current idx i =
      some (MerklePath.root (hashPair poseidon) current (proof.drop i) idx) := by
  rw [computeRootLoop]
  split
  · rename_i hi
    have hcounter : i + 1 < 2 ^ 32 := by omega
    rw [if_pos hcounter, List.drop_eq_getElem_cons hi, MerklePath.root, computeRootLoop_eq hlen]
    rcases Nat.mod_two_eq_zero_or_one idx with hbit | hbit
    · rw [if_pos hbit, if_pos hbit]; rfl
    · have hbit : ¬ idx % 2 = 0 := by omega
      rw [if_neg hbit, if_neg hbit]; rfl
  · rename_i hi
    rw [List.drop_eq_nil_of_le (Nat.not_lt.mp hi), MerklePath.root]
termination_by proof.length - i

theorem verifyMerkleProof_eq {proof : List Felt} (hlen : proof.length < 2 ^ 32) (root leaf : Felt)
    (index : ℕ) : verifyMerkleProof poseidon root leaf proof index =
      some (decide (MerklePath.root (hashPair poseidon) leaf proof index = root)) := by
  rw [verifyMerkleProof, computeRoot, computeRootLoop_eq poseidon hlen, List.drop_zero]
  rfl

/-! ### The computation of a job -/

/-- What a job computes: the Fibonacci number, whether the preimage has the hash, or whether the
    path leads from the leaf to the root. -/
def computation : JobInput → Felt
  | .fibonacci n => feltOfNat (Nat.fib n)
  | .hashVerify hash preimage => boolFelt (poseidon [preimage.toFelt] = hash.toFelt)
  | .merkleProof root leaf proof index =>
    boolFelt (MerklePath.root (hashPair poseidon) leaf.toFelt (proof.map FeltHex.toFelt) index =
      root.toFelt)

theorem guard_eq_some {p : Prop} [Decidable p] {u : Unit} : (guard p : Option Unit) = some u ↔ p := by
  by_cases h : p <;> simp [h]

theorem tryIntoU64_eq_some {v : Felt} {n : ℕ} :
    tryIntoU64 v = some n ↔ n < 2 ^ 64 ∧ v = feltOfNat n := by
  rw [tryIntoU64]
  constructor
  · intro h
    split at h
    · cases h
      exact ⟨‹_›, (Dialect.feltOfNat_val v).symm⟩
    · cases h
  · rintro ⟨hn, rfl⟩
    rw [Dialect.val_feltOfNat hn, if_pos hn]

theorem powU64_eq_some {base exp n : ℕ} :
    powU64 base exp = some n ↔ base ^ exp < 2 ^ 64 ∧ n = base ^ exp := by
  rw [powU64]
  split
  · rename_i h
    rw [Option.some.injEq]
    exact ⟨fun heq => ⟨h, heq.symm⟩, fun heq => heq.2.symm⟩
  · rename_i h
    constructor
    · rintro ⟨⟩
    · rintro ⟨hlt, -⟩
      exact absurd hlt h

theorem main_fibonacci {public_input private_input : List Felt}
    {ret : UInt8 × List Felt × List Felt} :
    main poseidon 1 public_input private_input = some ret ↔ ∃ n ≤ 363, public_input = [feltOfNat n] ∧
      private_input = [] ∧ ret = (1, [feltOfNat n], [feltOfNat (Nat.fib n)]) := by
  simp only [main, if_pos, Option.bind_eq_bind, Option.bind_eq_some_iff, guard_eq_some, exists_unit,
    tryIntoU64_eq_some, Option.pure_def, Option.some.injEq]
  constructor
  · rintro ⟨hpublic, rfl, v, hv, n, ⟨-, rfl⟩, hn, result, hresult, rfl⟩
    obtain ⟨v, rfl⟩ := List.length_eq_one_iff.mp hpublic
    cases hv
    rw [computeFibonacci_eq (by omega)] at hresult
    cases hresult
    exact ⟨n, hn, rfl, rfl, rfl⟩
  · rintro ⟨n, hn, rfl, rfl, rfl⟩
    exact ⟨rfl, rfl, _, rfl, n, ⟨by omega, rfl⟩, hn, _, computeFibonacci_eq (by omega), rfl⟩

theorem main_hashVerify {public_input private_input : List Felt}
    {ret : UInt8 × List Felt × List Felt} :
    main poseidon 2 public_input private_input = some ret ↔ ∃ hash preimage, public_input = [hash] ∧
      private_input = [preimage] ∧ ret = (2, [hash], [boolFelt (poseidon [preimage] = hash)]) := by
  have hservice : (2 : UInt8) ≠ 1 := by decide
  simp only [main, if_neg hservice, if_pos, Option.bind_eq_bind, Option.bind_eq_some_iff,
    guard_eq_some, exists_unit, Option.pure_def, Option.some.injEq]
  constructor
  · rintro ⟨hpublic, hprivate, hash, hhash, preimage, hpreimage, rfl⟩
    obtain ⟨hash, rfl⟩ := List.length_eq_one_iff.mp hpublic
    obtain ⟨preimage, rfl⟩ := List.length_eq_one_iff.mp hprivate
    cases hhash
    cases hpreimage
    exact ⟨hash, preimage, rfl, rfl, rfl⟩
  · rintro ⟨hash, preimage, rfl, rfl, rfl⟩
    exact ⟨rfl, rfl, _, rfl, _, rfl, rfl⟩

theorem two_pow_lt {depth : ℕ} (h : depth ≤ 32) : 2 ^ depth < 2 ^ 64 :=
  Nat.pow_lt_pow_right (by decide) (by omega)

theorem main_merkleProof {public_input private_input : List Felt}
    {ret : UInt8 × List Felt × List Felt} :
    main poseidon 3 public_input private_input = some ret ↔ ∃ root leaf index,
      private_input.length ≤ 32 ∧ index < 2 ^ private_input.length ∧
        public_input = [root, leaf, feltOfNat index] ∧ ret = (3, [root, leaf, feltOfNat index],
          [boolFelt (MerklePath.root (hashPair poseidon) leaf private_input index = root)]) := by
  have hfib : (3 : UInt8) ≠ 1 := by decide
  have hhash : (3 : UInt8) ≠ 2 := by decide
  simp only [main, if_neg hfib, if_neg hhash, if_pos, Option.bind_eq_bind, Option.bind_eq_some_iff,
    guard_eq_some, exists_unit, tryIntoU64_eq_some, powU64_eq_some, Option.pure_def,
    Option.some.injEq]
  constructor
  · rintro ⟨hpublic, hdepth, v, hv, index, ⟨-, rfl⟩, _, ⟨-, rfl⟩, hindex, root, hroot, leaf, hleaf,
      valid, hvalid, rfl⟩
    obtain ⟨a, b, c, rfl⟩ := List.length_eq_three.mp hpublic
    cases hv
    cases hroot
    cases hleaf
    rw [verifyMerkleProof_eq poseidon (by omega)] at hvalid
    cases hvalid
    exact ⟨_, _, index, hdepth, hindex, rfl, rfl⟩
  · rintro ⟨root, leaf, index, hdepth, hindex, rfl, rfl⟩
    have hlt := two_pow_lt hdepth
    exact ⟨rfl, hdepth, _, rfl, index, ⟨Nat.lt_trans hindex hlt, rfl⟩, _, ⟨hlt, rfl⟩, hindex, root, rfl,
      leaf, rfl, _, verifyMerkleProof_eq poseidon (by omega) root leaf index, rfl⟩

/-- The program returns on the arguments of valid jobs and on no others, and computes the job. -/
theorem main_eq_some_iff {service : UInt8} {public_input private_input : List Felt}
    {ret : UInt8 × List Felt × List Felt} :
    main poseidon service public_input private_input = some ret ↔ ∃ i : JobInput,
      i.validate = .ok () ∧ service.toNat = serviceId i.service ∧ public_input = publicArgs i ∧
        private_input = privateArgs i ∧
          ret = (service, public_input, [computation poseidon i]) := by
  constructor
  · intro h
    by_cases h₁ : service = 1
    · subst h₁
      obtain ⟨n, hn, rfl, rfl, rfl⟩ := (main_fibonacci poseidon).mp h
      exact ⟨.fibonacci n, JobInput.validate_iff.mpr hn, rfl, rfl, rfl, rfl⟩
    by_cases h₂ : service = 2
    · subst h₂
      obtain ⟨hash, preimage, rfl, rfl, rfl⟩ := (main_hashVerify poseidon).mp h
      refine ⟨.hashVerify (.ofFelt hash) (.ofFelt preimage), rfl, rfl, ?_⟩
      simp only [publicArgs, privateArgs, computation, FeltHex.toFelt_ofFelt, and_self]
    by_cases h₃ : service = 3
    · subst h₃
      obtain ⟨root, leaf, index, hdepth, hindex, rfl, rfl⟩ := (main_merkleProof poseidon).mp h
      refine ⟨.merkleProof (.ofFelt root) (.ofFelt leaf) (private_input.map .ofFelt) index,
        JobInput.validate_iff.mpr ?_, rfl, ?_⟩
      · have hlen : (private_input.map FeltHex.ofFelt).length = private_input.length :=
          List.length_map ..
        exact ⟨hlen ▸ hdepth, hlen ▸ hindex⟩
      · simp only [publicArgs, privateArgs, computation, FeltHex.toFelt_ofFelt,
          Dialect.map_toFelt_ofFelt, and_self]
    · rw [main, if_neg h₁, if_neg h₂, if_neg h₃] at h
      cases h
  · rintro ⟨i, hvalid, hservice, rfl, rfl, rfl⟩
    have hvalid := JobInput.validate_iff.mp hvalid
    obtain rfl : service = UInt8.ofNat (serviceId i.service) := by rw [← hservice, UInt8.ofNat_toNat]
    cases i with
    | fibonacci n => exact (main_fibonacci poseidon).mpr ⟨n, hvalid, rfl, rfl, rfl⟩
    | hashVerify hash preimage => exact (main_hashVerify poseidon).mpr ⟨_, _, rfl, rfl, rfl⟩
    | merkleProof root leaf proof index =>
      have hlen : (privateArgs (.merkleProof root leaf proof index)).length = proof.length :=
        List.length_map ..
      refine (main_merkleProof poseidon).mpr ⟨_, _, index, ?_, ?_, rfl, rfl⟩
      · rw [hlen]; exact hvalid.1
      · rw [hlen]; exact hvalid.2

/-! ### The arguments of a job -/

theorem length_args_le {i : JobInput} (h : i.validate = .ok ()) :
    (publicArgs i).length ≤ 3 ∧ (privateArgs i).length ≤ 32 := by
  have h := JobInput.validate_iff.mp h
  cases i with
  | fibonacci n => exact ⟨by simp [publicArgs], by simp [privateArgs]⟩
  | hashVerify hash preimage => exact ⟨by simp [publicArgs], by simp [privateArgs]⟩
  | merkleProof root leaf proof index =>
    refine ⟨by simp [publicArgs], ?_⟩
    rw [privateArgs, List.length_map]
    exact h.1

theorem feltOfNat_inj {m n : ℕ} (hm : m < 2 ^ 64) (hn : n < 2 ^ 64) :
    feltOfNat m = feltOfNat n ↔ m = n := by
  constructor
  · intro h
    rw [← Dialect.val_feltOfNat hm, h, Dialect.val_feltOfNat hn]
  · rintro rfl; rfl

/-- Short argument lists can be read back from the text. -/
theorem serializeArgs_inj {s s' : ℕ} {p p' q q' : List Felt} (hs : s < 2 ^ 64) (hs' : s' < 2 ^ 64)
    (hshort : p.length + q.length < 2 ^ 64) (h : serializeArgs s p q = serializeArgs s' p' q') :
    s = s' ∧ p = p' ∧ q = q' := by
  have hlen := congrArg List.length h
  simp only [serializeArgs, List.length_cons, List.length_append] at hlen
  rw [serializeArgs, serializeArgs, List.cons.injEq, List.cons.injEq] at h
  obtain ⟨hservice, hp, happend⟩ := h
  have hp := (feltOfNat_inj (by omega) (by omega)).mp hp
  obtain ⟨rfl, hq⟩ := List.append_inj happend hp
  rw [List.cons.injEq] at hq
  exact ⟨(feltOfNat_inj hs hs').mp hservice, rfl, hq.2⟩

/-- The arguments determine a valid job. -/
theorem args_inj {i j : JobInput} (hi : i.validate = .ok ()) (hj : j.validate = .ok ())
    (hservice : serviceId i.service = serviceId j.service) (hpublic : publicArgs i = publicArgs j)
    (hprivate : privateArgs i = privateArgs j) : i = j := by
  replace hi := JobInput.validate_iff.mp hi
  replace hj := JobInput.validate_iff.mp hj
  cases i <;> cases j <;>
    simp only [JobInput.service, serviceId, publicArgs, privateArgs, List.cons.injEq, and_true,
      FeltHex.toFelt_injective.eq_iff, Nat.reduceEqDiff] at hservice hpublic hprivate
  case fibonacci n m =>
    have hi : n ≤ 363 := hi
    have hj : m ≤ 363 := hj
    rw [(feltOfNat_inj (by omega) (by omega)).mp hpublic]
  case hashVerify => rw [hpublic, hprivate]
  case merkleProof root leaf proof index root' leaf' proof' index' =>
    obtain ⟨rfl, rfl, hindex⟩ := hpublic
    obtain rfl := FeltHex.toFelt_injective.list_map hprivate
    have hlt := two_pow_lt hi.1
    rw [(feltOfNat_inj (by omega) (by omega)).mp hindex]

/-- The boundary of `JobInput::validate` at a depth. -/
theorem merkle_validate_iff {root leaf : FeltHex} {proof : List FeltHex} {index : ℕ}
    (h : proof.length ≤ maxMerkleDepth) :
    (JobInput.merkleProof root leaf proof index).validate = .ok () ↔ index < 1 <<< proof.length := by
  rw [JobInput.validate_iff, Nat.one_shiftLeft]
  exact and_iff_right h

/-- The program returns exactly on the arguments of the jobs that can be encoded, which determine the
    job. At every admitted depth neither power overflows, and they are the same boundary. -/
theorem main_guards_are_encoder_guards (service : UInt8) (public_input private_input : List Felt) :
    ((main poseidon service public_input private_input).isSome ↔ ∃ i : JobInput,
        i.validate = .ok () ∧
          encodeJob i = .ok (serializeArgs service.toNat public_input private_input)) ∧
      (∀ i j, encodeJob i = .ok (serializeArgs service.toNat public_input private_input) →
        encodeJob j = .ok (serializeArgs service.toNat public_input private_input) → i = j) ∧
      ∀ root leaf proof index, proof.length ≤ maxMerkleDepth →
        1 <<< proof.length < 2 ^ 64 ∧ powU64 2 proof.length = some (1 <<< proof.length) ∧
          ((JobInput.merkleProof root leaf proof index).validate = .ok () ↔
            index < 1 <<< proof.length) := by
  have hservice := service.toNat_lt
  have hread : ∀ {i : JobInput}, i.validate = .ok () →
      serializeArgs (serviceId i.service) (publicArgs i) (privateArgs i) =
        serializeArgs service.toNat public_input private_input →
      serviceId i.service = service.toNat ∧ publicArgs i = public_input ∧
        privateArgs i = private_input := by
    intro i hvalid h
    obtain ⟨hpublic, hprivate⟩ := length_args_le hvalid
    exact serializeArgs_inj (Dialect.serviceId_lt _) (by omega) (by omega) h
  refine ⟨?_, ?_, ?_⟩
  · rw [Option.isSome_iff_exists]
    constructor
    · rintro ⟨ret, h⟩
      obtain ⟨i, hvalid, hid, rfl, rfl, -⟩ := (main_eq_some_iff poseidon).mp h
      exact ⟨i, hvalid, encodeJob_eq_ok.mpr ⟨hvalid, by rw [hid]⟩⟩
    · rintro ⟨i, hvalid, hencode⟩
      obtain ⟨hid, hpublic, hprivate⟩ := hread hvalid (encodeJob_eq_ok.mp hencode).2.symm
      exact ⟨_, (main_eq_some_iff poseidon).mpr
        ⟨i, hvalid, hid.symm, hpublic.symm, hprivate.symm, rfl⟩⟩
  · intro i j hi hj
    obtain ⟨hvalid, hi⟩ := encodeJob_eq_ok.mp hi
    obtain ⟨hvalid', hj⟩ := encodeJob_eq_ok.mp hj
    obtain ⟨hid, hpublic, hprivate⟩ := hread hvalid hi.symm
    obtain ⟨hid', hpublic', hprivate'⟩ := hread hvalid' hj.symm
    exact args_inj hvalid hvalid' (hid.trans hid'.symm) (hpublic.trans hpublic'.symm)
      (hprivate.trans hprivate'.symm)
  · intro root leaf proof index hdepth
    rw [Nat.one_shiftLeft]
    have hlt := two_pow_lt hdepth
    refine ⟨hlt, powU64_eq_some.mpr ⟨hlt, rfl⟩, ?_⟩
    rw [merkle_validate_iff hdepth, Nat.one_shiftLeft]

/-- A tree of a single leaf. -/
def emptyPathJob : JobInput := .merkleProof (.ofFelt (feltOfNat 7)) (.ofFelt (feltOfNat 7)) [] 0

theorem emptyPathJob_encodes : encodeJob emptyPathJob =
    .ok (serializeArgs 3 [feltOfNat 7, feltOfNat 7, feltOfNat 0] []) := by
  refine encodeJob_eq_ok.mpr ⟨rfl, ?_⟩
  simp only [emptyPathJob, publicArgs, privateArgs, FeltHex.toFelt_ofFelt, List.map_nil]
  rfl

theorem emptyPath_guards :
    (main (fun _ => feltOfNat 0) 3 [feltOfNat 7, feltOfNat 7, feltOfNat 0] []).isSome ∧
      (∃! i, encodeJob i = .ok (serializeArgs 3 [feltOfNat 7, feltOfNat 7, feltOfNat 0] [])) ∧
        powU64 2 0 = some (1 <<< 0) := by
  obtain ⟨hruns, hunique, hpow⟩ := main_guards_are_encoder_guards (fun _ => feltOfNat 0) 3
    [feltOfNat 7, feltOfNat 7, feltOfNat 0] []
  obtain ⟨-, hpow, -⟩ := hpow (.fromU64 7) (.fromU64 7) [] 0 (by decide)
  exact ⟨hruns.mpr ⟨emptyPathJob, rfl, emptyPathJob_encodes⟩, ⟨emptyPathJob, emptyPathJob_encodes,
    fun j hj => hunique j emptyPathJob hj emptyPathJob_encodes⟩, hpow⟩

/-! ### Reading the arguments -/

theorem takeArray_append : ∀ (array rest : List Felt),
    takeArray array.length (array ++ rest) = some (array, rest)
  | [], _ => rfl
  | value :: array, rest => by
    rw [List.length_cons, List.cons_append, takeArray, takeArray_append array rest]
    rfl

theorem deserializeArray_append {array : List Felt} (h : array.length < 2 ^ 64) (rest : List Felt) :
    deserializeArray (feltOfNat array.length :: (array ++ rest)) = some (array, rest) := by
  rw [deserializeArray, Dialect.val_feltOfNat h, takeArray_append]

/-- Short argument lists read back. -/
theorem deserializeArgs_serializeArgs {service : UInt8} {public_input private_input : List Felt}
    (hpublic : public_input.length < 2 ^ 64) (hprivate : private_input.length < 2 ^ 64) :
    deserializeArgs (serializeArgs service.toNat public_input private_input) =
      some (service, public_input, private_input) := by
  have hbyte := service.toNat_lt
  have hservice : (feltOfNat service.toNat).val = service.toNat :=
    Dialect.val_feltOfNat (Nat.lt_trans hbyte (by decide))
  have hlast := deserializeArray_append hprivate []
  rw [List.append_nil] at hlast
  simp [serializeArgs, deserializeArgs, hservice, deserializeArray_append hpublic, hlast,
    show service.toNat < 256 from hbyte]

end SoulSociety.Cairo
