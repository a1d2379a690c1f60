import Mathlib.Tactic.NormNum.NatFib
import SoulSociety.Cairo.Program

/-! What the two loops of the program compute: the root of a complete Merkle tree, which binds the leaf
    and its path, and the Fibonacci numbers, which wrap around only beyond the bound of the protocol. -/

namespace SoulSociety.Cairo
open Lib SoulSociety.Core Prover

/-! ### Merkle trees -/

section
variable (poseidon : List Felt → Felt) {d : ℕ}

/-- On a path of at most 64 siblings the verification compares the root. -/
theorem verifyMerkleProof_eq_true {proof : List Felt} (hlen : proof.length ≤ 64) {root leaf : Felt}
    {index : ℕ} : verifyMerkleProof poseidon root leaf proof index = some true ↔
      MerklePath.root (hashPair poseidon) leaf proof index = root := by
  rw [verifyMerkleProof_eq poseidon (by omega), Option.some.injEq, decide_eq_true_eq]

/-- Every leaf verifies against its siblings, and nothing else verifies at its index, unless two of
    the pairs that are hashed collide. -/
theorem merkle_complete_and_binding (hd : d ≤ 64) (leaves : Fin (2 ^ d) → Felt) (i : Fin (2 ^ d)) :
    verifyMerkleProof poseidon (MerklePath.treeRoot (hashPair poseidon) leaves) (leaves i)
        (MerklePath.siblings (hashPair poseidon) leaves i) i = some true ∧
      ∀ (x : Felt) (path : List Felt), path.length = d →
        verifyMerkleProof poseidon (MerklePath.treeRoot (hashPair poseidon) leaves) x path i =
          some true →
        (Function.Injective2 (hashPair poseidon) ∨
          ∀ a ∈ MerklePath.hashed (hashPair poseidon) x path i,
            ∀ b ∈ MerklePath.hashed (hashPair poseidon) (leaves i)
              (MerklePath.siblings (hashPair poseidon) leaves i) i,
            hashPair poseidon a.1 a.2 = hashPair poseidon b.1 b.2 → a = b) →
        x = leaves i ∧ path = MerklePath.siblings (hashPair poseidon) leaves i := by
  have hlength := MerklePath.length_siblings (hashPair poseidon) leaves i
  have hroot := MerklePath.root_siblings (hashPair poseidon) leaves i
  refine ⟨(verifyMerkleProof_eq_true poseidon (hlength.trans_le hd)).mpr hroot, ?_⟩
  intro x path hpath hverify hinj
  rw [verifyMerkleProof_eq_true poseidon (hpath.trans_le hd), ← hroot] at hverify
  refine MerklePath.eq_of_root_eq _ (hpath.trans hlength.symm) ?_ hverify
  intro a ha b hb hab
  rcases hinj with hinj | hinj
  · obtain ⟨hfst, hsnd⟩ := hinj hab
    exact Prod.ext hfst hsnd
  · exact hinj a ha b hb hab

end

/-- A pair hash for four small leaves. -/
def exampleHash (values : List Felt) : Felt :=
  feltOfNat (values.foldl (fun hash value => 10 * hash + value.val) 0)

def exampleLeaves (i : Fin (2 ^ 2)) : Felt := feltOfNat (i + 1)

/-- The pairs that are hashed for the third leaf. -/
def exampleHashed : List (Felt × Felt) :=
  MerklePath.hashed (hashPair exampleHash) (exampleLeaves 2)
    (MerklePath.siblings (hashPair exampleHash) exampleLeaves 2) 2

-- a check of the list: the elements of the field cannot be enumerated
theorem exampleHashed_distinct : (exampleHashed.all fun a => exampleHashed.all fun b =>
    hashPair exampleHash a.1 a.2 ≠ hashPair exampleHash b.1 b.2 || a = b) = true := by
  decide +kernel

theorem exampleLeaves_bound :
    verifyMerkleProof exampleHash (MerklePath.treeRoot (hashPair exampleHash) exampleLeaves)
        (exampleLeaves 2) (MerklePath.siblings (hashPair exampleHash) exampleLeaves 2) 2 =
          some true ∧
      [feltOfNat 4, feltOfNat 12] = MerklePath.siblings (hashPair exampleHash) exampleLeaves 2 := by
  have h := merkle_complete_and_binding exampleHash (by decide) exampleLeaves 2
  refine ⟨h.1, (h.2 (feltOfNat 3) [feltOfNat 4, feltOfNat 12] rfl (by decide +kernel)
    (.inr fun a ha b hb hab => ?_)).2⟩
  have hdistinct := List.all_eq_true.mp (List.all_eq_true.mp exampleHashed_distinct a ha) b hb
  simpa [hab] using hdistinct

/-! ### Fibonacci -/

theorem fib_lt_cairoPrime {n : ℕ} (h : n ≤ 363) : Nat.fib n < cairoPrime :=
  Nat.lt_of_le_of_lt (Nat.fib_mono h) (by norm_num [cairoPrime])

theorem cairoPrime_le_fib {n : ℕ} (h : 363 < n) : cairoPrime ≤ Nat.fib n :=
  Nat.le_trans (by norm_num [cairoPrime]) (Nat.fib_mono h)

theorem val_feltOfNat_fib {n : ℕ} (h : n ≤ 363) : (feltOfNat (Nat.fib n)).val = Nat.fib n :=
  Nat.mod_eq_of_lt (fib_lt_cairoPrime h)

theorem main_fibonacci_of_le {n : ℕ} (poseidon : List Felt → Felt) (h : n ≤ 363) :
    main poseidon 1 [feltOfNat n] [] = some (1, [feltOfNat n], [feltOfNat (Nat.fib n)]) :=
  (main_fibonacci poseidon).mpr ⟨n, h, rfl, rfl, rfl⟩

/-- The loop gives the Fibonacci number modulo the prime wherever its counter can go; what a job or the
    program admits is the Fibonacci number itself; and the next one does not fit. -/
theorem fibonacci_exact (poseidon : List Felt → Felt) :
    (∀ n < 2 ^ 64 - 1, ∃ v, computeFibonacci n = some v ∧ v.val = Nat.fib n % cairoPrime) ∧
      (∀ n, (JobInput.fibonacci n).validate = .ok () →
        ∃ v, main poseidon 1 [feltOfNat n] [] = some (1, [feltOfNat n], [v]) ∧ v.val = Nat.fib n) ∧
      (∀ public_input private_input ret, main poseidon 1 public_input private_input = some ret →
        ∃ n v, (JobInput.fibonacci n).validate = .ok () ∧ public_input = [feltOfNat n] ∧
          ret = (1, public_input, [v]) ∧ v.val = Nat.fib n) ∧
      ∀ n > 363, cairoPrime ≤ Nat.fib n := by
  refine ⟨fun n hn => ?_, fun n hn => ?_, fun public_input private_input ret h => ?_,
    fun n => cairoPrime_le_fib⟩
  · exact ⟨_, computeFibonacci_eq (by omega), rfl⟩
  · have hle : n ≤ 363 := JobInput.validate_iff.mp hn
    exact ⟨_, main_fibonacci_of_le poseidon hle, val_feltOfNat_fib hle⟩
  · obtain ⟨n, hle, rfl, -, rfl⟩ := (main_fibonacci poseidon).mp h
    exact ⟨n, _, JobInput.validate_iff.mpr hle, rfl, rfl, val_feltOfNat_fib hle⟩

end SoulSociety.Cairo
