import Mathlib.Algebra.GroupWithZero.Nat
import Mathlib.Data.Nat.Bits
import Mathlib.Data.Nat.Notation

/-! Folding an authentication path into a root. At each level the lowest bit of the index says on
    which side the sibling stands, and is then dropped. -/

namespace SoulSociety.Lib.MerklePath

variable {α : Type*} (hash : α → α → α)

/-- The root that a leaf, a path and an index lead to. -/
def root : α → List α → ℕ → α
  | current, [], _ => current
  | current, sibling :: path, index =>
    root (if index % 2 = 0 then hash current sibling else hash sibling current) path (index / 2)

/-- One level, by the bit of the index that belongs to it. -/
def level (index : ℕ) (current : α) (entry : α × ℕ) : α :=
  if index.testBit entry.2 then hash entry.1 current else hash current entry.1

theorem foldl_level_eq (index : ℕ) : ∀ (path : List α) (current : α) (k : ℕ),
    (path.zipIdx k).foldl (level hash index) current = root hash current path (index / 2 ^ k)
  | [], _, _ => rfl
  | sibling :: path, current, k => by
    have hbit : index.testBit k = true ↔ index / 2 ^ k % 2 = 1 := by
      rw [Nat.testBit_eq_decide_div_mod_eq, decide_eq_true_eq]
    have hdrop : index / 2 ^ k / 2 = index / 2 ^ (k + 1) := by
      rw [Nat.div_div_eq_div_mul, Nat.pow_succ]
    rw [List.zipIdx_cons, List.foldl_cons, foldl_level_eq index path, root, hdrop, level]
    rcases Nat.mod_two_eq_zero_or_one (index / 2 ^ k) with h | h
    · rw [if_neg (by rw [hbit, h]; decide), if_pos h]
    · rw [if_pos (hbit.mpr h), if_neg (by rw [h]; decide)]

/-- The fold goes through the bits of the index from the lowest up. -/
theorem root_eq_foldl (leaf : α) (path : List α) (index : ℕ) :
    root hash leaf path index = path.zipIdx.foldl (level hash index) leaf := by
  rw [foldl_level_eq, Nat.pow_zero, Nat.div_one]

/-! ### Complete trees -/

/-- The arguments of the hash at one level. -/
def ordered (index : ℕ) (current sibling : α) : α × α :=
  if index % 2 = 0 then (current, sibling) else (sibling, current)

theorem root_cons (current sibling : α) (path : List α) (index : ℕ) :
    root hash current (sibling :: path) index =
      root hash (hash.uncurry (ordered index current sibling)) path (index / 2) := by
  rw [root, ordered]
  split <;> rfl

/-- The pairs that are hashed on the way to the root. -/
def hashed : α → List α → ℕ → List (α × α)
  | _, [], _ => []
  | current, sibling :: path, index =>
    ordered index current sibling ::
      hashed (hash.uncurry (ordered index current sibling)) path (index / 2)

theorem ordered_inj {index : ℕ} {x y s t : α} :
    ordered index x s = ordered index y t ↔ x = y ∧ s = t := by
  rw [ordered, ordered]
  split
  · exact Prod.mk.injEq .. ▸ Iff.rfl
  · rw [Prod.mk.injEq]
    exact and_comm

/-- Where the hash tells the hashed pairs apart, a root and an index determine the leaf and the path. -/
theorem eq_of_root_eq : ∀ {p q : List α} {x y : α} {index : ℕ}, p.length = q.length →
    (∀ a ∈ hashed hash x p index, ∀ b ∈ hashed hash y q index,
      hash.uncurry a = hash.uncurry b → a = b) →
    root hash x p index = root hash y q index → x = y ∧ p = q
  | [], [], _, _, _, _, _, h => ⟨h, rfl⟩
  | s :: p, t :: q, x, y, index, hlen, hinj, h => by
    rw [root_cons, root_cons] at h
    have htail := eq_of_root_eq (Nat.succ.inj hlen)
      (fun a ha b hb => hinj a (List.mem_cons_of_mem _ ha) b (List.mem_cons_of_mem _ hb)) h
    have hpair := hinj _ (List.mem_cons_self ..) _ (List.mem_cons_self ..) htail.1
    obtain ⟨rfl, rfl⟩ := ordered_inj.mp hpair
    exact ⟨rfl, congrArg (s :: ·) htail.2⟩

variable {d : ℕ}

theorem double_lt (i : Fin (2 ^ d)) : 2 * i.val + 1 < 2 ^ (d + 1) := by
  have hi := i.isLt
  rw [Nat.pow_succ]
  omega

/-- The next level of a tree. -/
def parents (nodes : Fin (2 ^ (d + 1)) → α) (i : Fin (2 ^ d)) : α :=
  hash (nodes ⟨2 * i, Nat.lt_of_succ_lt (double_lt i)⟩) (nodes ⟨2 * i + 1, double_lt i⟩)

/-- The root of the complete tree over `2 ^ d` leaves, hashed pair by pair and level by level. -/
def treeRoot : {d : ℕ} → (Fin (2 ^ d) → α) → α
  | 0, nodes => nodes ⟨0, Nat.one_pos⟩
  | _ + 1, nodes => treeRoot (parents hash nodes)

def parentIndex (i : Fin (2 ^ (d + 1))) : Fin (2 ^ d) :=
  ⟨i / 2, Nat.div_lt_of_lt_mul (Nat.mul_comm 2 _ ▸ i.isLt)⟩

def siblingIndex (i : Fin (2 ^ (d + 1))) : Fin (2 ^ (d + 1)) :=
  if h : i.val % 2 = 0 then
    ⟨i + 1, by have hi := i.isLt; have hpow := Nat.pow_succ 2 d; omega⟩
  else ⟨i - 1, Nat.lt_of_le_of_lt (Nat.sub_le _ _) i.isLt⟩

/-- The siblings on the way from a leaf to the root. -/
def siblings : {d : ℕ} → (Fin (2 ^ d) → α) → Fin (2 ^ d) → List α
  | 0, _, _ => []
  | _ + 1, nodes, i => nodes (siblingIndex i) :: siblings (parents hash nodes) (parentIndex i)

@[simp] theorem length_siblings : ∀ {d : ℕ} (nodes : Fin (2 ^ d) → α) (i : Fin (2 ^ d)),
    (siblings hash nodes i).length = d
  | 0, _, _ => rfl
  | d + 1, nodes, i => by rw [siblings, List.length_cons, length_siblings]

/-- A node and its sibling make their parent. -/
theorem uncurry_ordered_sibling (nodes : Fin (2 ^ (d + 1)) → α) (i : Fin (2 ^ (d + 1))) :
    hash.uncurry (ordered i (nodes i) (nodes (siblingIndex i))) =
      parents hash nodes (parentIndex i) := by
  rw [ordered, siblingIndex, parents]
  split
  · rename_i heven
    have hleft : 2 * (i.val / 2) = i := by omega
    simp [parentIndex, Function.uncurry_apply_pair, hleft]
  · rename_i hodd
    have hleft : 2 * (i.val / 2) = i - 1 := by omega
    have hright : i.val - 1 + 1 = i := by omega
    simp [parentIndex, Function.uncurry_apply_pair, hleft, hright]

/-- Every leaf leads to the root along its siblings. -/
theorem root_siblings : ∀ {d : ℕ} (nodes : Fin (2 ^ d) → α) (i : Fin (2 ^ d)),
    root hash (nodes i) (siblings hash nodes i) i = treeRoot hash nodes
  | 0, nodes, i => by
    have hzero : i = ⟨0, Nat.one_pos⟩ := Fin.ext (Nat.lt_one_iff.mp i.isLt)
    rw [hzero]
    rfl
  | d + 1, nodes, i => by
    rw [siblings, root_cons, uncurry_ordered_sibling, treeRoot]
    exact root_siblings (parents hash nodes) (parentIndex i)

end SoulSociety.Lib.MerklePath
