import Mathlib.Data.List.Nodup
import Mathlib.Data.List.Perm.Subperm

/-! Lists of keys with values. When the keys are distinct, a lookup finds exactly the entries, so the
    order of the entries does not matter to whoever looks keys up. -/

namespace SoulSociety.Lib
variable {α β : Type*} [BEq α] [LawfulBEq α] {ms ns : List (α × β)} {k : α} {v : β}

theorem lookup_isSome_iff_mem : (ms.lookup k).isSome = true ↔ k ∈ ms.map Prod.fst := by
  rw [List.lookup_isSome_iff, List.mem_map]
  exact exists_congr fun p => and_congr_right fun _ => by rw [beq_iff_eq, eq_comm]

theorem lookup_eq_none_iff_notMem : ms.lookup k = none ↔ k ∉ ms.map Prod.fst := by
  rw [← lookup_isSome_iff_mem, ← Option.not_isSome_iff_eq_none]

theorem mem_of_lookup (h : ms.lookup k = some v) : (k, v) ∈ ms := by
  obtain ⟨front, back, rfl, -⟩ := List.lookup_eq_some_iff.mp h
  exact List.mem_append_right _ (List.mem_cons_self ..)

/-- With distinct keys a lookup finds exactly the entries. -/
theorem lookup_eq_some_iff_mem (h : (ms.map Prod.fst).Nodup) :
    ms.lookup k = some v ↔ (k, v) ∈ ms := by
  refine ⟨mem_of_lookup, fun hmem => ?_⟩
  induction ms with
  | nil => cases hmem
  | cons p ms ih =>
    rw [List.map_cons, List.nodup_cons] at h
    rw [List.lookup_cons]
    rcases List.mem_cons.mp hmem with rfl | hrest
    · rw [beq_self_eq_true]
    · have hne : k ≠ p.1 := fun heq => h.1 (heq ▸ List.mem_map_of_mem hrest)
      rw [beq_false_of_ne hne]
      exact ih h.2 hrest

/-- The order of the entries does not matter to a lookup. -/
theorem lookup_of_perm (h : (ns.map Prod.fst).Nodup) (hperm : ms.Perm ns) (k : α) :
    ms.lookup k = ns.lookup k := by
  have hms : (ms.map Prod.fst).Nodup := (hperm.map Prod.fst).nodup_iff.mpr h
  refine Option.ext fun v => ?_
  rw [lookup_eq_some_iff_mem hms, lookup_eq_some_iff_mem h, hperm.mem_iff]

/-- A list with the keys of another that answers its lookups has its entries. -/
theorem perm_of_lookup (h : (ns.map Prod.fst).Nodup)
    (hkeys : (ms.map Prod.fst).Perm (ns.map Prod.fst))
    (hlookup : ∀ p ∈ ns, ms.lookup p.1 = some p.2) : ms.Perm ns := by
  have hlen : ms.length ≤ ns.length := by
    have hlen := hkeys.length_eq
    rw [List.length_map, List.length_map] at hlen
    exact Nat.le_of_eq hlen
  have hsub : ns ⊆ ms := fun p hp => mem_of_lookup (hlookup p hp)
  exact ((List.subperm_of_subset (List.Nodup.of_map _ h) hsub).perm_of_length_le hlen).symm

end SoulSociety.Lib
