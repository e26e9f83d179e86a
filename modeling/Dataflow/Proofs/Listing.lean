import Mathlib.Data.List.Sort
import Std.Data.ExtTreeMap

/-!
# Dataflow.Proofs.Listing

Tables with numbered keys, and the order in which they are listed.  Only the
entries of a table count: whatever lists each of them once is, once sorted, the
list of the table (`mergeSort_eq_toList`), and an entry under a greater number
than all others comes last (`toList_insert_of_lt`).
-/

namespace Dataflow

variable {α : Type} {table : Std.ExtTreeMap Nat α compare} {entries : List (Nat × α)}

/-- A table is listed in increasing order of its keys. -/
theorem pairwise_toList_table (table : Std.ExtTreeMap Nat α compare) :
    table.toList.Pairwise fun a b => a.1 < b.1 := by
  refine Std.ExtTreeMap.ordered_keys_toList.imp ?_
  intro a b h
  rwa [Nat.compare_eq_lt] at h

/-- Increasing entries are determined by what the table has under each key. -/
theorem eq_toList_of_pairwise (hpairwise : entries.Pairwise fun a b => a.1 < b.1)
    (hmem : ∀ key value, (key, value) ∈ entries ↔ table[key]? = some value) :
    entries = table.toList := by
  have hirrefl : Std.Irrefl fun a b : Nat × α => a.1 < b.1 := ⟨fun a => Nat.lt_irrefl a.1⟩
  refine hpairwise.eq_of_mem_iff (pairwise_toList_table table) ?_
  rintro ⟨key, value⟩
  rw [hmem, Std.ExtTreeMap.mem_toList_iff_getElem?_eq_some]

/-- A table of increasing entries lists them as they were. -/
theorem toList_ofList (h : entries.Pairwise fun a b => a.1 < b.1) :
    (Std.ExtTreeMap.ofList entries compare).toList = entries := by
  have hget : ∀ {key value}, (key, value) ∈ entries →
      (Std.ExtTreeMap.ofList entries compare)[key]? = some value := by
    intro key value hmem
    refine Std.ExtTreeMap.getElem?_ofList_of_mem (Nat.compare_eq_eq.mpr rfl) ?_ hmem
    refine h.imp ?_
    intro a b hlt heq
    exact Nat.ne_of_lt hlt (Nat.compare_eq_eq.mp heq)
  refine (eq_toList_of_pairwise h ?_).symm
  intro key value
  refine ⟨hget, ?_⟩
  intro hvalue
  have hkey : key ∈ Std.ExtTreeMap.ofList entries compare :=
    Std.ExtTreeMap.mem_iff_isSome_getElem?.mpr (by rw [hvalue]; rfl)
  rw [Std.ExtTreeMap.mem_ofList, List.contains_iff_mem] at hkey
  obtain ⟨⟨_, found⟩, hmem, rfl⟩ := List.mem_map.mp hkey
  rw [hget hmem] at hvalue
  cases hvalue
  exact hmem

/-- An entry under a number that is greater than all others comes last. -/
theorem toList_insert_of_lt {key : Nat} {value : α}
    (h : ∀ other found, table[other]? = some found → other < key) :
    (table.insert key value).toList = table.toList ++ [(key, value)] := by
  refine (eq_toList_of_pairwise ?_ ?_).symm
  · refine List.pairwise_append.mpr
      ⟨pairwise_toList_table table, List.pairwise_singleton _ _, ?_⟩
    rintro ⟨other, found⟩ hmem last hlast
    rw [List.mem_singleton.mp hlast]
    exact h other found (Std.ExtTreeMap.mem_toList_iff_getElem?_eq_some.mp hmem)
  · intro other found
    simp only [List.mem_append, Std.ExtTreeMap.mem_toList_iff_getElem?_eq_some,
      List.mem_singleton, Std.ExtTreeMap.getElem?_insert, Nat.compare_eq_eq]
    by_cases hkey : key = other
    · subst hkey
      have hnone : table[key]? ≠ some found := fun hfound => Nat.lt_irrefl key (h key found hfound)
      simp [hnone, eq_comm]
    · simp [hkey, Ne.symm hkey]

/-- Entries that were listed in any order, each of them once, are the list of the
table once they are sorted. -/
theorem mergeSort_eq_toList (hnodup : (entries.map (·.1)).Nodup)
    (hmem : ∀ key value, (key, value) ∈ entries ↔ table[key]? = some value) :
    entries.mergeSort (fun a b => decide (a.1 ≤ b.1)) = table.toList := by
  have hperm := List.mergeSort_perm entries fun a b => decide (a.1 ≤ b.1)
  refine eq_toList_of_pairwise ?_ ?_
  · have hle : (entries.mergeSort fun a b => decide (a.1 ≤ b.1)).Pairwise
        fun a b => decide (a.1 ≤ b.1) = true := by
      refine List.pairwise_mergeSort ?_ ?_ entries
      · intro a b c hab hbc
        simp only [decide_eq_true_eq] at hab hbc ⊢
        exact Nat.le_trans hab hbc
      · intro a b
        simp only [Bool.or_eq_true, decide_eq_true_eq]
        exact Nat.le_total a.1 b.1
    have hne := List.pairwise_map.mp ((hperm.map (·.1)).nodup_iff.mpr hnodup)
    refine (hle.and hne).imp ?_
    rintro a b ⟨hab, hne⟩
    exact Nat.lt_of_le_of_ne (of_decide_eq_true hab) hne
  · intro key value
    rw [hperm.mem_iff, hmem]

end Dataflow
