import Mathlib.Data.List.Nodup
import Mathlib.Data.List.Sort
import Mathlib.Order.Basic

/-!
# Sorted lists read from a position on

Elements have a place in a linear order, each its own.
-/

namespace Paging
universe u v
variable {α : Type u} {τ : Type v} [LinearOrder τ] (place : α → τ)

def sorted (l : List α) : List α := l.insertionSort fun a b => place a ≤ place b

variable {place} {l : List α}

lemma perm_sorted : (sorted place l).Perm l := List.perm_insertionSort _ l

instance total_place : Std.Total fun a b : α => place a ≤ place b := ⟨fun a b => le_total (place a) (place b)⟩

instance trans_place : IsTrans α fun a b : α => place a ≤ place b := ⟨fun _ _ _ hab hbc => hab.trans hbc⟩

lemma pairwise_sorted : (sorted place l).Pairwise fun a b => place a ≤ place b := List.pairwise_insertionSort _ l

lemma pairwise_sorted_lt (hnodup : (l.map place).Nodup) : (sorted place l).Pairwise fun a b => place a < place b := by
  have hne : (sorted place l).Pairwise fun a b => place a ≠ place b :=
    List.pairwise_map.mp ((perm_sorted.map place).nodup_iff.mpr hnodup)
  exact pairwise_sorted.imp₂ (fun a b hle hne => lt_of_le_of_ne hle hne) hne

lemma sorted_eq_of_perm {l' : List α} (hperm : l'.Perm l) (hlt : l'.Pairwise fun a b => place a < place b) :
    sorted place l = l' := by
  have hnodup : (l'.map place).Nodup := List.pairwise_map.mpr (hlt.imp ne_of_lt)
  have hsorted : l'.Pairwise fun a b => place a ≤ place b := hlt.imp le_of_lt
  refine List.Perm.eq_of_pairwise ?_ pairwise_sorted hsorted (perm_sorted.trans hperm.symm)
  intro a b ha hb hab hba
  have ha' : a ∈ l' := hperm.symm.subset (perm_sorted.subset ha)
  exact List.inj_on_of_nodup_map hnodup ha' hb (le_antisymm hab hba)

/-- What follows an element in the sorted list are the elements placed after it, sorted. -/
theorem sorted_after (hnodup : (l.map place).Nodup) {before after : List α} {a : α}
    (h : sorted place l = before ++ a :: after) : sorted place (l.filter fun b => place a < place b) = after := by
  have hlt := h ▸ pairwise_sorted_lt hnodup
  obtain ⟨-, htail, hbefore⟩ := List.pairwise_append.mp hlt
  obtain ⟨hafter, hrest⟩ := List.pairwise_cons.mp htail
  have hfilter : (sorted place l).filter (fun b => place a < place b) = after := by
    rw [h, List.filter_append, List.filter_cons_of_neg (by simp)]
    have hnone : before.filter (fun b => place a < place b) = [] := by
      rw [List.filter_eq_nil_iff]
      intro b hb hab
      exact absurd (hbefore b hb a (by simp)) (not_lt.mpr (le_of_lt (by simpa using hab)))
    have hall : after.filter (fun b => place a < place b) = after := by
      rw [List.filter_eq_self]
      intro b hb
      simpa using hafter b hb
    rw [hnone, hall, List.nil_append]
  apply sorted_eq_of_perm
  · rw [← hfilter]
    exact (perm_sorted (l := l)).filter _
  · exact hrest

end Paging
