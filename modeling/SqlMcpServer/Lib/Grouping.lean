import Mathlib.Data.List.Nodup
import Mathlib.Data.List.Sort
import Mathlib.Tactic.Lemma

namespace Grouping
universe u v
variable {α : Type u} {κ : Type v}

section Distinct
variable [DecidableEq κ]

/-- The elements whose key is not seen yet, in order. -/
def distinctFrom (key : α → κ) : List α → List κ → List α
  | [], _ => []
  | a :: as, seen => if key a ∈ seen then distinctFrom key as seen else a :: distinctFrom key as (key a :: seen)

def distinctBy (key : α → κ) (l : List α) : List α := distinctFrom key l []

/-- The elements of each key, by the first occurrence of the key. -/
def groupBy (key : α → κ) (l : List α) : List (List α) :=
  (distinctBy key l).map fun a => l.filter fun b => key b = key a

lemma distinctFrom_sublist (key : α → κ) (l : List α) (seen : List κ) : (distinctFrom key l seen).Sublist l := by
  induction l generalizing seen with
  | nil => exact .refl _
  | cons a l ih =>
    rw [distinctFrom]
    split
    · exact (ih seen).cons a
    · exact (ih _).cons_cons a

lemma distinctBy_sublist (key : α → κ) (l : List α) : (distinctBy key l).Sublist l := distinctFrom_sublist key l []

lemma keys_distinctFrom {key : α → κ} {l : List α} {seen : List κ} {k : κ} :
    k ∈ (distinctFrom key l seen).map key ↔ k ∈ l.map key ∧ k ∉ seen := by
  induction l generalizing seen with
  | nil => simp [distinctFrom]
  | cons a l ih =>
    rw [distinctFrom]
    by_cases h : key a ∈ seen
    · rw [if_pos h, ih, List.map_cons, List.mem_cons]
      constructor
      · exact fun hk => ⟨.inr hk.1, hk.2⟩
      · rintro ⟨rfl | hk, hns⟩
        · exact absurd h hns
        · exact ⟨hk, hns⟩
    · rw [if_neg h, List.map_cons, List.mem_cons, ih, List.map_cons, List.mem_cons, List.mem_cons]
      constructor
      · rintro (rfl | ⟨hk, hns⟩)
        · exact ⟨.inl rfl, h⟩
        · exact ⟨.inr hk, fun hs => hns (.inr hs)⟩
      · rintro ⟨rfl | hk, hns⟩
        · exact .inl rfl
        · by_cases hka : k = key a
          · exact .inl hka
          · exact .inr ⟨hk, fun hs => hs.elim hka hns⟩

lemma nodup_keys_distinctFrom (key : α → κ) (l : List α) (seen : List κ) :
    ((distinctFrom key l seen).map key).Nodup := by
  induction l generalizing seen with
  | nil => simp [distinctFrom]
  | cons a l ih =>
    rw [distinctFrom]
    split
    · exact ih seen
    · rw [List.map_cons, List.nodup_cons]
      refine ⟨fun h => ?_, ih _⟩
      exact (keys_distinctFrom.mp h).2 (by simp)

lemma mem_distinctBy {key : α → κ} {l : List α} (hkey : ∀ a ∈ l, ∀ b ∈ l, key a = key b → a = b) {a : α} :
    a ∈ distinctBy key l ↔ a ∈ l := by
  refine ⟨fun h => (distinctBy_sublist key l).subset h, fun h => ?_⟩
  have hk : key a ∈ (distinctFrom key l []).map key := keys_distinctFrom.mpr ⟨List.mem_map_of_mem h, by simp⟩
  obtain ⟨b, hb, hba⟩ := List.mem_map.mp hk
  rwa [← hkey b ((distinctBy_sublist key l).subset hb) a h hba]

end Distinct

end Grouping
