import Mathlib.Data.List.Nodup
import Mathlib.Tactic.SplitIfs

/-!
# Lists as maps

A finite map kept as a list of elements that carry their key. The keys are meant to be
distinct; what needs it says so.
-/

namespace Keyed

open List
universe u v w
variable {α : Type u} {β : Type v} {κ : Type w} [DecidableEq κ] (key : α → κ)

def find (k : κ) (l : List α) : Option α := l.find? fun x => key x = k

def update (k : κ) (f : α → α) (l : List α) : List α := l.map fun x => if key x = k then f x else x

def set (x : α) (l : List α) : List α :=
  if l.any fun y => key y = key x then update key (key x) (fun _ => x) l else l ++ [x]

def findLast (k : κ) (l : List α) : Option α := find key k l.reverse

def updateLast (k : κ) (f : α → α) : List α → List α
  | [] => []
  | x :: l => if key x = k ∧ k ∉ l.map key then f x :: l else x :: updateLast k f l

variable {key} {k : κ} {f : α → α} {l : List α} {x : α}

lemma mem_of_find (h : find key k l = some x) : x ∈ l ∧ key x = k :=
  ⟨mem_of_find?_eq_some h, by simpa using find?_some h⟩

lemma eq_of_key (hnodup : (l.map key).Nodup) {y : α} (hx : x ∈ l) (hy : y ∈ l) (h : key x = key y) : x = y :=
  inj_on_of_nodup_map hnodup hx hy h

lemma find_of_mem (hnodup : (l.map key).Nodup) (hx : x ∈ l) : find key (key x) l = some x := by
  cases h : find key (key x) l with
  | none =>
    have := find?_eq_none.mp h x hx
    simp at this
  | some y =>
    obtain ⟨hy, hkey⟩ := mem_of_find h
    rw [eq_of_key hnodup hx hy hkey.symm]

lemma find_eq_none_iff : find key k l = none ↔ k ∉ l.map key := by
  simp only [find, find?_eq_none, decide_eq_true_eq, mem_map, not_exists, not_and]

lemma find_perm {l' : List α} (hnodup : (l.map key).Nodup) (h : l.Perm l') : find key k l = find key k l' := by
  have hnodup' : (l'.map key).Nodup := (h.map key).nodup_iff.mp hnodup
  cases hx : find key k l with
  | none =>
    have hnone : k ∉ l'.map key := by rwa [← (h.map key).mem_iff, ← find_eq_none_iff]
    exact (find_eq_none_iff.mpr hnone).symm
  | some x =>
    obtain ⟨hmem, rfl⟩ := mem_of_find hx
    exact (find_of_mem hnodup' (h.mem_iff.mp hmem)).symm

lemma find_map {key' : β → κ} (g : α → β) (hg : ∀ x, key' (g x) = key x) :
    find key' k (l.map g) = (find key k l).map g := by
  simp only [find, find?_map]
  congr 2
  funext x
  simp [hg]

lemma map_key_update (hf : ∀ x, key x = k → key (f x) = k) : (update key k f l).map key = l.map key := by
  simp only [update, map_map]
  refine map_congr_left fun x _ => ?_
  simp only [Function.comp_apply]
  split_ifs with h
  · rw [hf x h, h]
  · rfl

lemma mem_update {y : α} : y ∈ update key k f l ↔ ∃ x ∈ l, y = if key x = k then f x else x := by
  simp only [update, mem_map, eq_comm]

lemma update_map {key' : β → κ} {f' : β → β} (g : α → β) (hg : ∀ x, key' (g x) = key x) (hf : ∀ x, f' (g x) = g (f x)) :
    update key' k f' (l.map g) = (update key k f l).map g := by
  simp only [update, map_map]
  refine map_congr_left fun x _ => ?_
  simp only [Function.comp_apply, hg]
  split_ifs with h
  · exact hf x
  · rfl

lemma set_eq_update (f : α → α) (hnodup : (l.map key).Nodup) (hx : x ∈ l) (hf : key (f x) = key x) :
    set key (f x) l = update key (key x) f l := by
  have hany : (l.any fun y => key y = key (f x)) = true := any_eq_true.mpr ⟨x, hx, by simp [hf]⟩
  rw [set, if_pos hany, hf]
  refine map_congr_left fun y hy => ?_
  split_ifs with h
  · rw [eq_of_key hnodup hy hx h]
  · rfl

lemma set_eq_append (h : key x ∉ l.map key) : set key x l = l ++ [x] := by
  have hany : ¬ (l.any fun y => key y = key x) = true := by
    intro hany
    obtain ⟨y, hy, hkey⟩ := any_eq_true.mp hany
    exact h (mem_map.mpr ⟨y, hy, by simpa using hkey⟩)
  rw [set, if_neg hany]

lemma filterMap_sublist {g : α → Option α} (hg : ∀ x y, g x = some y → key y = key x) (l : List α) :
    ((l.filterMap g).map key).Sublist (l.map key) := by
  induction l with
  | nil => exact .refl _
  | cons x l ih =>
    cases hx : g x with
    | none =>
      rw [filterMap_cons_none hx]
      exact ih.cons _
    | some y =>
      rw [filterMap_cons_some hx, map_cons, map_cons, hg x y hx]
      exact ih.cons_cons _

lemma mem_of_findLast (h : findLast key k l = some x) : x ∈ l ∧ key x = k := by
  obtain ⟨hx, hk⟩ := mem_of_find h
  exact ⟨mem_reverse.mp hx, hk⟩

lemma map_updateLast (g : α → β) (hf : ∀ x, g (f x) = g x) : (updateLast key k f l).map g = l.map g := by
  induction l with
  | nil => rfl
  | cons x l ih =>
    rw [updateLast]
    split_ifs
    · rw [map_cons, map_cons, hf]
    · rw [map_cons, map_cons, ih]

end Keyed
