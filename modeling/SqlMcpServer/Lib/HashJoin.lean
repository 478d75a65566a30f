import Mathlib.Data.List.Basic
import Mathlib.Data.List.Nodup
import Mathlib.Logic.Function.Basic
import Mathlib.Tactic.Lemma

/-!
# Hash joins in batches

Rows fetched batch by batch for probes with distinct keys, and kept in a table by key. When every
batch fetches rows of its own probes only, the table holds for a probe what its batch fetched for
it.
-/

namespace HashJoin

open List
variable {α β κ : Type}

/-- A list cut into parts of `size`, the last one shorter. -/
def batches (size : Nat) (l : List α) : List (List α) :=
  (List.range ((l.length + size - 1) / size)).map fun i => (l.drop (i * size)).take size

lemma flatten_batches {size : Nat} (hsize : 0 < size) (l : List α) : (batches size l).flatten = l := by
  have hprefix : ∀ n, ((range n).map fun i => (l.drop (i * size)).take size).flatten = l.take (n * size) := by
    intro n
    induction n with
    | zero => simp
    | succ n ih =>
      rw [range_succ, map_append, flatten_append, ih, Nat.succ_mul, take_add]
      simp
  have hall : l.length ≤ (l.length + size - 1) / size * size := by
    have hdiv := Nat.div_add_mod (l.length + size - 1) size
    have hmod := Nat.mod_lt (l.length + size - 1) hsize
    rw [Nat.mul_comm] at hdiv
    omega
  rw [batches, hprefix, take_of_length_le hall]

lemma batches_nil {size : Nat} (hsize : 0 < size) : batches size ([] : List α) = [] := by
  have hzero : (([] : List α).length + size - 1) / size = 0 := by
    rw [length_nil, Nat.zero_add]
    exact Nat.div_eq_of_lt (by omega)
  rw [batches, hzero]
  rfl

lemma exists_batch {size : Nat} (hsize : 0 < size) {l : List α} {a : α} (ha : a ∈ l) :
    ∃ batch ∈ batches size l, a ∈ batch := by
  rw [← flatten_batches hsize l] at ha
  exact mem_flatten.mp ha

section Table
variable [DecidableEq κ] (key : β → Option κ)

def add (table : κ → List β) (b : β) : κ → List β :=
  match key b with
  | some k => Function.update table k (table k ++ [b])
  | none => table

lemma foldl_add (table : κ → List β) (bs : List β) (k : κ) :
    bs.foldl (add key) table k = table k ++ bs.filter fun b => key b = some k := by
  induction bs generalizing table with
  | nil => simp
  | cons b bs ih =>
    rw [foldl_cons, ih]
    unfold add
    cases hb : key b with
    | none => simp [hb]
    | some j =>
      by_cases hjk : j = k
      · subst hjk
        simp [hb]
      · simp [hb, hjk, Function.update_of_ne (Ne.symm hjk)]

lemma foldl_fetch (fetch : List α → List β) (table : κ → List β) (parts : List (List α)) (k : κ) :
    parts.foldl (fun table part => (fetch part).foldl (add key) table) table k =
      table k ++ (parts.flatMap fetch).filter fun b => key b = some k := by
  induction parts generalizing table with
  | nil => simp
  | cons part parts ih => rw [foldl_cons, ih, foldl_add, flatMap_cons, filter_append, append_assoc]

end Table

lemma filter_flatMap_fetch [DecidableEq κ] (probe : α → κ) {key : β → Option κ} {fetch : List α → List β}
    {parts : List (List α)} (hprobes : (parts.flatten.map probe).Nodup)
    (hfetch : ∀ part ∈ parts, ∀ b ∈ fetch part, ∃ a ∈ part, key b = some (probe a))
    {part : List α} (hpart : part ∈ parts) {a : α} (ha : a ∈ part) :
    (parts.flatMap fetch).filter (fun b => key b = some (probe a)) =
      (fetch part).filter fun b => key b = some (probe a) := by
  -- A part without the probe fetches nothing under its key.
  have hother : ∀ qs : List (List α), (∀ q ∈ qs, q ∈ parts) → probe a ∉ qs.flatten.map probe →
      (qs.flatMap fetch).filter (fun b => key b = some (probe a)) = [] := by
    intro qs hqs hnot
    rw [filter_eq_nil_iff]
    intro b hb
    obtain ⟨q, hq, hb⟩ := mem_flatMap.mp hb
    obtain ⟨a', ha', hkey⟩ := hfetch q (hqs q hq) b hb
    rw [hkey, decide_eq_true_eq, Option.some.injEq]
    intro heq
    exact hnot (heq ▸ mem_map_of_mem (mem_flatten.mpr ⟨q, hq, ha'⟩))
  obtain ⟨before, after, rfl⟩ := append_of_mem hpart
  have hmem : probe a ∈ part.map probe := mem_map_of_mem ha
  rw [flatten_append, flatten_cons, map_append, map_append, nodup_append'] at hprobes
  obtain ⟨-, hrest, hbefore⟩ := hprobes
  rw [nodup_append'] at hrest
  have hnotBefore : probe a ∉ before.flatten.map probe := fun h => hbefore h (mem_append_left _ hmem)
  have hnotAfter : probe a ∉ after.flatten.map probe := fun h => hrest.2.2 hmem h
  rw [flatMap_append, flatMap_cons, filter_append, filter_append,
    hother before (fun q hq => mem_append_left _ hq) hnotBefore,
    hother after (fun q hq => mem_append_right _ (mem_cons_of_mem _ hq)) hnotAfter, nil_append, append_nil]

end HashJoin
