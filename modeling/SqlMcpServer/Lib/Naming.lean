import Mathlib.Data.List.Basic
import Mathlib.Data.List.Nodup
import Mathlib.Tactic.Lemma
import Mathlib.Tactic.SplitIfs

/-!
# Partially qualified names

Things with an identity and further, shorter names they may share. A name that is an identity
names the thing it identifies; any other name names a thing when it is a name of no other.
-/

universe u v

/-- How the things of a type are named: by an identity, and by references of which the
identity is one. -/
structure Naming (ε : Type u) (κ : Type v) where
  id : ε → κ
  /-- Shortest first. -/
  refs : ε → List κ
  id_mem_refs : ∀ e, id e ∈ refs e

namespace Naming

open List
variable {ε : Type u} {κ : Type v} [DecidableEq κ] (N : Naming ε κ)

def ids (es : List ε) : List κ := es.map N.id

/-- The things a reference may name, once for each way it names them. -/
def candidates (es : List ε) (ref : κ) : List ε :=
  es.flatMap fun e => ((N.refs e).filter (· = ref)).map fun _ => e

def idOf (es : List ε) (ref : κ) : Option κ :=
  if ref ∈ N.ids es then some ref
  else
    match N.candidates es ref with
    | [e] => some (N.id e)
    | _ => none

/-- The first reference that names the thing of an identity alone. -/
def shortName (es : List ε) (id : κ) : κ :=
  match es.reverse.find? fun e => N.id e = id with
  | none => id
  | some e => ((N.refs e).find? fun ref => N.idOf es ref = some id).getD ((N.refs e).getLast?.getD id)

/-- The identity a thing has after a change; none when it is gone. -/
def now (moved : κ → Option (Option κ)) (after : List ε) (was : κ) : Option κ :=
  ((moved was).getD (some was)).filter fun id => id ∈ N.ids after

/-- What a reference becomes once the things changed; none when it goes with what it named. -/
def retarget (ref : κ) (before after : List ε) (moved : κ → Option (Option κ)) : Option κ :=
  match N.idOf before ref with
  | none => some ref
  | some was =>
    match N.now moved after was with
    | none => none
    | some id => some (if N.idOf after ref = some id then ref else N.shortName after id)

variable {N} {es es' before after : List ε} {ref id : κ} {e : ε} {moved : κ → Option (Option κ)}

lemma mem_candidates : e ∈ N.candidates es ref ↔ e ∈ es ∧ ref ∈ N.refs e := by
  simp only [candidates, mem_flatMap, mem_map, mem_filter, decide_eq_true_eq]
  constructor
  · rintro ⟨d, hd, r, ⟨hr, rfl⟩, rfl⟩
    exact ⟨hd, hr⟩
  · rintro ⟨he, hr⟩
    exact ⟨e, he, ref, ⟨hr, rfl⟩, rfl⟩

lemma candidates_perm (h : es'.Perm es) : (N.candidates es' ref).Perm (N.candidates es ref) := h.flatMap_right _

lemma idOf_of_mem_ids (h : id ∈ N.ids es) : N.idOf es id = some id := if_pos h

omit [DecidableEq κ] in
lemma mem_ids_of_mem (h : e ∈ es) : N.id e ∈ N.ids es := mem_map_of_mem h

lemma idOf_eq_some_iff : N.idOf es ref = some id ↔
    (ref ∈ N.ids es ∧ id = ref) ∨ (ref ∉ N.ids es ∧ ∃ e, N.candidates es ref = [e] ∧ N.id e = id) := by
  unfold idOf
  by_cases hid : ref ∈ N.ids es
  · simp [hid, eq_comm]
  rw [if_neg hid]
  simp only [hid, false_and, not_false_eq_true, true_and, false_or]
  constructor
  · intro h
    split at h
    · rename_i e he
      exact ⟨e, he, Option.some.inj h⟩
    · cases h
  · rintro ⟨e, he, rfl⟩
    rw [he]

lemma exists_of_idOf (h : N.idOf es ref = some id) : ∃ e ∈ es, N.id e = id ∧ ref ∈ N.refs e := by
  rcases idOf_eq_some_iff.mp h with ⟨hmem, rfl⟩ | ⟨-, e, he, rfl⟩
  · obtain ⟨e, he, rfl⟩ := mem_map.mp hmem
    exact ⟨e, he, rfl, N.id_mem_refs e⟩
  · obtain ⟨hes, href⟩ := mem_candidates.mp (he ▸ mem_singleton_self e : e ∈ N.candidates es ref)
    exact ⟨e, hes, rfl, href⟩

lemma mem_ids_of_idOf (h : N.idOf es ref = some id) : id ∈ N.ids es := by
  obtain ⟨e, he, rfl, -⟩ := exists_of_idOf h
  exact mem_ids_of_mem he

lemma idOf_perm (h : es'.Perm es) : N.idOf es' ref = N.idOf es ref := by
  have hids : ref ∈ N.ids es' ↔ ref ∈ N.ids es := (h.map N.id).mem_iff
  have hone : ∀ e, N.candidates es' ref = [e] ↔ N.candidates es ref = [e] := by
    intro e
    rw [← perm_singleton, ← perm_singleton]
    exact ⟨(candidates_perm h).symm.trans, (candidates_perm h).trans⟩
  ext id
  simp only [idOf_eq_some_iff, hids, hone]

lemma idOf_map {f : ε → ε} (hid : ∀ e, N.id (f e) = N.id e) (hrefs : ∀ e, N.refs (f e) = N.refs e) :
    N.idOf (es.map f) ref = N.idOf es ref := by
  have hids : N.ids (es.map f) = N.ids es := by
    rw [ids, ids, map_map]
    exact map_congr_left fun e _ => hid e
  have hcandidates : N.candidates (es.map f) ref = (N.candidates es ref).map f := by
    rw [candidates, candidates, flatMap_map, map_flatMap]
    apply flatMap_congr
    intro e _
    rw [hrefs, map_map]
    rfl
  unfold idOf
  rw [hids, hcandidates]
  split_ifs
  · rfl
  · match N.candidates es ref with
    | [] => rfl
    | [e] => exact congrArg some (hid e)
    | _ :: _ :: _ => rfl

lemma candidates_filter (keep : κ → Bool) :
    N.candidates (es.filter fun e => keep (N.id e)) ref = (N.candidates es ref).filter fun e => keep (N.id e) := by
  unfold candidates
  induction es with
  | nil => rfl
  | cons e es ih =>
    rw [flatMap_cons, filter_append, ← ih, filter_cons, filter_map]
    cases hkeep : keep (N.id e) with
    | true => simp [hkeep, Function.comp_def]
    | false => simp [hkeep, Function.comp_def]

lemma idOf_filter (keep : κ → Bool) (h : N.idOf es ref = some id)
    (hid : id ∈ N.ids (es.filter fun e => keep (N.id e))) : N.idOf (es.filter fun e => keep (N.id e)) ref = some id := by
  rcases idOf_eq_some_iff.mp h with ⟨-, rfl⟩ | ⟨hnot, e, he, rfl⟩
  · exact idOf_of_mem_ids hid
  · obtain ⟨d, hd, hde⟩ := mem_map.mp hid
    have hkeep : keep (N.id e) = true := hde ▸ (mem_filter.mp hd).2
    apply idOf_eq_some_iff.mpr
    refine .inr ⟨fun hmem => hnot ((filter_sublist.map N.id).subset hmem), e, ?_, rfl⟩
    rw [candidates_filter, he]
    exact filter_cons_of_pos hkeep

lemma idOf_shortName (h : id ∈ N.ids es) : N.idOf es (N.shortName es id) = some id := by
  obtain ⟨e, he, hide⟩ := mem_map.mp h
  unfold shortName
  cases hfind : es.reverse.find? fun e => N.id e = id with
  | none =>
    have := find?_eq_none.mp hfind e (mem_reverse.mpr he)
    simp [hide] at this
  | some d =>
    have hd : N.id d = id := by simpa using find?_some hfind
    cases href : (N.refs d).find? fun ref => N.idOf es ref = some id with
    | none =>
      have := find?_eq_none.mp href id (hd ▸ N.id_mem_refs d)
      simp [idOf_of_mem_ids h] at this
    | some ref =>
      simpa [href] using find?_some href

lemma now_eq_some (h : N.now moved after ref = some id) :
    id ∈ N.ids after ∧ (moved ref = some (some id) ∨ moved ref = none ∧ id = ref) := by
  obtain ⟨hwas, hmem⟩ := Option.filter_eq_some_iff.mp h
  refine ⟨by simpa using hmem, ?_⟩
  cases hm : moved ref with
  | none =>
    rw [hm] at hwas
    exact .inr ⟨rfl, (Option.some.inj hwas).symm⟩
  | some to_ =>
    rw [hm, Option.getD_some] at hwas
    exact .inl (congrArg some hwas)

lemma retarget_of_unnamed (h : N.idOf before ref = none) : N.retarget ref before after moved = some ref := by
  rw [retarget, h]

lemma retarget_of_named {was : κ} (h : N.idOf before ref = some was) :
    N.retarget ref before after moved =
      (N.now moved after was).map fun id => if N.idOf after ref = some id then ref else N.shortName after id := by
  rw [retarget, h]
  simp only
  cases N.now moved after was <;> rfl

lemma retarget_eq_none_iff {was : κ} (h : N.idOf before ref = some was) :
    N.retarget ref before after moved = none ↔ N.now moved after was = none := by
  rw [retarget_of_named h, Option.map_eq_none_iff]

lemma idOf_retarget {was ref' : κ} (h : N.idOf before ref = some was)
    (hto : N.retarget ref before after moved = some ref') : N.idOf after ref' = N.now moved after was := by
  rw [retarget_of_named h] at hto
  obtain ⟨id, hnow, rfl⟩ := Option.map_eq_some_iff.mp hto
  rw [hnow]
  split_ifs with hsame
  · exact hsame
  · exact idOf_shortName (now_eq_some hnow).1

lemma retarget_of_same (hmoved : ∀ k, moved k = none) (hsame : N.idOf before ref = N.idOf after ref) :
    N.retarget ref before after moved = some ref := by
  cases h : N.idOf before ref with
  | none => exact retarget_of_unnamed h
  | some was =>
    have hafter : N.idOf after ref = some was := hsame.symm.trans h
    have hnow : N.now moved after was = some was := by
      rw [now, hmoved, Option.getD_none]
      exact Option.filter_some_pos (by simpa using mem_ids_of_idOf hafter)
    rw [retarget_of_named h, hnow, Option.map_some, if_pos hafter]

end Naming
