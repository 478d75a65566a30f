import SqlMcpServer.Workspace.Canonical

namespace SqlMcpServer.Workspaces

open List

def OfObjects (q : Path) : Prop := ∀ step ∈ q, ∃ k, step = .field k

def Toggles (a b : Option Value) : Prop := (a = none ∧ b = some .null) ∨ (a = some .null ∧ b = none)

lemma Toggles.isSome_ne {a b : Option Value} (h : Toggles a b) : a.isSome ≠ b.isSome := by
  rcases h with ⟨rfl, rfl⟩ | ⟨rfl, rfl⟩ <;> decide

lemma Toggles.sameAt {a b : Option Value} (h : Toggles a b) (s : Schema) (path : Path) : s.SameAt path a b := by
  have hnull : ∀ p, s.canonicalAt p (some .null) = s.canonicalAt p none := by
    intro p
    rw [Schema.canonicalAt, Option.bind_some, Schema.normalize]
    split_ifs <;> rfl
  have hsame : s.canonicalIn path (some .null) = s.canonicalIn path none := by
    unfold Schema.canonicalIn Schema.canonicalElement
    split_ifs <;> exact hnull _
  rcases h with ⟨rfl, rfl⟩ | ⟨rfl, rfl⟩
  · exact hsame.symm
  · exact hsame

namespace Schema
variable {s : Schema} {path : Path} {b l n : Option Value}

lemma canonicalIn_field (path : Path) (k : String) (v : Option Value) :
    s.canonicalIn (path ++ [.field k]) v = s.canonicalAt (pattern (path ++ [.field k])) v := by
  simp [canonicalIn, Step.isElement]

lemma isSome_of_canonicalAt {a b : Option Value} {q : Path} (hq : OfObjects q) (hne : q ≠ [])
    (hunset : s.unset (pattern (path ++ q)) = false) (h : s.canonicalAt (pattern path) a = s.canonicalAt (pattern path) b) :
    (s.getFrom a path q).isSome = (s.getFrom b path q).isSome := by
  induction q generalizing path a b with
  | nil => exact absurd rfl hne
  | cons step q ih =>
    obtain ⟨k, rfl⟩ := hq step (by simp)
    have hprop := normalize_property h k
    rw [getFrom, getFrom]
    rw [← pattern_field] at hprop
    cases q with
    | nil =>
      rw [getFrom, getFrom]
      have hkept : ∀ o : Option Value, (o.bind fun v => s.normalize v (pattern (path ++ [.field k]))).isSome = o.isSome := by
        intro o
        cases o with
        | none => rfl
        | some v => exact Option.isSome_iff_ne_none.mpr (normalize_eq_none hunset)
      rw [← hkept, hprop, hkept]
    | cons step' q =>
      have hunset' : s.unset (pattern (path ++ [.field k] ++ step' :: q)) = false := by
        rw [append_assoc]
        exact hunset
      have hcanonical : ∀ o, s.canonicalAt (pattern (path ++ [.field k])) o =
          (o.bind fun v => s.normalize v (pattern (path ++ [.field k]))).getD .null := fun _ => rfl
      refine ih (fun step hstep => hq step (mem_cons_of_mem _ hstep)) (by simp) hunset' ?_
      rw [hcanonical, hprop, ← hcanonical]

/-- Where a path through objects ends in null or nothing on one side as on the base, and one
of the three has something there, the merge stops on the way. -/
lemma exists_leaf {q : Path} (hq : OfObjects q) (hstop : ¬ s.Contested (path ++ q) (s.getFrom b path q) (s.getFrom l path q)
      (s.getFrom n path q)) (hsome : s.getFrom b path q ≠ none ∨ s.getFrom l path q ≠ none ∨ s.getFrom n path q ≠ none) :
    ∃ r, r <+: q ∧ s.Leaf path b l n r := by
  induction q generalizing path b l n with
  | nil =>
    rw [append_nil] at hstop
    exact ⟨[], prefix_rfl, .stop fun hc => absurd hc hstop⟩
  | cons step q ih =>
    obtain ⟨k, rfl⟩ := hq step (by simp)
    by_cases hc : s.Contested path b l n
    · cases hparts : s.parts b l n path with
      | whole => exact ⟨[], nil_prefix, .stop fun _ => hparts⟩
      | objects bo lo no =>
        obtain ⟨rfl, rfl, hb⟩ := parts_objects hparts
        have hpath : path ++ .field k :: q = path ++ [.field k] ++ q := by simp
        rw [getFrom, getFrom, getFrom, hb k] at hstop hsome
        rw [hpath] at hstop
        obtain ⟨r, hr, hleaf⟩ := ih (fun step hstep => hq step (mem_cons_of_mem _ hstep)) hstop hsome
        exact ⟨.field k :: r, (prefix_cons_inj _).mpr hr, .field hc hparts hleaf⟩
      | lists bs ls ns =>
        -- Lists have no properties, so nothing is there on any side.
        obtain ⟨hb, hl, hn, -⟩ := parts_lists hparts
        obtain ⟨els, rfl⟩ := keyed_eq_some hl
        obtain ⟨els', rfl⟩ := keyed_eq_some hn
        rw [getFrom_list_field, getFrom_list_field] at hsome
        cases b with
        | none => simp [getFrom_none] at hsome
        | some b =>
          obtain ⟨els'', hels⟩ := keyed_eq_some hb
          rw [Option.getD_some, Option.some.injEq] at hels
          rw [hels, getFrom_list_field] at hsome
          simp at hsome
    · exact ⟨[], nil_prefix, .stop fun h => absurd h hc⟩

lemma isSome_of_sameAt {a b : Option Value} {r t : Path} (hr : OfObjects r) (ht : OfObjects t) (hne : t ≠ [])
    (hunset : s.unset (pattern (r ++ t)) = false) (h : s.SameAt r a b) :
    (s.getFrom a r t).isSome = (s.getFrom b r t).isSome := by
  refine isSome_of_canonicalAt ht hne hunset ?_
  rcases eq_nil_or_concat r with rfl | ⟨r', step, rfl⟩
  · exact h
  · obtain ⟨k, rfl⟩ := hr step (by simp)
    rw [SameAt, concat_eq_append, canonicalIn_field, canonicalIn_field] at h
    rw [concat_eq_append]
    exact h

lemma getAt_append (v : Option Value) (r t : Path) : s.getAt v (r ++ t) = s.getFrom (s.getAt v r) r t :=
  getFrom_append v [] r t

section Kept
variable {base local_ next : Option Value} {q : Path} (hq : OfObjects q) (hunset : ∀ r, r <+: q → s.unset (pattern r) = false)
include hq hunset

lemma isSome_of_above {a b : Option Value} {r : Path} (hr : r <+: q) (hne : r ≠ q) (h : s.SameAt r (s.getAt a r) (s.getAt b r)) :
    (s.getAt a q).isSome = (s.getAt b q).isSome := by
  obtain ⟨t, rfl⟩ := hr
  rw [getAt_append, getAt_append]
  refine isSome_of_sameAt (fun step hstep => hq step (by simp [hstep])) (fun step hstep => hq step (by simp [hstep])) ?_
    (hunset _ prefix_rfl) h
  rintro rfl
  simp at hne

omit hq hunset in
lemma getAt_of_above {v w : Option Value} {r : Path} (hr : r <+: q) (h : s.getAt v r = s.getAt w r) : s.getAt v q = s.getAt w q := by
  obtain ⟨t, rfl⟩ := hr
  rw [getAt_append, getAt_append, h]

omit hunset in
lemma exists_leaf_of_toggles {v : Option Value} (hsame : s.SameAt q (s.getAt local_ q) (s.getAt base q))
    (htoggles : Toggles (s.getAt base q) v) (hv : v = s.getAt local_ q ∨ v = s.getAt next q) :
    ∃ r, r <+: q ∧ s.Leaf [] base local_ next r := by
  refine exists_leaf hq (fun hc => hc.1 hsame) ?_
  show s.getAt base q ≠ none ∨ s.getAt local_ q ≠ none ∨ s.getAt next q ≠ none
  rcases htoggles with ⟨-, rfl⟩ | ⟨h, -⟩
  · rcases hv with h | h <;> simp [← h]
  · simp [h]

lemma local_null_kept_iff (htoggles : Toggles (s.getAt base q) (s.getAt local_ q)) (hnext : s.getAt next q = s.getAt base q) :
    s.getAt (s.merge base local_ next []).value q = s.getAt local_ q ↔ ∃ r, r <+: q ∧ r ≠ q ∧ s.Leaf [] base local_ next r := by
  constructor
  · intro hkept
    have hsame : s.SameAt q (s.getAt local_ q) (s.getAt base q) := (htoggles.sameAt s q).symm
    obtain ⟨r, hr, hleaf⟩ := exists_leaf_of_toggles hq hsame htoggles (.inl rfl)
    refine ⟨r, hr, ?_, hleaf⟩
    rintro rfl
    rw [(merge_leaf hleaf).1, if_pos hsame, hnext] at hkept
    exact htoggles.isSome_ne (by rw [hkept])
  · rintro ⟨r, hr, hne, hleaf⟩
    have hdiffer : ¬ s.SameAt r (s.getAt local_ r) (s.getAt base r) := fun h =>
      htoggles.isSome_ne (isSome_of_above hq hunset hr hne h).symm
    refine getAt_of_above hr ?_
    rw [(merge_leaf hleaf).1, if_neg hdiffer]

lemma next_null_kept_iff (htoggles : Toggles (s.getAt base q) (s.getAt next q)) (hlocal : s.getAt local_ q = s.getAt base q) :
    s.getAt (s.merge base local_ next []).value q = s.getAt next q ↔
      ∀ c ∈ (s.merge base local_ next []).conflicts, ¬ c.path <+: q := by
  constructor
  · intro hkept c hc hpath
    have hleaf := leaf_of_merge hc
    have hcontested := (((merge_leaf hleaf).2 c).mp ⟨hc, rfl⟩).2
    have hlocalKept := getAt_of_above hpath ((merge_leaf hleaf).1.trans (if_neg hcontested.1))
    rw [hlocalKept, hlocal] at hkept
    exact htoggles.isSome_ne (by rw [hkept])
  · intro hnone
    have hsame : s.SameAt q (s.getAt local_ q) (s.getAt base q) := by rw [hlocal]; rfl
    obtain ⟨r, hr, hleaf⟩ := exists_leaf_of_toggles hq hsame htoggles (.inr rfl)
    refine getAt_of_above hr ?_
    rw [(merge_leaf hleaf).1]
    split_ifs with hlb
    · rfl
    · -- Not taken from the other side, the value is in conflict or the other side is as one of the two.
      exfalso
      have hne : r ≠ q := by
        rintro rfl
        exact hlb hsame
      by_cases hcontested : s.Contested r (s.getAt base r) (s.getAt local_ r) (s.getAt next r)
      · exact hnone _ (((merge_leaf hleaf).2 _).mpr ⟨rfl, hcontested⟩).1 hr
      · have hnext : s.SameAt r (s.getAt next r) (s.getAt base r) ∨ s.SameAt r (s.getAt next r) (s.getAt local_ r) := by
          by_contra h
          push Not at h
          exact hcontested ⟨hlb, h.1, h.2⟩
        rcases hnext with h | h
        · exact htoggles.isSome_ne (isSome_of_above hq hunset hr hne h).symm
        · have hsome := isSome_of_above hq hunset hr hne h
          rw [hlocal] at hsome
          exact htoggles.isSome_ne hsome.symm

end Kept

/-- The local side removes a null, the other side changes another property: the null is back
in the merge. -/
def nullRemoved : Option Value × Option Value × Option Value :=
  (some (.object [("a", .null), ("b", .num 1)]), some (.object [("b", .num 1)]), some (.object [("a", .null), ("b", .num 2)]))

end Schema

end SqlMcpServer.Workspaces
