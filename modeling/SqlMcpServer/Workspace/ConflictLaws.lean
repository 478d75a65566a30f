import SqlMcpServer.Workspace.Conflicts
import SqlMcpServer.Workspace.MergeLaws

namespace SqlMcpServer.Workspaces

open List

namespace Snapshot
variable {s : Snapshot} {ref : Ref} {v : Value}

lemma get_eq_some : s.get ref = some v ↔ ⟨ref, v⟩ ∈ s.items := by
  rw [get, Option.map_eq_some_iff]
  constructor
  · rintro ⟨it, hit, rfl⟩
    obtain ⟨hmem, rfl⟩ := Keyed.mem_of_find hit
    exact hmem
  · intro h
    exact ⟨_, Keyed.find_of_mem s.distinct h, rfl⟩

lemma get_ne_null : s.get ref ≠ some .null := by
  intro h
  exact s.notNull _ (get_eq_some.mp h) rfl

lemma mem_apply {values : Ref → Option (Option Value)} {order : List Ref} :
    ⟨ref, v⟩ ∈ (s.apply values order).items ↔
      (∃ old, ⟨ref, old⟩ ∈ s.items ∧ (values ref = none ∧ v = old ∨ (values ref).bind present = some v)) ∨
        ref ∈ order ∧ s.get ref = none ∧ (values ref).bind present = some v := by
  simp only [apply, mem_append, mem_filterMap]
  refine or_congr ⟨?_, ?_⟩ ⟨?_, ?_⟩
  · rintro ⟨⟨r, old⟩, hmem, hit⟩
    obtain rfl := keptItem_ref hit
    refine ⟨old, hmem, ?_⟩
    unfold keptItem at hit
    split at hit
    · rename_i hnone
      cases hit
      exact .inl ⟨hnone, rfl⟩
    · rename_i v' hsome
      obtain ⟨u, hu, heq⟩ := Option.map_eq_some_iff.mp hit
      cases heq
      exact .inr (by simp only at hsome ⊢; rw [hsome]; exact hu)
  · rintro ⟨old, hmem, hv⟩
    refine ⟨⟨ref, old⟩, hmem, ?_⟩
    unfold keptItem
    rcases hv with ⟨hnone, rfl⟩ | hsome
    · simp only [hnone]
    · cases hval : values ref with
      | none => simp [hval] at hsome
      | some u =>
        rw [hval, Option.bind_some] at hsome
        simp only [hsome, Option.map_some]
  · rintro ⟨r, hr, hit⟩
    obtain ⟨href, hnone, hval⟩ := addedItem_eq_some hit
    simp only at href hval
    subst href
    exact ⟨(Grouping.distinctBy_sublist id order).subset hr, hnone, hval⟩
  · rintro ⟨hr, hnone, hval⟩
    refine ⟨ref, (Grouping.mem_distinctBy (by simp)).mpr hr, ?_⟩
    rw [addedItem, if_pos hnone, hval]
    rfl

lemma get_apply_of_none {values : Ref → Option (Option Value)} {order : List Ref} (h : values ref = none) :
    (s.apply values order).get ref = s.get ref := by
  ext v
  rw [get_eq_some, get_eq_some, mem_apply, h]
  simp

lemma get_apply_of_some {values : Ref → Option (Option Value)} {order : List Ref} {u : Option Value}
    (h : values ref = some u) (horder : ref ∈ order) : (s.apply values order).get ref = present u := by
  ext v
  rw [get_eq_some, mem_apply, h]
  simp only [reduceCtorEq, false_and, false_or, Option.bind_some]
  constructor
  · rintro (⟨_, _, hv⟩ | ⟨_, _, hv⟩) <;> exact hv
  · intro hv
    cases hget : s.get ref with
    | none => exact .inr ⟨horder, rfl, hv⟩
    | some old => exact .inl ⟨old, get_eq_some.mp hget, hv⟩

end Snapshot

namespace Schema
variable {s : Schema}

lemma SameAt.trans {path : Path} {a b c : Option Value} (h : s.SameAt path a b) (h' : s.SameAt path b c) :
    s.SameAt path a c := Eq.trans h h'

lemma SameAt.symm {path : Path} {a b : Option Value} (h : s.SameAt path a b) : s.SameAt path b a := Eq.symm h

lemma present_of_ne_null {v : Option Value} (h : v ≠ some .null) : present v = v := by
  cases v with
  | none => rfl
  | some v =>
    rw [ne_eq, Option.some.injEq] at h
    simp [present, h]

lemma sameAt_present (v : Option Value) (q : Path) : s.SameAt q (s.getAt (present v) q) (s.getAt v q) := by
  by_cases hv : v = some .null
  · subst hv
    match q with
    | [] =>
      change s.canonicalAt "" none = s.canonicalAt "" (some .null)
      simp only [canonicalAt, Option.bind_none, Option.bind_some, normalize]
      split_ifs <;> rfl
    | .field k :: q => rfl
    | .element k :: q => rfl
  · rw [present_of_ne_null hv]
    rfl

lemma getAt_present {v : Option Value} {m : Path} {x : Value} (h : s.getAt v m = some x) (hx : x ≠ .null) :
    s.getAt (present v) m = some x := by
  by_cases hv : v = some .null
  · subst hv
    match m with
    | [] =>
      cases h
      exact absurd rfl hx
    | .field k :: m => exact absurd (h.symm.trans (getFrom_none _ m)) nofun
    | .element k :: m => exact absurd (h.symm.trans (getFrom_none _ m)) nofun
  · rw [present_of_ne_null hv, h]

section
variable {a b : Snapshot} {ref : Ref}

lemma mem_changes : ref ∈ s.changes a b ↔
    (∃ v, b.get ref = some v ∧ ¬ s.Same (a.get ref) (some v)) ∨ a.get ref ≠ none ∧ b.get ref = none := by
  simp only [changes, mem_append, mem_map, mem_filter, decide_eq_true_eq]
  refine or_congr ⟨?_, ?_⟩ ⟨?_, ?_⟩
  · rintro ⟨it, ⟨hit, hne⟩, rfl⟩
    exact ⟨it.value, Snapshot.get_eq_some.mpr hit, hne⟩
  · rintro ⟨v, hv, hne⟩
    exact ⟨⟨ref, v⟩, ⟨Snapshot.get_eq_some.mp hv, hne⟩, rfl⟩
  · rintro ⟨it, ⟨hit, hnone⟩, rfl⟩
    exact ⟨Snapshot.get_ne_none hit, hnone⟩
  · rintro ⟨hsome, hnone⟩
    obtain ⟨v, hv⟩ := Option.ne_none_iff_exists'.mp hsome
    exact ⟨⟨ref, v⟩, ⟨Snapshot.get_eq_some.mp hv, hnone⟩, rfl⟩

lemma mem_changes_of_not_same (h : ¬ s.Same (a.get ref) (b.get ref)) : ref ∈ s.changes a b := by
  rw [mem_changes]
  cases hb : b.get ref with
  | some v => exact .inl ⟨v, rfl, hb ▸ h⟩
  | none =>
    refine .inr ⟨fun ha => h ?_, rfl⟩
    rw [ha, hb]
    rfl

end

section
variable {old local_ next : Snapshot} {source : Source} {pinned : Bool} {id : Nat} {ref : Ref}

lemma merge_same {b l : Option Value} (n : Option Value) (h : s.Same b l) : s.merge b l n [] = ⟨n, []⟩ := by
  have hlb : s.SameAt [] l b := Eq.symm h
  have hc : ¬ s.Contested [] b l n := fun hc => hc.1 hlb
  rw [merge, mergeWithin_agree hc, if_pos hlb]

lemma get_replay (h : ¬ s.Same (old.get ref) (local_.get ref)) :
    (s.replay old local_ next source pinned id).1.get ref = present (s.replayItem old local_ next ref).value := by
  have hch := mem_changes_of_not_same h
  exact Snapshot.get_apply_of_some (if_pos hch) hch

lemma sameAt_replay (q : Path) : s.SameAt q (s.getAt ((s.replay old local_ next source pinned id).1.get ref) q)
    (s.getAt (s.replayItem old local_ next ref).value q) := by
  by_cases hch : ref ∈ s.changes old local_
  · have hget : (s.replay old local_ next source pinned id).1.get ref = present (s.replayItem old local_ next ref).value :=
      Snapshot.get_apply_of_some (if_pos hch) hch
    rw [hget]
    exact sameAt_present _ q
  · have hget : (s.replay old local_ next source pinned id).1.get ref = next.get ref :=
      Snapshot.get_apply_of_none (if_neg hch)
    have hsame : s.Same (old.get ref) (local_.get ref) := by
      by_contra hne
      exact hch (mem_changes_of_not_same hne)
    rw [hget, replayItem, merge_same _ hsame]
    rfl

lemma mem_numbered {found : List (Ref × ValueConflict)} {c : Conflict} (h : c ∈ numbered source pinned id found) :
    ∃ vc, (c.ref, vc) ∈ found ∧ c.path = vc.path ∧ c.source = source ∧ c.pinned = pinned ∧
      c.theirs = (if pinned then vc.theirs else none) ∧ id ≤ c.id ∧ c.id < id + found.length := by
  obtain ⟨⟨⟨ref, vc⟩, i⟩, hmem, rfl⟩ := mem_map.mp h
  obtain ⟨hle, hlt, hget⟩ := mem_zipIdx hmem
  refine ⟨vc, ?_, rfl, rfl, rfl, rfl, hle, by omega⟩
  rw [hget]
  exact getElem_mem _

lemma exists_numbered (source : Source) (pinned : Bool) (id : Nat) {found : List (Ref × ValueConflict)} {vc : ValueConflict} (h : (ref, vc) ∈ found) :
    ∃ c ∈ numbered source pinned id found, c.ref = ref ∧ c.path = vc.path ∧ c.source = source ∧ c.pinned = pinned ∧
      c.theirs = (if pinned then vc.theirs else none) := by
  have hmap : (ref, vc) ∈ (found.zipIdx id).map Prod.fst := by rwa [zipIdx_map_fst]
  obtain ⟨⟨x, i⟩, hmem, rfl⟩ := mem_map.mp hmap
  exact ⟨_, mem_map_of_mem hmem, rfl, rfl, rfl, rfl, rfl⟩

lemma exists_replay {vc : ValueConflict} (h : vc ∈ (s.replayItem old local_ next ref).conflicts) :
    ∃ c ∈ (s.replay old local_ next source pinned id).2, c.ref = ref ∧ c.path = vc.path ∧ c.source = source ∧
      c.pinned = pinned ∧ c.theirs = (if pinned then vc.theirs else none) := by
  refine exists_numbered source pinned id (mem_flatMap.mpr ⟨ref, ?_, mem_map_of_mem h⟩)
  by_contra hch
  have hsame : s.Same (old.get ref) (local_.get ref) := by
    by_contra hne
    exact hch (mem_changes_of_not_same hne)
  rw [replayItem, merge_same _ hsame] at h
  cases h

end

section
variable {now base : Ref → Option Value} {c : Conflict}

lemma view_eq_some {o : Open} : s.view now base c = some o ↔
    s.holderGone (now c.ref) (s.viewPath now base c) = false ∧
      ¬ s.SameAt (s.viewPath now base c) (s.getAt (now c.ref) (s.viewPath now base c)) (s.viewTheirs now base c) ∧
      o = ⟨{ c with path := s.viewPath now base c }, s.getAt (now c.ref) (s.viewPath now base c), s.viewTheirs now base c⟩ := by
  simp only [view]
  split_ifs with hgone hsame
  · simp [hgone]
  · simp [hsame]
  · simp only [Option.some.injEq, hgone, hsame, not_false_eq_true, true_and]
    exact eq_comm

lemma holderGone_eq_false {item : Option Value} {path : Path} :
    s.holderGone item path = false ↔ ∀ p, p <+: path → p ≠ path → s.getAt item p ≠ none := by
  simp only [holderGone, any_eq_false, mem_range, Option.isNone_iff_eq_none]
  constructor
  · rintro h p ⟨q, rfl⟩ hne
    have := h p.length (by
      rw [length_append]
      have : q ≠ [] := fun hq => hne (by simp [hq])
      have := length_pos_iff.mpr this
      omega)
    simpa using this
  · intro h i hi hnone
    refine h (path.take i) ( take_prefix i path) (fun heq => ?_) hnone
    have := congrArg List.length heq
    simp only [length_take] at this
    omega

lemma addressableFrom_above (items : List (Option Value)) (done path : Path) :
    s.addressableFrom items done path <+: done ++ path ∧ done <+: s.addressableFrom items done path := by
  induction path generalizing done with
  | nil => simp [addressableFrom]
  | cons step rest ih =>
    cases rest with
    | nil => simp [addressableFrom]
    | cons step' rest =>
      simp only [addressableFrom]
      split_ifs
      · refine ⟨?_, prefix_append _ _⟩
        rw [show done ++ step :: step' :: rest = done ++ [step] ++ step' :: rest by simp]
        exact prefix_append _ _
      · obtain ⟨h, h'⟩ := ih (done ++ [step])
        refine ⟨by simpa using h, (prefix_append _ _).trans h'⟩

lemma addressable_above (path : Path) (items : List (Option Value)) : s.addressable path items <+: path := by
  simpa [addressable] using (addressableFrom_above (s := s) items [] path).1

lemma viewPath_above (now base : Ref → Option Value) (c : Conflict) : s.viewPath now base c <+: c.path := by
  unfold viewPath
  split_ifs
  · exact prefix_rfl
  · exact addressable_above _ _

end

end Schema

end SqlMcpServer.Workspaces
