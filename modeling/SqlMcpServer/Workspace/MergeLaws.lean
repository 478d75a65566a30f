import SqlMcpServer.Workspace.Merge

/-!
# The merge, leaf by leaf

Where a merge stops, at its leaves, it takes one of the two sides as a whole: the other side's
value where the local side agrees with the base, else the local one.
-/

namespace SqlMcpServer.Workspaces

open List

lemma elementsOf_groupOf {els : List Value} (h : ∀ el ∈ els, ∀ group, el ≠ .list group) :
    elementsOf (groupOf els) = els := by
  match els with
  | [] => rfl
  | [el] =>
    have hel := h el (by simp)
    cases el with
    | list group => exact absurd rfl (hel group)
    | null | bool _ | num _ | text _ | object _ => rfl
  | _ :: _ :: _ => rfl

namespace KeyedList
variable {l : KeyedList} {k : String}

lemma mem_order : k ∈ l.order ↔ k ∈ l.entries.map Prod.fst := by
  have hkeys : k ∈ (Grouping.distinctFrom id (l.entries.map Prod.fst) []).map id ↔ _ := Grouping.keys_distinctFrom
  simpa [order, Grouping.distinctBy] using hkeys

lemma nodup_order (l : KeyedList) : l.order.Nodup := by
  simpa [order, Grouping.distinctBy] using Grouping.nodup_keys_distinctFrom id (l.entries.map Prod.fst) []

lemma get_eq_none (h : k ∉ l.order) : l.get k = none := by
  have hfilter : (l.entries.filter fun e => e.1 = k) = [] := by
    refine filter_eq_nil_iff.mpr fun e he hk => h (mem_order.mpr ?_)
    exact mem_map.mpr ⟨e, he, by simpa using hk⟩
  rw [get, hfilter]
  rfl

lemma filter_flatMap (els : String → List Value) {order : List String} (hnodup : order.Nodup) :
    ((order.flatMap fun k => (els k).map (k, ·)).filter fun e => e.1 = k) =
      if k ∈ order then (els k).map (k, ·) else [] := by
  induction order with
  | nil => rfl
  | cons l order ih =>
    obtain ⟨hl, hnodup⟩ := nodup_cons.mp hnodup
    rw [flatMap_cons, filter_append, ih hnodup]
    by_cases hk : k = l
    · subst hk
      simp [hl, filter_map, Function.comp_def]
    · have hlk : ¬ l = k := fun h => hk h.symm
      simp [hk, hlk, filter_map, Function.comp_def]

end KeyedList

namespace Schema
variable {s : Schema} {p : String} {k : String}

lemma keyEntries_eq_some {els : List Value} {entries : List (String × Value)} :
    s.keyEntries p els = some entries ↔
      entries.map Prod.snd = els ∧ ∀ e ∈ entries, s.elementKey e.2 p = some e.1 := by
  induction els generalizing entries with
  | nil =>
    rw [keyEntries]
    constructor
    · rintro ⟨⟩
      simp
    · rintro ⟨h, _⟩
      rw [map_eq_nil_iff.mp h]
  | cons el els ih =>
    rw [keyEntries]
    constructor
    · intro h
      cases hkey : s.elementKey el p with
      | none => simp [hkey] at h
      | some key =>
        cases hrest : s.keyEntries p els with
        | none => simp [hkey, hrest] at h
        | some rest =>
          simp only [hkey, hrest, Option.some.injEq] at h
          subst h
          obtain ⟨hmap, hkeys⟩ := ih.mp hrest
          refine ⟨by simp [hmap], ?_⟩
          simpa [hkey] using hkeys
    · rintro ⟨hmap, hkeys⟩
      cases entries with
      | nil => cases hmap
      | cons e entries =>
        obtain ⟨hel, hrest⟩ := List.cons.inj hmap
        rw [← hel, hkeys e (by simp), ih.mpr ⟨hrest, fun e he => hkeys e (by simp [he])⟩]

def KeyedBy (s : Schema) (p k : String) (v : Option Value) : Prop :=
  groupOf (elementsOf v) = v ∧ ∀ el ∈ elementsOf v, s.elementKey el p = some k

lemma ne_list_of_elementKey {el : Value} (h : s.elementKey el p = some k) (group : List Value) : el ≠ .list group := by
  rintro rfl
  unfold elementKey at h
  split at h
  · rename_i heq
    cases heq
  · cases h

variable {v : Option Value}

lemma keyedBy_get {l : KeyedList} (h : s.keyed v p = some l) (k : String) : s.KeyedBy p k (l.get k) := by
  unfold keyed at h
  split at h
  · rename_i els
    obtain ⟨entries, hentries, rfl⟩ := Option.map_eq_some_iff.mp h
    have hkeys : ∀ el ∈ (entries.filter fun e => e.1 = k).map Prod.snd, s.elementKey el p = some k := by
      intro el hel
      obtain ⟨e, he, rfl⟩ := mem_map.mp hel
      obtain ⟨he, hk⟩ := mem_filter.mp he
      rw [(keyEntries_eq_some.mp hentries).2 e he, show e.1 = k by simpa using hk]
    have hels := elementsOf_groupOf fun el hel => ne_list_of_elementKey (hkeys el hel)
    exact ⟨by rw [KeyedList.get, hels], by rwa [KeyedList.get, hels]⟩
  · cases h

lemma keyed_flatMap {value : String → Option Value} (order : List String) (hkeyed : ∀ k, s.KeyedBy p k (value k)) :
    s.keyed (some (.list (order.flatMap fun k => elementsOf (value k)))) p =
      some ⟨order.flatMap fun k => (elementsOf (value k)).map (k, ·)⟩ := by
  have hentries : s.keyEntries p (order.flatMap fun k => elementsOf (value k)) =
      some (order.flatMap fun k => (elementsOf (value k)).map (k, ·)) := by
    refine keyEntries_eq_some.mpr ⟨?_, fun e he => ?_⟩
    · simp [map_flatMap, Function.comp_def]
    · obtain ⟨k, _, he⟩ := mem_flatMap.mp he
      obtain ⟨el, hel, rfl⟩ := mem_map.mp he
      exact (hkeyed k).2 el hel
  rw [keyed, hentries]
  rfl

lemma get_flatMap {value : String → Option Value} {order : List String} (hnodup : order.Nodup)
    (hkeyed : ∀ k, s.KeyedBy p k (value k)) (hnone : k ∉ order → value k = none) :
    (⟨order.flatMap fun k => (elementsOf (value k)).map (k, ·)⟩ : KeyedList).get k = value k := by
  rw [KeyedList.get, KeyedList.filter_flatMap (fun k => elementsOf (value k)) hnodup]
  by_cases hk : k ∈ order
  · rw [if_pos hk]
    simpa [Function.comp_def] using (hkeyed k).1
  · rw [if_neg hk, hnone hk]
    rfl

lemma KeyedBy.single (h : s.KeyedBy p k v) (hgroup : isGroup v = false) :
    v = none ∨ ∃ prop m, v = some (.object m) ∧ s.lists (p ++ "[]") = some prop ∧
      Fields.property m prop = some (.text k) := by
  cases v with
  | none => exact .inl rfl
  | some el =>
    have hels : elementsOf (some el) = [el] := by
      cases el with
      | list group => cases hgroup
      | null | bool _ | num _ | text _ | object _ => rfl
    have hkey := h.2 el (by simp [hels])
    unfold elementKey at hkey
    split at hkey
    · rename_i prop m hlist
      split at hkey
      · rename_i key hprop
        cases hkey
        exact .inr ⟨prop, m, rfl, hlist, hprop⟩
      · cases hkey
    · cases hkey

lemma keyedBy_object {prop : String} {m : Fields} (hlist : s.lists (p ++ "[]") = some prop)
    (hprop : Fields.property m prop = some (.text k)) : s.KeyedBy p k (some (.object m)) := by
  refine ⟨rfl, fun el hel => ?_⟩
  rw [mem_singleton.mp hel]
  simp only [elementKey, hlist, hprop]

lemma getFrom_none (path q : Path) : s.getFrom none path q = none := by
  induction q generalizing path with
  | nil => rfl
  | cons step q ih =>
    cases step with
    | field k => exact ih _
    | element k => exact ih _

lemma getFrom_append (v : Option Value) (path p q : Path) :
    s.getFrom v path (p ++ q) = s.getFrom (s.getFrom v path p) (path ++ p) q := by
  induction p generalizing v path with
  | nil => simp [getFrom]
  | cons step p ih =>
    cases step with
    | field k => rw [cons_append, getFrom, ih, getFrom, append_assoc, singleton_append]
    | element k => rw [cons_append, getFrom, ih, getFrom, append_assoc, singleton_append]

lemma getFrom_object_element (m : Fields) (path q : Path) : s.getFrom (some (.object m)) path (.element k :: q) = none := by
  exact getFrom_none _ q

lemma getFrom_list_field (els : List Value) (path q : Path) : s.getFrom (some (.list els)) path (.field k :: q) = none := by
  exact getFrom_none _ q

variable {bs ls ns : KeyedList}

section
variable {b l n : Option Value} {path : Path}

def Contested (s : Schema) (path : Path) (b l n : Option Value) : Prop :=
  ¬ s.SameAt path l b ∧ ¬ s.SameAt path n b ∧ ¬ s.SameAt path n l

instance : Decidable (s.Contested path b l n) := inferInstanceAs (Decidable (_ ∧ _))

lemma parts_objects {bo lo no : Fields} (h : s.parts b l n path = .objects bo lo no) :
    l = some (.object lo) ∧ n = some (.object no) ∧ ∀ k, ((object b).bind fun m => m.property k) = bo.property k := by
  unfold parts at h
  split at h
  · cases h
    exact ⟨rfl, rfl, fun _ => rfl⟩
  · cases h
    exact ⟨rfl, rfl, fun _ => rfl⟩
  · simp only at h
    split at h <;> cases h

lemma parts_lists (h : s.parts b l n path = .lists bs ls ns) :
    s.keyed (some (b.getD (.list []))) (pattern path) = some bs ∧ s.keyed l (pattern path) = some ls ∧
      s.keyed n (pattern path) = some ns ∧ ∀ k, ((s.keyed b (pattern path)).bind fun l => l.get k) = bs.get k := by
  unfold parts at h
  split at h
  · cases h
  · cases h
  · simp only at h
    split at h
    · rename_i hb hl hn
      cases h
      refine ⟨hb, hl, hn, fun k => ?_⟩
      cases b with
      | none =>
        cases hb
        rfl
      | some b =>
        rw [Option.getD_some] at hb
        rw [hb]
        rfl
    · cases h

lemma keyed_eq_some {p : String} (h : s.keyed l p = some ls) : ∃ els, l = some (.list els) := by
  unfold keyed at h
  split at h
  · exact ⟨_, rfl⟩
  · cases h

end

section
variable {b l n : Option Value} {path : Path} {fuel : Nat}

lemma mergeWithin_agree (h : ¬ s.Contested path b l n) :
    s.mergeWithin (fuel + 1) b l n path = ⟨if s.SameAt path l b then n else l, []⟩ := by
  rw [mergeWithin]
  by_cases hlb : s.SameAt path l b
  · rw [if_pos hlb, if_pos hlb]
  · have hn : s.SameAt path n b ∨ s.SameAt path n l := by
      by_contra hn
      exact h ⟨hlb, fun hnb => hn (.inl hnb), fun hnl => hn (.inr hnl)⟩
    rw [if_neg hlb, if_neg hlb, if_pos hn]

lemma mergeWithin_contested (h : s.Contested path b l n) :
    s.mergeWithin (fuel + 1) b l n path =
      match s.parts b l n path with
      | .objects bo lo no => mergeObjects (s.mergeWithin fuel) bo lo no path
      | .lists bs ls ns => mergeLists (s.mergeWithin fuel) s.whole bs ls ns path
      | .whole => ⟨l, [⟨path, l, n⟩]⟩ := by
  exact (if_neg h.1).trans (if_neg (not_or.mpr h.2))

lemma whole_eq (b l n : Option Value) (path : Path) :
    s.whole b l n path =
      ⟨if s.SameAt path l b then n else l, if s.Contested path b l n then [⟨path, l, n⟩] else []⟩ := by
  unfold whole Contested
  split_ifs <;> simp_all

lemma mergeWithin_same (fuel : Nat) (b v : Option Value) (path : Path) : (s.mergeWithin fuel b v v path).value = v := by
  cases fuel with
  | zero => rfl
  | succ fuel =>
    have h : ¬ s.Contested path b v v := fun h => h.2.2 rfl
    rw [mergeWithin_agree h]
    simp only [ite_self]

lemma mergeWithin_none (fuel : Nat) (b : Option Value) (path : Path) : s.mergeWithin fuel b none none path = ⟨none, []⟩ := by
  cases fuel with
  | zero => rfl
  | succ fuel =>
    have h : ¬ s.Contested path b none none := fun h => h.2.2 rfl
    rw [mergeWithin_agree h, ite_self]

lemma whole_none (b : Option Value) (path : Path) : s.whole b none none path = ⟨none, []⟩ := by
  have h : ¬ s.Contested path b none none := fun h => h.2.2 rfl
  rw [whole_eq, ite_self, if_neg h]

end

variable {c : ValueConflict}

section
variable {bo lo no : Fields} {path : Path}

lemma mem_keysOf : k ∈ keysOf bo lo no ↔ k ∈ (lo ++ no ++ bo).map Prod.fst := by
  have hkeys : k ∈ (Grouping.distinctFrom id ((lo ++ no ++ bo).map Prod.fst) []).map id ↔ _ := Grouping.keys_distinctFrom
  simpa [keysOf, Grouping.distinctBy] using hkeys

lemma nodup_keysOf (bo lo no : Fields) : (keysOf bo lo no).Nodup := by
  simpa [keysOf, Grouping.distinctBy] using Grouping.nodup_keys_distinctFrom id ((lo ++ no ++ bo).map Prod.fst) []

def atField (s : Schema) (fuel : Nat) (bo lo no : Fields) (path : Path) (k : String) : Merged :=
  s.mergeWithin fuel (bo.property k) (lo.property k) (no.property k) (path ++ [.field k])

lemma atField_of_not_mem (fuel : Nat) (h : k ∉ keysOf bo lo no) : s.atField fuel bo lo no path k = ⟨none, []⟩ := by
  rw [mem_keysOf] at h
  simp only [map_append, mem_append, not_or] at h
  rw [atField, Fields.property_eq_none h.1.1, Fields.property_eq_none h.1.2, mergeWithin_none]

lemma value_mergeObjects (bo lo no : Fields) (path : Path) (fuel : Nat) (k : String) :
    ((object (mergeObjects (s.mergeWithin fuel) bo lo no path).value).bind fun m => m.property k) =
      (s.atField fuel bo lo no path k).value := by
  have hprop := Fields.property_filterMap (fun k => (s.atField fuel bo lo no path k).value) (keysOf bo lo no) k
  by_cases hk : k ∈ keysOf bo lo no
  · rw [if_pos hk] at hprop
    exact hprop
  · rw [if_neg hk] at hprop
    rw [atField_of_not_mem fuel hk]
    exact hprop

lemma mem_conflicts_mergeObjects (fuel : Nat) :
    c ∈ (mergeObjects (s.mergeWithin fuel) bo lo no path).conflicts ↔ ∃ k, c ∈ (s.atField fuel bo lo no path k).conflicts := by
  have hperm : c ∈ (mergeObjects (s.mergeWithin fuel) bo lo no path).conflicts ↔
      c ∈ (keysOf bo lo no).flatMap fun k => (s.atField fuel bo lo no path k).conflicts :=
    (perm_insertionSort _ _).mem_iff
  rw [hperm, mem_flatMap]
  constructor
  · rintro ⟨k, _, hc⟩
    exact ⟨k, hc⟩
  · rintro ⟨k, hc⟩
    refine ⟨k, ?_, hc⟩
    by_contra hk
    rw [atField_of_not_mem fuel hk] at hc
    cases hc

end

section
variable {bs ls ns : KeyedList} {path : Path}

lemma nodup_orderOf (ls ns : KeyedList) : (orderOf ls ns).Nodup := by
  refine List.Nodup.append ls.nodup_order (ns.nodup_order.filter _) fun k hk hk' => ?_
  have := (mem_filter.mp hk').2
  simp [hk] at this

lemma not_mem_orderOf (h : k ∉ orderOf ls ns) : ls.get k = none ∧ ns.get k = none := by
  simp only [orderOf, mem_append, mem_filter, not_or, not_and] at h
  refine ⟨KeyedList.get_eq_none h.1, KeyedList.get_eq_none fun hk => h.2 hk (by simpa using h.1)⟩

def atElement (s : Schema) (fuel : Nat) (bs ls ns : KeyedList) (path : Path) (k : String) : Merged :=
  mergeElement (s.mergeWithin fuel) s.whole bs ls ns path k

def anyGroup (bs ls ns : KeyedList) (k : String) : Bool := isGroup (bs.get k) || isGroup (ls.get k) || isGroup (ns.get k)

lemma atElement_group (fuel : Nat) (h : anyGroup bs ls ns k = true) :
    s.atElement fuel bs ls ns path k = s.whole (bs.get k) (ls.get k) (ns.get k) (path ++ [.element k]) := by
  rw [anyGroup] at h
  simp only [atElement, mergeElement, if_pos h]

lemma atElement_single (fuel : Nat) (h : anyGroup bs ls ns k = false) :
    s.atElement fuel bs ls ns path k = s.mergeWithin fuel (bs.get k) (ls.get k) (ns.get k) (path ++ [.element k]) := by
  rw [anyGroup] at h
  simp only [atElement, mergeElement, h, Bool.false_eq_true, if_false]

lemma atElement_of_not_mem (fuel : Nat) (h : k ∉ orderOf ls ns) : s.atElement fuel bs ls ns path k = ⟨none, []⟩ := by
  obtain ⟨hl, hn⟩ := not_mem_orderOf h
  cases hgroup : anyGroup bs ls ns k with
  | true => rw [atElement_group fuel hgroup, hl, hn, whole_none]
  | false => rw [atElement_single fuel hgroup, hl, hn, mergeWithin_none]

lemma keyedBy_mergeWithin {b l n : Option Value} (fuel : Nat) (q : Path)
    (hl : s.KeyedBy p k l) (hlg : isGroup l = false) (hn : s.KeyedBy p k n) (hng : isGroup n = false) :
    s.KeyedBy p k (s.mergeWithin fuel b l n q).value := by
  cases fuel with
  | zero => exact hl
  | succ fuel =>
    by_cases hc : s.Contested q b l n
    · rw [mergeWithin_contested hc]
      split
      · rename_i bo lo no hparts
        obtain ⟨rfl, rfl, _⟩ := parts_objects hparts
        rcases hl.single hlg with hnone | ⟨prop, m, hm, hlist, hprop⟩
        · cases hnone
        rcases hn.single hng with hnone | ⟨prop', m', hm', hlist', hprop'⟩
        · cases hnone
        cases hm
        cases hm'
        rw [hlist, Option.some.injEq] at hlist'
        subst hlist'
        -- Both sides have the key, so the merged object has it.
        have hvalue := s.value_mergeObjects bo lo no q fuel prop
        rw [atField, hprop, hprop', mergeWithin_same] at hvalue
        exact keyedBy_object hlist hvalue
      · rename_i bs ls ns hparts
        obtain ⟨_, hls, _⟩ := parts_lists hparts
        obtain ⟨els, rfl⟩ := keyed_eq_some hls
        cases hlg
      · exact hl
    · rw [mergeWithin_agree hc]
      simp only
      split_ifs
      · exact hn
      · exact hl

lemma keyedBy_atElement (bs : KeyedList) (path : Path) (fuel : Nat) (hls : ∀ k, s.KeyedBy p k (ls.get k)) (hns : ∀ k, s.KeyedBy p k (ns.get k)) (k : String) :
    s.KeyedBy p k (s.atElement fuel bs ls ns path k).value := by
  cases hgroup : anyGroup bs ls ns k with
  | true =>
    rw [atElement_group fuel hgroup, whole_eq]
    simp only
    split_ifs
    · exact hns k
    · exact hls k
  | false =>
    rw [atElement_single fuel hgroup]
    simp only [anyGroup, Bool.or_eq_false_iff] at hgroup
    exact keyedBy_mergeWithin fuel _ (hls k) hgroup.1.2 (hns k) hgroup.2

lemma value_mergeLists (bs : KeyedList) (fuel : Nat) (hls : ∀ k, s.KeyedBy (pattern path) k (ls.get k))
    (hns : ∀ k, s.KeyedBy (pattern path) k (ns.get k)) (k : String) :
    ((s.keyed (mergeLists (s.mergeWithin fuel) s.whole bs ls ns path).value (pattern path)).bind fun l => l.get k) =
      (s.atElement fuel bs ls ns path k).value := by
  have hkeyed := keyedBy_atElement bs path fuel hls hns
  have hlist := keyed_flatMap (orderOf ls ns) hkeyed
  have hget := get_flatMap (k := k) (nodup_orderOf ls ns) hkeyed fun hk => by rw [atElement_of_not_mem fuel hk]
  refine Eq.trans ?_ hget
  exact congrArg (fun l => Option.bind l fun l => KeyedList.get l k) hlist

lemma mem_conflicts_mergeLists (fuel : Nat) :
    c ∈ (mergeLists (s.mergeWithin fuel) s.whole bs ls ns path).conflicts ↔
      ∃ k, c ∈ (s.atElement fuel bs ls ns path k).conflicts := by
  refine mem_flatMap.trans ⟨fun ⟨k, _, hc⟩ => ⟨k, hc⟩, fun ⟨k, hc⟩ => ⟨k, ?_, hc⟩⟩
  by_contra hk
  rw [atElement_of_not_mem fuel hk] at hc
  cases hc

end

/-- The paths at which a merge stops: two of the sides agree there, or their values do not come in
parts, or elements share a key. -/
inductive Leaf (s : Schema) : Path → Option Value → Option Value → Option Value → Path → Prop
  | stop {path : Path} {b l n : Option Value} (h : s.Contested path b l n → s.parts b l n path = .whole) :
      Leaf s path b l n []
  | field {path q : Path} {b l n : Option Value} {bo lo no : Fields} {k : String} (hc : s.Contested path b l n)
      (hparts : s.parts b l n path = .objects bo lo no)
      (h : Leaf s (path ++ [.field k]) (bo.property k) (lo.property k) (no.property k) q) :
      Leaf s path b l n (.field k :: q)
  | element {path q : Path} {b l n : Option Value} {bs ls ns : KeyedList} {k : String} (hc : s.Contested path b l n)
      (hparts : s.parts b l n path = .lists bs ls ns) (hgroup : anyGroup bs ls ns k = false)
      (h : Leaf s (path ++ [.element k]) (bs.get k) (ls.get k) (ns.get k) q) :
      Leaf s path b l n (.element k :: q)
  | group {path : Path} {b l n : Option Value} {bs ls ns : KeyedList} {k : String} (hc : s.Contested path b l n)
      (hparts : s.parts b l n path = .lists bs ls ns) (hgroup : anyGroup bs ls ns k = true) :
      Leaf s path b l n [.element k]

variable {fuel : Nat} {q : Path}

section
variable {b l n : Option Value} {path : Path}

lemma mergeWithin_objects {bo lo no : Fields} (hc : s.Contested path b l n)
    (h : s.parts b l n path = .objects bo lo no) :
    s.mergeWithin (fuel + 1) b l n path = mergeObjects (s.mergeWithin fuel) bo lo no path := by
  rw [mergeWithin_contested hc, h]

lemma mergeWithin_lists (hc : s.Contested path b l n)
    (h : s.parts b l n path = .lists bs ls ns) :
    s.mergeWithin (fuel + 1) b l n path = mergeLists (s.mergeWithin fuel) s.whole bs ls ns path := by
  rw [mergeWithin_contested hc, h]

lemma leaf_of_conflict (fuel : Nat) (h : c ∈ (s.mergeWithin fuel b l n path).conflicts) :
    ∃ q, c.path = path ++ q ∧ s.Leaf path b l n q := by
  induction fuel generalizing b l n path with
  | zero => cases h
  | succ fuel ih =>
    by_cases hc : s.Contested path b l n
    · cases hparts : s.parts b l n path with
      | objects bo lo no =>
        rw [mergeWithin_objects hc hparts, mem_conflicts_mergeObjects] at h
        obtain ⟨k, h⟩ := h
        obtain ⟨q, hq, hleaf⟩ := ih h
        exact ⟨.field k :: q, by simpa using hq, .field hc hparts hleaf⟩
      | lists bs ls ns =>
        rw [mergeWithin_lists hc hparts, mem_conflicts_mergeLists] at h
        obtain ⟨k, h⟩ := h
        cases hgroup : anyGroup bs ls ns k with
        | true =>
          rw [atElement_group fuel hgroup, whole_eq] at h
          simp only at h
          split_ifs at h
          · rw [mem_singleton.mp h]
            exact ⟨[.element k], rfl, .group hc hparts hgroup⟩
          · cases h
        | false =>
          rw [atElement_single fuel hgroup] at h
          obtain ⟨q, hq, hleaf⟩ := ih h
          exact ⟨.element k :: q, by simpa using hq, .element hc hparts hgroup hleaf⟩
      | whole =>
        rw [mergeWithin_contested hc, hparts] at h
        rw [mem_singleton.mp h]
        exact ⟨[], by simp, .stop fun _ => hparts⟩
    · rw [mergeWithin_agree hc] at h
      cases h

lemma prefix_of_conflict (fuel : Nat) (h : c ∈ (s.mergeWithin fuel b l n path).conflicts) :
    path <+: c.path := by
  obtain ⟨q, hq, _⟩ := leaf_of_conflict fuel h
  exact ⟨q, hq.symm⟩

lemma prefix_of_atElement
    (h : c ∈ (s.atElement fuel bs ls ns path k).conflicts) : path ++ [.element k] <+: c.path := by
  cases hgroup : anyGroup bs ls ns k with
  | true =>
    rw [atElement_group fuel hgroup, whole_eq] at h
    simp only at h
    split at h
    · obtain rfl := mem_singleton.mp h
      exact prefix_rfl
    · cases h
  | false =>
    rw [atElement_single fuel hgroup] at h
    exact prefix_of_conflict fuel h

/-- What a merge has at a path: the other side's value where the local side agrees with the
base, else the local one, which is a conflict where all three disagree. -/
structure Law (s : Schema) (path : Path) (b l n : Option Value) (r : Merged) (q : Path) : Prop where
  value : s.getFrom r.value path q =
    if s.SameAt (path ++ q) (s.getFrom l path q) (s.getFrom b path q) then s.getFrom n path q else s.getFrom l path q
  conflict : ∀ c, c ∈ r.conflicts ∧ c.path = path ++ q ↔
    c = ⟨path ++ q, s.getFrom l path q, s.getFrom n path q⟩ ∧
      s.Contested (path ++ q) (s.getFrom b path q) (s.getFrom l path q) (s.getFrom n path q)

lemma eq_mono_step {path p : Path} {t u : Step} (ht : path ++ [t] <+: p) (hu : path ++ [u] <+: p) : t = u := by
  have heq := prefix_of_prefix_length_le ht hu (by simp)
  simpa using heq.eq_of_length (by simp)

lemma whole_law (b l n : Option Value) (path : Path) : s.Law path b l n (s.whole b l n path) [] := by
  rw [whole_eq]
  refine ⟨by simp [getFrom], fun c => ?_⟩
  simp only [getFrom, append_nil]
  split_ifs with hc
  · simp only [hc, and_true, mem_singleton]
    refine ⟨fun h => h.1, fun h => ⟨h, by rw [h]⟩⟩
  · simp [hc]

lemma getFrom_cons (v : Option Value) (path : Path) (t : Step) (q : Path) :
    s.getFrom v path (t :: q) = s.getFrom (s.getFrom v path [t]) (path ++ [t]) q :=
  getFrom_append v path [t] q

lemma Law.cons {t : Step} {r r' : Merged} {b' l' n' : Option Value} (h : s.Law (path ++ [t]) b' l' n' r' q)
    (hb : s.getFrom b path [t] = b') (hl : s.getFrom l path [t] = l') (hn : s.getFrom n path [t] = n')
    (hvalue : s.getFrom r.value path [t] = r'.value)
    (hconflicts : ∀ c, path ++ [t] <+: c.path → (c ∈ r.conflicts ↔ c ∈ r'.conflicts)) : s.Law path b l n r (t :: q) := by
  have hpath : path ++ t :: q = path ++ [t] ++ q := by simp
  subst hb hl hn
  constructor
  · rw [getFrom_cons r.value, getFrom_cons l, getFrom_cons b, getFrom_cons n, hvalue, hpath]
    exact h.value
  · intro c
    rw [getFrom_cons l, getFrom_cons b, getFrom_cons n, hpath, ← h.conflict c]
    refine and_congr_left fun hc => hconflicts c ?_
    rw [hc]
    exact prefix_append _ _

lemma depthOf_property {m : Fields} {k : String} : depthOf (m.property k) < depthOf (some (.object m)) := by
  cases h : m.property k with
  | none => simp [depthOf, Value.depth]
  | some v =>
    have := Fields.depth_property h
    simp only [depthOf, Option.map_some, Option.getD_some, Value.depth]
    omega

lemma mem_entries {els : List Value} {p : String} (h : s.keyed (some (.list els)) p = some ls) :
    ls.entries.map Prod.snd = els := by
  obtain ⟨entries, hentries, rfl⟩ := Option.map_eq_some_iff.mp h
  exact (keyEntries_eq_some.mp hentries).1

lemma depthOf_get {p : String} (h : s.keyed v p = some ls)
    (hgroup : isGroup (ls.get k) = false) : depthOf (ls.get k) < depthOf v := by
  obtain ⟨els, rfl⟩ := keyed_eq_some h
  have hmem : ∀ el ∈ (ls.entries.filter fun e => e.1 = k).map Prod.snd, el ∈ els := by
    intro el hel
    obtain ⟨e, he, rfl⟩ := mem_map.mp hel
    rw [← mem_entries h]
    exact mem_map_of_mem (mem_filter.mp he).1
  rw [KeyedList.get] at hgroup ⊢
  generalize (ls.entries.filter fun e => e.1 = k).map Prod.snd = mine at hmem hgroup
  match mine with
  | [] => simp [groupOf, depthOf, Value.depth]
  | [el] =>
    have := Value.depth_le_of_mem (hmem el (by simp))
    simp only [groupOf, depthOf, Option.map_some, Option.getD_some, Value.depth]
    omega
  | _ :: _ :: _ => cases hgroup

lemma objects_step {bo lo no : Fields} (k : String) (hc : path ++ [.field k] <+: c.path) :
    c ∈ (mergeObjects (s.mergeWithin fuel) bo lo no path).conflicts ↔ c ∈ (s.atField fuel bo lo no path k).conflicts := by
  rw [mem_conflicts_mergeObjects]
  refine ⟨fun ⟨k', h⟩ => ?_, fun h => ⟨k, h⟩⟩
  have heq := eq_mono_step hc (prefix_of_conflict fuel h)
  cases heq
  exact h

lemma lists_step (k : String)
    (hc : path ++ [.element k] <+: c.path) :
    c ∈ (mergeLists (s.mergeWithin fuel) s.whole bs ls ns path).conflicts ↔
      c ∈ (s.atElement fuel bs ls ns path k).conflicts := by
  rw [mem_conflicts_mergeLists]
  refine ⟨fun ⟨k', h⟩ => ?_, fun h => ⟨k, h⟩⟩
  have heq := eq_mono_step hc (prefix_of_atElement h)
  cases heq
  exact h

lemma lists_law (hparts : s.parts b l n path = .lists bs ls ns)
    (h : s.Law (path ++ [.element k]) (bs.get k) (ls.get k) (ns.get k) (s.atElement fuel bs ls ns path k) q) :
    s.Law path b l n (mergeLists (s.mergeWithin fuel) s.whole bs ls ns path) (.element k :: q) := by
  obtain ⟨_, hl, hn, hb⟩ := parts_lists hparts
  refine h.cons (hb k) ?_ ?_ (value_mergeLists bs fuel (keyedBy_get hl) (keyedBy_get hn) k) fun c => lists_step k
  · rw [getFrom, hl]
    rfl
  · rw [getFrom, hn]
    rfl

/-- The merge law, at every leaf. -/
theorem mergeWithin_law (hleaf : s.Leaf path b l n q) (hfuel : depthOf l < fuel) :
    s.Law path b l n (s.mergeWithin fuel b l n path) q := by
  induction hleaf generalizing fuel with
  | @stop path b l n h =>
    obtain ⟨fuel, rfl⟩ : ∃ f, fuel = f + 1 := ⟨fuel - 1, by omega⟩
    have heq : s.mergeWithin (fuel + 1) b l n path = s.whole b l n path := by
      rw [whole_eq]
      by_cases hc : s.Contested path b l n
      · rw [mergeWithin_contested hc, h hc, if_pos hc, if_neg hc.1]
      · rw [mergeWithin_agree hc, if_neg hc]
    rw [heq]
    exact whole_law b l n path
  | @field path q b l n bo lo no k hc hparts h ih =>
    obtain ⟨fuel, rfl⟩ : ∃ f, fuel = f + 1 := ⟨fuel - 1, by omega⟩
    obtain ⟨rfl, rfl, hb⟩ := parts_objects hparts
    rw [mergeWithin_objects hc hparts]
    have hdepth := depthOf_property (m := lo) (k := k)
    exact (ih (by omega)).cons (hb k) rfl rfl (value_mergeObjects _ _ _ _ fuel k) fun c => objects_step k
  | @element path q b l n bs ls ns k hc hparts hgroup h ih =>
    obtain ⟨fuel, rfl⟩ : ∃ f, fuel = f + 1 := ⟨fuel - 1, by omega⟩
    rw [mergeWithin_lists hc hparts]
    refine lists_law hparts ?_
    have hdepth : depthOf (ls.get k) < depthOf l := by
      simp only [anyGroup, Bool.or_eq_false_iff] at hgroup
      exact depthOf_get (parts_lists hparts).2.1 hgroup.1.2
    rw [atElement_single fuel hgroup]
    exact ih (by omega)
  | @group path b l n bs ls ns k hc hparts hgroup =>
    obtain ⟨fuel, rfl⟩ : ∃ f, fuel = f + 1 := ⟨fuel - 1, by omega⟩
    rw [mergeWithin_lists hc hparts]
    refine lists_law hparts ?_
    rw [atElement_group fuel hgroup]
    exact whole_law _ _ _ _

def Apart (c c' : ValueConflict) : Prop := ¬ c.path <+: c'.path ∧ ¬ c'.path <+: c.path

lemma apart_of_steps {path : Path} {t u : Step} {c' : ValueConflict} (htu : t ≠ u) (hc : path ++ [t] <+: c.path)
    (hc' : path ++ [u] <+: c'.path) : Apart c c' :=
  ⟨fun h => htu (eq_mono_step (hc.trans h) hc'), fun h => htu (eq_mono_step hc (hc'.trans h))⟩

lemma pairwise_whole (b l n : Option Value) (path : Path) : (s.whole b l n path).conflicts.Pairwise Apart := by
  rw [whole_eq]
  simp only
  split_ifs <;> simp

lemma pairwise_conflicts (fuel : Nat) : (s.mergeWithin fuel b l n path).conflicts.Pairwise Apart := by
  induction fuel generalizing b l n path with
  | zero => exact .nil
  | succ fuel ih =>
    by_cases hc : s.Contested path b l n
    · cases hparts : s.parts b l n path with
      | objects bo lo no =>
        rw [mergeWithin_objects hc hparts]
        refine ((perm_insertionSort _ _).pairwise_iff fun h => ⟨h.2, h.1⟩).mpr ?_
        refine pairwise_flatMap.mpr ⟨fun k _ => ih, ?_⟩
        refine (nodup_keysOf bo lo no).imp fun hk c h c' h' => ?_
        exact apart_of_steps (by simpa using hk) (prefix_of_conflict fuel h) (prefix_of_conflict fuel h')
      | lists bs ls ns =>
        rw [mergeWithin_lists hc hparts]
        refine pairwise_flatMap.mpr ⟨fun k _ => ?_, ?_⟩
        · change (s.atElement fuel bs ls ns path k).conflicts.Pairwise Apart
          cases hgroup : anyGroup bs ls ns k with
          | true =>
            rw [atElement_group fuel hgroup]
            exact pairwise_whole _ _ _ _
          | false =>
            rw [atElement_single fuel hgroup]
            exact ih
        · refine (nodup_orderOf ls ns).imp fun hk c h c' h' => ?_
          exact apart_of_steps (by simpa using hk) (prefix_of_atElement h) (prefix_of_atElement h')
      | whole =>
        rw [mergeWithin_contested hc, hparts]
        exact pairwise_singleton _ _
    · rw [mergeWithin_agree hc]
      exact .nil

lemma value_whole (b l n : Option Value) (path : Path) :
    (s.whole b l n path).value = l ∨ (s.whole b l n path).value = n := by
  rw [whole_eq]
  simp only
  split_ifs
  · exact .inr rfl
  · exact .inl rfl

lemma origin_of_eq (h : s.getFrom v path q ≠ none) (hv : v = l ∨ v = n) :
    s.getFrom l path q ≠ none ∨ s.getFrom n path q ≠ none := by
  rcases hv with rfl | rfl
  · exact .inl h
  · exact .inr h

lemma origin (fuel : Nat) (h : s.getFrom (s.mergeWithin fuel b l n path).value path q ≠ none) :
    s.getFrom l path q ≠ none ∨ s.getFrom n path q ≠ none := by
  induction fuel generalizing b l n path q with
  | zero => exact .inl h
  | succ fuel ih =>
    by_cases hc : s.Contested path b l n
    · cases hparts : s.parts b l n path with
      | objects bo lo no =>
        rw [mergeWithin_objects hc hparts] at h
        obtain ⟨rfl, rfl, _⟩ := parts_objects hparts
        match q with
        | [] => exact .inl nofun
        | .field k :: q =>
          rw [getFrom, value_mergeObjects] at h
          rw [getFrom, getFrom]
          exact ih h
        | .element k :: q => exact absurd (getFrom_object_element _ _ _) h
      | lists bs ls ns =>
        rw [mergeWithin_lists hc hparts] at h
        obtain ⟨_, hl, hn, _⟩ := parts_lists hparts
        match q with
        | [] =>
          obtain ⟨els, rfl⟩ := keyed_eq_some hl
          exact .inl nofun
        | .field k :: q => exact absurd (getFrom_list_field _ _ _) h
        | .element k :: q =>
          rw [getFrom, value_mergeLists bs fuel (keyedBy_get hl) (keyedBy_get hn)] at h
          rw [getFrom, getFrom, hl, hn]
          cases hgroup : anyGroup bs ls ns k with
          | true =>
            rw [atElement_group fuel hgroup] at h
            exact origin_of_eq h (value_whole _ _ _ _)
          | false =>
            rw [atElement_single fuel hgroup] at h
            exact ih h
      | whole =>
        rw [mergeWithin_contested hc, hparts] at h
        exact .inl h
    · rw [mergeWithin_agree hc] at h
      refine origin_of_eq h ?_
      simp only
      split_ifs
      · exact .inr rfl
      · exact .inl rfl

end

lemma Leaf.inner {path : Path} {b l n : Option Value} (hleaf : s.Leaf path b l n q) (hfuel : depthOf l < fuel)
    {m : Path} (hm : m <+: q) (hne : m ≠ q) :
    ∃ v, s.getFrom (s.mergeWithin fuel b l n path).value path m = some v ∧ v ≠ .null := by
  induction hleaf generalizing fuel m with
  | stop h =>
    rw [prefix_nil] at hm
    exact absurd hm hne
  | @field path q b l n bo lo no k hc hparts h ih =>
    obtain ⟨fuel, rfl⟩ : ∃ f, fuel = f + 1 := ⟨fuel - 1, by omega⟩
    obtain ⟨rfl, rfl, _⟩ := parts_objects hparts
    rw [mergeWithin_objects hc hparts]
    match m with
    | [] => exact ⟨_, rfl, nofun⟩
    | t :: m =>
      obtain ⟨rfl, hrest⟩ := cons_prefix_cons.mp hm
      rw [getFrom, value_mergeObjects]
      have hdepth := depthOf_property (m := lo) (k := k)
      exact ih (by omega) hrest fun heq => hne (by rw [heq])
  | @element path q b l n bs ls ns k hc hparts hgroup h ih =>
    obtain ⟨fuel, rfl⟩ : ∃ f, fuel = f + 1 := ⟨fuel - 1, by omega⟩
    obtain ⟨_, hl, hn, _⟩ := parts_lists hparts
    rw [mergeWithin_lists hc hparts]
    match m with
    | [] => exact ⟨_, rfl, nofun⟩
    | t :: m =>
      obtain ⟨rfl, hrest⟩ := cons_prefix_cons.mp hm
      rw [getFrom, value_mergeLists bs fuel (keyedBy_get hl) (keyedBy_get hn), atElement_single fuel hgroup]
      have hdepth : depthOf (ls.get k) < depthOf l := by
        simp only [anyGroup, Bool.or_eq_false_iff] at hgroup
        exact depthOf_get hl hgroup.1.2
      exact ih (by omega) hrest fun heq => hne (by rw [heq])
  | @group path b l n bs ls ns k hc hparts hgroup =>
    obtain ⟨fuel, rfl⟩ : ∃ f, fuel = f + 1 := ⟨fuel - 1, by omega⟩
    rw [mergeWithin_lists hc hparts]
    match m with
    | [] => exact ⟨_, rfl, nofun⟩
    | t :: m =>
      obtain ⟨rfl, hrest⟩ := cons_prefix_cons.mp hm
      rw [prefix_nil] at hrest
      exact absurd (by rw [hrest]) hne

lemma Leaf.merge_inner {base local_ next : Option Value} {m : Path} (hleaf : s.Leaf [] base local_ next q)
    (hm : m <+: q) (hne : m ≠ q) : ∃ v, s.getAt (s.merge base local_ next []).value m = some v ∧ v ≠ .null :=
  hleaf.inner (Nat.lt_succ_self _) hm hne

lemma merge_leaf {base local_ next : Option Value} (hleaf : s.Leaf [] base local_ next q) :
    s.getAt (s.merge base local_ next []).value q =
        (if s.SameAt q (s.getAt local_ q) (s.getAt base q) then s.getAt next q else s.getAt local_ q) ∧
      ∀ c, c ∈ (s.merge base local_ next []).conflicts ∧ c.path = q ↔
        c = ⟨q, s.getAt local_ q, s.getAt next q⟩ ∧ s.Contested q (s.getAt base q) (s.getAt local_ q) (s.getAt next q) := by
  have hlaw := mergeWithin_law hleaf (Nat.lt_succ_self _)
  exact ⟨hlaw.value, hlaw.conflict⟩

lemma leaf_of_merge {base local_ next : Option Value}
    (hc : c ∈ (s.merge base local_ next []).conflicts) : s.Leaf [] base local_ next c.path := by
  obtain ⟨q, hq, hleaf⟩ := leaf_of_conflict _ hc
  rw [hq]
  exact hleaf

/-- `Schema.Merge` at the root, for any three values: at every leaf the merged value is the
other side's where the local side agrees with the base, else the local one; the conflicts
are the leaves where all three disagree, with both values, and none is on or under another;
and what the merged value has anywhere, an element of a list above all, one of the two
sides has there. -/
theorem three_way_merge_law (s : Schema) (base local_ next : Option Value) :
    (∀ q, s.Leaf [] base local_ next q →
      s.getAt (s.merge base local_ next []).value q =
        (if s.SameAt q (s.getAt local_ q) (s.getAt base q) then s.getAt next q else s.getAt local_ q) ∧
      ∀ c, c ∈ (s.merge base local_ next []).conflicts ∧ c.path = q ↔
        c = ⟨q, s.getAt local_ q, s.getAt next q⟩ ∧ ¬ s.SameAt q (s.getAt local_ q) (s.getAt base q) ∧
          ¬ s.SameAt q (s.getAt next q) (s.getAt base q) ∧ ¬ s.SameAt q (s.getAt next q) (s.getAt local_ q)) ∧
    (∀ c ∈ (s.merge base local_ next []).conflicts, s.Leaf [] base local_ next c.path) ∧
    (s.merge base local_ next []).conflicts.Pairwise (fun c c' => ¬ c.path <+: c'.path ∧ ¬ c'.path <+: c.path) ∧
    ∀ q, s.getAt (s.merge base local_ next []).value q ≠ none → s.getAt local_ q ≠ none ∨ s.getAt next q ≠ none := by
  exact ⟨fun q hleaf => merge_leaf hleaf, fun c hc => leaf_of_merge hc, pairwise_conflicts _, fun q => origin _⟩

/-- Fields keyed by name, with optional masks. -/
def fieldsByName : Schema := ⟨fun p => if p = "fields[]" then some "name" else none, fun p => p = "fields[].mask"⟩

example :
    let field (mask : String) : Value := .object [("name", .text "email"), ("mask", .text mask)]
    let item (mask : String) : Option Value := some (.object [("fields", .list [field mask])])
    (fieldsByName.merge (item "") (item "hash") (item "redact") []).conflicts =
      [⟨[.field "fields", .element "email", .field "mask"], some (.text "hash"), some (.text "redact")⟩] := by
  decide

end Schema

end SqlMcpServer.Workspaces
