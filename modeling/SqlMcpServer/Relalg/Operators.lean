import SqlMcpServer.Lib.Grouping
import SqlMcpServer.Lib.Joined
import SqlMcpServer.Relalg.Agree

namespace SqlMcpServer.Interp

open List
open Except (bind_eq_ok)
open Relalg

def NulFree : Value → Prop
  | .str s => '\x00' ∉ s.toList
  | _ => True

lemma not_mem_toString_int {c : Char} (hc : c ≠ '-') (hdigit : c.isDigit = false) (a : Int) :
    c ∉ (toString a).toList := by
  intro h
  rcases GoStrings.sign_or_digit_of_mem_toString h with rfl | hd
  · exact hc rfl
  · simp [hdigit] at hd

lemma not_mem_toString_nat {c : Char} (hdigit : c.isDigit = false) (n : Nat) : c ∉ (toString n).toList := by
  intro h
  have hd := GoStrings.isDigit_of_mem_toString h
  simp [hdigit] at hd

lemma ratString_inj {p q : Rat} (h : ratString p = ratString q) : p = q := by
  have hslash : ∀ a : Int, '/' ∉ (toString a).toList := not_mem_toString_int (by decide) (by decide)
  unfold ratString at h
  by_cases hp : p.den = 1 <;> by_cases hq : q.den = 1
  · rw [if_pos hp, if_pos hq] at h
    exact Rat.ext (GoStrings.toString_int_inj h) (hp.trans hq.symm)
  · rw [if_pos hp, if_neg hq] at h
    have hmem : '/' ∈ (toString p.num).toList := by rw [h]; simp
    exact absurd hmem (hslash _)
  · rw [if_neg hp, if_pos hq] at h
    have hmem : '/' ∈ (toString q.num).toList := by rw [← h]; simp
    exact absurd hmem (hslash _)
  · rw [if_neg hp, if_neg hq] at h
    have hlist : (toString p.num).toList ++ '/' :: (toString p.den).toList =
        (toString q.num).toList ++ '/' :: (toString q.den).toList := by
      simpa using congrArg String.toList h
    obtain ⟨hnum, hden⟩ := GoStrings.append_sep_inj (hslash _) (hslash _) hlist
    exact Rat.ext (GoStrings.toString_int_inj (String.toList_inj.mp hnum))
      (GoStrings.toString_nat_inj (String.toList_inj.mp hden))

variable {k : String}

lemma valueKey_inj {a b : Value} (ha : valueKey a = .ok k) (hb : valueKey b = .ok k) : a = b := by
  -- The first letter of a key is its type's.
  have hkey := ha.trans hb.symm
  cases a <;> cases b <;> simp only [valueKey, reduceCtorEq, Except.ok.injEq] at ha hb hkey ⊢
  case num.num p q =>
    have hlist := congrArg String.toList hkey
    simp only [String.toList_append, append_cancel_left_eq, String.toList_inj] at hlist
    rw [ratString_inj hlist]
  case str.str s t =>
    have hlist := congrArg String.toList hkey
    simp only [String.toList_append, append_cancel_left_eq, String.toList_inj] at hlist
    rw [hlist]
  case bool.bool x y => cases x <;> cases y <;> simp at hkey ⊢
  all_goals
    have hlist := congrArg (fun s => s.toList.head?) hkey
    simp at hlist
  all_goals split at hlist <;> simp at hlist

lemma nul_not_mem_valueKey {v : Value} (hv : NulFree v) (h : valueKey v = .ok k) :
    '\x00' ∉ k.toList := by
  cases v <;> simp only [valueKey, reduceCtorEq, Except.ok.injEq] at h <;> subst h
  case null => decide
  case num q =>
    have hnum : '\x00' ∉ (toString q.num).toList := not_mem_toString_int (by decide) (by decide) _
    have hden : '\x00' ∉ (toString q.den).toList := not_mem_toString_nat (by decide) _
    unfold ratString
    split <;> simp only [String.toList_append, mem_append, hnum, hden, or_false] <;> decide
  case str s => simpa [NulFree] using hv
  case bool b => cases b <;> decide

/-- The values that have a key: NULL, numbers, strings and booleans. -/
def hasKey : Value → Bool
  | .null | .num _ | .str _ | .bool _ => true
  | _ => false

abbrev KeyValue := {v : Value // hasKey v = true}

namespace KeyValue

def text (v : KeyValue) : String :=
  match valueKey v.1 with
  | .ok k => k
  | .error _ => ""

lemma valueKey_eq (v : KeyValue) : valueKey v.1 = .ok v.text := by
  obtain ⟨v, hv⟩ := v
  cases v <;> first | rfl | cases hv

/-- Strings alone hold the separator. -/
def code : Joined.Code KeyValue Char where
  text v := v.text.toList
  sep := '\x00'
  Open v := ∃ s, v.1 = .str s
  inj a b h := by
    have hb := valueKey_eq b
    rw [← String.toList_inj.mp h] at hb
    exact Subtype.ext (valueKey_inj (valueKey_eq a) hb)
  cut := by
    rintro ⟨v, hv⟩ x y h
    have hmem : '\x00' ∈ (text ⟨v, hv⟩).toList := by rw [h]; simp
    cases v with
    | str s =>
      have hs : 's' :: ':' :: s.toList = x ++ '\x00' :: y := by simpa [text, valueKey] using h
      match x, hs with
      | c :: d :: x, hs =>
        simp only [cons_append, cons.injEq] at hs
        refine ⟨⟨s, rfl⟩, ⟨.str (.ofList x), rfl⟩, ⟨_, rfl⟩, ?_⟩
        simp [text, valueKey, ← hs.1, ← hs.2.1]
    | _ => exact absurd hmem (nul_not_mem_valueKey (by trivial) (valueKey_eq ⟨_, hv⟩))
  continued := by
    rintro ⟨u, hu⟩ ⟨s, rfl⟩ y
    exact ⟨⟨.str (s ++ .ofList ('\x00' :: y)), rfl⟩, by simp [text, valueKey]⟩

end KeyValue

open KeyValue (code)

def values (a : List KeyValue) : Row := a.map (·.1)

lemma values_inj {a b : List KeyValue} : values a = values b ↔ a = b :=
  (map_injective_iff.mpr Subtype.val_injective).eq_iff

lemma rowKey_values (a : List KeyValue) : rowKey (values a) = .ok (joinKeys (a.map (·.text))) := by
  have hparts : (values a).mapM valueKey = .ok (a.map (·.text)) := by
    rw [Except.mapM_eq_ok, values, forall₂_map_left_iff, forall₂_map_right_iff, forall₂_same]
    exact fun v _ => v.valueKey_eq
  rw [rowKey, hparts]
  rfl

lemma rowKey_eq_iff {a b : List KeyValue} (hlen : a.length = b.length) :
    rowKey (values a) = rowKey (values b) ↔ code.row a = code.row b := by
  rw [rowKey_values, rowKey_values, Except.ok.injEq, ← String.toList_inj]
  by_cases ha : a = []
  · have hb : b = [] := length_eq_zero_iff.mp (by rw [← hlen, ha, length_nil])
    simp [ha, hb]
  · have hb : b ≠ [] := fun hb => ha (length_eq_zero_iff.mp (by rw [hlen, hb, length_nil]))
    rw [code.row_eq_intercalate ha, code.row_eq_intercalate hb, append_left_inj]
    simp [joinKeys, String.toList_intercalate, code, Function.comp_def]

def keyText (row : Row) : String :=
  match rowKey row with
  | .ok k => k
  | .error _ => ""

variable {row : Row}

lemma rowKey_eq_keyText (a : List KeyValue) : rowKey (values a) = .ok (keyText (values a)) := by
  rw [keyText, rowKey_values]

lemma distinctFrom_eq {rows : List Row} (h : ∀ row ∈ rows, rowKey row = .ok (keyText row)) (seen : List String) :
    distinctFrom rows seen = .ok (Grouping.distinctFrom keyText rows seen) := by
  induction rows generalizing seen with
  | nil => rfl
  | cons row rows ih =>
    rw [forall_mem_cons] at h
    rw [distinctFrom, Grouping.distinctFrom, h.1, Except.ok_bind, ih h.2, ih h.2]
    by_cases hseen : keyText row ∈ seen
    · rw [if_pos (by simpa using hseen), if_pos hseen]
    · rw [if_neg (by simpa using hseen), if_neg hseen]
      rfl

structure Grouped (key : Row → String) (done : List Row) (gs : List (String × List Row)) : Prop where
  nodup : (gs.map Prod.fst).Nodup
  same : ∀ g ∈ gs, ∀ r ∈ g.2, key r = g.1
  all : ∀ r ∈ done, ∃ g ∈ gs, r ∈ g.2

variable {key : Row → String} {done : List Row} {gs : List (String × List Row)}

lemma Grouped.share (h : Grouped key done gs) {r s : Row} (hr : r ∈ done) (hs : s ∈ done) :
    (∃ g ∈ gs, r ∈ g.2 ∧ s ∈ g.2) ↔ key s = key r := by
  constructor
  · rintro ⟨g, hg, hr, hs⟩
    rw [h.same g hg r hr, h.same g hg s hs]
  · intro hkey
    obtain ⟨g, hg, hrg⟩ := h.all r hr
    obtain ⟨g', hg', hsg⟩ := h.all s hs
    rw [h.same g hg r hrg, h.same g' hg' s hsg] at hkey
    obtain rfl := inj_on_of_nodup_map h.nodup hg' hg hkey
    exact ⟨g', hg, hrg, hsg⟩

lemma keys_addToGroup (k : String) (row : Row) (gs : List (String × List Row)) :
    (addToGroup k row gs).map Prod.fst = if k ∈ gs.map Prod.fst then gs.map Prod.fst else gs.map Prod.fst ++ [k] := by
  induction gs with
  | nil => simp [addToGroup]
  | cons g gs ih =>
    rw [addToGroup]
    by_cases hg : g.1 = k
    · simp [hg]
    · have hk : k ≠ g.1 := fun h => hg h.symm
      simp only [hg, if_false, map_cons, ih, mem_cons, hk, false_or]
      split <;> rfl

lemma mem_addToGroup {k k' : String} {row r : Row} :
    (∃ g ∈ addToGroup k row gs, g.1 = k' ∧ r ∈ g.2) ↔ (∃ g ∈ gs, g.1 = k' ∧ r ∈ g.2) ∨ k = k' ∧ r = row := by
  induction gs with
  | nil => simp [addToGroup]
  | cons g gs ih =>
    rw [addToGroup]
    split
    · rename_i hg
      simp only [mem_cons, exists_eq_or_imp, mem_append, not_mem_nil, or_false, hg]
      rw [and_or_left, or_right_comm]
    · simp only [mem_cons, exists_eq_or_imp, ih, or_assoc]

lemma Grouped.add (h : Grouped key done gs) (row : Row) :
    Grouped key (done ++ [row]) (addToGroup (key row) row gs) := by
  constructor
  · rw [keys_addToGroup]
    split
    · exact h.nodup
    · rename_i hk
      exact h.nodup.append (nodup_singleton _) (disjoint_singleton.mpr hk)
  · intro g hg r hr
    rcases mem_addToGroup.mp ⟨g, hg, rfl, hr⟩ with ⟨g', hg', heq, hr'⟩ | ⟨hk, rfl⟩
    · rw [h.same g' hg' r hr', heq]
    · exact hk
  · intro r hr
    have hmem : ∃ k, (∃ g ∈ gs, g.1 = k ∧ r ∈ g.2) ∨ key row = k ∧ r = row := by
      rcases mem_append.mp hr with hr | hr
      · obtain ⟨g, hg, hrg⟩ := h.all r hr
        exact ⟨g.1, .inl ⟨g, hg, rfl, hrg⟩⟩
      · exact ⟨key row, .inr ⟨rfl, mem_singleton.mp hr⟩⟩
    obtain ⟨k, hk⟩ := hmem
    obtain ⟨g, hg, -, hrg⟩ := mem_addToGroup.mpr hk
    exact ⟨g, hg, hrg⟩

lemma groupRowsFrom_grouped {idx : List Nat} {rows : List Row}
    (hkeys : ∀ row ∈ rows, rowKey (idx.map (cell row)) = .ok (keyText (idx.map (cell row))))
    (h : Grouped (fun row => keyText (idx.map (cell row))) done gs) :
    ∃ groups, groupRowsFrom idx rows gs = .ok groups ∧
      Grouped (fun row => keyText (idx.map (cell row))) (done ++ rows) groups := by
  induction rows generalizing done gs with
  | nil => exact ⟨gs, rfl, by rwa [append_nil]⟩
  | cons row rows ih =>
    rw [forall_mem_cons] at hkeys
    obtain ⟨groups, hgroups, hall⟩ := ih hkeys.2 (h.add row)
    rw [append_assoc, singleton_append] at hall
    exact ⟨groups, by rw [groupRowsFrom, hkeys.1]; exact hgroups, hall⟩

lemma keyText_eq_iff {a b : List KeyValue} :
    keyText (values b) = keyText (values a) ↔ rowKey (values b) = rowKey (values a) := by
  rw [rowKey_eq_keyText, rowKey_eq_keyText, Except.ok.injEq]

lemma map_cell_range (row : Row) : (range row.length).map (cell row) = row := by
  apply ext_getElem (by simp)
  intro i _ hi
  simp [cell, getD_eq_getElem?_getD, getElem?_eq_getElem hi]

/-- The key of the row is no other row's. -/
def Separate (a : List KeyValue) : Prop :=
  ∀ b : List KeyValue, b.length = a.length → (rowKey (values b) = rowKey (values a) ↔ b = a)

/-- DISTINCT gives no row twice and does not lose this one. -/
def DistinctKeeps (a : List KeyValue) : Prop :=
  ∀ (input : Relation) (rows : List (List KeyValue)), input.visible.rows = rows.map values → a ∈ rows →
    (∀ b ∈ rows, b.length = a.length) →
    ∃ out, distinctRows input = .ok out ∧ out.rows.Nodup ∧ values a ∈ out.rows

/-- The rows grouped with one of these values are those that have them too. -/
def GroupsApart (a : List KeyValue) : Prop :=
  ∀ (idx : List Nat) (rows : List Row), (∀ row ∈ rows, ∃ b, idx.map (cell row) = values b) →
    ∃ groups, groupRowsFrom idx rows [] = .ok groups ∧ ∀ r ∈ rows, idx.map (cell r) = values a →
      ∀ s ∈ rows, (∃ g ∈ groups, r ∈ g.2 ∧ s ∈ g.2) ↔ idx.map (cell s) = values a

variable {a : List KeyValue}

lemma separate_iff : Separate a ↔ ¬ code.Recut a := by
  rw [← Joined.Code.exists_iff_recut]
  constructor
  · rintro h ⟨b, hlen, hrow, hne⟩
    exact hne ((h b hlen).mp ((rowKey_eq_iff hlen).mpr hrow))
  · intro h b hlen
    refine ⟨fun hkey => ?_, fun hba => by rw [hba]⟩
    by_contra hne
    exact h ⟨b, hlen, (rowKey_eq_iff hlen).mp hkey, hne⟩

lemma distinctRows_eq {input : Relation} {rows : List (List KeyValue)} (h : input.visible.rows = rows.map values) :
    distinctRows input = .ok ⟨input.visible.cols, Grouping.distinctBy keyText (rows.map values), 0⟩ := by
  rw [distinctRows, h, distinctFrom_eq (forall_mem_map.mpr fun b _ => rowKey_eq_keyText b)]
  rfl

lemma distinctKeeps_iff : DistinctKeeps a ↔ Separate a := by
  constructor
  · intro h b hlen
    refine ⟨fun hkey => ?_, fun hba => by rw [hba]⟩
    obtain ⟨out, hout, -, hmem⟩ := h ⟨[], [values b, values a], 0⟩ [b, a] rfl (by simp) (by simp [hlen])
    rw [@distinctRows_eq _ [b, a] rfl] at hout
    cases hout
    simp only [Grouping.distinctBy, Grouping.distinctFrom, map_cons, map_nil, keyText_eq_iff.mpr hkey] at hmem
    exact (values_inj.mp (by simpa using hmem)).symm
  · intro h input rows hrows ha hlen
    refine ⟨_, distinctRows_eq hrows, (Grouping.nodup_keys_distinctFrom keyText _ []).of_map, ?_⟩
    have hkey : keyText (values a) ∈ (Grouping.distinctFrom keyText (rows.map values) []).map keyText :=
      Grouping.keys_distinctFrom.mpr ⟨mem_map_of_mem (mem_map_of_mem ha), by simp⟩
    obtain ⟨row, hrow, hra⟩ := mem_map.mp hkey
    obtain ⟨b, hb, rfl⟩ := mem_map.mp ((Grouping.distinctBy_sublist keyText _).subset hrow)
    rw [← (h b (hlen b hb)).mp (keyText_eq_iff.mp hra)]
    exact hrow

lemma groupRows_grouped {idx : List Nat} {rows : List Row} (h : ∀ row ∈ rows, ∃ b, idx.map (cell row) = values b) :
    ∃ groups, groupRowsFrom idx rows [] = .ok groups ∧ Grouped (fun row => keyText (idx.map (cell row))) rows groups := by
  refine groupRowsFrom_grouped (fun row hrow => ?_) (⟨by simp, by simp, by simp⟩ : Grouped _ [] [])
  obtain ⟨b, hb⟩ := h row hrow
  rw [hb, rowKey_eq_keyText]

lemma groupsApart_iff : GroupsApart a ↔ Separate a := by
  constructor
  · intro h b hlen
    refine ⟨fun hkey => ?_, fun hba => by rw [hba]⟩
    have hcells : ∀ c : List KeyValue, c.length = a.length → (range a.length).map (cell (values c)) = values c := by
      intro c hc
      have hrange := map_cell_range (values c)
      rwa [values, length_map, hc] at hrange
    have hrows : ∀ row ∈ [values b, values a], ∃ c, (range a.length).map (cell row) = values c := by
      simp only [mem_cons, not_mem_nil, or_false, forall_eq_or_imp, forall_eq]
      exact ⟨⟨b, hcells b hlen⟩, a, hcells a rfl⟩
    obtain ⟨groups, hgroups, hsame⟩ := h _ _ hrows
    obtain ⟨_, hok, hgrouped⟩ := groupRows_grouped hrows
    cases hgroups.symm.trans hok
    have hone := (hsame (values a) (by simp) (hcells a rfl) (values b) (by simp)).mp
      ((hgrouped.share (by simp) (by simp)).mpr (by rw [hcells b hlen, hcells a rfl, keyText_eq_iff.mpr hkey]))
    rw [hcells b hlen] at hone
    exact values_inj.mp hone
  · intro h idx rows hrows
    obtain ⟨groups, hgroups, hgrouped⟩ := groupRows_grouped hrows
    refine ⟨groups, hgroups, fun r hr ha s hs => ?_⟩
    obtain ⟨b, hb⟩ := hrows s hs
    have hlen : b.length = a.length := by
      have hb' := congrArg length hb
      have ha' := congrArg length ha
      simp only [values, length_map] at hb' ha'
      rw [← hb', ← ha']
    rw [hgrouped.share hr hs, hb, ha, keyText_eq_iff, values_inj]
    exact h b hlen

/-- Row keys, DISTINCT and GROUP BY tell a row from every other one exactly when it cannot be cut
at another place. -/
theorem row_keys_separate_iff (a : List KeyValue) :
    (Separate a ↔ ¬ code.Recut a) ∧ (DistinctKeeps a ↔ ¬ code.Recut a) ∧ (GroupsApart a ↔ ¬ code.Recut a) :=
  ⟨separate_iff, distinctKeeps_iff.trans separate_iff, groupsApart_iff.trans separate_iff⟩

theorem row_keys_collide :
    ([.str "a\x00s:b", .str "c"] : Row) ≠ [.str "a", .str "b\x00s:c"] ∧
    rowKey [.str "a\x00s:b", .str "c"] = rowKey [.str "a", .str "b\x00s:c"] ∧
    distinctFrom [[.str "a\x00s:b", .str "c"], [.str "a", .str "b\x00s:c"]] [] =
      .ok [[.str "a\x00s:b", .str "c"]] ∧
    groupRowsFrom [0, 1] [[.str "a\x00s:b", .str "c"], [.str "a", .str "b\x00s:c"]] [] =
      .ok [("s:a\x00s:b\x00s:c", [[.str "a\x00s:b", .str "c"], [.str "a", .str "b\x00s:c"]])] := by
  refine ⟨by simp, rfl, rfl, rfl⟩

lemma compareValues_eq {a b : Value} (h : compareValues a b = .ok .eq) : a = b := by
  cases a <;> cases b <;> first | exact congrArg _ ((cmp_eq_eq_iff _ _).mp (Except.ok.inj h)) | cases h

lemma compareValues_swap {a b : Value} {o : Ordering} (h : compareValues a b = .ok o) :
    compareValues b a = .ok o.swap := by
  cases a <;> cases b <;> cases h <;> exact congrArg _ (cmp_swap _ _).symm

lemma selectRows_ok {db : DB} {r out : Relation} {p : Predicate} (h : selectRows db r p = .ok out) :
    out = { r with rows := r.rows.filter fun row => truth db (rowEnv r.cols row) p = .true } := by
  unfold selectRows at h
  split at h
  · cases h
  · obtain ⟨rows, hrows, h⟩ := bind_eq_ok.mp h
    cases h
    rw [keepRows_eq_filter (fun row _ v hv => evalPredicate_truth hv) hrows]

lemma extendRow_ok {leftCols : List String} {right : Relation} {aliasName : String} {on : List JoinPair}
    {p : Predicate} {out : Row} {g : Row → Kleene.Tri}
    (hg : ∀ candidate ∈ right.rows, ∀ v, evalPredicate emptyDB right.cols candidate p = .ok v → g candidate = v)
    (h : extendRow leftCols right aliasName on p row = .ok out) {found : List Row}
    (hfound : found = right.rows.filter fun candidate =>
      onHolds (rowEnv leftCols row) (rowEnv right.cols candidate) on && decide (g candidate = .true)) :
    (found = [] ∧ out = row ++ List.replicate right.cols.length .null) ∨ ∃ m, found = [m] ∧ out = row ++ m := by
  obtain ⟨matched, hmatched, h⟩ := bind_eq_ok.mp h
  have hm : matched = found := (matching_eq_filter hg hmatched).trans hfound.symm
  subst hm
  match matched, h with
  | [], h => exact .inl ⟨rfl, by simpa using h.symm⟩
  | [m], h => exact .inr ⟨m, rfl, by simpa using h.symm⟩
  | _ :: _ :: _, h => simp at h

variable {cols : List String}

lemma mem_of_colIndex {name : String} {i : Nat} (h : colIndex cols name = .ok i) : name ∈ cols := by
  by_contra hmem
  rw [colIndex, findIdx?_of_not_mem hmem] at h
  cases h

lemma colIndex_of_mem {name : String} (h : name ∈ cols) : ∃ i, colIndex cols name = .ok i := by
  unfold colIndex
  split
  · exact ⟨_, rfl⟩
  · rename_i hnone
    have := findIdx?_eq_none_iff.mp hnone name h
    simp at this

def valueOf (cols : List String) (row : Row) (name : String) : Value := (rowEnv cols row name).getD .null

lemma cell_eq_valueOf {name : String} {i : Nat} (row : Row) (h : colIndex cols name = .ok i) :
    cell row i = valueOf cols row name := by
  rw [valueOf, rowEnv_of_colIndex row h, Option.getD_some]

lemma cells_eq_valueOf {names : List String} {idx : List Nat} (row : Row)
    (h : names.mapM (colIndex cols) = .ok idx) :
    idx.map (cell row) = names.map (valueOf cols row) ∧ ∀ name ∈ names, name ∈ cols := by
  have hall := Except.mapM_eq_ok.mp h
  clear h
  induction hall with
  | nil => simp
  | cons hi _ ih =>
    rw [map_cons, map_cons, cell_eq_valueOf row hi, ih.1, forall_mem_cons]
    exact ⟨rfl, mem_of_colIndex hi, ih.2⟩

end SqlMcpServer.Interp
