import SqlMcpServer.Lib.Paging
import SqlMcpServer.Tool.Cursor
import SqlMcpServer.Tool.HiddenRows
import SqlMcpServer.Tool.MaskedColumns
import Mathlib.Data.List.TakeDrop

/-!
# Reading page after page

`nextCursor` of `order.go` and a reader that passes it back until there is none.
-/

namespace SqlMcpServer.Tool

open List
open Except (bind_eq_ok pure_eq_ok ok_bind)
open Relalg Interp
open Kleene (Tri ofBool)

/-- The value of an ordered field in a row read: under its column's name, or under its
alias. -/
def shownValue (e : Entity) (cols : List String) (row : Row) (field : String) : Option Value :=
  match rowEnv cols row field with
  | some v => some v
  | none =>
    match e.attributeByName field with
    | some a => if a.aliasName = "" then none else rowEnv cols row a.aliasName
    | none => none

/-- The loop of `nextCursor` over the terms. -/
def cursorFrom (e : Entity) (cols : List String) (last : Row) : List OrderTerm → Values → Option Values
  | [], out => some out
  | t :: ts, out =>
    match shownValue e cols last t.field with
    | none => none
    | some v => cursorFrom e cols last ts (out.insert t.field v)

/-- Where the read after a page resumes: the ordered fields of the last row, when the page
is full and the order pages. -/
def nextCursor (o : ReadOrder) (e : Entity) (limit : Int) (page : Relation) : Option Values :=
  if !o.pageable ∨ limit ≤ 0 ∨ (page.rows.length : Int) < limit then none
  else page.rows.getLast?.bind fun last => cursorFrom e page.cols last o.terms ∅

inductive PageError where
  | request (e : ToolError)
  | evaluation (e : EvalError)

def ReadPlan.resumed (plan : ReadPlan) (keyset : Predicate) : ReadPlan := { plan with keyset, keysetCols := [] }

def readPage (db : DB) (input : ReadInput) (plan : ReadPlan) (cursor : Option Values) : Except PageError Relation := do
  let keyset ← match cursor with
    | none => .ok .nil
    | some c => (orderCursor plan.order c).mapError .request
  (evalResult db (buildReadExpression input (plan.resumed keyset))).mapError .evaluation

def readPages (db : DB) (input : ReadInput) (plan : ReadPlan) :
    Nat → Option Values → Option (Except PageError (List Row))
  | 0, _ => none
  | fuel + 1, cursor =>
    match readPage db input plan cursor with
    | .error e => some (.error e)
    | .ok page =>
      match nextCursor plan.order plan.res.entity input.limit page with
      | none => some (.ok page.rows)
      | some next => (readPages db input plan fuel (some next)).map fun rest => rest.map (page.rows ++ ·)

/-- What validation of the configuration promises of an entity's names and key. -/
structure Described (e : Entity) : Prop where
  /-- A name or an alias is one attribute's. -/
  names : ∀ a ∈ e.attributes, ∀ b ∈ e.attributes, ∀ f, a.hasName f → b.hasName f → a = b
  /-- A key has columns, each an attribute's. -/
  key : ∀ key, e.cursorKey = some key → key ≠ [] ∧ ∀ c ∈ key, ∃ a ∈ e.attributes, a.name = c

def OwnTerm (e : Entity) (t : OrderTerm) : Prop :=
  Directed t ∧ ∃ a ∈ e.attributes, a.name = t.field ∧
    (t.nullable = a.domain.nullable ∨ ∃ key, e.cursorKey = some key ∧ t.field ∈ key)

structure PageOrder (e : Entity) (o : ReadOrder) : Prop where
  distinct : o.fields.Nodup
  own : ∀ t ∈ o.terms, OwnTerm e t
  key : ∃ key, e.cursorKey = some key ∧ ∀ c ∈ key, c ∈ o.fields

lemma directionOf_eq {dir d : String} (h : directionOf dir = some d) : d = "asc" ∨ d = "desc" := by
  unfold directionOf at h
  simp only at h
  split at h
  · exact .inl (Option.some.inj h).symm
  · split at h
    · exact .inr (Option.some.inj h).symm
    · cases h

variable {res : Resolved} {input : ReadInput} {rel : Related}

lemma orderTerm_own {t : OrderJSON} {term : OrderTerm}
    (h : orderTerm res input t rel = .ok (term, false)) : OwnTerm res.entity term := by
  unfold orderTerm at h
  split at h
  · cases h
  rename_i dir hdir
  split at h
  · split at h
    · cases h
    · cases h
  · obtain ⟨_, hcheck, h⟩ := bind_eq_ok.mp h
    obtain ⟨a, ha, hname, -⟩ := FieldUses.check_usable hcheck t.field (by simp)
    obtain ⟨b, hb⟩ := Entity.attributeByName_of_hasName (mem_attributes_of_visible ha) hname
    simp only at h
    split at h
    · cases h
    · cases h
      simp only [hb, Option.map_some, Option.getD_some, Option.any_some]
      exact ⟨directionOf_eq hdir, b, (Entity.attributeByName_hasName hb).1, rfl, .inl rfl⟩

lemma orderTerms_across {ts : List OrderJSON}
    {terms out : List OrderTerm} {across : Bool} (h : orderTerms res input rel ts terms across = .ok (out, false)) :
    across = false := by
  induction ts generalizing terms across with
  | nil =>
    cases h
    rfl
  | cons t ts ih =>
    rw [orderTerms] at h
    obtain ⟨⟨term, related⟩, -, h⟩ := bind_eq_ok.mp h
    simp only at h
    split at h
    · split at h
      · exact ih h
      · cases h
    · have hor := ih h
      simp only [Bool.or_eq_false_iff] at hor
      exact hor.1

lemma orderTerms_own {ts : List OrderJSON}
    {terms out : List OrderTerm} {across : Bool} (hterms : ∀ t ∈ terms, OwnTerm res.entity t)
    (hnodup : (terms.map (·.field)).Nodup) (h : orderTerms res input rel ts terms across = .ok (out, false)) :
    (∀ t ∈ out, OwnTerm res.entity t) ∧ (out.map (·.field)).Nodup := by
  induction ts generalizing terms across with
  | nil =>
    cases h
    exact ⟨hterms, hnodup⟩
  | cons t ts ih =>
    rw [orderTerms] at h
    obtain ⟨⟨term, related⟩, hterm, h⟩ := bind_eq_ok.mp h
    simp only at h
    split at h
    · split at h
      · exact ih hterms hnodup h
      · cases h
    · rename_i hnew
      have hor := orderTerms_across h
      simp only [Bool.or_eq_false_iff] at hor
      rw [hor.2] at hterm
      refine ih (fun u hu => ?_) ?_ h
      · rcases mem_append.mp hu with hu | hu
        · exact hterms u hu
        · exact mem_singleton.mp hu ▸ orderTerm_own hterm
      · rw [map_append, map_singleton]
        refine hnodup.append (by simp) ?_
        simpa using hnew

variable {o : ReadOrder}

/-- An order that pages is over distinct columns of the entity, the key's among them, and
of a read that is not distinct. -/
lemma planReadOrder_pages
    (hd : Described res.entity) (h : planReadOrder res input rel = .ok o) (hpages : o.pageable = true) :
    PageOrder res.entity o ∧ input.distinct = false := by
  unfold planReadOrder at h
  split at h
  · cases h
    cases hpages
  split at h
  · cases h
  obtain ⟨⟨terms, across⟩, hterms, h⟩ := bind_eq_ok.mp h
  simp only at h
  split at h
  · rename_i key hkey
    split at h
    · rename_i hplain
      cases h
      simp only [Bool.not_eq_true'] at hpages
      rw [hpages] at hterms
      obtain ⟨hown, hnodup⟩ := orderTerms_own (by simp) (by simp) hterms
      have hfields : (ReadOrder.mk (terms ++ (addedKey key (terms.map (·.field))).map ascending) (!across)
          (addedKey key (terms.map (·.field)))).fields = terms.map (·.field) ++ addedKey key (terms.map (·.field)) := by
        rw [ReadOrder.fields, map_append, map_map]
        congr 1
        exact map_id _
      refine ⟨⟨?_, fun t ht => ?_, key, hkey, fun c hc => ?_⟩, ?_⟩
      · apply hfields.symm ▸ hnodup.append ?_ ?_
        · exact (nodup_firstOccurrences key).filter _
        · intro c hc hadded
          have hnot := (mem_filter.mp hadded).2
          simp_all
      · rcases mem_append.mp ht with ht | ht
        · exact hown t ht
        · obtain ⟨c, hc, rfl⟩ := mem_map.mp ht
          have hmem : c ∈ key := mem_firstOccurrences.mp (mem_filter.mp hc).1
          obtain ⟨a, ha, hname⟩ := (hd.key key hkey).2 c hmem
          exact ⟨.inl rfl, a, ha, hname, .inr ⟨key, hkey, hmem⟩⟩
      · apply hfields.symm ▸ mem_append.mpr ?_
        by_cases hin : c ∈ terms.map (·.field)
        · exact .inl hin
        · refine .inr (mem_filter.mpr ⟨mem_firstOccurrences.mpr hc, ?_⟩)
          simpa using hin
      · simp only [Bool.and_eq_true, Bool.not_eq_true'] at hplain
        exact hplain.1
    · cases h
      cases hpages
  · cases h
    cases hpages

/-- The cursor has the row's values of the ordered columns. -/
structure CursorOf (o : ReadOrder) (cols : List String) (row : Row) (cursor : Values) : Prop where
  size : cursor.keys.length = o.terms.length
  value : ∀ t ∈ o.terms, cursor.lookup t.field = some (valueOf cols row t.field)

def ShowsOrder (e : Entity) (fields : List String) (o : ReadOrder) : Prop :=
  ∀ t ∈ o.terms, ∃ f ∈ fields, columnOf e f = t.field

instance (e : Entity) (fields : List String) (o : ReadOrder) : Decidable (ShowsOrder e fields o) :=
  inferInstanceAs (Decidable (∀ t ∈ o.terms, ∃ f ∈ fields, columnOf e f = t.field))

def shownRow (e : Entity) (fields cols : List String) (row : Row) : Row := fields.map fun f => valueOf cols row (columnOf e f)

lemma rowEnv_map {names : List String} (g : String → Value) (f : String) :
    rowEnv names (names.map g) f = if f ∈ names then some (g f) else none := by
  unfold rowEnv
  split
  · rename_i hf
    cases hi : names.findIdx? (· == f) with
    | none =>
      have := findIdx?_eq_none_iff.mp hi f hf
      simp at this
    | some i =>
      obtain ⟨hlt, hname, -⟩ := findIdx?_eq_some_iff_getElem.mp hi
      simp only [beq_iff_eq] at hname
      simp [cell, hlt, hname]
  · rename_i hf
    rw [findIdx?_of_not_mem hf]
    rfl

section Shown
variable {e : Entity} (hd : Described e)
include hd

lemma Described.attributeByName_eq {a : Attribute} {f : String} (ha : a ∈ e.attributes) (hf : a.hasName f) :
    e.attributeByName f = some a := by
  obtain ⟨b, hb⟩ := Entity.attributeByName_of_hasName ha hf
  obtain ⟨hmem, hname⟩ := Entity.attributeByName_hasName hb
  rw [hb, hd.names b hmem a ha f hname hf]

lemma Described.columnOf_eq_iff {a : Attribute} (ha : a ∈ e.attributes) (f : String) :
    columnOf e f = a.name ↔ a.hasName f := by
  constructor
  · intro h
    unfold columnOf at h
    split at h
    · rename_i b hb
      obtain ⟨hmem, hname⟩ := Entity.attributeByName_hasName hb
      have heq : b = a := hd.names b hmem a ha a.name (h ▸ b.hasName_name) a.hasName_name
      exact heq ▸ hname
    · rw [h]
      exact a.hasName_name
  · intro h
    rw [columnOf, hd.attributeByName_eq ha h]

lemma Described.shownValue_eq {a : Attribute} (ha : a ∈ e.attributes) (fields cols : List String) (row : Row) :
    shownValue e fields (shownRow e fields cols row) a.name =
      if ∃ f ∈ fields, columnOf e f = a.name then some (valueOf cols row a.name) else none := by
  have hcol : columnOf e a.name = a.name := (hd.columnOf_eq_iff ha _).mpr a.hasName_name
  unfold shownValue shownRow
  rw [rowEnv_map]
  by_cases hname : a.name ∈ fields
  · rw [if_pos hname, if_pos ⟨a.name, hname, hcol⟩, hcol]
  · rw [if_neg hname, hd.attributeByName_eq ha a.hasName_name]
    simp only
    split
    · rename_i halias
      rw [if_neg]
      rintro ⟨f, hf, hfcol⟩
      have hnamed := (hd.columnOf_eq_iff ha f).mp hfcol
      simp only [Attribute.hasName, halias, bne_self_eq_false, Bool.false_and, Bool.or_false, beq_iff_eq] at hnamed
      exact hname (hnamed ▸ hf)
    · rename_i halias
      have hnamed : a.hasName a.aliasName := by simp [Attribute.hasName, halias]
      have hacol : columnOf e a.aliasName = a.name := (hd.columnOf_eq_iff ha _).mpr hnamed
      rw [rowEnv_map]
      by_cases hmem : a.aliasName ∈ fields
      · rw [if_pos hmem, if_pos ⟨_, hmem, hacol⟩, hacol]
      · rw [if_neg hmem, if_neg]
        rintro ⟨f, hf, hfcol⟩
        have hfield := (hd.columnOf_eq_iff ha f).mp hfcol
        simp only [Attribute.hasName, Bool.or_eq_true, Bool.and_eq_true, beq_iff_eq] at hfield
        rcases hfield with h | ⟨-, h⟩
        · exact hname (h ▸ hf)
        · exact hmem (h ▸ hf)

end Shown

section Cursor
variable {e : Entity} {cols : List String} {last : Row} {ts : List OrderTerm}

lemma cursorFrom_ok {out : Values} {v : String → Value} (hnodup : (ts.map (·.field)).Nodup)
    (hnew : ∀ t ∈ ts, t.field ∉ out.keys) (hshown : ∀ t ∈ ts, shownValue e cols last t.field = some (v t.field)) :
    ∃ c, cursorFrom e cols last ts out = some c ∧ c.keys.length = out.keys.length + ts.length ∧
      (∀ t ∈ ts, c.lookup t.field = some (v t.field)) ∧ ∀ k, k ∉ ts.map (·.field) → c.lookup k = out.lookup k := by
  induction ts generalizing out with
  | nil => exact ⟨out, rfl, rfl, by simp, fun _ _ => rfl⟩
  | cons t ts ih =>
    obtain ⟨hfield, hrest⟩ := nodup_cons.mp hnodup
    have hkeys : (out.insert t.field (v t.field)).keys = t.field :: out.keys := by
      rw [AList.keys_insert, erase_of_not_mem (hnew t (by simp))]
    have hnext : ∀ u ∈ ts, u.field ∉ (out.insert t.field (v t.field)).keys := by
      intro u hu
      rw [hkeys, mem_cons, not_or]
      exact ⟨fun heq => hfield (mem_map.mpr ⟨u, hu, heq⟩), hnew u (mem_cons_of_mem _ hu)⟩
    obtain ⟨c, hc, hlen, hvalues, hothers⟩ := ih hrest hnext fun u hu => hshown u (mem_cons_of_mem _ hu)
    refine ⟨c, ?_, ?_, ?_, fun k hk => ?_⟩
    · rw [cursorFrom, hshown t (by simp)]
      exact hc
    · rw [hlen, hkeys, length_cons, length_cons]
      omega
    · refine forall_mem_cons.mpr ⟨?_, hvalues⟩
      rw [hothers _ hfield, AList.lookup_insert]
    · rw [map_cons, mem_cons, not_or] at hk
      rw [hothers k hk.2, AList.lookup_insert_ne hk.1]

lemma cursorFrom_none {out : Values} (h : ∃ t ∈ ts, shownValue e cols last t.field = none) :
    cursorFrom e cols last ts out = none := by
  induction ts generalizing out with
  | nil => simp at h
  | cons t ts ih =>
    rw [cursorFrom]
    split
    · rfl
    · rename_i hv
      obtain ⟨u, hu, hnone⟩ := h
      rcases mem_cons.mp hu with rfl | hu
      · rw [hnone] at hv
        cases hv
      · exact ih ⟨u, hu, hnone⟩

end Cursor

variable {e : Entity}

/-- The cursor after a page of rows read: none when the page is not full or its rows do not
show the order, else that of its last row. -/
lemma nextCursor_spec (hd : Described e) (ho : PageOrder e o) (hpages : o.pageable = true)
    {limit : Int} (hlimit : 1 ≤ limit) (fields cols : List String) (rows : List Row) :
    ((rows.length : Int) < limit ∨ ¬ ShowsOrder e fields o →
      nextCursor o e limit ⟨fields, rows.map (shownRow e fields cols), 0⟩ = none) ∧
    (ShowsOrder e fields o → ∀ last, limit ≤ (rows ++ [last]).length → ∃ c,
      nextCursor o e limit ⟨fields, (rows ++ [last]).map (shownRow e fields cols), 0⟩ = some c ∧
        CursorOf o cols last c) := by
  have hvalue : ∀ t ∈ o.terms, ∀ row, shownValue e fields (shownRow e fields cols row) t.field =
      if ∃ f ∈ fields, columnOf e f = t.field then some (valueOf cols row t.field) else none := by
    intro t ht row
    obtain ⟨-, a, ha, hname, -⟩ := ho.own t ht
    rw [← hname]
    exact hd.shownValue_eq ha fields cols row
  constructor
  · intro h
    unfold nextCursor
    split
    · rfl
    rename_i hfull
    simp only [hpages, Bool.not_true, Bool.false_eq_true, length_map, not_or, not_lt, not_le] at hfull
    rcases h with hshort | hhidden
    · omega
    · unfold ShowsOrder at hhidden
      push Not at hhidden
      obtain ⟨t, ht, hnone⟩ := hhidden
      rcases eq_nil_or_concat rows with rfl | ⟨init, last, rfl⟩
      · rfl
      · rw [concat_eq_append, map_append, map_singleton, getLast?_concat]
        refine cursorFrom_none ⟨t, ht, ?_⟩
        rw [hvalue t ht, if_neg]
        rintro ⟨f, hf, hcol⟩
        exact hnone f hf hcol
  · intro hshows last hfull
    have hfields : ∀ t ∈ o.terms, t.field ∉ (∅ : Values).keys := fun t _ => by simp
    obtain ⟨c, hc, hlen, hvalues, -⟩ := cursorFrom_ok (e := e) ho.distinct hfields fun t ht =>
      (hvalue t ht last).trans (if_pos (hshows t ht))
    refine ⟨c, ?_, by simpa using hlen, hvalues⟩
    unfold nextCursor
    rw [if_neg]
    · rw [map_append, map_singleton, getLast?_concat]
      exact hc
    · rw [hpages, length_map]
      simp only [Bool.not_true, Bool.false_eq_true, false_or]
      omega

/-- The rows have what paging by the order needs: the cursor key is unique and never NULL,
columns with NULLs are flagged so, and the values of an ordered column compare. -/
structure KeyedRows (e : Entity) (o : ReadOrder) (cols : List String) (rows : List Row) : Prop where
  columns : ∀ a ∈ e.attributes, a.name ∈ cols
  unique : ∀ key, e.cursorKey = some key →
    rows.Pairwise fun a b => key.map (valueOf cols a) ≠ key.map (valueOf cols b)
  keyed : ∀ key, e.cursorKey = some key → ∀ row ∈ rows, ∀ c ∈ key, valueOf cols row c ≠ .null
  flagged : ∀ a ∈ e.attributes, ∀ row ∈ rows, valueOf cols row a.name = .null → a.domain.nullable = true
  typed : ∀ c ∈ o.fields, ∀ a ∈ rows, ∀ b ∈ rows, valueOf cols a c ≠ .null → valueOf cols b c ≠ .null →
    ∃ r, compareValues (valueOf cols a c) (valueOf cols b c) = .ok r

lemma KeyedRows.joined (hd : Described e) (ho : PageOrder e o) {db : DB} {tbl : Table}
    (htbl : db e.ref.name = some tbl) (h : KeyedRows e o tbl.cols tbl.rows) {joins : List JoinSpec} {t : Relation}
    (ht : eval db (wrap joins (.scan e.ref "")) = .ok t) : KeyedRows e o t.cols t.rows := by
  have hscan : eval db (.scan e.ref "") = .ok ⟨tbl.cols, tbl.rows, 0⟩ := by
    rw [eval, scan, htbl]
  obtain ⟨hrows, hcols, -⟩ := eval_wrap hscan ht
  obtain ⟨extra, hextra⟩ := joinedAllCols_append db joins tbl.cols
  have hvalue : ∀ a ∈ e.attributes, ∀ row ∈ tbl.rows,
      valueOf t.cols (joinedAll db joins tbl.cols row) a.name = valueOf tbl.cols row a.name := by
    intro a ha row hrow
    obtain ⟨rest, hrest⟩ := joinedAll_append db joins tbl.cols row
    rw [valueOf, hrest, hcols, hextra, rowEnv_append (tbl.rect row hrow) (h.columns a ha), valueOf]
  have hkey : ∀ key, e.cursorKey = some key → ∀ row ∈ tbl.rows, ∀ c ∈ key,
      valueOf t.cols (joinedAll db joins tbl.cols row) c = valueOf tbl.cols row c := by
    intro key hkey row hrow c hc
    obtain ⟨a, ha, rfl⟩ := (hd.key key hkey).2 c hc
    exact hvalue a ha row hrow
  have hmem : ∀ {row}, row ∈ t.rows → ∃ own ∈ tbl.rows, joinedAll db joins tbl.cols own = row := by
    intro row hrow
    rw [hrows] at hrow
    exact mem_map.mp hrow
  refine ⟨fun a ha => ?_, fun key hk => ?_, fun key hk row hrow c hc => ?_, fun a ha row hrow hnull => ?_,
    fun c hc a ha b hb => ?_⟩
  · rw [hcols, hextra]
    exact mem_append_left _ (h.columns a ha)
  · rw [hrows, pairwise_map]
    refine (h.unique key hk).imp_of_mem fun {a b} ha hb hne heq => hne ?_
    rw [← map_congr_left (hkey key hk a ha), ← map_congr_left (hkey key hk b hb)]
    exact heq
  · obtain ⟨own, hown, rfl⟩ := hmem hrow
    rw [hkey key hk own hown c hc]
    exact h.keyed key hk own hown c hc
  · obtain ⟨own, hown, rfl⟩ := hmem hrow
    rw [hvalue a ha own hown] at hnull
    exact h.flagged a ha own hown hnull
  · obtain ⟨own, hown, rfl⟩ := hmem ha
    obtain ⟨other, hother, rfl⟩ := hmem hb
    obtain ⟨t, ht, rfl⟩ := mem_map.mp hc
    obtain ⟨-, attr, hattr, hname, -⟩ := ho.own t ht
    rw [← hname, hvalue attr hattr own hown, hvalue attr hattr other hother, hname]
    exact h.typed t.field hc own hown other hother

variable {q : Predicate}

section Selecting
variable {db : DB}

lemma keepRows_and {f g : Row → Except EvalError Tri} {p : Row → Bool} {rows out : List Row}
    (h : keepRows f rows = .ok out)
    (hg : ∀ row ∈ rows, ∀ v, f row = .ok v → ∃ w, g row = .ok w ∧ (w = .true ↔ v = .true ∧ p row = true)) :
    keepRows g rows = .ok (out.filter p) := by
  induction rows generalizing out with
  | nil =>
    cases h
    rfl
  | cons row rows ih =>
    obtain ⟨v, hv, h⟩ := bind_eq_ok.mp h
    obtain ⟨rest, hrest, h⟩ := bind_eq_ok.mp h
    rw [pure_eq_ok, Except.ok.injEq] at h
    obtain ⟨w, hw, hwv⟩ := hg row (by simp) v hv
    have htail := ih hrest fun r hr => hg r (mem_cons_of_mem _ hr)
    rw [keepRows, hw, htail, ← h]
    simp only [ok_bind, pure_eq_ok, Except.ok.injEq]
    by_cases hkeep : v = .true
    · rw [if_pos hkeep, filter_cons]
      cases hp : p row with
      | true => rw [if_pos (hwv.mpr ⟨hkeep, hp⟩), if_pos rfl]
      | false => rw [if_neg (fun hw => by simp [(hwv.mp hw).2] at hp), if_neg (by simp)]
    · rw [if_neg hkeep, if_neg fun hw => hkeep (hwv.mp hw).1]

lemma evalAnd_pair {cols : List String} {row : Row} {p : Predicate} {v : Tri} {b : Bool}
    (hp : evalPredicate db cols row p = .ok v) (hq : evalPredicate db cols row q = .ok (ofBool b)) :
    ∃ w, evalPredicate db cols row (.and [p, q]) = .ok w ∧ (w = .true ↔ v = .true ∧ b = true) := by
  rw [evalPredicate, evalAnd, hp, ok_bind]
  cases v <;> cases b <;> simp [evalAnd, hq, ofBool]

/-- Selecting by a conjunction keeps, of the rows the first conjunct selects, those on which
the second is TRUE. -/
lemma eval_selected_and {x : Expr} {base : Predicate} {t kept : Relation} {p : Row → Bool}
    (ht : eval db x = .ok t) (hbase : eval db (selected x base) = .ok kept)
    (hq : Operand defaultMaxINCardinality q)
    (heval : ∀ row ∈ t.rows, evalPredicate db t.cols row q = .ok (ofBool (p row))) :
    eval db (selected x (andPreds base q)) = .ok { kept with rows := kept.rows.filter p } := by
  have hvalid : ∀ p, validateWithin defaultMaxINCardinality p = .ok () → validatePredicate p = .ok () := fun p hp => hp
  unfold andPreds
  cases hnil : base.isNil with
  | true =>
    simp only [selected, hnil, if_true] at hbase ⊢
    obtain rfl : t = kept := Except.ok.inj (ht.symm.trans hbase)
    rw [hq.1]
    simp only [Bool.false_eq_true, if_false]
    have hall : keepRows (fun _ => .ok .true) t.rows = .ok t.rows := by
      induction t.rows with
      | nil => rfl
      | cons row rows ih =>
        rw [keepRows, ih]
        rfl
    have hkeep : keepRows (fun row => evalPredicate db t.cols row q) t.rows = .ok (t.rows.filter p) := by
      refine keepRows_and hall fun row hrow v hv => ⟨_, heval row hrow, ?_⟩
      obtain rfl := Except.ok.inj hv
      cases p row <;> simp [ofBool]
    rw [eval, ht, ok_bind, selectRows, hvalid q hq.2]
    simp only
    rw [hkeep]
    rfl
  | false =>
    simp only [selected, hnil, Bool.false_eq_true, if_false, hq.1] at hbase ⊢
    rw [eval, ht, ok_bind, selectRows] at hbase
    split at hbase
    · cases hbase
    rename_i hok
    obtain ⟨rows, hrows, hbase⟩ := bind_eq_ok.mp hbase
    cases hbase
    have hpair : Operand defaultMaxINCardinality (.and [base, q]) := by
      refine operand_and (by simp) fun r hr => ?_
      rcases mem_pair.mp hr with rfl | rfl
      · exact ⟨hnil, hok⟩
      · exact hq
    have hkeep := keepRows_and hrows fun row hrow v hv => evalAnd_pair hv (heval row hrow)
    simp only [Predicate.isNil, Bool.false_eq_true, if_false]
    rw [eval, ht, ok_bind, selectRows, hvalid _ hpair.2]
    simp only
    rw [hkeep]
    rfl

lemma sortRows_sorted {r : Relation} {terms : List OrderTerm} {idx : List Nat} {τ : Type} [LinearOrder τ]
    {place : Row → τ} (hidx : (terms.mapM fun t => colIndex r.cols t.field) = .ok idx)
    (hplace : ∀ a b c, sortCompare (terms.zip idx) a b = .ok c → cmp (place a) (place b) = c)
    (hok : ∀ a ∈ r.rows, ∀ b ∈ r.rows, ∃ c, sortCompare (terms.zip idx) a b = .ok c) :
    sortRows r terms = .ok { r with rows := Paging.sorted place r.rows } := by
  have herr : ∀ rows : List Row, (∀ a ∈ rows, ∀ b ∈ rows, ∃ c, sortCompare (terms.zip idx) a b = .ok c) →
      sortErr (terms.zip idx) rows = .ok () := by
    intro rows h
    induction rows with
    | nil => rfl
    | cons a rows ih =>
      have hfor : ∀ bs : List Row, (∀ b ∈ bs, ∃ c, sortCompare (terms.zip idx) a b = .ok c) →
          (bs.forM fun b => do let _ ← sortCompare (terms.zip idx) a b) = .ok () := by
        intro bs hbs
        induction bs with
        | nil => rfl
        | cons b bs ihb =>
          obtain ⟨c, hc⟩ := hbs b (by simp)
          rw [List.forM, hc]
          exact ihb fun d hd => hbs d (mem_cons_of_mem _ hd)
      rw [sortErr, hfor rows fun b hb => h a (by simp) b (mem_cons_of_mem _ hb)]
      exact ih fun b hb d hd => h b (mem_cons_of_mem _ hb) d (mem_cons_of_mem _ hd)
  have hsort : r.rows.insertionSort (fun a b => sortLE (terms.zip idx) a b) = Paging.sorted place r.rows := by
    have hmap := map_insertionSort (fun a b => sortLE (terms.zip idx) a b = true)
      (fun a b => place a ≤ place b) id r.rows fun a ha b hb => by
        obtain ⟨c, hc⟩ := hok a ha b hb
        have hcmp := hplace a b c hc
        rw [sortLE, hc, id_eq, id_eq, ← not_lt, ← cmp_eq_gt_iff, hcmp]
        cases c <;> simp
    rw [map_id, map_id] at hmap
    exact hmap
  rw [sortRows, hidx]
  simp only [ok_bind]
  rw [herr r.rows hok, hsort]
  rfl

end Selecting

lemma outName_projectItems (e : Entity) (fields : List String) :
    (projectItems e fields).map ProjectItem.outName = fields := by
  unfold projectItems
  rw [map_map]
  refine (map_congr_left fun f _ => ?_).trans (map_id fields)
  simp only [Function.comp_apply, ProjectItem.outName, id_eq]
  split
  · rename_i hcol
    rw [if_pos rfl, hcol]
  · rename_i hcol
    -- the empty name is no attribute's, so it is its own column
    rw [if_neg]
    rintro rfl
    exact hcol rfl

lemma projectRows_shown {fields : List String} {r : Relation} {idx : List Nat}
    (h : ((projectItems e fields).mapM fun item => colIndex r.cols item.field) = .ok idx) :
    projectRows r (projectItems e fields) = .ok ⟨fields, r.rows.map (shownRow e fields r.cols), 0⟩ := by
  have hcells : ∀ row, idx.map (cell row) = shownRow e fields r.cols row := by
    intro row
    have hnames : ((projectItems e fields).map (·.field)).mapM (colIndex r.cols) = .ok idx := by
      rw [mapM_map]
      exact h
    rw [(cells_eq_valueOf row hnames).1, map_map, projectItems, map_map]
    rfl
  rw [projectRows, h, ok_bind, outName_projectItems]
  simp only [hcells]
  rfl

def ReadInput.unlimited (input : ReadInput) : ReadInput := { input with limit := 0 }

def ReadPlan.base (plan : ReadPlan) : Predicate := andPreds plan.pred plan.grant.rowFilter

/-- What a read evaluates, from its table to the rows its filter keeps. -/
structure Reading (db : DB) (plan : ReadPlan) where
  table : Relation
  kept : List Row
  idx : List Nat
  shown : List Nat
  table_ok : eval db (wrap plan.rel.joins (.scan plan.res.entity.ref "")) = .ok table
  kept_ok : eval db (selected (wrap plan.rel.joins (.scan plan.res.entity.ref "")) plan.base) =
    .ok { table with rows := kept }
  sublist : kept.Sublist table.rows
  idx_ok : (plan.order.terms.mapM fun t => colIndex table.cols t.field) = .ok idx
  shown_ok : ((projectItems plan.res.entity plan.grant.fields).mapM fun item => colIndex table.cols item.field) =
    .ok shown

lemma buildReadExpression_resumed {plan : ReadPlan} (hdistinct : input.distinct = false)
    (hterms : plan.order.terms ≠ []) (q : Predicate) :
    buildReadExpression input (plan.resumed q) =
      limited (.project (.sort (selected (wrap plan.rel.joins (.scan plan.res.entity.ref "")) (andPreds plan.base q))
        plan.order.terms) (projectItems plan.res.entity plan.grant.fields)) input.limit input.offset := by
  simp only [buildReadExpression, hdistinct, ReadPlan.orderTerms, ReadPlan.resumed, sortedBy, hterms, ne_eq,
    not_false_eq_true, if_true, if_false, Bool.false_eq_true]
  rfl

lemma andPreds_nil (p : Predicate) : andPreds p .nil = p := by
  cases p <;> rfl

lemma exists_reading {db : DB} {plan : ReadPlan} {all : Relation}
    (hdistinct : input.distinct = false) (hterms : plan.order.terms ≠ [])
    (h : evalResult db (buildReadExpression input.unlimited (plan.resumed .nil)) = .ok all) :
    Nonempty (Reading db plan) := by
  rw [@buildReadExpression_resumed input.unlimited plan hdistinct hterms, andPreds_nil] at h
  obtain ⟨out, hout, -⟩ := bind_eq_ok.mp h
  simp only [ReadInput.unlimited, limited, lt_self_iff_false, if_false] at hout
  rw [eval] at hout
  obtain ⟨sorted, hsorted, hout⟩ := bind_eq_ok.mp hout
  obtain ⟨shown, hshown, -⟩ := bind_eq_ok.mp hout
  rw [eval] at hsorted
  obtain ⟨kept, hkept, hsorted⟩ := bind_eq_ok.mp hsorted
  obtain ⟨idx, hidx, hsorted⟩ := bind_eq_ok.mp hsorted
  obtain ⟨-, -, hsorted⟩ := bind_eq_ok.mp hsorted
  cases hsorted
  obtain ⟨table, htable, rfl⟩ := eval_selected hkept
  exact ⟨⟨table, _, idx, shown, htable, hkept, filter_sublist, hidx, hshown⟩⟩

section Pages
variable {db : DB} {input : ReadInput} {plan : ReadPlan} (R : Reading db plan)

abbrev Reading.terms : List Located := plan.order.terms.zip R.idx

abbrev Reading.row (row : Row) : Row := shownRow plan.res.entity plan.grant.fields R.table.cols row

section Order
variable (ho : PageOrder plan.res.entity plan.order)
  (hk : KeyedRows plan.res.entity plan.order R.table.cols R.table.rows)
include ho hk

variable {a : Row}

lemma Reading.compares {b : Row} (ha : a ∈ R.table.rows) (hb : b ∈ R.table.rows) :
    ∃ c, sortCompare R.terms a b = .ok c := by
  refine sortCompare_isOk fun t ht => ?_
  have hcol := (located R.idx_ok).2 t ht
  rw [cell_eq_valueOf a hcol, cell_eq_valueOf b hcol]
  exact hk.typed _ (mem_map.mpr ⟨t.1, (of_mem_zip ht).1, rfl⟩) a ha b hb

lemma Reading.places (ha : a ∈ R.table.rows) : ∀ t ∈ R.terms, Places R.table.cols t a := by
  intro t ht
  have hcol := (located R.idx_ok).2 t ht
  refine ⟨hcol, fun hnull => ?_⟩
  rw [cell_eq_valueOf a hcol] at hnull
  obtain ⟨-, attr, hattr, hname, hflag | ⟨key, hkey, hmem⟩⟩ := ho.own t.1 (of_mem_zip ht).1
  · rw [hflag]
    exact hk.flagged attr hattr a ha (hname ▸ hnull)
  · exact absurd hnull (hk.keyed key hkey a ha t.1.field hmem)

lemma Reading.pairwise_apart : R.table.rows.Pairwise fun a b => sortCompare R.terms a b ≠ .ok .eq := by
  obtain ⟨key, hkey, hmem⟩ := ho.key
  refine (hk.unique key hkey).imp fun {a b} hne heq => hne (map_congr_left fun c hc => ?_)
  obtain ⟨t, ht, rfl⟩ := mem_map.mp (hmem c hc)
  rw [← (located R.idx_ok).1] at ht
  obtain ⟨u, hu, rfl⟩ := mem_map.mp ht
  have hcol := (located R.idx_ok).2 u hu
  rw [← cell_eq_valueOf a hcol, ← cell_eq_valueOf b hcol]
  exact sortCompare_eq heq u hu

variable {τ : Type} [LinearOrder τ] {place : Row → τ}
  (hplace : ∀ a b c, sortCompare R.terms a b = .ok c → cmp (place a) (place b) = c)
include hplace

lemma Reading.nodup_place : (R.kept.map place).Nodup := by
  refine pairwise_map.mpr (((R.pairwise_apart ho hk).sublist R.sublist).imp_of_mem fun {a b} ha hb hne heq => ?_)
  obtain ⟨c, hc⟩ := R.compares ho hk (R.sublist.subset ha) (R.sublist.subset hb)
  have hcmp := hplace a b c hc
  rw [heq, cmp_self_eq_eq] at hcmp
  exact hne (hcmp ▸ hc)

lemma Reading.eval_sorted {rows : List Row} (hsub : rows ⊆ R.kept)
    (hrows : eval db (selected (wrap plan.rel.joins (.scan plan.res.entity.ref "")) (andPreds plan.base q)) =
      .ok { R.table with rows }) :
    eval db (.project (.sort (selected (wrap plan.rel.joins (.scan plan.res.entity.ref "")) (andPreds plan.base q))
      plan.order.terms) (projectItems plan.res.entity plan.grant.fields)) =
        .ok ⟨plan.grant.fields, (Paging.sorted place rows).map R.row, 0⟩ := by
  have hsort : sortRows { R.table with rows } plan.order.terms =
      .ok { R.table with rows := Paging.sorted place rows } :=
    sortRows_sorted R.idx_ok hplace fun a ha b hb =>
      R.compares ho hk (R.sublist.subset (hsub ha)) (R.sublist.subset (hsub hb))
  rw [eval, eval, hrows, ok_bind, hsort, ok_bind]
  exact projectRows_shown R.shown_ok

lemma Reading.page {rows : List Row} (hdistinct : input.distinct = false)
    (hterms : plan.order.terms ≠ []) (hlimit : 1 ≤ input.limit) (hoffset : input.offset = 0) (hsub : rows ⊆ R.kept)
    (hrows : eval db (selected (wrap plan.rel.joins (.scan plan.res.entity.ref "")) (andPreds plan.base q)) =
      .ok { R.table with rows }) :
    evalResult db (buildReadExpression input (plan.resumed q)) =
      .ok ⟨plan.grant.fields, ((Paging.sorted place rows).take input.limit.toNat).map R.row, 0⟩ := by
  have hbad : ¬ (input.limit < 1 ∨ (0 : Int) < 0) := by omega
  rw [evalResult, buildReadExpression_resumed hdistinct hterms, limited, if_pos (by omega), eval,
    R.eval_sorted ho hk hplace hsub hrows, ok_bind, limitRows, hoffset, if_neg hbad]
  simp only [Int.toNat_zero, drop_zero, map_take]
  rfl

lemma Reading.unlimited (hdistinct : input.distinct = false) (hterms : plan.order.terms ≠ []) :
    evalResult db (buildReadExpression input.unlimited (plan.resumed .nil)) =
      .ok ⟨plan.grant.fields, (Paging.sorted place R.kept).map R.row, 0⟩ := by
  have hrows := R.kept_ok
  rw [← andPreds_nil plan.base] at hrows
  rw [evalResult, @buildReadExpression_resumed input.unlimited plan hdistinct hterms]
  simp only [ReadInput.unlimited, limited, lt_self_iff_false, if_false]
  rw [R.eval_sorted ho hk hplace (fun _ h => h) hrows]
  rfl

section Reader
variable (hd : Described plan.res.entity) (hpages : plan.order.pageable = true) (hdistinct : input.distinct = false)
  (hlimit : 1 ≤ input.limit) (hoffset : input.offset = 0)
include hd

omit hk hplace in
lemma Reading.terms_ne_nil : plan.order.terms ≠ [] := by
  obtain ⟨key, hkey, hmem⟩ := ho.key
  obtain ⟨c, hc⟩ := exists_mem_of_ne_nil _ (hd.key key hkey).1
  obtain ⟨t, ht, -⟩ := mem_map.mp (hmem c hc)
  exact ne_nil_of_mem ht

omit hplace in
lemma Reading.exists_orderCursor (hpages : plan.order.pageable = true) (ha : a ∈ R.table.rows) {cursor : Values}
    (hcursor : CursorOf plan.order R.table.cols a cursor) : ∃ q, orderCursor plan.order cursor = .ok q := by
  refine orderCursor_isOk hpages hcursor.size (fun t ht => ⟨_, hcursor.value t ht, fun hnull => ?_⟩) ?_
  · rw [← (located R.idx_ok).1] at ht
    obtain ⟨u, hu, rfl⟩ := mem_map.mp ht
    refine (R.places ho hk ha u hu).nullable ?_
    rw [cell_eq_valueOf a ((located R.idx_ok).2 u hu)]
    exact isNull_eq_true.mp hnull
  · obtain ⟨key, hkey, hmem⟩ := ho.key
    obtain ⟨c, hc⟩ := exists_mem_of_ne_nil _ (hd.key key hkey).1
    obtain ⟨t, ht, rfl⟩ := mem_map.mp (hmem c hc)
    exact ⟨t, ht, _, hcursor.value t ht, isNull_eq_false.mpr (hk.keyed key hkey a ha t.field hc)⟩

lemma Reading.evalPredicate_cursor {row : Row} (ha : a ∈ R.table.rows) (hrow : row ∈ R.table.rows) {cursor : Values}
    (hcursor : CursorOf plan.order R.table.cols a cursor) (hq : orderCursor plan.order cursor = .ok q) :
    evalPredicate db R.table.cols row q = .ok (ofBool (decide (place a < place row))) := by
  obtain ⟨hterms, hcol⟩ := located R.idx_ok
  obtain ⟨c, hc⟩ := R.compares ho hk hrow ha
  have heval : evalPredicate db R.table.cols row q = .ok (ofBool (c == .gt)) := by
    refine evalPredicate_orderCursor hterms (R.places ho hk hrow) (fun t ht => ?_) (fun t ht => ?_) hc hq
    · exact (ho.own t.1 (of_mem_zip ht).1).1
    · rw [hcursor.value t.1 (of_mem_zip ht).1, cell_eq_valueOf a (hcol t ht)]
  have hgt : (c == .gt) = decide (place a < place row) := by
    rw [Bool.eq_iff_iff, beq_iff_eq, decide_eq_true_iff, ← hplace row a c hc, cmp_eq_gt_iff]
  rw [heval, hgt]

include hpages hdistinct hlimit hoffset

lemma Reading.readPage_first : readPage db input plan none =
    .ok ⟨plan.grant.fields, ((Paging.sorted place R.kept).take input.limit.toNat).map R.row, 0⟩ := by
  have hrows := R.kept_ok
  rw [← andPreds_nil plan.base] at hrows
  have hpage := R.page ho hk hplace hdistinct (Reading.terms_ne_nil ho hd) hlimit hoffset (fun _ h => h) hrows
  simp only [readPage, ok_bind]
  rw [hpage]
  rfl

lemma Reading.readPage_after {before after : List Row}
    (hsorted : Paging.sorted place R.kept = before ++ a :: after) {cursor : Values}
    (hcursor : CursorOf plan.order R.table.cols a cursor) : readPage db input plan (some cursor) =
      .ok ⟨plan.grant.fields, (after.take input.limit.toNat).map R.row, 0⟩ := by
  have ha : a ∈ R.table.rows := by
    have hmem : a ∈ Paging.sorted place R.kept := by simp [hsorted]
    exact R.sublist.subset (Paging.perm_sorted.subset hmem)
  obtain ⟨q, hq⟩ := R.exists_orderCursor ho hk hd hpages ha hcursor
  have hoperand : Operand defaultMaxINCardinality q := by
    refine operand_orderCursor (fun t ht => ?_) hq
    obtain ⟨-, attr, -, hname, -⟩ := ho.own t ht
    exact hname ▸ attr.named
  have hrows := eval_selected_and R.table_ok R.kept_ok hoperand fun row hrow =>
    R.evalPredicate_cursor ho hk hplace hd ha hrow hcursor hq
  have hpage := R.page ho hk hplace hdistinct (Reading.terms_ne_nil ho hd) hlimit hoffset
    (filter_sublist.subset) hrows
  rw [Paging.sorted_after (R.nodup_place ho hk hplace) hsorted] at hpage
  simp only [readPage, hq, Except.mapError, ok_bind]
  rw [hpage]

/-- The cursor stands before the rows left to read: at the start, or at the row before
them. -/
def Reading.Stands (before : List Row) (cursor : Option Values) : Prop :=
  (before = [] ∧ cursor = none) ∨
    ∃ init a c, before = init ++ [a] ∧ cursor = some c ∧ CursorOf plan.order R.table.cols a c

lemma Reading.readPage_stands {before rest : List Row} {cursor : Option Values}
    (hsorted : Paging.sorted place R.kept = before ++ rest) (hstands : R.Stands before cursor) :
    readPage db input plan cursor = .ok ⟨plan.grant.fields, (rest.take input.limit.toNat).map R.row, 0⟩ := by
  rcases hstands with ⟨rfl, rfl⟩ | ⟨init, a, c, rfl, rfl, hc⟩
  · rw [R.readPage_first ho hk hplace hd hpages hdistinct hlimit hoffset, hsorted]
    rfl
  · rw [append_assoc, singleton_append] at hsorted
    exact R.readPage_after ho hk hplace hd hpages hdistinct hlimit hoffset hsorted hc

lemma Reading.readPages_rest (hshows : ShowsOrder plan.res.entity plan.grant.fields plan.order) {fuel : Nat}
    {before rest : List Row} {cursor : Option Values} (hsorted : Paging.sorted place R.kept = before ++ rest)
    (hstands : R.Stands before cursor) (hfuel : rest.length < fuel) :
    readPages db input plan fuel cursor = some (.ok (rest.map R.row)) := by
  induction fuel generalizing before rest cursor with
  | zero => omega
  | succ fuel ih =>
    rw [readPages, R.readPage_stands ho hk hplace hd hpages hdistinct hlimit hoffset hsorted hstands]
    simp only
    by_cases hfull : rest.length < input.limit.toNat
    · have hnone := (nextCursor_spec hd ho hpages hlimit plan.grant.fields R.table.cols
        (rest.take input.limit.toNat)).1 (.inl (by rw [length_take]; omega))
      rw [hnone, take_of_length_le (by omega)]
    · -- a full page ends on a row, and the next one starts after it
      have hlen : (rest.take input.limit.toNat).length = input.limit.toNat := by
        rw [length_take]
        omega
      rcases eq_nil_or_concat (rest.take input.limit.toNat) with hnil | ⟨init, last, hconcat⟩
      · rw [hnil, length_nil] at hlen
        omega
      rw [concat_eq_append] at hconcat
      have hsplit : rest = init ++ [last] ++ rest.drop input.limit.toNat := by
        rw [← hconcat, take_append_drop]
      obtain ⟨c, hc, hcursor⟩ := (nextCursor_spec hd ho hpages hlimit plan.grant.fields
        R.table.cols init).2 hshows last (by rw [← hconcat]; omega)
      have hrest := @ih (before ++ (init ++ [last])) (rest.drop input.limit.toNat) (some c)
        (by rw [hsorted, append_assoc, ← hsplit])
        (.inr ⟨before ++ init, last, c, by rw [append_assoc], rfl, hcursor⟩)
        (by rw [length_drop]; omega)
      rw [hconcat, hc]
      simp only
      rw [hrest, Option.map_some, Except.map, ← map_append, ← hsplit]

lemma Reading.readPages_hidden (hhidden : ¬ ShowsOrder plan.res.entity plan.grant.fields plan.order) (fuel : Nat) :
    readPages db input plan (fuel + 1) none =
      some (.ok (((Paging.sorted place R.kept).take input.limit.toNat).map R.row)) := by
  rw [readPages, R.readPage_first ho hk hplace hd hpages hdistinct hlimit hoffset]
  simp only
  rw [(nextCursor_spec hd ho hpages hlimit _ _ _).1 (.inr hhidden)]

end Reader

end Order

end Pages

def ReadsInOrder (db : DB) (plan : ReadPlan) (rows : List Row) : Prop :=
  ∃ (R : Reading db plan) (sorted : List Row), sorted.Perm R.kept ∧
    sorted.Pairwise (fun a b => sortCompare R.terms a b = .ok .lt) ∧ rows = sorted.map R.row

/-- The keyset over a full key is TRUE on a row when the sort by the key, ascending, places
it after the cursor's row, and FALSE when not. -/
def KeysetExact (db : DB) (key cols : List String) (row : Row) : Prop :=
  ∀ (cursor : Values) (last : Row), (∀ c ∈ key, cursor.lookup c = some (valueOf cols last c)) →
    (∀ c ∈ key, ∃ o, compareValues (valueOf cols row c) (valueOf cols last c) = .ok o) →
    ∃ idx c, ((key.map ascending).mapM fun t => colIndex cols t.field) = .ok idx ∧
      sortCompare ((key.map ascending).zip idx) row last = .ok c ∧
      evalPredicate db cols row (keysetAfter key cursor).1 = .ok (ofBool (c == .gt)) ∧ (keysetAfter key cursor).2 = key

lemma keysetExact (hd : Described e) {key cols : List String} (hkey : e.cursorKey = some key)
    (hcols : ∀ a ∈ e.attributes, a.name ∈ cols) (db : DB) (row : Row) : KeysetExact db key cols row := by
  intro cursor last hcursor hcompare
  obtain ⟨idx, hidx⟩ : ∃ idx, ((key.map ascending).mapM fun t => colIndex cols t.field) = .ok idx := by
    have hmem : ∀ c ∈ key, c ∈ cols := by
      intro c hc
      obtain ⟨a, ha, rfl⟩ := (hd.key key hkey).2 c hc
      exact hcols a ha
    clear hcursor hcompare hkey
    induction key with
    | nil => exact ⟨[], rfl⟩
    | cons c key ih =>
      obtain ⟨idx, hidx⟩ := ih fun d hd => hmem d (mem_cons_of_mem _ hd)
      obtain ⟨i, hi⟩ := colIndex_of_mem (hmem c (by simp))
      have hfield : (ascending c).field = c := rfl
      rw [map_cons, mapM_cons, hfield, hi, hidx]
      exact ⟨_, rfl⟩
  obtain ⟨c, hc, heval, hall⟩ := evalPredicate_keysetAfter (hd.key key hkey).1 hidx hcursor hcompare
  exact ⟨idx, c, hidx, hc, heval, hall⟩

/-- Over a table whose cursor key is unique and never NULL and whose nullable columns are
flagged, a reader of an order that pages gets the rows of the read without its limit,
exactly when the rows show every ordered column or fit a page; it gets an answer in any
case. The keyset of an unordered read admits the rows after its cursor. -/
theorem paging_exact_iff (db : DB) (input : ReadInput) (plan : ReadPlan) (tbl : Table) (all : Relation)
    (hd : Described plan.res.entity) (horder : planReadOrder plan.res input plan.rel = .ok plan.order)
    (hpages : plan.order.pageable = true) (htbl : db plan.res.entity.ref.name = some tbl)
    (hk : KeyedRows plan.res.entity plan.order tbl.cols tbl.rows) (hlimit : 1 ≤ input.limit) (hoffset : input.offset = 0)
    (hall : evalResult db (buildReadExpression input.unlimited (plan.resumed .nil)) = .ok all) :
    ReadsInOrder db plan all.rows ∧
    (∀ fuel, all.rows.length < fuel → ∃ rows, readPages db input plan fuel none = some (.ok rows) ∧
      (rows = all.rows ↔
        ShowsOrder plan.res.entity plan.grant.fields plan.order ∨ (all.rows.length : Int) ≤ input.limit)) ∧
    ∀ key, plan.res.entity.cursorKey = some key → ∀ row ∈ tbl.rows, KeysetExact db key tbl.cols row := by
  obtain ⟨ho, hdistinct⟩ := planReadOrder_pages hd horder hpages
  have hterms := Reading.terms_ne_nil ho hd
  obtain ⟨R⟩ := exists_reading hdistinct hterms hall
  have hkt := hk.joined hd ho htbl R.table_ok
  obtain ⟨τ, _, place, hplace⟩ := exists_place R.terms
  have hrows : all.rows = (Paging.sorted place R.kept).map R.row := by
    have h := Except.ok.inj (hall.symm.trans (R.unlimited ho hkt hplace hdistinct hterms))
    rw [h]
  refine ⟨⟨R, Paging.sorted place R.kept, Paging.perm_sorted, ?_, hrows⟩, fun fuel hfuel => ?_,
    fun key hkey row _ => keysetExact hd hkey hk.columns db row⟩
  · refine (Paging.pairwise_sorted_lt (R.nodup_place ho hkt hplace)).imp_of_mem fun {a b} ha hb hlt => ?_
    obtain ⟨c, hc⟩ := R.compares ho hkt (R.sublist.subset (Paging.perm_sorted.subset ha))
      (R.sublist.subset (Paging.perm_sorted.subset hb))
    rw [hc, ← hplace a b c hc, (cmp_eq_lt_iff _ _).mpr hlt]
  · have hlen : all.rows.length = (Paging.sorted place R.kept).length := by rw [hrows, length_map]
    by_cases hshows : ShowsOrder plan.res.entity plan.grant.fields plan.order
    · refine ⟨all.rows, ?_, by simp [hshows]⟩
      rw [hrows]
      exact R.readPages_rest ho hkt hplace hd hpages hdistinct hlimit hoffset hshows rfl (.inl ⟨rfl, rfl⟩) (hlen ▸ hfuel)
    · obtain ⟨fuel, rfl⟩ := Nat.exists_eq_succ_of_ne_zero (Nat.ne_zero_of_lt hfuel)
      refine ⟨_, R.readPages_hidden ho hkt hplace hd hpages hdistinct hlimit hoffset hshows fuel, ?_⟩
      rw [hrows, map_take, eq_comm, take_self_eq_iff, ← hrows]
      simp only [hshows, false_or]
      omega

def staffPage : ReadInput := { staffByTeam with limit := 1 }

lemma staff_described (keyHidden : Bool) : Described (staff keyHidden) := by
  refine ⟨fun a ha b hb f => (staffContext_configured keyHidden).names (staff keyHidden) (by simp [staffContext, staffAuthorizer])
    a ha b hb f, fun key hkey => ?_⟩
  obtain rfl : key = ["id"] := by
    revert hkey
    cases keyHidden <;> decide +revert
  refine ⟨by simp, fun c hc => ?_⟩
  rw [mem_singleton.mp hc]
  exact ⟨{ name := "id", excluded := keyHidden }, by simp [staff], rfl⟩

lemma staff_keyedRows (keyHidden : Bool) (ho : o.fields = ["team", "id"]) :
    KeyedRows (staff keyHidden) o (staffTable (.num 1, .num 2)).cols (staffTable (.num 1, .num 2)).rows := by
  have hkey : (staff keyHidden).cursorKey = some ["id"] := by cases keyHidden <;> rfl
  refine ⟨?_, ?_, ?_, ?_, ?_⟩
  · cases keyHidden <;> decide
  · rintro key hk
    obtain rfl := Option.some.inj (hkey.symm.trans hk)
    decide
  · rintro key hk
    obtain rfl := Option.some.inj (hkey.symm.trans hk)
    decide
  · cases keyHidden <;> decide
  · rw [ho]
    intro c hc a ha b hb _ _
    simp only [mem_cons, not_mem_nil, or_false, staffTable] at hc ha hb
    rcases hc with rfl | rfl <;> rcases ha with rfl | rfl <;> rcases hb with rfl | rfl <;> exact ⟨_, rfl⟩

theorem paging_exact_iff_staff : ∃ plan rows,
    prepareReadPlan (staffContext false) staffPage = .ok plan ∧
      ShowsOrder plan.res.entity plan.grant.fields plan.order ∧
      readPages (staffDB (.num 1, .num 2)) staffPage plan 3 none = some (.ok rows) ∧
      rows = [[.str "ops", .num 10, .num 1], [.str "ops", .num 20, .num 2]] := by
  obtain ⟨plan, hplan⟩ : ∃ plan, prepareReadPlan (staffContext false) staffPage = .ok plan := ⟨_, rfl⟩
  have hres : plan.res.entity = staff false := by cases hplan; rfl
  have hfields : plan.order.fields = ["team", "id"] := by cases hplan; rfl
  have hall : evalResult (staffDB (.num 1, .num 2)) (buildReadExpression staffPage.unlimited (plan.resumed .nil)) =
      .ok ⟨["team", "salary", "id"], [[.str "ops", .num 10, .num 1], [.str "ops", .num 20, .num 2]], 0⟩ := by
    cases hplan
    rfl
  have hshows : ShowsOrder plan.res.entity plan.grant.fields plan.order := by
    cases hplan
    decide
  obtain ⟨-, hread, -⟩ := paging_exact_iff (staffDB (.num 1, .num 2)) staffPage plan (staffTable (.num 1, .num 2)) _
    (hres ▸ staff_described false) (by cases hplan; rfl) (by cases hplan; rfl) (by cases hplan; rfl)
    (hres ▸ staff_keyedRows false hfields) (by decide) rfl hall
  obtain ⟨rows, hpages, hiff⟩ := hread 3 (by decide)
  exact ⟨plan, rows, hplan, hshows, hpages, hiff.mpr (.inl hshows)⟩

/-- Staff whose key is excluded: the first page is full, and no cursor leads to the
second. -/
theorem hidden_key_stops_paging : ∃ plan,
    prepareReadPlan (staffContext true) staffPage = .ok plan ∧ plan.order.pageable = true ∧
      KeyedRows plan.res.entity plan.order (staffTable (.num 1, .num 2)).cols (staffTable (.num 1, .num 2)).rows ∧
      evalResult (staffDB (.num 1, .num 2)) (buildReadExpression staffPage.unlimited (plan.resumed .nil)) =
        .ok ⟨["team", "salary"], [[.str "ops", .num 10], [.str "ops", .num 20]], 0⟩ ∧
      readPages (staffDB (.num 1, .num 2)) staffPage plan 3 none = some (.ok [[.str "ops", .num 10]]) := by
  obtain ⟨plan, hplan⟩ : ∃ plan, prepareReadPlan (staffContext true) staffPage = .ok plan := ⟨_, rfl⟩
  have hres : plan.res.entity = staff true := by cases hplan; rfl
  have hfields : plan.order.fields = ["team", "id"] := by cases hplan; rfl
  refine ⟨plan, hplan, by cases hplan; rfl, hres ▸ staff_keyedRows true hfields, ?_, ?_⟩
  · cases hplan
    rfl
  · cases hplan
    rfl

end SqlMcpServer.Tool
