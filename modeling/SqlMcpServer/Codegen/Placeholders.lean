import SqlMcpServer.Codegen.Text

namespace SqlMcpServer.Sql

open List
open Relalg
open scoped Lexer

namespace Reader
variable {r : Reader}

lemma params_simple (w cs : List Char) : params (simpleTokens w cs) = [] := by
  have hword : ∀ w, params (wordTokens w) = [] := by
    intro w
    unfold wordTokens
    split_ifs <;> rfl
  induction cs generalizing w with
  | nil => exact hword w
  | cons c cs ih =>
    rw [simpleTokens]
    split_ifs
    · exact ih _
    · rw [params_append, params_append, hword, ih]
      cases simpleSymbol c <;> rfl

def Slots (r : Reader) (starts closed : Bool) (s : String) (ps : List String) : Prop :=
  ∃ ts, r.Spans starts closed s ts ∧ params ts = ps

variable {s s' : String} {ts : List Token} {ps ps' : List String} {a a' c c' : Bool}

lemma Spans.slots (h : r.Spans a c s ts) : r.Slots a c s (params ts) := ⟨ts, h, rfl⟩

lemma Slots.append (h : r.Slots a c s ps) (h' : r.Slots a' c' s' ps') (hjoin : (c || a') = true) :
    r.Slots a c' (s ++ s') (ps ++ ps') := by
  obtain ⟨ts, hread, rfl⟩ := h
  obtain ⟨ts', hread', rfl⟩ := h'
  exact ⟨ts ++ ts', hread.append hread' hjoin, params_append ts ts'⟩

lemma Slots.weak (h : r.Slots a c s ps) : r.Slots false false s ps := h.imp fun _ h => ⟨h.1.weak, h.2⟩

lemma slots_empty : r.Slots true false "" [] := spans_empty.slots

lemma slots_simple (s : String) (h : s.toList.all isSimple = true) : r.Slots (startsOf s) (closedOf s) s [] :=
  ⟨_, spans_simple s _ rfl h, params_simple [] s.toList⟩

lemma slots_list {xs : List (String × List String)} (h : ∀ x ∈ xs, r.Slots false false x.1 x.2) :
    r.Slots false false (", ".intercalate (xs.map Prod.fst)) (xs.flatMap Prod.snd) := by
  induction xs with
  | nil => exact slots_empty.weak
  | cons x xs ih =>
    cases xs with
    | nil =>
      simp only [map_cons, map_nil, String.intercalate_singleton, flatMap_cons, flatMap_nil, append_nil]
      exact h x (by simp)
    | cons y ys =>
      have htail := ih fun x hx => h x (mem_cons_of_mem _ hx)
      simp only [map_cons, String.intercalate_cons_cons] at htail ⊢
      rw [flatMap_cons]
      have hread := ((h x (by simp)).append (slots_simple ", " rfl) rfl).append htail rfl
      rw [append_nil] at hread
      exact hread

end Reader

section Clauses
open Reader
variable {d : Dialect} {r : Reader} (hd : d.ReadBy r)
include hd

lemma slots_name (n : String) : r.Slots false false (d.quoteIdent n) [] := (spans_name hd n).slots

lemma slots_param (k : Nat) : r.Slots false false (d.placeholder k) [d.placeholder k] := (spans_param hd k).slots

lemma slots_col (c : Col) : r.Slots false false (c.text d) [] := params_col c ▸ (spans_col hd c).slots

lemma slots_table (t : RelationRef) : r.Slots false false (tableText d t) [] := params_col (tableCol t) ▸ (spans_table hd t).slots

lemma slots_term {t : Term} (ht : t.Whitelisted) : r.Slots false false (t.text d) [] := params_term t ▸ (spans_term hd ht).slots

lemma slots_on (aliasName : String) (on : List (String × Col)) : r.Slots false false (onText d aliasName on) [] := by
  have hread := (spans_on hd aliasName on).slots
  have hnone : (on.map (pairTokens aliasName)).flatMap params = [] := by
    rw [flatMap_map, flatMap_eq_nil_iff]
    exact fun p _ => params_pair aliasName p
  rwa [params_intercalate rfl, hnone] at hread

omit hd in
lemma slots_plainList {ss : List String} (h : ∀ s ∈ ss, r.Slots false false s []) : r.Slots false false (", ".intercalate ss) [] := by
  have hall : ∀ x ∈ ss.map fun s => (s, ([] : List String)), r.Slots false false x.1 x.2 := by
    intro x hx
    obtain ⟨s, hs, rfl⟩ := mem_map.mp hx
    exact h s hs
  have hread := slots_list hall
  have hnil : (ss.map fun s => (s, ([] : List String))).flatMap Prod.snd = [] := by simp [flatMap_eq_nil_iff]
  rw [hnil, map_map] at hread
  simpa [Function.comp_def] using hread

lemma slots_alias (aliasName : String) : r.Slots true false (" AS " ++ d.quoteIdent aliasName) [] :=
  (slots_simple " AS " rfl).append (slots_name hd aliasName) rfl

omit hd in
lemma slots_number {n : Int} (h : 0 < n) : r.Slots false false (toString n) [] := by
  refine (slots_simple _ (all_eq_true.mpr fun c hc => ?_)).weak
  rw [GoStrings.toString_int, if_pos h.le] at hc
  simp [isSimple, isWord, Char.isAlphanum, GoStrings.isDigit_of_mem_toString hc]

omit hd in
lemma slots_limit (limit : Option (Int × Int)) : r.Slots true false (limitClause limit) [] := by
  match limit with
  | none => exact slots_empty
  | some (count, offset) =>
    dsimp only [limitClause]
    split_ifs with hcount hoffset
    · exact slots_empty
    · exact ((slots_simple " LIMIT " rfl).append (slots_number (by omega)) rfl).append
        ((slots_simple " OFFSET " rfl).append (slots_number hoffset) rfl) rfl
    · exact ((slots_simple " LIMIT " rfl).append (slots_number (by omega)) rfl).append slots_empty rfl

def Items.Whitelisted : Items → Prop
  | .star | .starOf _ => True
  | .terms ts => ∀ t ∈ ts, t.1.Whitelisted

def OrderItem.Whitelisted : OrderItem → Prop
  | .nullCase t | .term t _ _ => t.Whitelisted

lemma slots_items {items : Items} (h : items.Whitelisted) : r.Slots false false (items.text d) [] := by
  cases items with
  | star => exact (slots_simple "*" rfl).weak
  | starOf q => exact ((slots_name hd q).append (slots_simple ".*" rfl) rfl).weak
  | terms ts =>
    refine slots_plainList ?_
    intro s hs
    obtain ⟨t, ht, rfl⟩ := mem_map.mp hs
    have hterm := slots_term hd (h t ht)
    split_ifs
    · exact hterm
    · rw [String.append_assoc]
      exact hterm.append (slots_alias hd _) rfl

lemma slots_order {o : OrderItem} (h : o.Whitelisted) : r.Slots false false (o.text d) [] := by
  cases o with
  | nullCase t => exact (((slots_simple "CASE WHEN " rfl).append (slots_term hd h) rfl).append (slots_simple " IS NULL THEN 1 ELSE 0 END" rfl) rfl).weak
  | term t desc nullsLast =>
    have hdir : r.Slots true false (if desc then " DESC" else " ASC") [] := by
      cases desc
      · exact slots_simple " ASC" rfl
      · exact slots_simple " DESC" rfl
    have hnulls : r.Slots true false (if nullsLast then " NULLS LAST" else "") [] := by
      cases nullsLast
      · exact slots_empty
      · exact slots_simple " NULLS LAST" rfl
    exact ((slots_term hd h).append hdir rfl).append hnulls rfl

omit hd in
lemma slots_clause {word : String} (hword : r.Slots true true word []) {parts : List String}
    (h : ∀ s ∈ parts, r.Slots false false s []) : r.Slots true false (clause word parts ", ") [] := by
  unfold clause
  split_ifs
  · exact slots_empty
  · exact hword.append (slots_plainList h) rfl

omit hd in
lemma slots_where {word : String} (hword : r.Slots true true word []) {q : Option Pred} {ps : List String}
    (hnone : q = none → ps = []) (h : ∀ q' ∈ q, r.Slots false false (q'.text d) ps) :
    r.Slots true false (clause word (q.toList.map (·.text d)) "") ps := by
  cases q with
  | none =>
    rw [hnone rfl]
    exact slots_empty
  | some q =>
    have htext : clause word ((some q).toList.map (·.text d)) "" = word ++ q.text d := by
      simp [clause, String.intercalate_singleton]
    rw [htext]
    exact hword.append (h q rfl) rfl

lemma slots_joinText {j : Join} {ps : List String} (hnone : j.pred = none → ps = [])
    (h : ∀ q ∈ j.pred, r.Slots false false (q.text d) ps) : r.Slots true false (j.text d) ps := by
  obtain ⟨table, aliasName, on, pred⟩ := j
  have hhead := (((((slots_simple " LEFT JOIN " rfl).append (slots_table hd table) rfl).append (slots_simple " AS " rfl) rfl).append
    (slots_name hd aliasName) rfl).append (slots_simple " ON " rfl) rfl).append (slots_on hd aliasName on) rfl
  cases pred with
  | none =>
    rw [hnone rfl]
    exact hhead.append slots_empty rfl
  | some q => exact hhead.append ((slots_simple " AND " rfl).append (h q rfl) rfl) rfl

lemma slots_select {s : Select} {js fs hs : List String} (hitems : s.items.Whitelisted)
    (hjoins : r.Slots true false (String.join (s.joins.map (·.text d))) js)
    (hfilter : r.Slots true false (clause " WHERE " (s.filter.toList.map (·.text d)) "") fs)
    (hhaving : r.Slots true false (clause " HAVING " (s.having.toList.map (·.text d)) "") hs)
    (horder : ∀ o ∈ s.orderBy, o.Whitelisted) : r.Slots false false (s.text d) (js ++ fs ++ hs) := by
  have hdistinct : r.Slots false true (if s.distinct then "DISTINCT " else "") [] := by
    cases s.distinct
    · exact slots_simple "" rfl
    · exact slots_simple "DISTINCT " rfl
  have halias : r.Slots true false (if s.aliasName = "" then "" else " AS " ++ d.quoteIdent s.aliasName) [] := by
    split_ifs
    · exact slots_empty
    · exact slots_alias hd _
  have hgroup := slots_clause (slots_simple " GROUP BY " rfl) (forall_mem_map.mpr fun c (_ : c ∈ s.groupBy) => slots_col hd c)
  have horders := slots_clause (slots_simple " ORDER BY " rfl) (forall_mem_map.mpr fun o ho => slots_order hd (horder o ho))
  have hread := (((((((((((slots_simple "SELECT " rfl).append hdistinct rfl).append (slots_items hd hitems) rfl).append (slots_simple " FROM " rfl) rfl).append
    (slots_table hd s.table) rfl).append halias rfl).append hjoins rfl).append hfilter rfl).append hgroup rfl).append hhaving rfl).append horders rfl).append
    (slots_limit s.limit) rfl
  simp only [nil_append, append_nil] at hread
  exact hread

end Clauses

end SqlMcpServer.Sql
