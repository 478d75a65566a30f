import SqlMcpServer.Relalg.Truth

namespace SqlMcpServer.Interp

open List
open Relalg Except

structure RowsAgree (S : String → Prop) (cols : List String) (a b : Row) : Prop where
  left : a.length = cols.length
  right : b.length = cols.length
  same : ∀ c, S c → rowEnv cols a c = rowEnv cols b c

/-- Two relations of one shape whose rows are related one by one. -/
structure RowWise (R : Row → Row → Prop) (r₁ r₂ : Relation) : Prop where
  cols : r₁.cols = r₂.cols
  hidden : r₁.hidden = r₂.hidden
  rows : List.Forall₂ R r₁.rows r₂.rows

def Agree (S : String → Prop) (r₁ r₂ : Relation) : Prop := RowWise (RowsAgree S r₁.cols) r₁ r₂

/-- The databases' tables of a name, if any, have the same columns and rows that agree on
the columns of a set. -/
def AgreeAt (db₁ db₂ : DB) (name : String) (S : String → Prop) : Prop :=
  (db₁ name = none ∧ db₂ name = none) ∨
    ∃ t₁ t₂, db₁ name = some t₁ ∧ db₂ name = some t₂ ∧ t₁.cols = t₂.cols ∧
      List.Forall₂ (RowsAgree S t₁.cols) t₁.rows t₂.rows

lemma RowWise.eq {r₁ r₂ : Relation} (h : RowWise Eq r₁ r₂) : r₁ = r₂ := by
  obtain ⟨hcols, hhidden, hrows⟩ := h
  cases r₁
  cases r₂
  simp only [forall₂_eq_eq_eq] at hcols hhidden hrows
  rw [hcols, hhidden, hrows]

variable {name : String}

section Rows
variable {S : String → Prop} {cols : List String} {a b : Row}

lemma RowsAgree.cell_eq (h : RowsAgree S cols a b) {i : Nat} (hname : S name)
    (hi : colIndex cols name = .ok i) : cell a i = cell b i := by
  have hsame := h.same name hname
  rw [rowEnv_of_colIndex a hi, rowEnv_of_colIndex b hi] at hsame
  exact Option.some.inj hsame

lemma RowsAgree.cells_eq (h : RowsAgree S cols a b) {names : List String} {idx : List Nat}
    (hnames : ∀ n ∈ names, S n) (hidx : names.mapM (colIndex cols) = .ok idx) :
    idx.map (cell a) = idx.map (cell b) := by
  have hall := mapM_eq_ok.mp hidx
  clear hidx
  induction hall with
  | nil => rfl
  | cons hi _ ih =>
    rw [map_cons, map_cons, h.cell_eq (hnames _ (by simp)) hi,
      ih fun n hn => hnames n (mem_cons_of_mem _ hn)]

lemma evalCondition_agree (h : RowsAgree S cols a b) {c : Condition} (hc : S c.field) :
    evalCondition cols a c = evalCondition cols b c := by
  unfold evalCondition
  cases hi : colIndex cols c.field with
  | error e => rfl
  | ok i => rw [ok_bind, ok_bind, h.cell_eq hc hi]

lemma onMatches_agree {T : String → Prop} {rightCols : List String} {a' b' : Row} {on : List JoinPair}
    (h : RowsAgree S cols a b) (h' : RowsAgree T rightCols a' b') (hleft : ∀ p ∈ on, S p.left)
    (hright : ∀ p ∈ on, T p.right) :
    onMatches cols a rightCols a' on = onMatches cols b rightCols b' on := by
  induction on with
  | nil => rfl
  | cons p ps ih =>
    rw [onMatches, onMatches, ih (fun q hq => hleft q (mem_cons_of_mem _ hq))
      (fun q hq => hright q (mem_cons_of_mem _ hq))]
    cases hl : colIndex cols p.left with
    | error e => rfl
    | ok l =>
      cases hr : colIndex rightCols p.right with
      | error e => rfl
      | ok r => simp only [ok_bind, h.cell_eq (hleft p (by simp)) hl, h'.cell_eq (hright p (by simp)) hr]

end Rows

variable {l₁ l₂ : List Row}

lemma keepRows_both {R : Row → Row → Prop} {f g : Row → Except EvalError Kleene.Tri}
    (hrows : List.Forall₂ R l₁ l₂) (hfg : ∀ a b, R a b → f a = g b) :
    Both (List.Forall₂ R) (keepRows f l₁) (keepRows g l₂) := by
  induction hrows with
  | nil => exact .ok .nil
  | cons hab _ ih =>
    rw [keepRows, keepRows, hfg _ _ hab]
    refine Both.bind_left _ fun v => ih.bind fun k₁ k₂ hk => ?_
    by_cases hv : v = .true
    · simpa [hv] using Both.ok (List.Forall₂.cons hab hk)
    · simpa [hv] using Both.ok hk

variable {S : String → Prop} {cols : List String} {a b : Row}

lemma matching_both {T : String → Prop} {right₁ right₂ : Relation}
    {on : List JoinPair} {f g : Row → Except EvalError Kleene.Tri} (h : RowsAgree S cols a b)
    (hright : Agree T right₁ right₂) (hl : ∀ p ∈ on, S p.left) (hr : ∀ p ∈ on, T p.right)
    (hfg : ∀ c d, RowsAgree T right₁.cols c d → f c = g d) :
    Both (List.Forall₂ (RowsAgree T right₁.cols)) (matching cols a right₁ on f) (matching cols b right₂ on g) := by
  refine keepRows_both hright.rows fun c d hcd => ?_
  rw [← hright.cols, onMatches_agree h hcd hl hr, hfg c d hcd]

variable {db₁ db₂ : DB}

lemma scan_agree {r : RelationRef} (h : AgreeAt db₁ db₂ r.name S) :
    Both (Agree S) (scan db₁ r) (scan db₂ r) := by
  unfold scan
  rcases h with ⟨h₁, h₂⟩ | ⟨t₁, t₂, h₁, h₂, hcols, hrows⟩
  · rw [h₁, h₂]
    exact .error _
  · rw [h₁, h₂]
    exact .ok ⟨hcols, rfl, hrows⟩

/-- A predicate names columns of the set, and each EXISTS columns on which the databases'
tables agree. -/
inductive Reads (db₁ db₂ : DB) : (String → Prop) → Predicate → Prop where
  | nil {S : String → Prop} : Reads db₁ db₂ S .nil
  | cond {S : String → Prop} {c : Condition} (h : S c.field) : Reads db₁ db₂ S (.cond c)
  | and {S : String → Prop} {ps : List Predicate} (h : ∀ p ∈ ps, Reads db₁ db₂ S p) : Reads db₁ db₂ S (.and ps)
  | or {S : String → Prop} {ps : List Predicate} (h : ∀ p ∈ ps, Reads db₁ db₂ S p) : Reads db₁ db₂ S (.or ps)
  | not {S : String → Prop} {p : Predicate} (h : Reads db₁ db₂ S p) : Reads db₁ db₂ S (.not p)
  | ex {S T : String → Prop} {r : RelationRef} {on : List JoinPair} {p : Predicate}
      (htable : AgreeAt db₁ db₂ r.name T) (hl : ∀ j ∈ on, S j.left) (hr : ∀ j ∈ on, T j.right)
      (h : Reads db₁ db₂ T p) : Reads db₁ db₂ S (.ex r on p)

variable {p : Predicate}

lemma reads_of_each
    (h : Each (fun c => S c.field) (fun r on q => Reads db₁ db₂ S (.ex r on q)) p) : Reads db₁ db₂ S p := by
  induction h with
  | nil => exact .nil
  | cond h => exact .cond h
  | and _ ih => exact .and ih
  | or _ ih => exact .or ih
  | not _ ih => exact .not ih
  | ex h => exact h

lemma evalPredicate_agree (hp : Reads db₁ db₂ S p)
    (h : RowsAgree S cols a b) :
    evalPredicate db₁ cols a p = evalPredicate db₂ cols b p := by
  induction hp generalizing cols a b with
  | nil => simp [evalPredicate]
  | cond hc => rw [evalPredicate, evalPredicate, evalCondition_agree h hc]
  | @and S ps _ ih =>
    rw [evalPredicate, evalPredicate]
    generalize Kleene.Tri.true = acc
    induction ps generalizing acc with
    | nil => simp [evalAnd]
    | cons p ps ihps =>
      rw [evalAnd, evalAnd, ih p (by simp) h]
      simp only [ihps (fun q hq => by simp_all) (fun q hq => ih q (mem_cons_of_mem _ hq))]
  | @or S ps _ ih =>
    rw [evalPredicate, evalPredicate]
    generalize Kleene.Tri.false = acc
    induction ps generalizing acc with
    | nil => simp [evalOr]
    | cons p ps ihps =>
      rw [evalOr, evalOr, ih p (by simp) h]
      simp only [ihps (fun q hq => by simp_all) (fun q hq => ih q (mem_cons_of_mem _ hq))]
  | not _ ih => rw [evalPredicate, evalPredicate, ih h]
  | ex htable hl hr _ ih =>
    rw [evalPredicate, evalPredicate]
    refine Both.eq ((scan_agree htable).bind fun i₁ i₂ hi => ?_)
    refine (matching_both h hi hl hr fun c d hcd => ?_).bind fun k₁ k₂ hk => ?_
    · rw [← hi.cols]
      exact ih hcd
    · cases hk <;> exact .ok rfl

lemma evalPredicate_noExists (hp : hasExists p = false) (cols : List String)
    (row : Row) : evalPredicate db₁ cols row p = evalPredicate db₂ cols row p := by
  induction p using Predicate.ind with
  | nil | cond c => simp [evalPredicate]
  | and ps ih =>
    simp only [hasExists, hasExistsList_eq_false] at hp
    rw [evalPredicate, evalPredicate]
    generalize Kleene.Tri.true = acc
    induction ps generalizing acc with
    | nil => simp [evalAnd]
    | cons p ps ihps =>
      rw [evalAnd, evalAnd, ih p (by simp) (hp p (by simp))]
      simp only [ihps (fun q hq => ih q (mem_cons_of_mem _ hq)) (fun q hq => hp q (mem_cons_of_mem _ hq))]
  | or ps ih =>
    simp only [hasExists, hasExistsList_eq_false] at hp
    rw [evalPredicate, evalPredicate]
    generalize Kleene.Tri.false = acc
    induction ps generalizing acc with
    | nil => simp [evalOr]
    | cons p ps ihps =>
      rw [evalOr, evalOr, ih p (by simp) (hp p (by simp))]
      simp only [ihps (fun q hq => ih q (mem_cons_of_mem _ hq)) (fun q hq => hp q (mem_cons_of_mem _ hq))]
  | not p ih => rw [evalPredicate, evalPredicate, ih (by simpa [hasExists] using hp)]
  | ex r on p => simp [hasExists] at hp

lemma selectRows_noExists (db₁ db₂ : DB) (hp : hasExists p = false) (rel : Relation) :
    selectRows db₁ rel p = selectRows db₂ rel p := by
  have hfun : (fun row => evalPredicate db₁ rel.cols row p) = fun row => evalPredicate db₂ rel.cols row p :=
    funext fun row => evalPredicate_noExists hp rel.cols row
  unfold selectRows
  rw [hfun]

section Operators
variable {R : Row → Row → Prop} {S : String → Prop} {r₁ r₂ : Relation}

lemma selectRows_agree (h : Agree S r₁ r₂) (hp : Reads db₁ db₂ S p) :
    Both (Agree S) (selectRows db₁ r₁ p) (selectRows db₂ r₂ p) := by
  unfold selectRows
  split
  · exact .error _
  · refine (keepRows_both h.rows fun a b hab => ?_).bind fun k₁ k₂ hk => .ok ⟨h.cols, h.hidden, hk⟩
    rw [← h.cols]
    exact evalPredicate_agree hp hab

lemma limitRows_rowWise (h : RowWise R r₁ r₂) (count offset : Int) :
    Both (RowWise R) (limitRows r₁ count offset) (limitRows r₂ count offset) := by
  unfold limitRows
  split
  · exact .error _
  · exact .ok ⟨h.cols, h.hidden, forall₂_take _ (forall₂_drop _ h.rows)⟩

lemma sortCompare_congr {terms : List (OrderTerm × Nat)} {c d : Row}
    (hab : ∀ t ∈ terms, cell a t.2 = cell b t.2) (hcd : ∀ t ∈ terms, cell c t.2 = cell d t.2) :
    sortCompare terms a c = sortCompare terms b d := by
  induction terms with
  | nil => rfl
  | cons t terms ih =>
    rw [sortCompare, sortCompare, hab t (by simp), hcd t (by simp),
      ih (fun u hu => hab u (mem_cons_of_mem _ hu)) (fun u hu => hcd u (mem_cons_of_mem _ hu))]

lemma orderedInsert_forall₂ {le : Row → Row → Bool} (hle : ∀ a b c d, R a b → R c d → le a c = le b d)
    (hab : R a b) (h : List.Forall₂ R l₁ l₂) :
    List.Forall₂ R (l₁.orderedInsert (fun x y => le x y) a) (l₂.orderedInsert (fun x y => le x y) b) := by
  induction h with
  | nil => exact .cons hab .nil
  | cons hcd hrest ih =>
    rw [orderedInsert_cons, orderedInsert_cons, hle _ _ _ _ hab hcd]
    split
    · exact .cons hab (.cons hcd hrest)
    · exact .cons hcd ih

lemma insertionSort_forall₂ {le : Row → Row → Bool} (hle : ∀ a b c d, R a b → R c d → le a c = le b d)
    (h : List.Forall₂ R l₁ l₂) :
    List.Forall₂ R (l₁.insertionSort fun x y => le x y) (l₂.insertionSort fun x y => le x y) := by
  induction h with
  | nil => exact .nil
  | cons hab _ ih => exact orderedInsert_forall₂ hle hab ih

lemma sortErr_congr {terms : List (OrderTerm × Nat)}
    (hcmp : ∀ a b c d, R a b → R c d → sortCompare terms a c = sortCompare terms b d)
    (h : List.Forall₂ R l₁ l₂) : sortErr terms l₁ = sortErr terms l₂ := by
  induction h with
  | nil => rfl
  | cons hab hrest ih =>
    rw [sortErr, sortErr, ih]
    congr 1
    clear ih
    induction hrest with
    | nil => rfl
    | cons hcd _ ihr =>
      rw [List.forM, List.forM, hcmp _ _ _ _ hab hcd]
      exact congrArg _ (funext fun _ => ihr)

lemma sortRows_agree {orderBy : List OrderTerm} (h : Agree S r₁ r₂) (hterms : ∀ t ∈ orderBy, S t.field) :
    Both (Agree S) (sortRows r₁ orderBy) (sortRows r₂ orderBy) := by
  unfold sortRows
  rw [← h.cols]
  cases hidx : orderBy.mapM fun t => colIndex r₁.cols t.field with
  | error e => exact .error e
  | ok idx =>
    have hcmp : ∀ a b c d, RowsAgree S r₁.cols a b → RowsAgree S r₁.cols c d →
        sortCompare (orderBy.zip idx) a c = sortCompare (orderBy.zip idx) b d := by
      intro a b c d hab hcd
      have hcol : ∀ t ∈ orderBy.zip idx, colIndex r₁.cols t.1.field = .ok t.2 := by
        intro t ht
        exact (forall₂_iff_zip.mp (mapM_eq_ok.mp hidx)).2 ht
      have hmem : ∀ t ∈ orderBy.zip idx, S t.1.field := fun t ht => hterms _ (of_mem_zip ht).1
      exact sortCompare_congr (fun t ht => hab.cell_eq (hmem t ht) (hcol t ht))
        (fun t ht => hcd.cell_eq (hmem t ht) (hcol t ht))
    simp only [ok_bind]
    rw [sortErr_congr hcmp h.rows]
    refine Both.bind_left _ fun _ => .ok ⟨rfl, h.hidden, insertionSort_forall₂ ?_ h.rows⟩
    intro a b c d hab hcd
    unfold sortLE
    rw [hcmp a b c d hab hcd]

def ItemsAgree (S : String → Prop) (items : List ProjectItem) (a b : Row) : Prop :=
  a.length = items.length ∧ b.length = items.length ∧
    ∀ i item, items[i]? = some item → S item.field → cell a i = cell b i

lemma projectRows_agree (items : List ProjectItem) (h : Agree S r₁ r₂) :
    Both (RowWise (ItemsAgree S items)) (projectRows r₁ items) (projectRows r₂ items) := by
  unfold projectRows
  rw [← h.cols]
  cases hidx : items.mapM fun item => colIndex r₁.cols item.field with
  | error e => exact .error e
  | ok idx =>
    have hall := mapM_eq_ok.mp hidx
    refine .ok ⟨rfl, rfl, ?_⟩
    simp only [forall₂_map_left_iff, forall₂_map_right_iff]
    refine h.rows.imp fun a b hab => ⟨?_, ?_, fun i item hi hitem => ?_⟩
    · rw [length_map, hall.length_eq]
    · rw [length_map, hall.length_eq]
    · have hlt : i < items.length := (List.getElem?_eq_some_iff.mp hi).1
      have hget := hall.get hlt (hall.length_eq ▸ hlt)
      simp only [get_eq_getElem] at hget
      obtain ⟨_, rfl⟩ := List.getElem?_eq_some_iff.mp hi
      have hcell := hab.cell_eq hitem hget
      simpa [cell, getD_eq_getElem?_getD, hall.length_eq ▸ hlt] using hcell

lemma ItemsAgree.eq {items : List ProjectItem} (h : ItemsAgree S items a b)
    (hall : ∀ item ∈ items, S item.field) : a = b := by
  obtain ⟨ha, hb, hcells⟩ := h
  refine ext_getElem (ha.trans hb.symm) fun i hi₁ hi₂ => ?_
  have hlt : i < items.length := ha ▸ hi₁
  have hcell := hcells i items[i] (getElem?_eq_getElem hlt) (hall _ (getElem_mem hlt))
  simpa [cell, getD_eq_getElem?_getD, hi₁, hi₂] using hcell

end Operators

lemma findIdx?_of_not_mem (hname : name ∉ cols) :
    cols.findIdx? (· == name) = none := by
  refine findIdx?_eq_none_iff.mpr fun c hc => ?_
  rw [beq_eq_false_iff_ne]
  rintro rfl
  exact hname hc

lemma rowEnv_append {extra : List String} {row rest : Row} (hlen : row.length = cols.length)
    (hname : name ∈ cols) : rowEnv (cols ++ extra) (row ++ rest) name = rowEnv cols row name := by
  unfold rowEnv
  rw [findIdx?_append]
  cases hi : cols.findIdx? (· == name) with
  | none =>
    have := findIdx?_eq_none_iff.mp hi name hname
    simp at this
  | some i =>
    have hlt : i < cols.length := findIdx?_eq_some_iff_getElem.mp hi |>.1
    simp only [Option.some_or, Option.map_some, cell]
    rw [getD_eq_getElem?_getD, getD_eq_getElem?_getD, getElem?_append_left (by omega)]

lemma rowEnv_append_right {extra : List String} {row rest : Row}
    (hlen : row.length = cols.length) (hname : name ∉ cols) :
    rowEnv (cols ++ extra) (row ++ rest) name = rowEnv extra rest name := by
  have hnone := findIdx?_of_not_mem hname
  unfold rowEnv
  rw [findIdx?_append, hnone]
  cases extra.findIdx? (· == name) with
  | none => rfl
  | some i =>
    simp only [Option.none_or, Option.map_some, cell]
    rw [getD_eq_getElem?_getD, getD_eq_getElem?_getD, getElem?_append_right (by omega)]
    simp [hlen]

lemma rowEnv_joinName (aliasName : String) (cols : List String) (row : Row) (column : String) :
    rowEnv (cols.map (joinName aliasName)) row (joinName aliasName column) = rowEnv cols row column := by
  unfold rowEnv
  rw [findIdx?_map]
  congr 2
  funext c
  simp [Function.comp, (joinName_injective aliasName).eq_iff]

lemma rowEnv_of_not_mem (row : Row) (hname : name ∉ cols) :
    rowEnv cols row name = none := by
  have hnone := findIdx?_of_not_mem hname
  rw [rowEnv, hnone, Option.map_none]

section Join
variable {N T : String → Prop}

lemma RowsAgree.append {rcols : List String} {aliasName : String} {x y : Row}
    (h : RowsAgree N cols a b) (h' : RowsAgree T rcols x y)
    (hnames : ∀ d, joinName aliasName d ∉ cols → N (joinName aliasName d) → T d) :
    RowsAgree N (cols ++ rcols.map (joinName aliasName)) (a ++ x) (b ++ y) := by
  refine ⟨by simp [h.left, h'.left], by simp [h.right, h'.right], fun c hc => ?_⟩
  by_cases hmem : c ∈ cols
  · rw [rowEnv_append h.left hmem, rowEnv_append h.right hmem, h.same c hc]
  · rw [rowEnv_append_right h.left hmem, rowEnv_append_right h.right hmem]
    by_cases hright : c ∈ rcols.map (joinName aliasName)
    · obtain ⟨d, -, rfl⟩ := mem_map.mp hright
      rw [rowEnv_joinName, rowEnv_joinName, h'.same d (hnames d hmem hc)]
    · rw [rowEnv_of_not_mem x hright, rowEnv_of_not_mem y hright]

lemma joinRows_agree {left₁ left₂ right₁ right₂ : Relation} {aliasName : String} {on : List JoinPair}
    (hleft : Agree N left₁ left₂) (hright : Agree T right₁ right₂) (hl : ∀ j ∈ on, N j.left)
    (hr : ∀ j ∈ on, T j.right) (hp : Reads emptyDB emptyDB T p)
    (hnames : ∀ d, joinName aliasName d ∉ left₁.cols → N (joinName aliasName d) → T d) :
    Both (Agree N) (joinRows left₁ right₁ aliasName on p) (joinRows left₂ right₂ aliasName on p) := by
  unfold joinRows
  have hrow : ∀ a b, RowsAgree N left₁.cols a b →
      Both (RowsAgree N (left₁.cols ++ right₁.cols.map (joinName aliasName)))
        (extendRow left₁.cols right₁ aliasName on p a) (extendRow left₂.cols right₂ aliasName on p b) := by
    intro a b hab
    unfold extendRow
    rw [← hleft.cols]
    refine (matching_both hab hright hl hr fun c d hcd => ?_).bind fun k₁ k₂ hk => ?_
    · rw [← hright.cols]
      exact evalPredicate_agree hp hcd
    · match hk with
      | .nil =>
        rw [← hright.cols]
        exact .ok (hab.append (T := T) ⟨by simp, by simp, fun _ _ => rfl⟩ hnames)
      | .cons hm .nil => exact .ok (hab.append hm hnames)
      | .cons _ (.cons _ _) => exact .error _
  refine (Both.mapM hleft.rows hrow).bind fun rows₁ rows₂ hrows => .ok ⟨?_, ?_, hrows⟩
  · simp [hleft.cols, hright.cols]
  · simp [hleft.hidden, hright.cols]

end Join

section Aggregates
variable {R : Row → Row → Prop} {S : String → Prop} {r₁ r₂ : Relation}

def GroupsAgree (R : Row → Row → Prop) (g h : String × List Row) : Prop := g.1 = h.1 ∧ List.Forall₂ R g.2 h.2

lemma addToGroup_agree {key : String} {gs hs : List (String × List Row)} (hab : R a b)
    (h : List.Forall₂ (GroupsAgree R) gs hs) :
    List.Forall₂ (GroupsAgree R) (addToGroup key a gs) (addToGroup key b hs) := by
  induction h with
  | nil => exact .cons ⟨rfl, .cons hab .nil⟩ .nil
  | cons hgh hrest ih =>
    rw [addToGroup, addToGroup, hgh.1]
    split
    · exact .cons ⟨rfl, rel_append hgh.2 (.cons hab .nil)⟩ hrest
    · exact .cons hgh ih

lemma groupRowsFrom_agree {idx : List Nat} (hidx : ∀ a b, R a b → idx.map (cell a) = idx.map (cell b))
    (h : List.Forall₂ R l₁ l₂) {gs hs : List (String × List Row)}
    (hgroups : List.Forall₂ (GroupsAgree R) gs hs) :
    Both (List.Forall₂ (GroupsAgree R)) (groupRowsFrom idx l₁ gs) (groupRowsFrom idx l₂ hs) := by
  induction h generalizing gs hs with
  | nil => exact .ok hgroups
  | cons hab _ ih =>
    rw [groupRowsFrom, groupRowsFrom, hidx _ _ hab]
    exact Both.bind_left _ fun key => ih (addToGroup_agree hab hgroups)

lemma aggregateCall_agree {call : AggCall}
    (hcall : call.field = "" ∨ S call.field) (hcount : call.field = "" → call.func = .count)
    (h : List.Forall₂ (RowsAgree S cols) l₁ l₂) : aggregateCall cols l₁ call = aggregateCall cols l₂ call := by
  unfold aggregateCall
  split
  · rfl
  split
  · rw [h.length_eq]
  · rename_i hnot
    have hS : S call.field := hcall.resolve_left fun hf => hnot ⟨hcount hf, hf⟩
    have hinput : aggregateInput cols l₁ call = aggregateInput cols l₂ call := by
      unfold aggregateInput
      cases hi : colIndex cols call.field with
      | error e => rfl
      | ok i =>
        have hcells : l₁.map (cell · i) = l₂.map (cell · i) := by
          rw [← forall₂_eq_eq_eq, forall₂_map_left_iff, forall₂_map_right_iff]
          exact h.imp fun a b hab => hab.cell_eq hS hi
        rw [ok_bind, ok_bind, hcells]
    rw [hinput]

lemma aggregateRows_agree {groupBy : List String} {calls : List AggCall} (h : Agree S r₁ r₂)
    (hgroup : ∀ g ∈ groupBy, S g) (hcalls : ∀ c ∈ calls, c.field = "" ∨ S c.field)
    (hcount : ∀ c ∈ calls, c.field = "" → c.func = .count) :
    aggregateRows r₁ groupBy calls = aggregateRows r₂ groupBy calls := by
  unfold aggregateRows
  rw [← h.cols]
  cases hidx : groupBy.mapM (colIndex r₁.cols) with
  | error e => rfl
  | ok idx =>
    have hkeys : ∀ a b, RowsAgree S r₁.cols a b → idx.map (cell a) = idx.map (cell b) :=
      fun a b hab => hab.cells_eq hgroup hidx
    have hrow : ∀ g k, GroupsAgree (RowsAgree S r₁.cols) g k →
        aggregateRow r₁.cols g.2 idx calls = aggregateRow r₁.cols k.2 idx calls := by
      intro g k hgk
      unfold aggregateRow
      have hvals : calls.mapM (aggregateCall r₁.cols g.2) = calls.mapM (aggregateCall r₁.cols k.2) := by
        refine mapM_congr fun c hc => ?_
        exact aggregateCall_agree (hcalls c hc) (hcount c hc) hgk.2
      rw [hvals]
      obtain ⟨gkey, grows⟩ := g
      obtain ⟨kkey, krows⟩ := k
      cases hgk.2 with
      | nil => rfl
      | cons hab _ => simp only [hkeys _ _ hab]
    simp only [ok_bind]
    refine Both.eq ((groupRowsFrom_agree hkeys h.rows .nil).bind fun gs ks hgs => ?_)
    have hempty : (gs = []) ↔ ks = [] := by cases hgs <;> simp
    have hgroups : List.Forall₂ (GroupsAgree (RowsAgree S r₁.cols))
        (if groupBy = [] ∧ gs = [] then [("", [])] else gs) (if groupBy = [] ∧ ks = [] then [("", [])] else ks) := by
      simp only [hempty]
      split
      · exact .cons ⟨rfl, .nil⟩ .nil
      · exact hgs
    refine (Both.mapM (S := Eq) hgroups fun g k hgk => ?_).bind fun rows₁ rows₂ hrows => ?_
    · rw [hrow g k hgk]
      exact Both.refl (fun _ => rfl) _
    · rw [forall₂_eq_eq_eq] at hrows
      rw [hrows]
      exact .ok rfl

end Aggregates

end SqlMcpServer.Interp
