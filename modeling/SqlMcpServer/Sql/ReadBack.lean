import SqlMcpServer.Sql.Tokens

namespace SqlMcpServer.Sql

open List
open Relalg
open scoped Lexer

def Term.Whitelisted : Term → Prop
  | .col _ => True
  | .call a => a.func.valid = true

section Texts
open Reader (spans_simple spans_intercalate)
variable {d : Dialect} {r : Reader} (hd : d.ReadBy r)
include hd

lemma spans_name (n : String) : r.Spans false false (d.quoteIdent n) [.name n] := Reader.spans_special (hd.name n)

lemma spans_param (k : Nat) : r.Spans false false (d.placeholder k) [.param (d.placeholder k)] := Reader.spans_special (hd.param k)

lemma spans_col (c : Col) : r.Spans false false (c.text d) c.tokens := by
  cases c with
  | bare c => exact spans_name hd c
  | of q c => exact ((spans_name hd q).append (spans_simple "." [.sym .dot] rfl rfl) rfl).append (spans_name hd c) rfl

lemma spans_table (t : RelationRef) : r.Spans false false (tableText d t) (tableCol t).tokens := by
  rw [tableText_eq]
  exact spans_col hd _

omit hd in
lemma toUpper_eq {s t : String} (h : s.toList.map Char.toUpper = t.toList) : s.toUpper = t := by
  rw [← String.toList_inj, String.toUpper, String.toList_map]
  exact h

omit hd in
lemma readFunc_func {func : AggFunc} (h : func.valid = true) :
    (∀ r : Reader, r.Spans false false func.text.toUpper [.word func.text.toUpper]) ∧ readFunc func.text.toUpper = some func := by
  cases func with
  | count => exact (toUpper_eq rfl : AggFunc.count.text.toUpper = "COUNT") ▸ ⟨fun _ => spans_simple "COUNT" _ rfl rfl, rfl⟩
  | sum => exact (toUpper_eq rfl : AggFunc.sum.text.toUpper = "SUM") ▸ ⟨fun _ => spans_simple "SUM" _ rfl rfl, rfl⟩
  | avg => exact (toUpper_eq rfl : AggFunc.avg.text.toUpper = "AVG") ▸ ⟨fun _ => spans_simple "AVG" _ rfl rfl, rfl⟩
  | min => exact (toUpper_eq rfl : AggFunc.min.text.toUpper = "MIN") ▸ ⟨fun _ => spans_simple "MIN" _ rfl rfl, rfl⟩
  | max => exact (toUpper_eq rfl : AggFunc.max.text.toUpper = "MAX") ▸ ⟨fun _ => spans_simple "MAX" _ rfl rfl, rfl⟩
  | invalid name => cases h

omit hd in
lemma spans_distinct {s : String} {ts : List Token} (distinct : Bool) (h : r.Spans false false s ts) :
    r.Spans false false (if distinct then "DISTINCT " ++ s else s)
      (List.append (if distinct then [Token.word "DISTINCT"] else []) ts) := by
  cases distinct
  · exact h
  · exact (spans_simple "DISTINCT " [Token.word "DISTINCT"] rfl rfl).append h rfl

lemma spans_call {a : Call} (ha : a.func.valid = true) : r.Spans false false (a.text d) a.tokens := by
  obtain ⟨func, distinct, arg⟩ := a
  have harg {s : String} {ts : List Token} (h : r.Spans false false s ts) :=
    (((((readFunc_func ha).1 r).append (spans_simple "(" [Token.sym .opening] rfl rfl) rfl).append (spans_distinct distinct h) rfl).append
      (spans_simple ")" [Token.sym .closing] rfl rfl) rfl).weak
  have htokens (ts : List Token) : [Token.word func.text.toUpper] ++ [Token.sym .opening] ++
      List.append (if distinct then [Token.word "DISTINCT"] else []) ts = [Token.word func.text.toUpper, Token.sym .opening] ++
        (if distinct then [Token.word "DISTINCT"] else []) ++ ts := (append_assoc _ _ _).symm
  rw [Call.tokens, ← htokens]
  cases arg with
  | some c => exact harg (spans_col hd c)
  | none => exact harg (spans_simple "*" [Token.sym .star] rfl rfl).weak

lemma spans_term {t : Term} (ht : t.Whitelisted) : r.Spans false false (t.text d) t.tokens := by
  cases t with
  | col c => exact spans_col hd c
  | call a => exact spans_call hd ht

lemma spans_params (args : List Nat) :
    r.Spans false false (", ".intercalate (args.map d.placeholder))
      ([Token.sym .comma].intercalate (args.map fun k => [.param (d.placeholder k)])) := by
  have hall : ∀ x ∈ args.map fun k => (d.placeholder k, [Token.param (d.placeholder k)]), r.Spans false false x.1 x.2 :=
    forall_mem_map.mpr fun k _ => spans_param hd k
  have hread := spans_intercalate (spans_simple ", " [.sym .comma] rfl rfl) _ hall
  simpa only [map_map, Function.comp_def] using hread

omit hd in
lemma spans_op (op : Op) : r.Spans true true (" " ++ opText op ++ " ") (opTokens op) := by
  have hspace : r.Spans true true " " [] := spans_simple " " _ rfl rfl
  -- `<` and `>` may go on, but not with a space
  have hsym : ∀ {s : String} {c : Char} {cs : List Char} {t : Sym}, s.toList = c :: cs → Plain c →
      (∀ rest, symbol (c :: cs ++ ' ' :: rest) = some (.sym t, ' ' :: rest)) → r.Spans true true (" " ++ s ++ " ") [.sym t] := by
    intro s c cs t hs hc h
    have hread : r.lexer.Reads (fun rest => rest.head? = some ' ') s.toList [Token.sym t] := by
      rw [hs]
      refine Lexer.Reads.special fun rest hrest => ?_
      cases rest with
      | nil => cases hrest
      | cons c' rest =>
        cases hrest
        exact (r.special_plain hc _).trans (h rest)
    have hboth : r.Spans false true (s ++ " ") [.sym t] := by
      refine ⟨?_, by simp⟩
      rw [String.toList_append]
      exact hread.append hspace.reads fun _ _ => rfl
    rw [String.append_assoc]
    exact hspace.append hboth rfl
  cases op with
  | eq => exact hsym (s := "=") rfl (by decide) fun _ => rfl
  | ne => exact hsym (s := "<>") rfl (by decide) fun _ => rfl
  | gt => exact hsym (s := ">") rfl (by decide) fun _ => rfl
  | gte => exact hsym (s := ">=") rfl (by decide) fun _ => rfl
  | lt => exact hsym (s := "<") rfl (by decide) fun _ => rfl
  | lte => exact hsym (s := "<=") rfl (by decide) fun _ => rfl
  | like => exact spans_simple " LIKE " _ rfl rfl
  | _ => exact hspace.append hspace rfl

lemma spans_cond {t : Term} (ht : t.Whitelisted) (op : Op) (args : List Nat) :
    r.Spans false false (condText d t op args) (condTokens d t op args) := by
  have hterm := spans_term hd ht
  have hps := spans_params hd args
  have hclosing : r.Spans true true ")" [.sym .closing] := spans_simple ")" _ rfl rfl
  have hcompare : ∀ op, r.Spans false false (t.text d ++ " " ++ opText op ++ " " ++ ", ".intercalate (args.map d.placeholder))
      (t.tokens ++ opTokens op ++ [Token.sym .comma].intercalate (args.map fun k => [.param (d.placeholder k)])) := by
    intro op
    have hread := (hterm.append (spans_op op) rfl).append hps rfl
    rw [← String.append_assoc, ← String.append_assoc] at hread
    exact hread
  cases op with
  | isNull => exact hterm.append (spans_simple " IS NULL" _ rfl rfl) rfl
  | isNotNull => exact hterm.append (spans_simple " IS NOT NULL" _ rfl rfl) rfl
  | isIn => exact (((hterm.append (spans_simple " IN (" _ rfl rfl) rfl).append hps rfl).append hclosing rfl).weak
  | notIn => exact (((hterm.append (spans_simple " NOT IN (" _ rfl rfl) rfl).append hps rfl).append hclosing rfl).weak
  | _ => exact hcompare _

lemma spans_pair (aliasName : String) (p : String × Col) :
    r.Spans false false (d.quoteIdent aliasName ++ "." ++ d.quoteIdent p.1 ++ " = " ++ p.2.text d) (pairTokens aliasName p) :=
  ((spans_col hd (.of aliasName p.1)).append (spans_simple " = " [.sym .eq] rfl rfl) rfl).append (spans_col hd p.2) rfl

lemma spans_on (aliasName : String) (on : List (String × Col)) :
    r.Spans false false (onText d aliasName on) ([Token.word "AND"].intercalate (on.map (pairTokens aliasName))) := by
  have hall : ∀ x ∈ on.map fun p => (d.quoteIdent aliasName ++ "." ++ d.quoteIdent p.1 ++ " = " ++ p.2.text d,
      pairTokens aliasName p), r.Spans false false x.1 x.2 := forall_mem_map.mpr fun p _ => spans_pair hd aliasName p
  have hread := spans_intercalate (spans_simple " AND " [.word "AND"] rfl rfl) _ hall
  rw [map_map, map_map] at hread
  exact hread

lemma spans_existsOpen (table : RelationRef) (aliasName : String) :
    r.Spans false true ("EXISTS (SELECT 1 FROM " ++ tableText d table ++ " AS " ++ d.quoteIdent aliasName ++ " WHERE ")
      (existsTokens table aliasName) := by
  have hopen : r.Spans false true "EXISTS (SELECT 1 FROM "
      [.word "EXISTS", .sym .opening, .word "SELECT", .word "1", .word "FROM"] := spans_simple "EXISTS (SELECT 1 FROM " _ rfl rfl
  have hwhere : r.Spans true true " WHERE " [.word "WHERE"] := spans_simple " WHERE " _ rfl rfl
  have hread := (((hopen.append (spans_table hd table) rfl).append (spans_simple " AS " [.word "AS"] rfl rfl) rfl).append
    (spans_name hd aliasName) rfl).append hwhere rfl
  simpa [existsTokens] using hread

end Texts

section Tokens
variable {d : Dialect} {rest : List Token}

lemma readCol_tokens (c : Col) (h : rest.head? ≠ some (.sym .dot)) : readCol (c.tokens ++ rest) = some (c, rest) := by
  cases c with
  | of q c => rfl
  | bare c =>
    rw [Col.tokens, singleton_append]
    unfold readCol
    split
    · rename_i heq
      cases heq
      simp at h
    · rename_i heq
      cases heq
      rfl
    · rename_i hname
      exact absurd rfl (hname c rest)

variable (rest) in
lemma readArg_tokens (func : AggFunc) (distinct : Bool) (arg : Option Col) :
    readArg func distinct (argTokens arg ++ .sym .closing :: rest) =
      some (.call ⟨func, distinct, arg⟩, rest) := by
  cases arg with
  | none => rfl
  | some c =>
    have hcol : readCol (c.tokens ++ .sym .closing :: rest) = some (c, .sym .closing :: rest) := readCol_tokens c (by simp)
    rw [argTokens]
    unfold readArg
    split
    · rename_i heq
      cases c <;> cases heq
    · rw [hcol]

lemma readTerm_tokens {t : Term} (ht : t.Whitelisted) (h : rest.head? ≠ some (.sym .dot)) :
    readTerm (t.tokens ++ rest) = some (t, rest) := by
  cases t with
  | col c =>
    have hcol := readCol_tokens c h
    rw [Term.tokens]
    unfold readTerm
    split
    · rename_i heq
      cases c <;> cases heq
    · rw [hcol]
      rfl
  | call a =>
    obtain ⟨func, distinct, arg⟩ := a
    have hfunc := (readFunc_func ht).2
    have harg := readArg_tokens rest func distinct arg
    cases distinct with
    | true => simpa [Term.tokens, Call.tokens, readTerm, hfunc] using harg
    | false =>
      cases arg with
      | none => simpa [Term.tokens, Call.tokens, argTokens, readTerm, hfunc] using harg
      | some c => cases c <;> simpa [Term.tokens, Call.tokens, argTokens, Col.tokens, readTerm, hfunc] using harg

variable (d rest) in
lemma readList_tokens {args : List Nat} (hne : args ≠ []) :
    readList ([Token.sym .comma].intercalate (args.map fun k => [.param (d.placeholder k)]) ++ .sym .closing :: rest) =
      some (args.length, rest) := by
  induction args with
  | nil => exact absurd rfl hne
  | cons k args ih =>
    cases args with
    | nil => rfl
    | cons k' args =>
      have htail := ih (by simp)
      simp only [map_cons] at htail
      simp only [map_cons, intercalate_cons_cons, cons_append, nil_append]
      rw [readList, htail]
      rfl

def Op.Takes : Op → Nat → Prop
  | .isNull, n | .isNotNull, n => n = 0
  | .isIn, n | .notIn, n => n ≠ 0
  | .invalid _, _ => False
  | _, n => n = 1

lemma readLeaf_cond {t : Term} (ht : t.Whitelisted) {op : Op} {args : List Nat} (hargs : Op.Takes op args.length) :
    readLeaf (condTokens d t op args ++ rest) = some (.test t op args.length, rest) := by
  have hterm : ∀ {ts : List Token}, ts.head? ≠ some (.sym .dot) → readTerm (t.tokens ++ ts) = some (t, ts) :=
    fun h => readTerm_tokens ht h
  unfold condTokens readLeaf
  cases op with
  | isNull =>
    rw [append_assoc, hterm (by simp), (hargs : args.length = 0)]
    rfl
  | isNotNull =>
    rw [append_assoc, hterm (by simp), (hargs : args.length = 0)]
    rfl
  | isIn =>
    have hne : args ≠ [] := fun h => hargs (by rw [h]; rfl)
    simp only [append_assoc, cons_append, nil_append]
    rw [hterm (by simp)]
    exact congrArg (Option.map fun p => (Leaf.test t .isIn p.1, p.2)) (readList_tokens d rest hne)
  | notIn =>
    have hne : args ≠ [] := fun h => hargs (by rw [h]; rfl)
    simp only [append_assoc, cons_append, nil_append]
    rw [hterm (by simp)]
    exact congrArg (Option.map fun p => (Leaf.test t .notIn p.1, p.2)) (readList_tokens d rest hne)
  | invalid name => exact hargs.elim
  | _ =>
    obtain ⟨k, rfl⟩ := length_eq_one_iff.mp hargs
    simp only [append_assoc, opTokens, cons_append, nil_append]
    rw [hterm (by simp)]
    rfl

lemma readLeaf_pair (aliasName : String) (p : String × Col) (h : rest.head? ≠ some (.sym .dot)) :
    readLeaf (pairTokens aliasName p ++ rest) = some (.join (.of aliasName p.1) p.2, rest) := by
  have hterm : readTerm ((Col.of aliasName p.1).tokens ++ (.sym .eq :: (p.2.tokens ++ rest))) = _ :=
    readTerm_tokens (t := .col (.of aliasName p.1)) trivial (by simp)
  have hcol := readCol_tokens p.2 h
  unfold pairTokens readLeaf
  simp only [append_assoc, cons_append, nil_append]
  rw [hterm]
  cases hp : p.2 with
  | bare c =>
    rw [hp] at hcol
    simp only [readComparison, readOp, Col.tokens, cons_append, nil_append] at hcol ⊢
    rw [hcol]
  | of q c => rfl

lemma readExists_tokens (table : RelationRef) (aliasName : String) :
    readExists (existsTokens table aliasName ++ rest) = some ((tableCol table, aliasName), rest) := by
  have hcol : readCol ((tableCol table).tokens ++ .word "AS" :: .name aliasName :: .word "WHERE" :: rest) = _ :=
    readCol_tokens _ (by simp)
  simp only [existsTokens, append_assoc, cons_append, nil_append]
  rw [readExists, hcol]
  rfl

lemma term_starts {t : Term} (ht : t.Whitelisted) : ∃ t₀ ts, t.tokens = t₀ :: ts ∧ t₀ ≠ grammar.neg ∧ t₀ ≠ grammar.opening ∧
    ∀ us, readExists (t₀ :: us) = none := by
  cases t with
  | col c => cases c <;> exact ⟨_, _, rfl, by simp [grammar], by simp [grammar], fun _ => rfl⟩
  | call a =>
    refine ⟨_, _, rfl, ?_, by simp [grammar], ?_⟩
    · have hfunc := (readFunc_func ht).2
      intro heq
      rw [grammar, Token.word.injEq] at heq
      rw [heq] at hfunc
      cases hfunc
    · intro us
      have hfunc := (readFunc_func ht).2
      unfold readExists
      split
      · rename_i heq
        rw [List.cons.injEq, Token.word.injEq] at heq
        rw [heq.1] at hfunc
        cases hfunc
      · rfl

end Tokens

lemma head_ne_dot_of_ends {rest : List Token} (h : Precedence.Ends grammar rest) : rest.head? ≠ some (.sym .dot) := by
  rcases h with rfl | ⟨t, ht, hhead⟩
  · simp
  · rw [hhead]
    simp only [grammar, mem_cons, not_mem_nil, or_false] at ht
    rcases ht with rfl | rfl | rfl <;> decide

lemma reads_leaf {ts : List Token} {t : Term} {us : List Token} {l : Leaf} (ht : t.Whitelisted) (hts : ts = t.tokens ++ us)
    (h : ∀ rest : List Token, rest.head? ≠ some (.sym .dot) → readLeaf (ts ++ rest) = some (l, rest)) :
    Precedence.Reads grammar ts (.leaf l) := by
  obtain ⟨t₀, tail, htokens, hneg, hopening, hexists⟩ := term_starts ht
  rw [htokens, cons_append] at hts
  subst hts
  exact .leaf hneg hopening (fun rest => hexists _) fun rest hrest => h rest (head_ne_dot_of_ends hrest)

lemma reads_test (d : Dialect) {t : Term} (ht : t.Whitelisted) {op : Op} (args : List Nat) (hargs : Op.Takes op args.length) :
    Precedence.Reads grammar (condTokens d t op args) (.leaf (.test t op args.length)) := by
  have hstart : ∃ us, condTokens d t op args = t.tokens ++ us := by
    unfold condTokens
    cases op <;> exact ⟨_, by simp only [append_assoc]; rfl⟩
  obtain ⟨us, hus⟩ := hstart
  exact reads_leaf ht hus fun rest _ => readLeaf_cond ht hargs

lemma reads_join (aliasName : String) (p : String × Col) :
    Precedence.Reads grammar (pairTokens aliasName p) (.leaf (.join (.of aliasName p.1) p.2)) :=
  reads_leaf (t := .col (.of aliasName p.1)) trivial (by rw [pairTokens, append_assoc]; rfl)
    fun _ hrest => readLeaf_pair aliasName p hrest

lemma params_col (c : Col) : params c.tokens = [] := by cases c <;> rfl

lemma params_term (t : Term) : params t.tokens = [] := by
  cases t with
  | col c => exact params_col c
  | call a =>
    obtain ⟨func, distinct, arg⟩ := a
    cases distinct <;> cases arg <;> simp [Term.tokens, Call.tokens, argTokens, params_append, params_col, params]

lemma params_op (op : Op) : params (opTokens op) = [] := by cases op <;> rfl

lemma params_intercalate {us : List Token} (hus : params us = []) (tss : List (List Token)) :
    params (us.intercalate tss) = tss.flatMap params := by
  induction tss with
  | nil => rfl
  | cons ts tss ih =>
    cases tss with
    | nil => simp [intercalate_singleton]
    | cons ts' tss =>
      rw [intercalate_cons_cons, params_append, params_append, hus, ih, append_nil]
      rfl

lemma params_params (d : Dialect) (args : List Nat) :
    params ([Token.sym .comma].intercalate (args.map fun k => [.param (d.placeholder k)])) = args.map d.placeholder := by
  rw [params_intercalate rfl, flatMap_map]
  exact flatMap_pure_eq_map _ _

lemma params_cond (d : Dialect) (t : Term) (op : Op) (args : List Nat) (h : op = .isNull ∨ op = .isNotNull → args = []) :
    params (condTokens d t op args) = args.map d.placeholder := by
  have hps := params_params d args
  unfold condTokens
  cases op with
  | isNull | isNotNull => simp [params_append, params_term, params, h]
  | _ => simp [params_append, params_term, params_op, params, hps]

lemma params_pair (aliasName : String) (p : String × Col) : params (pairTokens aliasName p) = [] := by
  rw [pairTokens, params_append, params_append, params_col, params_col]
  rfl

lemma params_existsTokens (table : RelationRef) (aliasName : String) : params (existsTokens table aliasName) = [] := by
  rw [existsTokens, params_append, params_append, params_col]
  rfl

end SqlMcpServer.Sql
