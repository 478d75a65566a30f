import SqlMcpServer.Lib.Lexer
import SqlMcpServer.Lib.Precedence
import SqlMcpServer.Sql.Semantics

/-!
# Statements as a database reads them

The text of a statement is read as tokens, and a condition among them by precedence.
-/

namespace SqlMcpServer.Sql

open List
open Relalg
open scoped Lexer

inductive Sym where
  | opening | closing | comma | dot | star | eq | ne | lt | le | gt | ge
deriving DecidableEq, Repr

inductive Token where
  /-- A quoted identifier, as the name it quotes. -/
  | name (n : String)
  | param (text : String)
  | word (text : String)
  | sym (s : Sym)
deriving DecidableEq, Repr

def params : List Token → List String
  | [] => []
  | .param text :: ts => text :: params ts
  | _ :: ts => params ts

lemma params_append (ts us : List Token) : params (ts ++ us) = params ts ++ params us := by
  induction ts with
  | nil => rfl
  | cons t ts ih => cases t <;> simp [params, ih]

def isWord (c : Char) : Bool := c.isAlphanum || c = '_'

def symbol : List Char → Option (Token × List Char)
  | '<' :: '>' :: cs => some (.sym .ne, cs)
  | '<' :: '=' :: cs => some (.sym .le, cs)
  | '>' :: '=' :: cs => some (.sym .ge, cs)
  | '(' :: cs => some (.sym .opening, cs)
  | ')' :: cs => some (.sym .closing, cs)
  | ',' :: cs => some (.sym .comma, cs)
  | '.' :: cs => some (.sym .dot, cs)
  | '*' :: cs => some (.sym .star, cs)
  | '=' :: cs => some (.sym .eq, cs)
  | '<' :: cs => some (.sym .lt, cs)
  | '>' :: cs => some (.sym .gt, cs)
  | _ => none

lemma symbol_shrinks {cs rest : List Char} {t : Token} (h : symbol cs = some (t, rest)) : rest.length < cs.length := by
  unfold symbol at h
  split at h <;> cases h <;> simp <;> omega

lemma symbol_word {c : Char} (h : isWord c = true) (cs : List Char) : symbol (c :: cs) = none := by
  unfold symbol
  split <;> simp_all [isWord]

def Plain (c : Char) : Prop := c = ' ' ∨ isWord c = true ∨ c ∈ ['(', ')', ',', '.', '*', '=', '<', '>']

instance : DecidablePred Plain := fun _ => inferInstanceAs (Decidable (_ ∨ _))

/-- How a database reads quoted identifiers and placeholders: neither starts as a keyword, a
number, a symbol or a space does. -/
structure Reader where
  read : List Char → Option (Token × List Char)
  shrinks : ∀ {cs t rest}, read cs = some (t, rest) → rest.length < cs.length
  plain : ∀ {c}, Plain c → ∀ cs, read (c :: cs) = none

namespace Reader
variable (r : Reader)

def special (cs : List Char) : Option (Token × List Char) :=
  match r.read cs with
  | some p => some p
  | none => symbol cs

lemma special_of_read {cs : List Char} {p : Token × List Char} (h : r.read cs = some p) : r.special cs = some p := by
  rw [special, h]

lemma special_plain {c : Char} (hc : Plain c) (cs : List Char) : r.special (c :: cs) = symbol (c :: cs) := by
  rw [special, r.plain hc]

def lexer : Lexer Token where
  space := (· = ' ')
  word := isWord
  ofWord w := .word (String.ofList w)
  special := r.special
  shrinks {cs t rest} h := by
    cases hread : r.read cs with
    | some p =>
      rw [r.special_of_read hread] at h
      cases h
      exact r.shrinks hread
    | none =>
      rw [special, hread] at h
      exact symbol_shrinks h

def tokens (s : String) : Option (List Token) := r.lexer.lex s.toList

def Delimited (rest : List Char) : Prop := ∀ c ∈ rest.head?, c ∈ [' ', '(', ')', ',', '.']

/-- What may follow a text: anything where it is closed, else a delimiter or nothing. -/
def Follow (closed : Bool) (rest : List Char) : Prop := closed = true ∨ Delimited rest

/-- The text reads as these tokens. One that `starts` as a delimiter does, or is empty, may
follow any text. -/
structure Spans (starts closed : Bool) (s : String) (ts : List Token) : Prop where
  reads : r.lexer.Reads (Follow closed) s.toList ts
  delimits : starts = true → ∀ rest, Follow closed rest → Delimited (s.toList ++ rest)

variable {r} {s s' : String} {ts ts' : List Token} {a a' c c' : Bool}

lemma Spans.tokens_eq (h : r.Spans a c s ts) : r.tokens s = some ts :=
  h.reads.lex_eq (.inr fun c hc => by cases hc)

lemma Spans.append (h : r.Spans a c s ts) (h' : r.Spans a' c' s' ts') (hjoin : (c || a') = true) :
    r.Spans a c' (s ++ s') (ts ++ ts') := by
  have hfollow : ∀ rest, Follow c' rest → Follow c (s'.toList ++ rest) := by
    intro rest hrest
    rcases (Bool.or_eq_true c a').mp hjoin with hc | ha
    · exact .inl hc
    · exact .inr (h'.delimits ha rest hrest)
  constructor
  · rw [String.toList_append]
    exact h.reads.append h'.reads hfollow
  · intro ha rest hrest
    rw [String.toList_append, append_assoc]
    exact h.delimits ha _ (hfollow rest hrest)

lemma Spans.opened (h : r.Spans a c s ts) : r.Spans a false s ts := by
  have hfollow : ∀ rest, Follow false rest → Follow c rest := fun rest hrest => .inr (hrest.resolve_left (by simp))
  exact ⟨h.reads.mono hfollow, fun ha rest hrest => h.delimits ha rest (hfollow rest hrest)⟩

lemma Spans.weak (h : r.Spans a c s ts) : r.Spans false false s ts := ⟨h.opened.reads, by simp⟩

lemma spans_empty : r.Spans true false "" [] := ⟨.nil, fun _ _ hrest => hrest.resolve_left (by simp)⟩

lemma spans_special {t : Token} (h : ∀ rest, Delimited rest → r.read (s.toList ++ rest) = some (t, rest)) :
    r.Spans false false s [t] :=
  ⟨.special fun rest hrest => r.special_of_read (h rest (hrest.resolve_left (by simp))), by simp⟩

def simpleSymbol : Char → Option Sym
  | '(' => some .opening
  | ')' => some .closing
  | ',' => some .comma
  | '.' => some .dot
  | '*' => some .star
  | '=' => some .eq
  | _ => none

def isSimple (c : Char) : Bool := c = ' ' || isWord c || (simpleSymbol c).isSome

lemma symbol_simple {c : Char} {t : Sym} (h : simpleSymbol c = some t) :
    Plain c ∧ ∀ cs, symbol (c :: cs) = some (.sym t, cs) := by
  unfold simpleSymbol at h
  split at h <;> cases h <;> exact ⟨by decide, fun _ => rfl⟩

def wordTokens (w : List Char) : List Token := if w = [] then [] else [.word (String.ofList w)]

/-- The tokens of a text without names and placeholders, after the word it goes on with. -/
def simpleTokens (w : List Char) : List Char → List Token
  | [] => wordTokens w
  | c :: cs =>
    if isWord c then simpleTokens (w ++ [c]) cs
    else wordTokens w ++ ((simpleSymbol c).map Token.sym).toList ++ simpleTokens [] cs

def EndsWord (s rest : List Char) : Prop := ∀ c ∈ s.getLast?, isWord c = true → ∀ c' ∈ rest.head?, isWord c' = false

lemma lex_word {w : List Char} (h : ∀ c ∈ w, isWord c = true) : r.lexer.Reads (EndsWord w) w (wordTokens w) := by
  cases w with
  | nil => exact .nil
  | cons c w =>
    have hc := h c (by simp)
    refine Lexer.Reads.word h ?_ (fun rest => (r.special_plain (.inr (.inl hc)) rest).trans (symbol_word hc rest)) ?_
    · simp only [lexer, decide_eq_false_iff_not]
      rintro rfl
      revert hc
      decide
    · intro rest hrest
      obtain ⟨x, hx⟩ : ∃ x, (c :: w).getLast? = some x := ⟨_, getLast?_cons⟩
      exact hrest x hx (h x (mem_of_getLast? hx))

lemma lex_simple {w cs : List Char} (hw : ∀ c ∈ w, isWord c = true) (h : ∀ c ∈ cs, isSimple c = true) :
    r.lexer.Reads (EndsWord (w ++ cs)) (w ++ cs) (simpleTokens w cs) := by
  induction cs generalizing w with
  | nil =>
    rw [append_nil]
    exact lex_word hw
  | cons c cs ih =>
    have htail := fun w hw => ih (w := w) hw fun c hc => h c (mem_cons_of_mem _ hc)
    rw [simpleTokens]
    split_ifs with hword
    · have hread := htail (w ++ [c]) (by simpa [or_imp, forall_and] using ⟨hw, hword⟩)
      simpa using hread
    · -- a space or a symbol ends the word
      have hone : r.lexer.Reads (fun _ => True) [c] ((simpleSymbol c).map Token.sym).toList := by
        have hsimple := h c (by simp)
        simp only [isSimple, hword, Bool.or_false, Bool.or_eq_true, decide_eq_true_eq] at hsimple
        rcases hsimple with rfl | hc
        · exact Lexer.Reads.space rfl fun rest => r.special_plain (.inl rfl) rest
        · obtain ⟨t, ht⟩ := Option.isSome_iff_exists.mp hc
          obtain ⟨hplain, hsymbol⟩ := symbol_simple ht
          rw [ht]
          exact Lexer.Reads.special fun rest _ => (r.special_plain hplain rest).trans (hsymbol rest)
      rw [append_cons]
      refine ((lex_word hw).append hone ?_).append (htail [] (by simp)) (fun _ _ => trivial) |>.mono ?_
      · rintro rest - x - - c' ⟨⟩
        simpa using hword
      · intro rest hrest x hx
        refine hrest x ?_
        rw [nil_append] at hx
        rw [getLast?_append, hx]
        rfl

def startsOf (s : String) : Bool := s.toList.head?.any (· ∈ [' ', '(', ')', ',', '.'])

def closedOf (s : String) : Bool := !s.toList.getLast?.any isWord

lemma spans_simple (s : String) (ts : List Token) (hts : simpleTokens [] s.toList = ts)
    (h : s.toList.all isSimple = true) : r.Spans (startsOf s) (closedOf s) s ts := by
  have hread := lex_simple (r := r) (w := []) (by simp) (all_eq_true.mp h)
  rw [nil_append, hts] at hread
  refine ⟨hread.mono ?_, ?_⟩
  · intro rest hrest c hc hword c' hc'
    have hdelimiters : ∀ c ∈ [' ', '(', ')', ',', '.'], isWord c = false := by decide
    rcases hrest with hclosed | hrest
    · rw [closedOf, Option.mem_def.mp hc, Option.any_some, hword] at hclosed
      cases hclosed
    · exact hdelimiters c' (hrest c' hc')
  · intro hs rest _ c hc
    rw [startsOf] at hs
    rw [head?_append] at hc
    cases hhead : s.toList.head? with
    | none => simp [hhead] at hs
    | some c' =>
      rw [hhead] at hs hc
      cases hc
      simpa using hs

lemma spans_intercalate {sep : String} {us : List Token} (hsep : r.Spans true true sep us)
    (xs : List (String × List Token)) (h : ∀ x ∈ xs, r.Spans false false x.1 x.2) :
    r.Spans false false (sep.intercalate (xs.map Prod.fst)) (us.intercalate (xs.map Prod.snd)) := by
  induction xs with
  | nil => exact spans_empty.weak
  | cons x xs ih =>
    cases xs with
    | nil =>
      simp only [map_cons, map_nil, String.intercalate_singleton, intercalate_singleton]
      exact h x (by simp)
    | cons y ys =>
      have htail := ih fun x hx => h x (mem_cons_of_mem _ hx)
      simp only [map_cons, String.intercalate_cons_cons, intercalate_cons_cons] at htail ⊢
      exact ((h x (by simp)).append hsep rfl).append htail rfl

end Reader

/-- The database reads the dialect's quoted identifiers and placeholders as single tokens. -/
structure Dialect.ReadBy (d : Dialect) (r : Reader) : Prop where
  name : ∀ n rest, Reader.Delimited rest → r.read ((d.quoteIdent n).toList ++ rest) = some (.name n, rest)
  param : ∀ k rest, Reader.Delimited rest →
    r.read ((d.placeholder k).toList ++ rest) = some (.param (d.placeholder k), rest)

def Col.tokens : Col → List Token
  | .bare c => [.name c]
  | .of q c => [.name q, .sym .dot, .name c]

def tableCol (t : RelationRef) : Col := if t.schema ≠ "" then .of t.schema t.name else .bare t.name

lemma tableText_eq (d : Dialect) (t : RelationRef) : tableText d t = (tableCol t).text d := by
  unfold tableText tableCol
  split_ifs <;> rfl

def argTokens : Option Col → List Token
  | some c => c.tokens
  | none => [.sym .star]

def Call.tokens (a : Call) : List Token :=
  [.word a.func.text.toUpper, .sym .opening] ++ (if a.distinct then [.word "DISTINCT"] else []) ++
    argTokens a.arg ++ [.sym .closing]

def Term.tokens : Term → List Token
  | .col c => c.tokens
  | .call a => a.tokens

def opTokens : Op → List Token
  | .eq => [.sym .eq]
  | .ne => [.sym .ne]
  | .gt => [.sym .gt]
  | .gte => [.sym .ge]
  | .lt => [.sym .lt]
  | .lte => [.sym .le]
  | .like => [.word "LIKE"]
  | _ => []

section Tokens
variable (d : Dialect)

def condTokens (t : Term) (op : Op) (args : List Nat) : List Token :=
  let ps := [Token.sym .comma].intercalate (args.map fun k => [.param (d.placeholder k)])
  match op with
  | .isNull => t.tokens ++ [.word "IS", .word "NULL"]
  | .isNotNull => t.tokens ++ [.word "IS", .word "NOT", .word "NULL"]
  | .isIn => t.tokens ++ [.word "IN", .sym .opening] ++ ps ++ [.sym .closing]
  | .notIn => t.tokens ++ [.word "NOT", .word "IN", .sym .opening] ++ ps ++ [.sym .closing]
  | op => t.tokens ++ opTokens op ++ ps

def pairTokens (aliasName : String) (p : String × Col) : List Token :=
  (Col.of aliasName p.1).tokens ++ [.sym .eq] ++ p.2.tokens

def existsTokens (table : RelationRef) (aliasName : String) : List Token :=
  [.word "EXISTS", .sym .opening, .word "SELECT", .word "1", .word "FROM"] ++ (tableCol table).tokens ++
    [.word "AS", .name aliasName, .word "WHERE"]

mutual
def Pred.tokens : Pred → List Token
  | .cond t op args => condTokens d t op args
  | .and ps => .sym .opening :: [.word "AND"].intercalate (predTokens ps) ++ [.sym .closing]
  | .or ps => .sym .opening :: [.word "OR"].intercalate (predTokens ps) ++ [.sym .closing]
  | .not p => .word "NOT" :: p.tokens
  | .ex table aliasName on p =>
    existsTokens table aliasName ++ [Token.word "AND"].intercalate (on.map (pairTokens aliasName)) ++
      (match p with
        | some p => .word "AND" :: p.tokens
        | none => []) ++ [.sym .closing]
  | .empty => []

def predTokens : List Pred → List (List Token)
  | [] => []
  | p :: ps => p.tokens :: predTokens ps
end

end Tokens

/-- What a comparison tests, and how many values it is given. -/
inductive Leaf where
  | test (t : Term) (op : Op) (values : Nat)
  | join (a b : Col)
deriving DecidableEq, Repr

def readCol : List Token → Option (Col × List Token)
  | .name q :: .sym .dot :: .name c :: ts => some (.of q c, ts)
  | .name c :: ts => some (.bare c, ts)
  | _ => none

def readFunc : String → Option AggFunc
  | "COUNT" => some .count
  | "SUM" => some .sum
  | "AVG" => some .avg
  | "MIN" => some .min
  | "MAX" => some .max
  | _ => none

def readArg (func : AggFunc) (distinct : Bool) : List Token → Option (Term × List Token)
  | .sym .star :: .sym .closing :: ts => some (.call ⟨func, distinct, none⟩, ts)
  | ts =>
    match readCol ts with
    | some (c, .sym .closing :: ts) => some (.call ⟨func, distinct, some c⟩, ts)
    | _ => none

def readTerm : List Token → Option (Term × List Token)
  | .word f :: .sym .opening :: ts =>
    match readFunc f, ts with
    | some func, .word "DISTINCT" :: ts => readArg func true ts
    | some func, ts => readArg func false ts
    | none, _ => none
  | ts => (readCol ts).map fun p => (.col p.1, p.2)

/-- The length of a list of placeholders, to its end. -/
def readList : List Token → Option (Nat × List Token)
  | .param _ :: .sym .comma :: ts => (readList ts).map fun p => (p.1 + 1, p.2)
  | .param _ :: .sym .closing :: ts => some (1, ts)
  | _ => none

def readOp : List Token → Option (Op × List Token)
  | .sym .eq :: ts => some (.eq, ts)
  | .sym .ne :: ts => some (.ne, ts)
  | .sym .gt :: ts => some (.gt, ts)
  | .sym .ge :: ts => some (.gte, ts)
  | .sym .lt :: ts => some (.lt, ts)
  | .sym .le :: ts => some (.lte, ts)
  | .word "LIKE" :: ts => some (.like, ts)
  | _ => none

def readComparison (t : Term) (ts : List Token) : Option (Leaf × List Token) :=
  match readOp ts with
  | some (op, .param _ :: ts) => some (.test t op 1, ts)
  | some (.eq, ts) =>
    match t, readCol ts with
    | .col a, some (b, ts) => some (.join a b, ts)
    | _, _ => none
  | _ => none

def readLeaf (ts : List Token) : Option (Leaf × List Token) :=
  match readTerm ts with
  | none => none
  | some (t, ts) =>
    match ts with
    | .word "IS" :: .word "NULL" :: ts => some (.test t .isNull 0, ts)
    | .word "IS" :: .word "NOT" :: .word "NULL" :: ts => some (.test t .isNotNull 0, ts)
    | .word "IN" :: .sym .opening :: ts => (readList ts).map fun p => (.test t .isIn p.1, p.2)
    | .word "NOT" :: .word "IN" :: .sym .opening :: ts => (readList ts).map fun p => (.test t .notIn p.1, p.2)
    | ts => readComparison t ts

/-- `EXISTS (SELECT 1 FROM table AS alias WHERE`. -/
def readExists : List Token → Option ((Col × String) × List Token)
  | .word "EXISTS" :: .sym .opening :: .word "SELECT" :: .word "1" :: .word "FROM" :: ts =>
    match readCol ts with
    | some (table, .word "AS" :: .name aliasName :: .word "WHERE" :: ts) => some ((table, aliasName), ts)
    | _ => none
  | _ => none

abbrev Tree := Precedence.Tree Leaf (Col × String)

def grammar : Precedence.Grammar Token Leaf (Col × String) where
  conj := .word "AND"
  disj := .word "OR"
  neg := .word "NOT"
  opening := .sym .opening
  closing := .sym .closing
  leaf := readLeaf
  nest := readExists
  conj_ne_disj := by decide
  conj_ne_closing := by decide
  disj_ne_closing := by decide
  opening_ne_neg := by decide

def Reader.parse (r : Reader) (s : String) : Option Tree := (r.tokens s).bind (Precedence.parse grammar)

end SqlMcpServer.Sql
