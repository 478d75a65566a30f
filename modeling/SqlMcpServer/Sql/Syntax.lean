import SqlMcpServer.Relalg.Syntax

/-!
# SELECT statements

The statements reads are rendered to, as syntax, and their text in a dialect. A
placeholder is its number, counted over the whole statement.
-/

namespace SqlMcpServer.Sql
open Relalg

/-- A column as a statement writes it, qualified or not. -/
inductive Col where
  | bare (name : String)
  | of (qualifier name : String)
deriving DecidableEq, Repr

/-- `FUNC(arg)`, `FUNC(DISTINCT arg)`, with `*` for no argument. -/
structure Call where
  func : AggFunc
  distinct : Bool
  arg : Option Col
deriving DecidableEq, Repr

inductive Term where
  | col (c : Col)
  | call (a : Call)
deriving DecidableEq, Repr

inductive Pred where
  /-- `term op placeholders`: none for a null test, one for a comparison, a list for IN. -/
  | cond (t : Term) (op : Op) (args : List Nat)
  | and (ps : List Pred)
  | or (ps : List Pred)
  | not (p : Pred)
  /-- `EXISTS (SELECT 1 FROM table AS alias WHERE alias.c = outer AND ... AND pred)`. -/
  | ex (table : RelationRef) (aliasName : String) (on : List (String × Col)) (p : Option Pred)
  | empty

/-- `LEFT JOIN table AS alias ON alias.c = outer AND ... AND pred`. -/
structure Join where
  table : RelationRef
  aliasName : String
  on : List (String × Col)
  pred : Option Pred

inductive Items where
  | star
  | starOf (qualifier : String)
  /-- Terms, each with its alias or none (empty). -/
  | terms (ts : List (Term × String))

inductive OrderItem where
  /-- `CASE WHEN t IS NULL THEN 1 ELSE 0 END` -/
  | nullCase (t : Term)
  | term (t : Term) (desc nullsLast : Bool)

structure Select where
  distinct : Bool
  items : Items
  table : RelationRef
  /-- Empty for none. -/
  aliasName : String
  joins : List Join
  filter : Option Pred
  groupBy : List Col
  having : Option Pred
  orderBy : List OrderItem
  limit : Option (Int × Int)

structure Dialect where
  quoteIdent : String → String
  placeholder : Nat → String
  nullsLast : Bool

section Text
variable (d : Dialect)

def Col.text : Col → String
  | .bare c => d.quoteIdent c
  | .of q c => d.quoteIdent q ++ "." ++ d.quoteIdent c

def tableText (r : RelationRef) : String :=
  if r.schema ≠ "" then d.quoteIdent r.schema ++ "." ++ d.quoteIdent r.name else d.quoteIdent r.name

def Call.text (a : Call) : String :=
  let arg := match a.arg with
    | some c => c.text d
    | none => "*"
  a.func.text.toUpper ++ "(" ++ (if a.distinct then "DISTINCT " ++ arg else arg) ++ ")"

def Term.text : Term → String
  | .col c => c.text d
  | .call a => a.text d

def opText : Op → String
  | .eq => "="
  | .ne => "<>"
  | .gt => ">"
  | .gte => ">="
  | .lt => "<"
  | .lte => "<="
  | .like => "LIKE"
  | _ => ""

def condText (t : Term) (op : Op) (args : List Nat) : String :=
  let ps := ", ".intercalate (args.map d.placeholder)
  match op with
  | .isNull => t.text d ++ " IS NULL"
  | .isNotNull => t.text d ++ " IS NOT NULL"
  | .isIn => t.text d ++ " IN (" ++ ps ++ ")"
  | .notIn => t.text d ++ " NOT IN (" ++ ps ++ ")"
  | op => t.text d ++ " " ++ opText op ++ " " ++ ps

def onText (aliasName : String) (on : List (String × Col)) : String :=
  " AND ".intercalate (on.map fun p => d.quoteIdent aliasName ++ "." ++ d.quoteIdent p.1 ++ " = " ++ p.2.text d)

mutual
def Pred.text : Pred → String
  | .cond t op args => condText d t op args
  | .and ps => "(" ++ " AND ".intercalate (predTexts ps) ++ ")"
  | .or ps => "(" ++ " OR ".intercalate (predTexts ps) ++ ")"
  | .not p => "NOT " ++ p.text
  | .ex table aliasName on p =>
    "EXISTS (SELECT 1 FROM " ++ tableText d table ++ " AS " ++ d.quoteIdent aliasName ++ " WHERE " ++
      onText d aliasName on ++ (match p with
        | some p => " AND " ++ p.text
        | none => "") ++ ")"
  | .empty => ""

def predTexts : List Pred → List String
  | [] => []
  | p :: ps => p.text :: predTexts ps
end

def Join.text (j : Join) : String :=
  " LEFT JOIN " ++ tableText d j.table ++ " AS " ++ d.quoteIdent j.aliasName ++ " ON " ++ onText d j.aliasName j.on ++
    (match j.pred with
      | some p => " AND " ++ p.text d
      | none => "")

def Items.text : Items → String
  | .star => "*"
  | .starOf q => d.quoteIdent q ++ ".*"
  | .terms ts => ", ".intercalate (ts.map fun t =>
      if t.2 = "" then t.1.text d else t.1.text d ++ " AS " ++ d.quoteIdent t.2)

def OrderItem.text : OrderItem → String
  | .nullCase t => "CASE WHEN " ++ t.text d ++ " IS NULL THEN 1 ELSE 0 END"
  | .term t desc nullsLast =>
    t.text d ++ (if desc then " DESC" else " ASC") ++ (if nullsLast then " NULLS LAST" else "")

/-- A limit below 1 is none, and an offset of 0 is left out. -/
def limitClause : Option (Int × Int) → String
  | none => ""
  | some (limit, offset) =>
    if limit < 1 then ""
    else " LIMIT " ++ toString limit ++ (if 0 < offset then " OFFSET " ++ toString offset else "")

def clause (word : String) (parts : List String) (sep : String) : String :=
  if parts = [] then "" else word ++ sep.intercalate parts

def Select.text (s : Select) : String :=
  "SELECT " ++ (if s.distinct then "DISTINCT " else "") ++ s.items.text d ++
    " FROM " ++ tableText d s.table ++ (if s.aliasName = "" then "" else " AS " ++ d.quoteIdent s.aliasName) ++
    String.join (s.joins.map (·.text d)) ++
    clause " WHERE " (s.filter.toList.map (·.text d)) "" ++
    clause " GROUP BY " (s.groupBy.map (·.text d)) ", " ++
    clause " HAVING " (s.having.toList.map (·.text d)) "" ++
    clause " ORDER BY " (s.orderBy.map (·.text d)) ", " ++
    limitClause s.limit

end Text

end SqlMcpServer.Sql
