import SqlMcpServer.Lib.Grouping
import SqlMcpServer.Relalg.Truth
import SqlMcpServer.Sql.Syntax
import Mathlib.Algebra.Order.Field.Rat
import Mathlib.Data.Prod.Lex

/-!
# What a SELECT returns

The standard reading of a statement, clause by clause: FROM and LEFT JOIN, WHERE, GROUP BY,
HAVING, the select list, DISTINCT, ORDER BY, LIMIT.
-/

namespace SqlMcpServer.Sql
open Relalg Interp Kleene

/-- Numbers by value, strings bytewise, booleans false first; NULL and values of
different types do not compare. -/
def compareTo : Value → Value → Option Ordering
  | .num a, .num b => some (cmp a b)
  | .str a, .str b => some (cmp a b)
  | .bool a, .bool b => some (cmp a b)
  | _, _ => none

def holds : Op → Ordering → Bool
  | .eq, o => o == .eq
  | .ne, o => o != .eq
  | .gt, o => o == .gt
  | .gte, o => o != .lt
  | .lt, o => o == .lt
  | .lte, o => o != .gt
  | _, _ => false

def comparison (op : Op) (x y : Value) : Tri :=
  match compareTo x y with
  | some o => ofBool (holds op o)
  | none => .unknown

/-- `%` any sequence, `_` any character, `\` makes the next one literal. -/
def like : List Char → List Char → Bool
  | [], text => text.isEmpty
  | ['\\'], text => text == ['\\']
  | '\\' :: c :: p, d :: text => c == d && like p text
  | '\\' :: _ :: _, [] => false
  | '%' :: p, text => text.tails.any fun rest => like p rest
  | '_' :: p, _ :: text => like p text
  | c :: p, d :: text => c == d && like p text
  | _ :: _, [] => false

/-- `x op values`. -/
def test (x : Value) (op : Op) (values : List Value) : Tri :=
  match op with
  | .isNull => ofBool (x = .null)
  | .isNotNull => ofBool (x ≠ .null)
  | .isIn => any (values.map (comparison .eq x))
  | .notIn => Kleene.not (any (values.map (comparison .eq x)))
  | .like =>
    match x, values with
    | .str s, [.str p] => ofBool (like p.toList s.toList)
    | _, _ => .unknown
  | op =>
    match values with
    | [y] => comparison op x y
    | _ => .unknown

structure Bound where
  aliasName : String
  cols : List String
  row : Row

def Bound.get (b : Bound) (name : String) : Option Value := rowEnv b.cols b.row name

abbrev Scope := List Bound

def Scope.get (σ : Scope) : Col → Option Value
  | .bare c => σ.findSome? (·.get c)
  | .of q c => (σ.find? (·.aliasName = q)).bind (·.get c)

abbrev Denotation := Term → Option Value

def Scope.denote (σ : Scope) : Denotation
  | .col c => σ.get c
  | .call _ => none

def inner (b : Bound) (ρ : Denotation) : Denotation
  | .col (.of q c) => if q = b.aliasName then b.get c else ρ (.col (.of q c))
  | .col (.bare c) => (b.get c).or (ρ (.col (.bare c)))
  | .call a => ρ (.call a)

def boundRows (db : DB) (table : RelationRef) (aliasName : String) : List Bound :=
  match db table.name with
  | some t => t.rows.map fun row => ⟨aliasName, t.cols, row⟩
  | none => []

def equality : Option Value → Option Value → Tri
  | some x, some y => comparison .eq x y
  | _, _ => .unknown

def onTruths (ρ : Denotation) (aliasName : String) (on : List (String × Col)) : List Tri :=
  on.map fun p => equality (ρ (.col (.of aliasName p.1))) (ρ (.col p.2))

section
variable (db : DB) (args : List Value)

mutual
def Pred.truth : Pred → Denotation → Tri
  | .cond t op ns, ρ =>
    match ρ t with
    | some x => test x op (ns.map fun n => args.getD n .null)
    | none => .unknown
  | .and ps, ρ => all (predTruths ps ρ)
  | .or ps, ρ => any (predTruths ps ρ)
  | .not p, ρ => Kleene.not (p.truth ρ)
  | .ex table aliasName on p, ρ => ofBool ((boundRows db table aliasName).any fun b =>
      decide (all (onTruths (inner b ρ) aliasName on ++ (match p with
        | some p => [p.truth (inner b ρ)]
        | none => [])) = .true))
  | .empty, _ => .true

def predTruths : List Pred → Denotation → List Tri
  | [], _ => []
  | p :: ps, ρ => p.truth ρ :: predTruths ps ρ
end

def keeps (p : Option Pred) (ρ : Denotation) : Bool := p.all fun p => decide (p.truth db args ρ = .true)

def Join.matched (j : Join) (σ : Scope) : List Bound :=
  (boundRows db j.table j.aliasName).filter fun b =>
    decide (all (onTruths (Scope.denote (σ ++ [b])) j.aliasName j.on) = .true) && keeps db args j.pred (Scope.denote (σ ++ [b]))

def nullBound (table : RelationRef) (aliasName : String) : Bound :=
  let cols := ((db table.name).map Table.cols).getD []
  ⟨aliasName, cols, List.replicate cols.length .null⟩

def Join.extend (j : Join) (σ : Scope) : List Scope :=
  match j.matched db args σ with
  | [] => [σ ++ [nullBound db j.table j.aliasName]]
  | found => found.map fun b => σ ++ [b]

def Select.rootName (s : Select) : String := if s.aliasName = "" then s.table.name else s.aliasName

def Select.fromRows (s : Select) : List Scope :=
  s.joins.foldl (fun rows j => rows.flatMap (j.extend db args)) ((boundRows db s.table s.rootName).map fun b => [b])

def Select.rows (s : Select) : List Scope :=
  (s.fromRows db args).filter fun σ => keeps db args s.filter σ.denote

def least (values : List Value) : Value :=
  (values.find? fun v => values.all fun w => compareTo v w != some .gt).getD .null

def greatest (values : List Value) : Value :=
  (values.find? fun v => values.all fun w => compareTo v w != some .lt).getD .null

def numbers (values : List Value) : List Rat := values.filterMap toRat

def setFunction (func : AggFunc) (values : List Value) : Value :=
  match func with
  | .count => .num values.length
  | .sum => if values = [] then .null else .num (numbers values).sum
  | .avg => if values = [] then .null else .num ((numbers values).sum / values.length)
  | .min => least values
  | .max => greatest values
  | .invalid _ => .null

def Call.over (a : Call) (group : List Scope) : Value :=
  match a.arg with
  | none => .num group.length
  | some c =>
    let values := (group.filterMap (·.get c)).filter fun v => v ≠ .null
    setFunction a.func (if a.distinct then Grouping.distinctBy id values else values)

def groupDenote (group : List Scope) : Denotation
  | .col c => group.head?.bind (·.get c)
  | .call a => some (a.over group)

def Items.grouped : Items → Bool
  | .terms ts => ts.any fun t => match t.1 with
    | .call _ => true
    | .col _ => false
  | _ => false

def Select.grouped (s : Select) : Bool := !s.groupBy.isEmpty || s.having.isSome || s.items.grouped

def Select.groups (s : Select) (rows : List Scope) : List (List Scope) :=
  if s.groupBy = [] then [rows] else Grouping.groupBy (fun σ => s.groupBy.map σ.get) rows

structure Line where
  denote : Denotation
  scope : Scope

def Select.lines (s : Select) : List Line :=
  if s.grouped then
    ((s.groups (s.rows db args)).filter fun g => keeps db args s.having (groupDenote g)).map
      fun g => ⟨groupDenote g, g.headD []⟩
  else (s.rows db args).map fun σ => ⟨σ.denote, σ⟩

end

def Items.row (l : Line) : Items → Row
  | .star => l.scope.flatMap (·.row)
  | .starOf q => ((l.scope.find? (·.aliasName = q)).map (·.row)).getD []
  | .terms ts => ts.map fun t => (l.denote t.1).getD .null

def outputName (t : Term × String) : Option String :=
  if t.2 ≠ "" then some t.2
  else match t.1 with
    | .col (.bare c) | .col (.of _ c) => some c
    | .call _ => none

def Items.named (c : String) : Items → Option Term
  | .terms ts => (ts.find? fun t => outputName t = some c).map Prod.fst
  | _ => none

def Select.orderTerm (s : Select) : Term → Term
  | .col (.bare c) => (s.items.named c).getD (.col (.bare c))
  | t => t

def OrderItem.base : OrderItem → Term
  | .nullCase t => t
  | .term t _ _ => t

def OrderItem.key (s : Select) (ρ : Denotation) (i : OrderItem) : Value :=
  let v := (ρ (s.orderTerm i.base)).getD .null
  match i with
  | .nullCase _ => .num (if v = .null then 1 else 0)
  | .term _ _ _ => v

def Select.key (s : Select) (ρ : Denotation) : List Value := s.orderBy.map (OrderItem.key s ρ)

/-- A place for every value in one linear order, in which values that compare keep their
order. -/
def place : Value → ℕ ×ₗ ℚ ×ₗ String ×ₗ Bool
  | .null => toLex (0, toLex (0, toLex ("", false)))
  | .num q => toLex (1, toLex (q, toLex ("", false)))
  | .str s => toLex (2, toLex (0, toLex (s, false)))
  | .bool b => toLex (3, toLex (0, toLex ("", b)))
  | _ => toLex (4, toLex (0, toLex ("", false)))

/-- Where NULL goes: last when the item says so, else lowest or highest as the database
has it (`nullsLow`). -/
def nullPlace (nullsLow desc nullsLast : Bool) (x : Value) : Nat :=
  if x ≠ .null then 1 else if nullsLast || nullsLow == desc then 2 else 0

def OrderItem.compare (nullsLow : Bool) : OrderItem → Value → Value → Ordering
  | .nullCase _, x, y => cmp (place x) (place y)
  | .term _ desc nullsLast, x, y =>
    (cmp (nullPlace nullsLow desc nullsLast x) (nullPlace nullsLow desc nullsLast y)).then
      (if desc then cmp (place y) (place x) else cmp (place x) (place y))

def keyCompare (nullsLow : Bool) : List OrderItem → List Value → List Value → Ordering
  | [], _, _ => .eq
  | i :: is, k, l =>
    (i.compare nullsLow (k.headD .null) (l.headD .null)).then (keyCompare nullsLow is k.tail l.tail)

def keyLE (nullsLow : Bool) (is : List OrderItem) (k l : List Value) : Prop := keyCompare nullsLow is k l ≠ .gt

def window (limit : Option (Int × Int)) (rows : List Row) : List Row :=
  match limit with
  | none => rows
  | some (count, offset) => (rows.drop offset.toNat).take count.toNat

def Select.keyed (db : DB) (args : List Value) (s : Select) : List (List Value × Row) :=
  let keyed := (s.lines db args).map fun l => (s.key l.denote, s.items.row l)
  if s.distinct then Grouping.distinctBy Prod.snd keyed else keyed

/-! ## Validity

What a database checks of a statement before it runs it: that every name is a column's,
that what a group is read by is grouped by or aggregated, and that the placeholders are
the bound values, in order. -/

/-- The tables a name may be of: their aliases and columns. -/
abbrev Tables := List (String × List String)

def Col.Resolves (ts : Tables) : Col → Prop
  | .bare c => (ts.filter fun t => c ∈ t.2).length = 1
  | .of q c => ∃ cols, (q, cols) ∈ ts ∧ c ∈ cols

def rowTerm (ts : Tables) : Term → Prop
  | .col c => c.Resolves ts
  | .call _ => False

/-- `COUNT(*)` has no DISTINCT, and only COUNT takes `*`. -/
def Call.Valid (ts : Tables) (a : Call) : Prop :=
  a.func.valid = true ∧ match a.arg with
    | some c => c.Resolves ts
    | none => a.func = .count ∧ a.distinct = false

def groupTerm (ts : Tables) (groupBy : List Col) : Term → Prop
  | .col c => c ∈ groupBy
  | .call a => a.Valid ts

def innerTerm (aliasName : String) (cols : List String) (T : Term → Prop) : Term → Prop
  | .col (.of q c) => if q = aliasName then c ∈ cols else T (.col (.of q c))
  | .col (.bare c) => c ∈ cols ∨ T (.col (.bare c))
  | .call a => T (.call a)

inductive Pred.Valid (schema : String → Option (List String)) : (Term → Prop) → Pred → Prop where
  | cond {T : Term → Prop} {t : Term} {op : Op} {ns : List Nat} (h : T t) : Valid schema T (.cond t op ns)
  | and {T : Term → Prop} {ps : List Pred} (hne : ps ≠ []) (h : ∀ p ∈ ps, Valid schema T p) :
      Valid schema T (.and ps)
  | or {T : Term → Prop} {ps : List Pred} (hne : ps ≠ []) (h : ∀ p ∈ ps, Valid schema T p) :
      Valid schema T (.or ps)
  | not {T : Term → Prop} {p : Pred} (h : Valid schema T p) : Valid schema T (.not p)
  | ex {T : Term → Prop} {table : RelationRef} {aliasName : String} {cols : List String}
      {on : List (String × Col)} {p : Option Pred} (htable : schema table.name = some cols) (hne : on ≠ [])
      (hon : ∀ o ∈ on, o.1 ∈ cols ∧ innerTerm aliasName cols T (.col o.2))
      (h : ∀ q ∈ p, Valid schema (innerTerm aliasName cols T) q) : Valid schema T (.ex table aliasName on p)

/-- A join's condition names its own columns and those of the tables before it. -/
structure Join.Valid (schema : String → Option (List String)) (before : Tables) (cols : List String) (j : Join) :
    Prop where
  table : schema j.table.name = some cols
  on_ne : j.on ≠ []
  on : ∀ o ∈ j.on, o.1 ∈ cols ∧ o.2.Resolves (before ++ [(j.aliasName, cols)])
  pred : ∀ p ∈ j.pred, p.Valid schema (rowTerm (before ++ [(j.aliasName, cols)]))

/-- The joins of a statement are valid one after the other, from the tables before them. -/
inductive JoinsValid (schema : String → Option (List String)) : Tables → List Join → Tables → Prop where
  | nil {ts : Tables} : JoinsValid schema ts [] ts
  | cons {ts us : Tables} {j : Join} {js : List Join} {cols : List String} (hj : j.Valid schema ts cols)
      (hjs : JoinsValid schema (ts ++ [(j.aliasName, cols)]) js us) : JoinsValid schema ts (j :: js) us

mutual
def Pred.placeholders : Pred → List Nat
  | .cond _ _ ns => ns
  | .and ps | .or ps => predPlaceholders ps
  | .not p => p.placeholders
  | .ex _ _ _ p => match p with
    | some p => p.placeholders
    | none => []
  | .empty => []

def predPlaceholders : List Pred → List Nat
  | [] => []
  | p :: ps => p.placeholders ++ predPlaceholders ps
end

def Select.placeholders (s : Select) : List Nat :=
  (s.joins.flatMap fun j => j.pred.toList.flatMap Pred.placeholders) ++
    s.filter.toList.flatMap Pred.placeholders ++ s.having.toList.flatMap Pred.placeholders

def Select.term (s : Select) (ts : Tables) : Term → Prop :=
  if s.grouped then groupTerm ts s.groupBy else rowTerm ts

def Items.Valid (grouped : Bool) (T : Term → Prop) (ts : Tables) : Items → Prop
  | .star => grouped = false
  | .starOf q => grouped = false ∧ ∃ cols, (q, cols) ∈ ts
  | .terms items => items ≠ [] ∧ ∀ t ∈ items, T t.1

def Items.Selects (ts : Tables) : Items → Term → Prop
  | .star, t => rowTerm ts t
  | .starOf q, t => ∃ c cols, t = .col (.of q c) ∧ (q, cols) ∈ ts ∧ c ∈ cols
  | .terms items, t => ∃ i ∈ items, i.1 = t

def Items.Unambiguous (c : String) : Items → Prop
  | .terms items => ∀ i ∈ items, ∀ j ∈ items, outputName i = some c → outputName j = some c → i.1 = j.1
  | _ => True

structure Select.Valid (schema : String → Option (List String)) (args : List Value) (s : Select) (ts : Tables) :
    Prop where
  tables : ∃ cols, schema s.table.name = some cols ∧ JoinsValid schema [(s.rootName, cols)] s.joins ts
  aliases : (ts.map Prod.fst).Nodup
  filter : ∀ p ∈ s.filter, p.Valid schema (rowTerm ts)
  groupBy : ∀ c ∈ s.groupBy, c.Resolves ts
  having : ∀ p ∈ s.having, p.Valid schema (groupTerm ts s.groupBy)
  items : s.items.Valid s.grouped (s.term ts) ts
  orderBy : ∀ i ∈ s.orderBy, s.term ts (s.orderTerm i.base)
  unambiguous : ∀ i ∈ s.orderBy, ∀ c, i.base = .col (.bare c) → s.items.Unambiguous c
  distinct : s.distinct = true → ∀ i ∈ s.orderBy, s.items.Selects ts (s.orderTerm i.base)
  placeholders : s.placeholders = List.range args.length

/-- The statement is valid and may return `out`: its keyed rows in some sorted order, cut
to its window. -/
def Returns (nullsLow : Bool) (db : DB) (args : List Value) (s : Select) (out : List Row) : Prop :=
  (∃ ts, s.Valid (fun name => (db name).map Table.cols) args ts) ∧
    ∃ l : List (List Value × Row), l.Perm (s.keyed db args) ∧
      (l.Pairwise fun a b => keyLE nullsLow s.orderBy a.1 b.1) ∧ out = window s.limit (l.map Prod.snd)

def operands (op : Op) (value : Value) : List Value :=
  match op, value with
  | .isNull, _ | .isNotNull, _ => []
  | .isIn, .list vs | .notIn, .list vs => vs
  | .isIn, _ | .notIn, _ => []
  | _, v => [v]

end SqlMcpServer.Sql
