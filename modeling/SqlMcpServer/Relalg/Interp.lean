import SqlMcpServer.Lib.GoStrings
import SqlMcpServer.Lib.Kleene
import SqlMcpServer.Relalg.Syntax
import Mathlib.Data.List.Sort
import Mathlib.Data.String.Basic
import Mathlib.Algebra.Order.Ring.Unbundled.Rat

/-!
# The reference interpreter

`core/relalg/interp`: evaluation of read expressions over in-memory tables, with the
three-valued logic of predicates and the errors the interpreter returns.
-/

namespace SqlMcpServer.Interp
open Relalg Kleene

inductive EvalError where
  /-- `ErrUnsupported: %T`, an expression, predicate, operator or IN value -/
  | unsupported (what : String)
  /-- `ErrUnknownColumn: %q` -/
  | unknownColumn (name : String)
  /-- `ErrUnknownRelation: %q` -/
  | unknownRelation (name : String)
  /-- `ErrIncomparable` -/
  | incomparable (a b : Value)
  /-- `ErrJoinCardinality: alias %q` -/
  | joinCardinality (aliasName : String)
  /-- `limit %d offset %d: limit must be positive and offset not negative` -/
  | badLimit (count offset : Int)
  | invalidPredicate (e : PredicateError)
  /-- `ErrInvalidAggFunc: %q` -/
  | invalidAggFunc (func : AggFunc)
  /-- `errMixed: interp: NULL compared beside unknown columns` -/
  | mixed

abbrev Row := List Value

structure Table where
  cols : List String
  rows : List Row
  rect : ∀ row ∈ rows, row.length = cols.length

/-- Tables by relation name; schema qualifiers are ignored, as in the source. -/
abbrev DB := String → Option Table

/-- The database a predicate is evaluated on when none was given: it has no table. -/
def emptyDB : DB := fun _ => none

structure Relation where
  cols : List String
  rows : List Row
  hidden : Nat

def Relation.visible (r : Relation) : Relation :=
  if r.hidden = 0 then r
  else
    let n := r.cols.length - r.hidden
    ⟨r.cols.take n, r.rows.map (·.take n), 0⟩

def colIndex (cols : List String) (name : String) : Except EvalError Nat :=
  match cols.findIdx? (· == name) with
  | some i => .ok i
  | none => .error (.unknownColumn name)

def cell (row : Row) (i : Nat) : Value := row.getD i .null

def scan (db : DB) (r : RelationRef) : Except EvalError Relation :=
  match db r.name with
  | some t => .ok ⟨t.cols, t.rows, 0⟩
  | none => .error (.unknownRelation r.name)

def isNull : Value → Bool
  | .null => true
  | _ => false

/-- The exact rational of a number; no other value has one. -/
def toRat : Value → Option Rat
  | .num q => some q
  | _ => none

/-- Compares two values that are not NULL: numbers by value, strings bytewise (which is by
code point), booleans false first. -/
def compareValues : Value → Value → Except EvalError Ordering
  | .num a, .num b => .ok (cmp a b)
  | .str a, .str b => .ok (cmp a b)
  | .bool a, .bool b => .ok (cmp a b)
  | a, b => .error (.incomparable a b)

/-- Compares two sort keys, both NULL or neither. -/
def compareForSort : Value → Value → Except EvalError Ordering
  | .null, .null => .ok .eq
  | a, b => compareValues a b

def ratString (q : Rat) : String :=
  if q.den = 1 then toString q.num else toString q.num ++ "/" ++ toString q.den

/-- Encodes a value for grouping and deduplication, where NULL equals NULL. -/
def valueKey : Value → Except EvalError String
  | .null => .ok "n"
  | .num q => .ok ("r:" ++ ratString q)
  | .str s => .ok ("s:" ++ s)
  | .bool b => .ok (if b then "b:1" else "b:0")
  | v => .error (.incomparable v v)

/-- `strings.Join(parts, "\x00")`. -/
def joinKeys (parts : List String) : String := "\x00".intercalate parts

def rowKey (row : Row) : Except EvalError String := do
  let parts ← row.mapM valueKey
  return joinKeys parts

/-- `eq`, `ne`, `gt`, `gte`, `lt` and `lte`: NULL on either side is UNKNOWN. -/
def evalComparison (left : Value) (op : Op) (right : Value) : Except EvalError Tri :=
  match left, right with
  | .null, _ => .ok .unknown
  | _, .null => .ok .unknown
  | _, _ => do
    let c ← compareValues left right
    match op with
    | .eq => return ofBool (c == .eq)
    | .ne => return ofBool (c != .eq)
    | .gt => return ofBool (c == .gt)
    | .gte => return ofBool (c != .lt)
    | .lt => return ofBool (c == .lt)
    | .lte => return ofBool (c != .gt)
    | _ => .error (.unsupported "operator")

/-- The loop of `evalIn` over the values, from the verdict so far. -/
def evalInList (left : Value) : List Value → Tri → Except EvalError Tri
  | [], result => .ok result
  | v :: vs, result => do
    let eq ← evalComparison left .eq v
    if eq = .true then return .true
    evalInList left vs (if eq = .unknown then .unknown else result)

/-- `x IN (v1..vn)` as `x = v1 OR ... OR x = vn`. -/
def evalIn (left : Value) : Value → Except EvalError Tri
  | .list vs => evalInList left vs .false
  | _ => .error (.unsupported "IN value")

/-- One element of the regular expression a LIKE pattern compiles to. -/
inductive LikeToken where
  | lit (c : Char)
  | anyOne
  | anySeq
deriving DecidableEq, Repr

/-- `likeRegexp`: `%` any sequence, `_` one character, and `\` makes the character after
it literal (a trailing one is itself). -/
def likeRegexp : List Char → Bool → List LikeToken
  | [], escaped => if escaped then [.lit '\\'] else []
  | c :: cs, true => .lit c :: likeRegexp cs false
  | c :: cs, false =>
    if c = '\\' then likeRegexp cs true
    else if c = '%' then .anySeq :: likeRegexp cs false
    else if c = '_' then .anyOne :: likeRegexp cs false
    else .lit c :: likeRegexp cs false

/-- Whether the whole text matches the pattern. -/
def likeMatch : List LikeToken → List Char → Bool
  | [], text => text.isEmpty
  | .lit c :: ts, d :: ds => c == d && likeMatch ts ds
  | .anyOne :: ts, _ :: ds => likeMatch ts ds
  | .anySeq :: ts, text => text.tails.any (likeMatch ts)
  | _, [] => false

def evalLike : Value → Value → Except EvalError Tri
  | .null, _ => .ok .unknown
  | _, .null => .ok .unknown
  | .str s, .str p => .ok (ofBool (likeMatch (likeRegexp p.toList false) s.toList))
  | a, b => .error (.incomparable a b)

/-- Applies a condition's operator and value to `left`, the value of its field. -/
def evalOp (left : Value) (c : Condition) : Except EvalError Tri :=
  match c.op with
  | .isNull => .ok (ofBool (isNull left))
  | .isNotNull => .ok (ofBool (!isNull left))
  | .isIn => evalIn left c.value
  | .notIn => do return Kleene.not (← evalIn left c.value)
  | .like => evalLike left c.value
  | _ => evalComparison left c.op c.value

def evalCondition (cols : List String) (row : Row) (c : Condition) : Except EvalError Tri := do
  let i ← colIndex cols c.field
  evalOp (cell row i) c

/-- The rows on which `f` is TRUE; its first error ends the loop. -/
def keepRows (f : Row → Except EvalError Tri) : List Row → Except EvalError (List Row)
  | [] => .ok []
  | row :: rows => do
    let v ← f row
    let rest ← keepRows f rows
    return if v = .true then row :: rest else rest

/-- Whether the join columns of two rows are equal (NULL equals nothing). Every pair is
compared, so an incomparable one is an error whatever the others are. -/
def onMatches (leftCols : List String) (row : Row) (rightCols : List String) (candidate : Row) :
    List JoinPair → Except EvalError Bool
  | [] => .ok true
  | p :: ps => do
    let l ← colIndex leftCols p.left
    let r ← colIndex rightCols p.right
    let eq ← evalComparison (cell row l) .eq (cell candidate r)
    let rest ← onMatches leftCols row rightCols candidate ps
    return decide (eq = .true) && rest

/-- The rows of `right` whose join columns equal the row's and on which `pred` is TRUE. -/
def matching (leftCols : List String) (row : Row) (right : Relation) (on : List JoinPair)
    (pred : Row → Except EvalError Tri) : Except EvalError (List Row) :=
  keepRows (fun candidate => do
    if ← onMatches leftCols row right.cols candidate on then pred candidate else return .false)
    right.rows

mutual
/-- The truth value of a predicate on a row of a relation with the columns `cols`; an
EXISTS reads its relation of `db`. -/
def evalPredicate (db : DB) (cols : List String) (row : Row) : Predicate → Except EvalError Tri
  | .nil => .ok .true
  | .cond c => evalCondition cols row c
  | .and preds => evalAnd db cols row preds .true
  | .or preds => evalOr db cols row preds .false
  | .not p => do return Kleene.not (← evalPredicate db cols row p)
  | .ex r on p => do
    let inner ← scan db r
    let found ← matching cols row inner on (fun candidate => evalPredicate db inner.cols candidate p)
    return ofBool (!found.isEmpty)

def evalAnd (db : DB) (cols : List String) (row : Row) : List Predicate → Tri → Except EvalError Tri
  | [], result => .ok result
  | p :: ps, result => do
    let v ← evalPredicate db cols row p
    if v = .false then return .false
    evalAnd db cols row ps (if v = .unknown then .unknown else result)

def evalOr (db : DB) (cols : List String) (row : Row) : List Predicate → Tri → Except EvalError Tri
  | [], result => .ok result
  | p :: ps, result => do
    let v ← evalPredicate db cols row p
    if v = .true then return .true
    evalOr db cols row ps (if v = .unknown then .unknown else result)
end

def selectRows (db : DB) (input : Relation) (p : Predicate) : Except EvalError Relation :=
  match validatePredicate p with
  | .error e => .error (.invalidPredicate e)
  | .ok () => do
    let rows ← keepRows (fun row => evalPredicate db input.cols row p) input.rows
    return { input with rows }

def ProjectItem.outName (item : ProjectItem) : String :=
  if item.aliasName = "" then item.field else item.aliasName

def projectRows (input : Relation) (items : List ProjectItem) : Except EvalError Relation := do
  let idx ← items.mapM (fun item => colIndex input.cols item.field)
  return ⟨items.map ProjectItem.outName, input.rows.map (fun row => idx.map (cell row)), 0⟩

def isDesc (dir : String) : Bool := GoStrings.equalFold dir "desc"

/-- The order of two rows by the terms, each with the position of its column: NULLs last
whatever the direction. -/
def sortCompare : List (OrderTerm × Nat) → Row → Row → Except EvalError Ordering
  | [], _, _ => .ok .eq
  | (t, i) :: terms, a, b =>
    let x := cell a i
    let y := cell b i
    if isNull x != isNull y then .ok (if isNull y then .lt else .gt)
    else do
      let c ← compareForSort x y
      let c := if isDesc t.dir then c.swap else c
      if c = .eq then sortCompare terms a b else return c

def sortLE (terms : List (OrderTerm × Nat)) (a b : Row) : Bool :=
  match sortCompare terms a b with
  | .ok .gt => false
  | _ => true

def sortErr (terms : List (OrderTerm × Nat)) : List Row → Except EvalError Unit
  | [] => .ok ()
  | a :: rows => do
    rows.forM (fun b => do let _ ← sortCompare terms a b)
    sortErr terms rows

/-- τ: a stable sort. Go's sort compares every two rows that end next to each other, and
values that compare without error are of one type; so some comparison it makes fails
exactly when some two rows do not compare. -/
def sortRows (input : Relation) (orderBy : List OrderTerm) : Except EvalError Relation := do
  let idx ← orderBy.mapM (fun t => colIndex input.cols t.field)
  let terms := orderBy.zip idx
  sortErr terms input.rows
  return { input with rows := input.rows.insertionSort (fun a b => sortLE terms a b) }

def limitRows (input : Relation) (count offset : Int) : Except EvalError Relation :=
  if count < 1 ∨ offset < 0 then .error (.badLimit count offset)
  else .ok { input with rows := (input.rows.drop offset.toNat).take count.toNat }

/-- The loop of `evalDistinct`, from the keys seen so far. -/
def distinctFrom : List Row → List String → Except EvalError (List Row)
  | [], _ => .ok []
  | row :: rows, seen => do
    let key ← rowKey row
    if seen.contains key then distinctFrom rows seen
    else return row :: (← distinctFrom rows (key :: seen))

def distinctRows (input : Relation) : Except EvalError Relation := do
  let rows ← distinctFrom input.visible.rows []
  return ⟨input.visible.cols, rows, 0⟩

def extendRow (leftCols : List String) (right : Relation) (aliasName : String) (on : List JoinPair)
    (p : Predicate) (row : Row) : Except EvalError Row := do
  let found ← matching leftCols row right on (fun candidate => evalPredicate emptyDB right.cols candidate p)
  match found with
  | [] => return row ++ List.replicate right.cols.length .null
  | [m] => return row ++ m
  | _ => .error (.joinCardinality aliasName)

/-- ⟕: the right side's columns are named `alias.column` and hidden. -/
def joinRows (input right : Relation) (aliasName : String) (on : List JoinPair) (p : Predicate) :
    Except EvalError Relation := do
  let rows ← input.rows.mapM (extendRow input.cols right aliasName on p)
  return ⟨input.cols ++ right.cols.map (joinName aliasName), rows, input.hidden + right.cols.length⟩

def AggCall.outName (a : AggCall) : String := if a.name = "" then a.func.text else a.name

def aggregateCols (groupBy : List String) (aggregates : List AggCall) : List String :=
  groupBy ++ aggregates.map AggCall.outName

def addToGroup (key : String) (row : Row) : List (String × List Row) → List (String × List Row)
  | [] => [(key, [row])]
  | g :: gs => if g.1 = key then (key, g.2 ++ [row]) :: gs else g :: addToGroup key row gs

/-- The loop of `groupRows`: the groups in the order they are first seen. -/
def groupRowsFrom (idx : List Nat) : List Row → List (String × List Row) →
    Except EvalError (List (String × List Row))
  | [], groups => .ok groups
  | row :: rows, groups => do
    let key ← rowKey (idx.map (cell row))
    groupRowsFrom idx rows (addToGroup key row groups)

/-- The loop of `aggregateInput`: the values that are not NULL, without repetition when
the call is DISTINCT. -/
def aggregateValues (distinct : Bool) : List Value → List String → Except EvalError (List Value)
  | [], _ => .ok []
  | .null :: vs, seen => aggregateValues distinct vs seen
  | v :: vs, seen =>
    if distinct then do
      let key ← valueKey v
      if seen.contains key then aggregateValues distinct vs seen
      else return v :: (← aggregateValues distinct vs (key :: seen))
    else do return v :: (← aggregateValues distinct vs seen)

def aggregateInput (cols : List String) (rows : List Row) (call : AggCall) : Except EvalError (List Value) := do
  let i ← colIndex cols call.field
  aggregateValues call.distinct (rows.map (cell · i)) []

def sumFrom : List Value → Rat → Except EvalError Rat
  | [], total => .ok total
  | v :: vs, total =>
    match toRat v with
    | some q => sumFrom vs (total + q)
    | none => .error (.incomparable v v)

def sumValues (values : List Value) : Except EvalError Value :=
  if values.isEmpty then .ok .null else do return .num (← sumFrom values 0)

def avgValues (values : List Value) : Except EvalError Value :=
  if values.isEmpty then .ok .null else do return .num ((← sumFrom values 0) / values.length)

def minMaxFrom (min : Bool) : List Value → Value → Except EvalError Value
  | [], best => .ok best
  | v :: vs, best => do
    let c ← compareValues v best
    minMaxFrom min vs (if (min ∧ c = .lt) ∨ (¬ min ∧ c = .gt) then v else best)

def minMaxValues (values : List Value) (min : Bool) : Except EvalError Value :=
  match values with
  | [] => .ok .null
  | v :: vs => minMaxFrom min vs v

def aggregateCall (cols : List String) (rows : List Row) (call : AggCall) : Except EvalError Value :=
  if !call.func.valid then .error (.invalidAggFunc call.func)
  else if call.func = .count ∧ call.field = "" then .ok (.num rows.length)
  else do
    let values ← aggregateInput cols rows call
    match call.func with
    | .count => return .num values.length
    | .sum => sumValues values
    | .avg => avgValues values
    | f => minMaxValues values (f = .min)

def aggregateRow (cols : List String) (rows : List Row) (idx : List Nat) (aggregates : List AggCall) :
    Except EvalError Row := do
  let keys := match rows with
    | [] => []
    | row :: _ => idx.map (cell row)
  return keys ++ (← aggregates.mapM (aggregateCall cols rows))

def aggregateRows (input : Relation) (groupBy : List String) (aggregates : List AggCall) :
    Except EvalError Relation := do
  let idx ← groupBy.mapM (colIndex input.cols)
  let groups ← groupRowsFrom idx input.rows []
  let groups := if groupBy = [] ∧ groups = [] then [("", [])] else groups
  let rows ← groups.mapM (fun g => aggregateRow input.cols g.2 idx aggregates)
  return ⟨aggregateCols groupBy aggregates, rows, 0⟩

/-- The input of a HAVING must be an aggregate. -/
def isAggregate : Expr → Bool
  | .aggregate .. => true
  | _ => false

def eval (db : DB) : Expr → Except EvalError Relation
  | .scan r _ => scan db r
  | .select input p => do selectRows db (← eval db input) p
  | .project input items => do projectRows (← eval db input) items
  | .aggregate input groupBy aggregates => do aggregateRows (← eval db input) groupBy aggregates
  | .sort input orderBy => do sortRows (← eval db input) orderBy
  | .limit input count offset => do limitRows (← eval db input) count offset
  | .distinct input => do distinctRows (← eval db input)
  | .having input p =>
    if isAggregate input then do selectRows db (← eval db input) p else .error (.unsupported "HAVING")
  | .join input right aliasName on p => do
    let left ← eval db input
    joinRows left (← scan db right) aliasName on p

def evalResult (db : DB) (e : Expr) : Except EvalError Relation := do
  return (← eval db e).visible

end SqlMcpServer.Interp
