import SqlMcpServer.Lib.HashJoin
import SqlMcpServer.Tool.JoinKey
import SqlMcpServer.Tool.Related

/-!
# Expansions

`expandOneRelationship` (tools_read_impl.go): the target rows of a relationship, queried in
batches of the parents' join values and attached to the parents by their join key.
-/

namespace SqlMcpServer.Tool
open Relalg

/-- The argument a driver's value is bound as. A float is compared by the database only. -/
def DriverValue.arg : DriverValue → Value
  | .null => .null
  | .int n => .num n
  | .text s => .str s
  | .float _ printed | .other _ printed => .other printed

/-- A table as the database serves it: which rows a WHERE clause keeps (it is TRUE on), what
a query returns and in which order, and a column as the driver returns it. AND, OR and IN are
SQL's. -/
structure Served (R : Type) (relation : RelationRef) where
  rows : List R
  keeps : Predicate → R → Bool
  query : Expr → List R
  value : R → String → DriverValue
  keeps_nil : ∀ row, keeps .nil row = true
  keeps_and : ∀ ps row, keeps (.and ps) row = ps.all fun p => keeps p row
  keeps_or : ∀ ps row, keeps (.or ps) row = ps.any fun p => keeps p row
  keeps_in : ∀ field vs row,
    keeps (.cond ⟨field, .isIn, .list vs⟩) row = vs.any fun v => keeps (.cond ⟨field, .eq, v⟩) row
  query_select : ∀ p items, (query (.project (.select (.scan relation "") p) items)).Perm (rows.filter (keeps p))
  query_limit : ∀ e n, query (.limit e n 0) = (query e).take n.toNat

inductive ExpandError where
  | tool (e : ToolError)
  /-- `budget.ErrExceeded` -/
  | exceeded

/-- What an expansion reads of the context beside planning: the target's limits, and a query
compiled and passed through the cost gate, which may bound its rows. -/
structure ExpandContext extends Context where
  maxINListSize : Int := 0
  maxRows : Int := 0
  gate : Expr → Except ToolError (Option Nat)

def effectiveMaxIN (tc : ExpandContext) : Int := if 0 < tc.maxINListSize then tc.maxINListSize else defaultMaxINCardinality

def decimalColumn (e : Entity) (column : String) : Bool :=
  match e.attributeByName column with
  | some a => isDecimalType a.domain.type
  | none => false

def decimalColumns (e : Entity) (columns : List String) : List Bool := columns.map (decimalColumn e)

/-- A row as the columns kept of it. -/
abbrev KeptRow := String → DriverValue

def rowJoinKey (lib : Strconv) (row : KeptRow) (columns : List String) (decimal : List Bool) : Option String :=
  joinKeyOf lib (columns.map row) decimal

/-- The loop of `uniqueJoinTuples`, from the keys seen so far. -/
def uniqueTuplesFrom (lib : Strconv) (columns : List String) (decimal : List Bool) :
    List KeptRow → List String → List (List DriverValue)
  | [], _ => []
  | row :: rows, seen =>
    match rowJoinKey lib row columns decimal with
    | none => uniqueTuplesFrom lib columns decimal rows seen
    | some key =>
      if key ∈ seen then uniqueTuplesFrom lib columns decimal rows seen
      else columns.map row :: uniqueTuplesFrom lib columns decimal rows (key :: seen)

def uniqueJoinTuples (lib : Strconv) (rows : List KeptRow) (columns : List String) (decimal : List Bool) :
    List (List DriverValue) := uniqueTuplesFrom lib columns decimal rows []

/-- The target rows matching tuples: an IN list for a single column, otherwise one
conjunction of equalities per tuple. -/
def joinPredicate (columns : List String) (tuples : List (List DriverValue)) : Predicate :=
  match columns with
  | [column] => .cond ⟨column, .isIn, .list (tuples.map fun t => (t.headD .null).arg)⟩
  | _ =>
    match tuples.map fun t => Predicate.and ((columns.zip t).map fun p => .cond ⟨p.1, .eq, p.2.arg⟩) with
    | [p] => p
    | ors => .or ors

def expandRequest (tc : ExpandContext) (relation : Relationship) : Rbac.Request :=
  { role := tc.role, subject := tc.subject, entity := relation.target, action := .read,
    readFields := (relationJoin relation).target }

def expandQuery (target : Resolved) (join : JoinColumns) (g : Rbac.Decision) (tuples : List (List DriverValue)) : Expr :=
  .project (.select (.scan target.entity.ref "") (andPreds (joinPredicate join.target tuples) g.rowFilter))
    (g.fields.map fun f => ⟨f, ""⟩)

def bounded (tc : ExpandContext) (e : Expr) : Expr := if 0 < tc.maxRows then .limit e (tc.maxRows + 1) 0 else e

structure Child (R : Type) where
  row : R
  fields : List String

/-- `row[c]`: nil for a column that was not selected. -/
def Child.kept {R : Type} {r : RelationRef} (table : Served R r) (child : Child R) : KeptRow := fun c =>
  if c ∈ child.fields then table.value child.row c else .null

def cutAt {R : Type} (cut : Option Nat) (rows : List R) : List R :=
  match cut with
  | some n => rows.take n
  | none => rows

inductive Attached (R : Type) where
  | one (child : Option (Child R))
  | many (children : List (Child R))

section Expand
variable {R : Type} (tc : ExpandContext) (lib : Strconv)

/-- The children of a batch: `compileExpandBatch`, then `statement.query`, refusing a row past the
limit and a batch the gate cut that reached it. -/
def expandBatch (target : Resolved) (table : Served R target.entity.ref) (relation : Relationship)
    (tuples : List (List DriverValue)) : Except ExpandError (List (Child R)) :=
  match authorizeRequest tc.toContext (expandRequest tc relation) with
  | .error e => .error (.tool e)
  | .ok g =>
    let e := bounded tc (expandQuery target (relationJoin relation) g tuples)
    match tc.gate e with
    | .error e => .error (.tool e)
    | .ok cut =>
      let rows := cutAt cut (table.query e)
      if 0 < tc.maxRows ∧ tc.maxRows < rows.length then .error .exceeded
      else if cut.isSome ∧ 0 < tc.maxRows ∧ tc.maxRows ≤ rows.length then .error .exceeded
      else .ok (rows.map fun row => ⟨row, g.fields⟩)

def batchSize (join : JoinColumns) : Nat := max 1 ((effectiveMaxIN tc).toNat / join.target.length)

def queryExpandedChildren (target : Resolved) (table : Served R target.entity.ref) (relation : Relationship)
    (tuples : List (List DriverValue)) : Except ExpandError (String → List (Child R)) :=
  let join := relationJoin relation
  let key := fun child : Child R =>
    rowJoinKey lib (child.kept table) join.target (decimalColumns target.entity join.target)
  (HashJoin.batches (batchSize tc join) tuples).foldlM (fun grouped batch => do
    let children ← expandBatch tc target table relation batch
    return children.foldl (HashJoin.add key) grouped) fun _ => []

def attachChildren (parent : Entity) (relation : Relationship) (grouped : String → List (Child R)) (row : KeptRow) :
    Attached R :=
  let join := relationJoin relation
  let children := match rowJoinKey lib row join.locals (decimalColumns parent join.locals) with
    | some key => grouped key
    | none => []
  if relation.single then .one children.head? else .many children

def attachExpandedChildren (parent : Entity) (relation : Relationship) (grouped : String → List (Child R))
    (parents : List KeptRow) : List (Attached R) := parents.map (attachChildren lib parent relation grouped)

def expandOneRelationship (tables : ∀ relation, Served R relation) (parent : Entity) (parents : List KeptRow)
    (name : String) : Except ExpandError (List (Attached R)) :=
  let relation := (relationshipByName parent name).getD ⟨"", "", "", []⟩
  match resolveDMLEntity tc.toContext relation.target with
  | .error e => .error (.tool e)
  | .ok target =>
    let join := relationJoin relation
    match tc.route target.entity .read with
    | .error e => .error (.tool e)
    | .ok () =>
      let tuples := uniqueJoinTuples lib parents join.locals (decimalColumns parent join.locals)
      let grouped := if tuples = [] then .ok fun _ => []
        else queryExpandedChildren tc lib target (tables target.entity.ref) relation tuples
      grouped.map fun grouped => attachExpandedChildren lib parent relation grouped parents

end Expand

end SqlMcpServer.Tool
