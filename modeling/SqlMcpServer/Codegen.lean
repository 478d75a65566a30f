import SqlMcpServer.Lib.Except
import SqlMcpServer.Lib.GoStrings
import SqlMcpServer.Sql.Syntax

/-!
# Code generation

`core/codegen` for reads: a chain of nodes is flattened into the parts of one SELECT, which is
then written clause by clause.
-/

namespace SqlMcpServer.Codegen

open Except (refuseIf)
open Relalg Sql

inductive CodegenError where
  /-- `ErrUnsupportedExpr: %s` -/
  | unsupportedExpr (what : String)
  /-- `limit %d offset %d: limit must be positive and offset not negative` -/
  | badLimit (count offset : Int)
  | invalidPredicate (e : PredicateError)
  /-- `ErrInvalidAggFunc: %q` -/
  | invalidAggFunc (func : AggFunc)
  /-- `ErrInvalidAggFunc: %s without a field` -/
  | aggWithoutField (func : AggFunc)
  /-- `IN value is nil`, or `IN value must be []any, got %T` -/
  | inValue (v : Value)
  /-- `empty IN list` -/
  | emptyIn
  /-- `ErrINCardinality: got %d values, maximum %d` -/
  | inCardinality (got maximum : Int)
  /-- `ErrINCardinality: maximum must be positive` -/
  | maximumNotPositive

structure JoinNode where
  right : RelationRef
  aliasName : String
  on : List JoinPair
  rightPred : Predicate

structure SelectCtx where
  relation : RelationRef
  scanAlias : String
  joins : List JoinNode
  wherePreds : List Predicate
  cols : List ProjectItem
  order : List OrderTerm
  groupBy : List String
  aggregates : List AggCall
  /-- `nil` for none. -/
  having : Predicate
  limit : Option (Int × Int)
  distinct : Bool
  rank : Nat

def SelectCtx.start (relation : RelationRef) (scanAlias : String) : SelectCtx :=
  ⟨relation, scanAlias, [], [], [], [], [], [], .nil, none, false, 0⟩

/-- The place of a node in a read chain, from the innermost out, and whether it may repeat. -/
def rankOf : Expr → Nat × Bool
  | .scan .. => (0, false)
  | .join .. => (1, true)
  | .select .. => (2, true)
  | .aggregate .. => (3, false)
  | .having .. => (4, false)
  | .sort .. => (5, false)
  | .project .. => (6, false)
  | .distinct .. => (7, false)
  | .limit .. => (8, false)

/-- `rootAlias` names the read's own relation when it joins or nests another. -/
def rootAlias : String := "_"

/-- The check of `flatten` that a node comes in a SELECT's order, after the node's own. -/
def atRank (e : Expr) (ctx : SelectCtx) : Except CodegenError SelectCtx :=
  let (rank, repeats) := rankOf e
  if rank < ctx.rank ∨ (ctx.rank = rank ∧ !repeats) then
    .error (.unsupportedExpr "node over a node a SELECT applies after it")
  else .ok { ctx with rank }

/-- `flatten` with `flattenNode`, `flattenHaving` and `flattenJoin`. -/
def flatten : Expr → Except CodegenError SelectCtx
  | .scan r scanAlias => .ok (.start r scanAlias)
  | .select input p =>
    if p.isNil then .error (.unsupportedExpr "a selection without a predicate")
    else do
      let ctx ← flatten input
      atRank (.select input p) { ctx with wherePreds := ctx.wherePreds ++ [p] }
  | .project input items => do
    let ctx ← flatten input
    refuseIf (ctx.aggregates ≠ [] ∨ ctx.groupBy ≠ []) (.unsupportedExpr "a projection over an aggregate")
    atRank (.project input items) { ctx with cols := items }
  | .sort input orderBy => do
    let ctx ← flatten input
    atRank (.sort input orderBy) { ctx with order := orderBy }
  | .limit input count offset => do
    refuseIf (count < 1 ∨ offset < 0) (.badLimit count offset)
    let ctx ← flatten input
    atRank (.limit input count offset) { ctx with limit := some (count, offset) }
  | .distinct input => do
    let ctx ← flatten input
    atRank (.distinct input) { ctx with distinct := true }
  | .aggregate input groupBy aggregates => do
    let ctx ← flatten input
    atRank (.aggregate input groupBy aggregates) { ctx with groupBy, aggregates }
  | .having input p => do
    refuseIf (!(match input with | .aggregate .. => true | _ => false) ∨ p.isNil)
      (.unsupportedExpr "HAVING needs an aggregate and a predicate")
    let ctx ← flatten input
    atRank (.having input p) { ctx with having := p }
  | .join input right aliasName on p => do
    refuseIf (aliasName = "" ∨ aliasName = rootAlias ∨ on = [])
      (.unsupportedExpr "a join needs its own alias and its columns")
    let ctx ← flatten input
    refuseIf (aliasName ∈ ctx.joins.map JoinNode.aliasName) (.unsupportedExpr "alias joined twice")
    atRank (.join input right aliasName on p) { ctx with joins := ctx.joins ++ [⟨right, aliasName, on, p⟩] }

/-- How names are written: the root alias (empty when columns are not qualified), the join
aliases, and the aggregate calls in scope. -/
structure Names where
  root : String
  joins : List String
  outputs : List (String × Call)

/-- `qualify`: whether the read joins or filters by EXISTS, and what then names its own
relation. -/
def SelectCtx.root (ctx : SelectCtx) : String :=
  if ctx.joins ≠ [] ∨ hasExists ctx.having ∨ ctx.wherePreds.any hasExists then
    if ctx.scanAlias ≠ "" then ctx.scanAlias else rootAlias
  else ""

/-- The column a name refers to; `scope` is the alias of the EXISTS or the join whose
predicate is written, empty outside. -/
def Names.col (ns : Names) (scope name : String) : Col :=
  if scope ≠ "" then .of scope name
  else
    match cutDot name with
    | some (aliasName, column) =>
      if aliasName ∈ ns.joins then .of aliasName column
      else if ns.root ≠ "" then .of ns.root name else .bare name
    | none => if ns.root ≠ "" then .of ns.root name else .bare name

def Names.column (ns : Names) (scope name : String) : Term :=
  match ns.outputs.reverse.lookup name with
  | some call => if scope = "" then .call call else .col (ns.col scope name)
  | none => .col (ns.col scope name)

/-- The builder's state: the arguments bound so far, as many as placeholders written, and
the EXISTS written so far. -/
structure Builder where
  args : List Value
  exists_ : Nat

def Builder.bind (b : Builder) (vs : List Value) : List Nat × Builder :=
  (List.range' b.args.length vs.length, { b with args := b.args ++ vs })

def toValues : Value → Except CodegenError (List Value)
  | .list vs => .ok vs
  | v => .error (.inValue v)

def renderCondition (maxIN : Int) (ns : Names) (scope : String) (c : Condition) (b : Builder) :
    Except CodegenError (Pred × Builder) :=
  let t := ns.column scope c.field
  match c.op with
  | .isNull | .isNotNull => .ok (.cond t c.op [], b)
  | .isIn | .notIn => do
    let vs ← toValues c.value
    refuseIf (vs = []) .emptyIn
    refuseIf (maxIN < vs.length) (.inCardinality vs.length maxIN)
    let (placeholders, b) := b.bind vs
    return (.cond t c.op placeholders, b)
  | op =>
    let (placeholders, b) := b.bind [c.value]
    .ok (.cond t op placeholders, b)

def renderPairs (ns : Names) (scope : String) (on : List JoinPair) : List (String × Col) :=
  on.map fun p => (p.right, ns.col scope p.left)

mutual
def renderPredicate (maxIN : Int) (ns : Names) (scope : String) : Predicate → Builder →
    Except CodegenError (Pred × Builder)
  | .nil, b => .ok (.empty, b)
  | .cond c, b => renderCondition maxIN ns scope c b
  | .and ps, b => do
    let (qs, b) ← renderPredicates maxIN ns scope ps b
    return (.and qs, b)
  | .or ps, b => do
    let (qs, b) ← renderPredicates maxIN ns scope ps b
    return (.or qs, b)
  | .not p, b => do
    let (q, b) ← renderPredicate maxIN ns scope p b
    return (.not q, b)
  | .ex r on p, b =>
    if scope ≠ "" then .error (.unsupportedExpr "EXISTS does not nest")
    else
      let aliasName := "x" ++ toString (b.exists_ + 1)
      let b := { b with exists_ := b.exists_ + 1 }
      if p.isNil then .ok (.ex r aliasName (renderPairs ns scope on) none, b)
      else do
        let (q, b) ← renderPredicate maxIN ns aliasName p b
        return (.ex r aliasName (renderPairs ns scope on) (some q), b)

def renderPredicates (maxIN : Int) (ns : Names) (scope : String) : List Predicate → Builder →
    Except CodegenError (List Pred × Builder)
  | [], b => .ok ([], b)
  | p :: ps, b => do
    let (q, b) ← renderPredicate maxIN ns scope p b
    let (qs, b) ← renderPredicates maxIN ns scope ps b
    return (q :: qs, b)
end

def validate (maxIN : Int) (p : Predicate) : Except CodegenError Unit :=
  match validatePredicateWithMaxINCardinality p maxIN with
  | .error e => .error (.invalidPredicate e)
  | .ok () => .ok ()

/-- `aggregateCall`: only COUNT has no field. -/
def aggregateCall (ns : Names) (a : AggCall) : Except CodegenError Call := do
  refuseIf (!a.func.valid) (.invalidAggFunc a.func)
  if a.field ≠ "" then return ⟨a.func, a.distinct, some (ns.col "" a.field)⟩
  else if a.func ≠ .count then .error (.aggWithoutField a.func)
  else return ⟨a.func, a.distinct, none⟩

def selectItems (ns : Names) (ctx : SelectCtx) : Except CodegenError Items := do
  if ctx.aggregates ≠ [] ∨ ctx.groupBy ≠ [] then
    let calls ← ctx.aggregates.mapM (aggregateCall ns)
    return .terms (ctx.groupBy.map (fun g => (.col (ns.col "" g), "")) ++ calls.map fun a => (.call a, ""))
  else if ctx.cols ≠ [] then
    return .terms (ctx.cols.map fun item => (.col (ns.col "" item.field), item.aliasName))
  else if ctx.joins ≠ [] then return .starOf ns.root
  else return .star

def renderJoin (maxIN : Int) (ns : Names) (j : JoinNode) (b : Builder) : Except CodegenError (Join × Builder) := do
  validate maxIN j.rightPred
  let on := renderPairs ns "" j.on
  if j.rightPred.isNil then return (⟨j.right, j.aliasName, on, none⟩, b)
  else
    let (q, b) ← renderPredicate maxIN ns j.aliasName j.rightPred b
    return (⟨j.right, j.aliasName, on, some q⟩, b)

def renderJoins (maxIN : Int) (ns : Names) : List JoinNode → Builder → Except CodegenError (List Join × Builder)
  | [], b => .ok ([], b)
  | j :: js, b => do
    let (r, b) ← renderJoin maxIN ns j b
    let (rs, b) ← renderJoins maxIN ns js b
    return (r :: rs, b)

def wherePred : List Predicate → Option Predicate
  | [] => none
  | [p] => some p
  | ps => some (.and ps)

def renderClause (maxIN : Int) (ns : Names) (p : Option Predicate) (b : Builder) :
    Except CodegenError (Option Pred × Builder) :=
  match p with
  | none => .ok (none, b)
  | some p => do
    let (q, b) ← renderPredicate maxIN ns "" p b
    return (some q, b)

def outputCalls (ns : Names) (aggregates : List AggCall) : Except CodegenError (List (String × Call)) :=
  (aggregates.filter (·.name ≠ "")).mapM fun a => do return (a.name, ← aggregateCall ns a)

def orderItems (nullsLast : Bool) (ns : Names) (t : OrderTerm) : List OrderItem :=
  let col := ns.column "" t.field
  (if t.nullable ∧ !nullsLast then [.nullCase col] else []) ++
    [.term col (GoStrings.equalFold t.dir "desc") (t.nullable && nullsLast)]

structure Config where
  nullsLast : Bool
  maxINCardinality : Int

structure Compiled where
  select : Select
  args : List Value

def renderSelect (cfg : Config) (e : Expr) : Except CodegenError Compiled := do
  let ctx ← flatten e
  let maxIN := cfg.maxINCardinality
  (ctx.wherePreds ++ [ctx.having]).forM (validate maxIN)
  let ns : Names := ⟨ctx.root, ctx.joins.map JoinNode.aliasName, []⟩
  let items ← selectItems ns ctx
  let (joins, b) ← renderJoins maxIN ns ctx.joins ⟨[], 0⟩
  let (filter, b) ← renderClause maxIN ns (wherePred ctx.wherePreds) b
  let outputs ← outputCalls ns ctx.aggregates
  let (having, b) ← renderClause maxIN { ns with outputs } (if ctx.having.isNil then none else some ctx.having) b
  return {
    select := {
      distinct := ctx.distinct
      items
      table := ctx.relation
      aliasName := if ctx.scanAlias ≠ "" then ctx.scanAlias else ns.root
      joins
      filter
      groupBy := ctx.groupBy.map (ns.col "")
      having
      orderBy := ctx.order.flatMap (orderItems cfg.nullsLast { ns with outputs })
      limit := ctx.limit }
    args := b.args }

/-- `Renderer.Compile` of a read. -/
def compile (cfg : Config) (e : Expr) : Except CodegenError Compiled :=
  if cfg.maxINCardinality ≤ 0 then .error .maximumNotPositive else renderSelect cfg e

end SqlMcpServer.Codegen
