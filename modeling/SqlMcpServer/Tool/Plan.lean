import SqlMcpServer.Tool.Order

/-!
# Plans of reads and aggregates

`tools_read_impl.go` and `tools_aggregate_impl.go` up to the IR expression a request compiles to.
-/

namespace SqlMcpServer.Tool

open Except (bind_eq_ok refuseIf pure_eq_ok)
open Relalg

/-- Resolves the entity of a request, routes to it and reads the request's filter, whose
conditions then name columns. -/
def planEntity (tc : Context) (name : String) (action : Action) (filter : List Cond) :
    Except ToolError (Resolved × Predicate) := do
  let res ← resolveDMLEntity tc name
  tc.route res.entity action
  let pred ← filterToPredicate filter tc.maxFilterConditions
  refuseIf (action ≠ .read ∧ action ≠ .aggregate ∧ hasExists pred = true) .existsInWrite
  let pred ← coercePredicate tc.parsers res.entity (columnsPredicate res.entity pred)
  return (res, pred)

def expandJoinColumns (e : Entity) (names : List String) : List String :=
  firstOccurrences (names.flatMap fun name =>
    match relationshipByName e name with
    | some r => (relationJoin r).locals
    | none => [])

def readFieldNames (res : Resolved) (input : ReadInput) : Except ToolError (List String × List String) :=
  match input.expand.find? fun name => (relationshipByName res.entity name).isNone with
  | some name => .error (.unknownRelationship name)
  | none =>
    let locals := expandJoinColumns res.entity input.expand
    let projection :=
      if input.fields = [] then input.fields
      else input.fields ++ locals.filter fun l => !input.fields.contains l
    .ok (filterFields input.filter ++ input.fields ++ locals ++ sorted input.cursor.keys, projection)

def checkExpansions (tc : Context) (parent : Entity) : List String → Except ToolError Unit
  | [] => .ok ()
  | name :: names =>
    match relationshipByName parent name with
    | none => .error (.joinsOnNoField name)
    | some r => do
      refuseIf (r.joinOn = []) (.joinsOnNoField name)
      let target ← resolveDMLEntity tc r.target
      FieldUses.check { compared := (relationJoin r).target } target
      refuseIf (target.entity.dataSource ≠ parent.dataSource) (.crossDatasource name)
      checkExpansions tc parent names

def checkReadUses (tc : Context) (res : Resolved) (input : ReadInput) (readFields locals : List String) :
    Except ToolError Unit := do
  let own := (splitPaths res.entity (filterFields input.filter ++ sorted input.cursor.keys)).1
  FieldUses.check
    { read := readFields, compared := own ++ locals ++ expandJoinColumns res.entity input.expand } res
  checkExpansions tc res.entity input.expand

def authorizeRead (tc : Context) (res : Resolved) (input : ReadInput) (req : Rbac.Request) :
    Except ToolError Rbac.Decision := do
  let g ← authorizeRequest tc req
  FieldUses.check { compared := if input.distinct then g.fields else [] } res
  return g

structure ReadPlan where
  res : Resolved
  pred : Predicate
  keyset : Predicate
  keysetCols : List String
  order : ReadOrder
  rel : Related
  grant : Rbac.Decision
  projectionFields : List String
  targets : List RowFilter

def ReadPlan.full (plan : ReadPlan) : Predicate :=
  andPreds (andPreds plan.pred plan.grant.rowFilter) plan.keyset

def ReadPlan.rowFilters (plan : ReadPlan) : List RowFilter :=
  (plan.res.entity, plan.grant.rowFilter) :: plan.targets

def prepareReadPlan (tc : Context) (input : ReadInput) : Except ToolError ReadPlan := do
  let (res, pred) ← planEntity tc input.entity .read input.filter
  let (readFields, projectionFields) ← readFieldNames res input
  match (splitPaths res.entity input.fields).2 with
  | path :: _ => .error (.relatedProjection path)
  | [] =>
    let (readFields, paths) := splitPaths res.entity readFields
    let orderPaths := (splitPaths res.entity (input.orderBy.map (·.field))).2
    let related ← relate tc res.entity pred (paths ++ orderPaths)
    let readFields := readFields ++ related.locals
    checkReadUses tc res input readFields related.locals
    let req : Rbac.Request :=
      { role := tc.role, subject := tc.subject, entity := input.entity, action := .read,
        fields := projectionFields, readFields }
    let (order, req) ← orderRead tc res input req related.rel
    let grant ← authorizeRead tc res input req
    let (keyset, keysetCols) ← readCursor tc res.entity order input
    return { res, pred := related.pred, keyset, keysetCols, order, rel := related.rel, grant,
             projectionFields := req.fields, targets := related.filters }

structure ReadPlanned (tc : Context) (input : ReadInput) (plan : ReadPlan) where
  request : Predicate
  readFields : List String
  projection : List String
  related : Relations
  req : Rbac.Request
  entity_ok : planEntity tc input.entity .read input.filter = .ok (plan.res, request)
  fields_ok : readFieldNames plan.res input = .ok (readFields, projection)
  own : (splitPaths plan.res.entity input.fields).2 = []
  relate_ok : relate tc plan.res.entity request ((splitPaths plan.res.entity readFields).2 ++
    (splitPaths plan.res.entity (input.orderBy.map (·.field))).2) = .ok related
  uses_ok : checkReadUses tc plan.res input ((splitPaths plan.res.entity readFields).1 ++ related.locals)
    related.locals = .ok ()
  order_ok : orderRead tc plan.res input
    { role := tc.role, subject := tc.subject, entity := input.entity, action := .read, fields := projection,
      readFields := (splitPaths plan.res.entity readFields).1 ++ related.locals } related.rel = .ok (plan.order, req)
  grant_ok : authorizeRead tc plan.res input req = .ok plan.grant
  cursor_ok : readCursor tc plan.res.entity plan.order input = .ok (plan.keyset, plan.keysetCols)
  pred_eq : plan.pred = related.pred
  rel_eq : plan.rel = related.rel
  targets_eq : plan.targets = related.filters

lemma prepareReadPlan_ok {tc : Context} {input : ReadInput} {plan : ReadPlan}
    (h : prepareReadPlan tc input = .ok plan) : Nonempty (ReadPlanned tc input plan) := by
  obtain ⟨⟨res, request⟩, hentity, h⟩ := bind_eq_ok.mp h
  obtain ⟨⟨readFields, projection⟩, hfields, h⟩ := bind_eq_ok.mp h
  simp only at h
  split at h
  · cases h
  · rename_i hown
    obtain ⟨related, hrelate, h⟩ := bind_eq_ok.mp h
    obtain ⟨_, huses, h⟩ := bind_eq_ok.mp h
    obtain ⟨⟨order, req⟩, horder, h⟩ := bind_eq_ok.mp h
    obtain ⟨grant, hgrant, h⟩ := bind_eq_ok.mp h
    obtain ⟨⟨keyset, keysetCols⟩, hcursor, h⟩ := bind_eq_ok.mp h
    rw [pure_eq_ok, Except.ok.injEq] at h
    subst h
    exact ⟨⟨request, readFields, projection, related, req, hentity, hfields, hown, hrelate, huses, horder, hgrant,
      hcursor, rfl, rfl, rfl⟩⟩

/-- The input of the expression above the scan and its joins: filtered unless there is
nothing to filter by. -/
def selected (expr : Expr) (full : Predicate) : Expr := if full.isNil then expr else .select expr full

def ReadPlan.orderTerms (plan : ReadPlan) : List OrderTerm :=
  if plan.order.terms ≠ [] then plan.order.terms else plan.keysetCols.map (⟨·, "asc", false⟩)

def sortedBy (expr : Expr) (terms : List OrderTerm) : Expr := if terms = [] then expr else .sort expr terms

def limited (expr : Expr) (limit offset : Int) : Expr := if 0 < limit then .limit expr limit offset else expr

def buildReadExpression (input : ReadInput) (plan : ReadPlan) : Expr :=
  let expr := selected (wrap plan.rel.joins (.scan plan.res.entity.ref "")) plan.full
  let expr := .project (sortedBy expr plan.orderTerms) (projectItems plan.res.entity plan.grant.fields)
  limited (if input.distinct then .distinct expr else expr) input.limit input.offset

structure AggJSON where
  func : String
  field : String := ""
  distinct : Bool := false
deriving DecidableEq, Repr

structure AggregateInput where
  entity : String
  groupBy : List String := []
  aggregates : List AggJSON := []
  filter : List Cond := []
  having : List Cond := []
  orderBy : List OrderJSON := []
  limit : Int := 0
  transaction : String := ""

def aggFuncOf : String → AggFunc
  | "count" => .count
  | "sum" => .sum
  | "avg" => .avg
  | "min" => .min
  | "max" => .max
  | name => .invalid name

structure AggregatePlan where
  res : Resolved
  pred : Predicate
  rel : Related
  grant : Rbac.Decision
  targets : List RowFilter

def AggregatePlan.full (plan : AggregatePlan) : Predicate := andPreds plan.pred plan.grant.rowFilter

def AggregatePlan.rowFilters (plan : AggregatePlan) : List RowFilter :=
  (plan.res.entity, plan.grant.rowFilter) :: plan.targets

def aggregateFieldNames (input : AggregateInput) : List String :=
  filterFields input.filter ++ input.groupBy ++ (input.aggregates.map (·.field)).filter (· ≠ "")

def prepareAggregate (tc : Context) (input : AggregateInput) : Except ToolError AggregatePlan := do
  let (res, pred) ← planEntity tc input.entity .aggregate input.filter
  let (aggFields, paths) := splitPaths res.entity (aggregateFieldNames input)
  match input.aggregates.find? fun a => (pathOf res.entity a.field).isSome with
  | some a => .error (.relatedAggregate a.field)
  | none =>
    let related ← relate tc res.entity pred paths
    let aggFields := aggFields ++ related.locals
    FieldUses.check { compared := aggFields } res
    let grant ← authorizeRequest tc { role := tc.role, subject := tc.subject, entity := input.entity,
                                      action := .aggregate, readFields := aggFields }
    return { res, pred := related.pred, rel := related.rel, grant, targets := related.filters }

structure AggregatePlanned (tc : Context) (input : AggregateInput) (plan : AggregatePlan) where
  request : Predicate
  related : Relations
  entity_ok : planEntity tc input.entity .aggregate input.filter = .ok (plan.res, request)
  own : ∀ a ∈ input.aggregates, (pathOf plan.res.entity a.field).isNone
  relate_ok : relate tc plan.res.entity request (splitPaths plan.res.entity (aggregateFieldNames input)).2 =
    .ok related
  uses_ok : FieldUses.check
    { compared := (splitPaths plan.res.entity (aggregateFieldNames input)).1 ++ related.locals } plan.res = .ok ()
  grant_ok : authorizeRequest tc
    { role := tc.role, subject := tc.subject, entity := input.entity, action := .aggregate,
      readFields := (splitPaths plan.res.entity (aggregateFieldNames input)).1 ++ related.locals } = .ok plan.grant
  pred_eq : plan.pred = related.pred
  rel_eq : plan.rel = related.rel
  targets_eq : plan.targets = related.filters

lemma prepareAggregate_ok {tc : Context} {input : AggregateInput} {plan : AggregatePlan}
    (h : prepareAggregate tc input = .ok plan) : Nonempty (AggregatePlanned tc input plan) := by
  obtain ⟨⟨res, request⟩, hentity, h⟩ := bind_eq_ok.mp h
  simp only at h
  split at h
  · cases h
  · rename_i hown
    obtain ⟨related, hrelate, h⟩ := bind_eq_ok.mp h
    obtain ⟨_, huses, h⟩ := bind_eq_ok.mp h
    obtain ⟨grant, hgrant, h⟩ := bind_eq_ok.mp h
    rw [pure_eq_ok, Except.ok.injEq] at h
    subst h
    refine ⟨⟨request, related, hentity, fun a ha => ?_, hrelate, huses, hgrant, rfl, rfl, rfl⟩⟩
    simpa using List.find?_eq_none.mp hown a ha

/-- The result column of an aggregate: `count`, `count_distinct_f` or `func_f`. -/
def aggregateColumn (a : AggJSON) : String :=
  if a.field = "" then a.func
  else if a.distinct then a.func ++ "_distinct_" ++ a.field
  else a.func ++ "_" ++ a.field

/-- The loop of `aggregateCalls`, from the calls compiled so far. -/
def aggregateCallsFrom (groupBy : List String) : List AggJSON → List AggCall → Except ToolError (List AggCall)
  | [], calls => .ok calls
  | a :: rest, calls =>
    let f := aggFuncOf a.func
    let name := aggregateColumn a
    if !f.valid then .error (.aggregateFunc a.func)
    else if a.field = "" ∧ f ≠ .count then .error (.aggregateNeedsField a.func)
    else if a.distinct ∧ (f ≠ .count ∨ a.field = "") then .error .distinctCounts
    else if groupBy.contains name then .error (.aggregateNamesGroup name)
    else if (calls.map (·.name)).contains name then .error (.aggregateTwice name)
    else aggregateCallsFrom groupBy rest (calls ++ [⟨f, a.field, a.distinct, name⟩])

def aggregateCalls (aggregates : List AggJSON) (groupBy : List String) : Except ToolError (List AggCall) :=
  if aggregates = [] ∧ groupBy = [] then .error .nothingAggregated
  else aggregateCallsFrom groupBy aggregates []

/-- Whether a result column may be NULL: an aggregate other than a count, or a nullable
group-by field. -/
def resultNullable (res : Resolved) (calls : List AggCall) (name : String) : Bool :=
  match calls.find? (·.name == name) with
  | some a => a.func != .count
  | none =>
    match res.entity.attributeByName name with
    | some a => a.domain.nullable
    | none => true

def aggregateTerms (res : Resolved) (calls : List AggCall) (columns : List String) (toIR : Related) :
    List OrderJSON → Except ToolError (List OrderTerm)
  | [] => .ok []
  | t :: ts =>
    match directionOf t.dir with
    | none => .error (.aggregateOrder t.field t.dir)
    | some dir =>
      if !columns.contains t.field then .error (.aggregateOrder t.field t.dir)
      else do
        let rest ← aggregateTerms res calls columns toIR ts
        return ⟨toIR.field t.field, dir, resultNullable res calls (toIR.field t.field)⟩ :: rest

def aggregateShape (tc : Context) (res : Resolved) (input : AggregateInput) (expr : Expr) (groupBy : List String)
    (calls : List AggCall) (toIR : Related) : Except ToolError Expr := do
  let columns := input.groupBy ++ calls.map (·.name)
  let agg := Expr.aggregate expr groupBy (calls.map fun c => { c with field := columnOf res.entity c.field })
  let having ← filterToPredicate input.having tc.maxFilterConditions
  refuseIf (hasExists having = true) .havingExists
  match (fields having).find? fun f => !columns.contains f with
  | some f => .error (.havingField f)
  | none =>
    let expr := if having.isNil then agg else .having agg (toIR.renamed having)
    refuseIf (maxOrderTerms < input.orderBy.length) .tooManyOrderTerms
    let terms ← aggregateTerms res calls columns toIR input.orderBy
    refuseIf (input.limit < 0) .negativeLimit
    return limited (sortedBy expr terms) input.limit 0

def aggregateExpression (tc : Context) (plan : AggregatePlan) (input : AggregateInput) : Except ToolError Expr := do
  let expr := selected (wrap plan.rel.joins (.scan plan.res.entity.ref "")) plan.full
  let calls ← aggregateCalls input.aggregates input.groupBy
  let groupBy := input.groupBy.map fun g => plan.rel.field (columnOf plan.res.entity g)
  let toIR : Related := { rename := input.groupBy.zip groupBy }
  match (input.groupBy.zip groupBy).find? fun g => (calls.map (·.name)).contains g.2 with
  | some g => .error (.groupNamesAggregate g.1 g.2)
  | none => aggregateShape tc plan.res input expr groupBy calls toIR

/-- What an aggregate's expression is: the calls on the groups, filtered, ordered and cut. -/
structure AggregateShaped (tc : Context) (plan : AggregatePlan) (input : AggregateInput) (expr : Expr) where
  calls : List AggCall
  having : Predicate
  terms : List OrderTerm
  calls_ok : aggregateCalls input.aggregates input.groupBy = .ok calls
  having_ok : filterToPredicate input.having tc.maxFilterConditions = .ok having
  having_plain : hasExists having = false
  having_fields : ∀ f ∈ fields having, f ∈ input.groupBy ++ calls.map (·.name)
  toIR : Related
  toIR_eq : toIR = { rename := input.groupBy.zip (input.groupBy.map fun g =>
    plan.rel.field (columnOf plan.res.entity g)) }
  terms_ok : aggregateTerms plan.res calls (input.groupBy ++ calls.map (·.name)) toIR input.orderBy = .ok terms
  expr_eq : expr =
    let agg := Expr.aggregate (selected (wrap plan.rel.joins (.scan plan.res.entity.ref "")) plan.full)
      (input.groupBy.map fun g => plan.rel.field (columnOf plan.res.entity g))
      (calls.map fun c => { c with field := columnOf plan.res.entity c.field })
    limited (sortedBy (if having.isNil then agg else .having agg (toIR.renamed having)) terms) input.limit 0

lemma aggregateExpression_ok {tc : Context} {plan : AggregatePlan} {input : AggregateInput} {expr : Expr}
    (h : aggregateExpression tc plan input = .ok expr) : Nonempty (AggregateShaped tc plan input expr) := by
  simp only [aggregateExpression] at h
  obtain ⟨calls, hcalls, h⟩ := bind_eq_ok.mp h
  split at h
  · cases h
  · simp only [aggregateShape] at h
    obtain ⟨having, hhaving, h⟩ := bind_eq_ok.mp h
    obtain ⟨_, hplain, h⟩ := bind_eq_ok.mp h
    split at h
    · cases h
    · rename_i hfields
      obtain ⟨_, -, h⟩ := bind_eq_ok.mp h
      obtain ⟨terms, hterms, h⟩ := bind_eq_ok.mp h
      obtain ⟨_, -, h⟩ := bind_eq_ok.mp h
      rw [pure_eq_ok, Except.ok.injEq] at h
      refine ⟨⟨calls, having, terms, hcalls, hhaving, by simpa using hplain, fun f hf => ?_, _, rfl, hterms, h.symm⟩⟩
      have hcol := List.find?_eq_none.mp hfields f hf
      rwa [Bool.not_eq_true, Bool.not_eq_false', List.contains_iff_mem] at hcol

end SqlMcpServer.Tool
