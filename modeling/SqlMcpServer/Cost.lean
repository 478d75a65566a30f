import SqlMcpServer.Codegen.Statement

/-!
# The cost gate

`core/cost`: a chain of layers a statement passes before it runs. Safety and enforcement
layers always run; a bypass skips estimate layers alone. The last layer caps the rows of a
read by its LIMIT.
-/

namespace SqlMcpServer.Cost
open Relalg Interp Sql Statement

inductive ScanType where
  | unknown | seq | index | point | full
deriving DecidableEq, Repr

structure Plan where
  estimatedRows : Int := 0
  estimatedBytes : Int := 0
  scanType : ScanType := .unknown
  hasSort : Bool := false
  hasTempTable : Bool := false
  statsFresh : Bool := false
  tableRows : Int := 0
  tableSized : Bool := false
deriving DecidableEq, Repr

structure Score where
  value : Int
  factors : List String
deriving DecidableEq, Repr

def rowPenalty (rows : Int) : Int :=
  if 10000000 < rows then 45
  else if 1000000 < rows then 35
  else if 100000 < rows then 25
  else if 10000 < rows then 15
  else 0

def Score.less (s : Score) (hit : Bool) (penalty : Int) (factor : String) : Score :=
  if hit then ⟨s.value - penalty, s.factors ++ [factor]⟩ else s

def scanScore : ScanType → Score
  | .point => ⟨100, []⟩
  | .index => ⟨85, []⟩
  | .seq => ⟨60, []⟩
  | .full => ⟨20, ["full table scan"]⟩
  | .unknown => ⟨50, ["unknown scan type"]⟩

def scorePlan (p : Plan) : Score :=
  let s := scanScore p.scanType
  let s := s.less p.hasSort 5 "sort required"
  let s := s.less p.hasTempTable 10 "temporary table"
  let s := s.less (!p.statsFresh) 15 "stale statistics"
  let s := s.less (0 < rowPenalty p.estimatedRows) (rowPenalty p.estimatedRows) "high row estimate"
  ⟨if s.value < 0 then 0 else if 100 < s.value then 100 else s.value, s.factors⟩

def Plan.scannedRowsKnown (p : Plan) : Int × Bool :=
  if p.tableSized then (max p.estimatedRows p.tableRows, true) else (p.estimatedRows, p.scanType ≠ .full)

def Plan.overScanLimit (p : Plan) (limit : Int) : Bool :=
  let (rows, known) := p.scannedRowsKnown
  0 < limit && (!known || limit < rows)

structure Threshold where
  datasource : String := ""
  dialectName : String := ""
  softScore : Int := 0
  hardScore : Int := 0
  maxRows : Int := 0
  maxBytes : Int := 0
  maxScannedRows : Int := 0
  rejectFullScan : Bool := false
  fullScanMaxRows : Int := 0
  whitelistPKPoint : Bool := false
  requirePKForWrite : Bool := false
  requireAggregatePredicate : Bool := false
  explainFailClosed : Bool := false
  requireKnownScan : Bool := false
  requireFreshStats : Bool := false
  legacyExactSQL : Bool := false
  allowTemplates : List String := []
  rejectTemplates : List String := []
deriving DecidableEq, Repr

structure Tightening where
  softScore : Int := 0
  hardScore : Int := 0
  rejectFullScan : Bool := false
  maxScannedRows : Int := 0

def Threshold.tighten (th : Threshold) (t : Tightening) : Threshold :=
  { th with
    softScore := max th.softScore t.softScore
    hardScore := max th.hardScore t.hardScore
    rejectFullScan := th.rejectFullScan || t.rejectFullScan
    maxScannedRows :=
      if 0 < t.maxScannedRows ∧ (th.maxScannedRows ≤ 0 ∨ t.maxScannedRows < th.maxScannedRows) then t.maxScannedRows
      else th.maxScannedRows }

def hints (p : Plan) (th : Threshold) : List String :=
  let (scanned, known) := p.scannedRowsKnown
  (if p.overScanLimit th.maxScannedRows then
    if known then
      ["estimated to read " ++ toString scanned ++ " rows, over the limit of " ++ toString th.maxScannedRows ++
        ": narrow the filter (a shorter time range, a more selective condition) or split the work into smaller ranges"]
    else
      ["reads a whole table whose row count is unknown, so it may exceed the limit of " ++ toString th.maxScannedRows ++
        " rows: filter on an indexed column, or ask an administrator to run ANALYZE on the table"]
  else []) ++
  (if p.scanType = .full then ["add a filter on an indexed column or add LIMIT"] else []) ++
  (if 0 < th.maxRows ∧ th.maxRows < p.estimatedRows then ["add LIMIT or narrow the filter"] else []) ++
  (if 0 < th.maxBytes ∧ th.maxBytes < p.estimatedBytes then ["reduce selected columns"] else []) ++
  (if p.hasSort then ["ensure an index covers the ORDER BY"] else []) ++
  (if !p.statsFresh then ["statistics may be stale; consider ANALYZE"] else []) ++
  ["rewrite the query and retry"]

structure Decision where
  allow : Bool
  soft : Bool := false
  bypass : Bool := false
  plan : Option Plan := none
  score : Option Score := none
  hints : List String := []
  rewritten : Option Compiled := none
  threshold : Threshold := {}

inductive Phase where
  | safety | estimate | enforcement
deriving DecidableEq, Repr

/-- An EXPLAIN that failed: refused by the connection, naming what the database no longer
has, or otherwise. -/
inductive ExplainError where
  | unavailable | schemaChanged | other (text : String)
deriving DecidableEq, Repr

/-- What a check reads beside the statement: the hash statements are compared by, and the
caller's tightening. -/
structure Env where
  fingerprint : String → String → String → List Value → String
  tightening : Tightening := {}

structure StaticRule where
  pkWhitelist : Bool
  datasource : String
  dialectName : String
  legacyExactSQL : Bool
  allowTemplates : List String
  rejectTemplates : List String

structure CallGuard where
  datasource : String
  dialectName : String
  legacyExactSQL : Bool
  allowTemplates : List String

structure Estimate where
  explain : String → List Value → Except ExplainError Plan
  threshold : Threshold
  /-- The average rows seen of a statement, when feedback is kept. -/
  feedback : Option (String → Option Int)
  failClosed : Bool

inductive Layer where
  | staticRule (s : StaticRule)
  | writeGuard
  | callGuard (g : CallGuard)
  | aggregateGuard (requirePredicate : Bool)
  | estimate (e : Estimate)
  | enforceCap (hardRows : Int)

def Layer.phase : Layer → Phase
  | .staticRule _ => .safety
  | .estimate _ => .estimate
  | .writeGuard | .callGuard _ | .aggregateGuard _ | .enforceCap _ => .enforcement

section Checks
variable (env : Env)

/-- Whether a template names the statement: by its fingerprint, its datasource and SQL, or
(where that is allowed) its SQL alone. -/
def matchesBaseline (values : List String) (datasource dialectName : String) (c : Compiled) (legacyExactSQL : Bool) :
    Bool :=
  let fingerprint := env.fingerprint datasource dialectName c.sql c.args
  let scopedSQL := String.ofList (GoStrings.trimSpace datasource.toList) ++ ":" ++ c.sql
  values.any fun value => value == fingerprint || value == scopedSQL || legacyExactSQL && value == c.sql

def StaticRule.check (s : StaticRule) (c : Compiled) : Decision :=
  if matchesBaseline env s.rejectTemplates s.datasource s.dialectName c s.legacyExactSQL then
    { allow := false, hints := ["query matches a rejected template"] }
  else if s.pkWhitelist && c.isKeyPoint then
    let p : Plan := { scanType := .point, statsFresh := true }
    { allow := true, bypass := true, plan := some p, score := some (scorePlan p) }
  else if matchesBaseline env s.allowTemplates s.datasource s.dialectName c s.legacyExactSQL then
    { allow := true, bypass := true }
  else { allow := true }

def boundedWrite : Node → Bool
  | .update .. | .delete .. => true
  | _ => false

def WriteGuard.check (c : Compiled) : Decision :=
  if c.kind ≠ .unset ∧ c.kind ≠ .write then { allow := true }
  else if c.kind = .unset ∧ c.readOnly then { allow := true }
  else if c.expr.any (!boundedWrite ·) then { allow := true }
  else if c.isKeyPoint then { allow := true }
  else
    { allow := false
      hints := ["scope the write with an equality filter on a primary or unique key (e.g. id = ...)"] }

def CallGuard.check (g : CallGuard) (c : Compiled) : Decision :=
  if c.kind ≠ .call then { allow := true }
  else if matchesBaseline env g.allowTemplates g.datasource g.dialectName c g.legacyExactSQL then { allow := true }
  else { allow := false, hints := ["add the reviewed CALL fingerprint to allowTemplates"] }

def aggregatePredicateHint (c : Compiled) : String :=
  match c.primaryKey with
  | pk :: _ =>
    "aggregate queries require a filter; the narrowest always-true predicate is \x7b\"field\":" ++ pk.quote ++
      ",\"op\":\"is_not_null\"\x7d on the primary key"
  | [] => "aggregate queries require a filter; add one, e.g. \x7b\"field\":\"<any allowed field>\",\"op\":\"is_not_null\"\x7d"

def maxInt : Int := 2 ^ 63 - 1

def AggregateGuard.check (requirePredicate : Bool) (c : Compiled) : Decision :=
  if !requirePredicate ∨ c.kind ≠ .aggregate then { allow := true }
  else
    let p := (c.expr.map predicateOf).getD .nil
    match validatePredicateWithMaxINCardinality p maxInt with
    | .ok () => if p.isNil then { allow := false, hints := [aggregatePredicateHint c] } else { allow := true }
    | .error _ => { allow := false, hints := [aggregatePredicateHint c] }

def smallTable (plan : Plan) (th : Threshold) : Plan :=
  if plan.scanType = .full ∧ 0 < th.fullScanMaxRows ∧ plan.tableSized ∧ plan.tableRows ≤ th.fullScanMaxRows then
    { plan with scanType := .index }
  else plan

/-- The plan of a statement, unknown when the EXPLAIN failed, and at least as many rows as
were seen of it. -/
def Estimate.explainPlan (e : Estimate) (c : Compiled) : Plan × Option ExplainError :=
  let (plan, err) := match e.explain c.sql c.args with
    | .ok plan => (plan, none)
    | .error err => ({}, some err)
  match e.feedback.bind (· (env.fingerprint e.threshold.datasource e.threshold.dialectName c.sql c.args)) with
  | some rows => (if plan.estimatedRows < rows then { plan with estimatedRows := rows } else plan, err)
  | none => (plan, err)

def Estimate.evaluatePlan (e : Estimate) (plan : Plan) (failed : Bool) (score : Score) (th : Threshold) : Decision :=
  let deny (soft : Bool) : Decision :=
    { allow := false, soft, plan := some plan, score := some score, hints := hints plan th, threshold := th }
  if e.failClosed ∧ (failed ∨ plan.scanType = .unknown) then deny false
  else if plan.scanType = .full ∧ th.rejectFullScan then deny false
  else if plan.overScanLimit th.maxScannedRows then deny false
  else if plan.scanType = .unknown ∧ th.requireKnownScan then deny false
  else if !plan.statsFresh ∧ th.requireFreshStats then deny false
  else if 0 < th.hardScore ∧ score.value < th.hardScore then deny false
  else if 0 < th.softScore ∧ score.value < th.softScore then deny true
  else { allow := true, plan := some plan, score := some score }

def Estimate.check (e : Estimate) (c : Compiled) : Except ExplainError Decision :=
  if c.kind ≠ .unset ∧ c.kind ≠ .read ∧ c.kind ≠ .aggregate then .ok { allow := true }
  else
    let th := e.threshold.tighten env.tightening
    let (plan, err) := e.explainPlan env c
    if err = some .unavailable then .error .unavailable
    else if err = some .schemaChanged then .error .schemaChanged
    else
      let plan := smallTable plan th
      .ok (e.evaluatePlan plan err.isSome (scorePlan plan) th)

def EnforceCap.check (hardRows : Int) (c : Compiled) : Decision :=
  if hardRows ≤ 0 ∨ c.kind = .call then { allow := true }
  else if ¬ (c.kind = .read ∨ c.kind = .aggregate ∨ (c.kind = .unset ∧ c.readOnly)) then { allow := true }
  else
    match capRows c hardRows with
    | some capped => if capped.sql = c.sql then { allow := true } else { allow := true, rewritten := some capped }
    | none =>
      { allow := true
        rewritten := some { c with sql := "SELECT * FROM (" ++ c.sql ++ ") AS sub LIMIT " ++ toString hardRows } }

def Layer.check (c : Compiled) : Layer → Except ExplainError Decision
  | .staticRule s => .ok (s.check env c)
  | .writeGuard => .ok (WriteGuard.check c)
  | .callGuard g => .ok (g.check env c)
  | .aggregateGuard requirePredicate => .ok (AggregateGuard.check requirePredicate c)
  | .estimate e => e.check env c
  | .enforceCap hardRows => .ok (EnforceCap.check hardRows c)

end Checks

structure Progress where
  c : Compiled
  rewritten : Bool := false
  bypassEstimate : Bool := false
  result : Decision := { allow := true }
  soft : Option Decision := none

def Progress.applyLayerDecision (p : Progress) (d : Decision) : Progress :=
  { c := d.rewritten.getD p.c
    rewritten := p.rewritten || d.rewritten.isSome
    bypassEstimate := p.bypassEstimate || d.bypass
    result :=
      { p.result with
        bypass := p.result.bypass || d.bypass
        plan := d.plan.or p.result.plan
        score := d.score.or p.result.score
        hints := d.hints.foldl (fun hs h => if hs.contains h then hs else hs ++ [h]) p.result.hints }
    soft := if !d.allow && d.soft then some d else p.soft }

/-- `hardDenyDecision` -/
def Progress.hardDeny (p : Progress) (d : Decision) : Decision :=
  { d with rewritten := if p.rewritten then some p.c else none }

def Progress.finish (p : Progress) : Decision :=
  let result := match p.soft with
    | some d => { p.result with allow := false, soft := true, threshold := d.threshold }
    | none => p.result
  if p.rewritten then { result with rewritten := some p.c } else result

def checkFrom (env : Env) : List Layer → Progress → Except ExplainError Decision
  | [], p => .ok p.finish
  | l :: ls, p =>
    if p.bypassEstimate ∧ l.phase = .estimate then checkFrom env ls p
    else do
      let d ← l.check env p.c
      let p := p.applyLayerDecision d
      if !d.allow && !d.soft then return p.hardDeny d else checkFrom env ls p

def check (env : Env) (layers : List Layer) (c : Compiled) : Except ExplainError Decision := checkFrom env layers { c }

inductive Strength where
  | unsupported | bestEffort | enforced
deriving DecidableEq, Repr

/-- The claims of a connection the gate's chain depends on. -/
structure Capabilities where
  explain : Strength
  explainAccurate : Strength

def newGateFromCapabilities (caps : Capabilities) (ex : Option (String → List Value → Except ExplainError Plan))
    (th : Threshold) (feedback : Option (String → Option Int)) : List Layer :=
  [.staticRule ⟨th.whitelistPKPoint, th.datasource, th.dialectName, th.legacyExactSQL, th.allowTemplates,
    th.rejectTemplates⟩] ++
  (if th.requirePKForWrite then [.writeGuard] else []) ++
  [.callGuard ⟨th.datasource, th.dialectName, th.legacyExactSQL, th.allowTemplates⟩] ++
  (if th.requireAggregatePredicate then [.aggregateGuard true] else []) ++
  (match ex with
    | some explain =>
      if caps.explain ≠ .unsupported ∧ (caps.explainAccurate = .enforced ∨ th.explainFailClosed) then
        [.estimate ⟨explain, th, feedback, th.explainFailClosed⟩]
      else []
    | none => []) ++
  (if 0 < th.maxRows then [.enforceCap th.maxRows] else [])

end SqlMcpServer.Cost
