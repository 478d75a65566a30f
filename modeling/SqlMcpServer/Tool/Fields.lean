import SqlMcpServer.Lib.Except
import SqlMcpServer.Entity
import SqlMcpServer.Relalg.Interp
import Mathlib.Data.List.AList

/-!
# The fields a call uses

How requests name columns (`alias.go`), the rules every use of a field obeys
(`field_uses.go`), and how a column takes a JSON number (`numbers.go`).
-/

namespace SqlMcpServer.Tool

open Except (bind_eq_ok pure_eq_ok)
open Relalg

inductive ToolError where
  -- ErrInvalidInput: unknown or inaccessible field %q
  | unknownField (field : String)
  -- ErrInvalidInput: field %q is named twice (by its name and its alias)
  | namedTwice (column : String)
  -- ErrInvalidInput: field %q is computed by the database and cannot be written
  | computedField (field : String)
  -- ErrInvalidInput: field %q: invalid number %q
  | invalidNumber (field text : String)
  -- ErrInvalidInput: field %q holds integers, not %s
  | notInteger (field text : String)
  -- ErrInvalidInput: integer %q exceeds int64; encode it as a JSON string
  | integerTooLarge (text : String)
  -- ErrInvalidInput: %s compares with null, which holds for no row; use is_null or is_not_null
  | comparesWithNull (op : Op)
  -- ErrInvalidInput: %s compares with a list of values, not empty
  | needsList (op : Op)
  -- ErrInvalidInput: a filter entry is one condition (field, op, value) or one of any, all, not, exists
  | filterEntry
  -- ErrInvalidInput: filter groups nest at most 4 deep
  | filterTooDeep
  -- ErrInvalidInput: an empty filter group
  | emptyGroup
  -- ErrInvalidInput: operator %q
  | invalidOperator (op : String)
  -- ErrInvalidInput: too many filter conditions
  | tooManyConditions
  -- ErrEntityNotFound
  | entityNotFound
  -- ErrDMLToolsDisabled
  | dmlToolsDisabled
  -- the authorizer's own error
  | authorizer (message : String)
  -- ErrUnauthorized, with the decision's reason
  | unauthorized
  -- ErrEntityUnavailable: %q: %s
  | entityUnavailable
  -- ErrInvalidInput: cross-datasource relationship %q
  | crossDatasource (relationship : String)
  -- ErrInvalidInput: unknown relationship %q
  | unknownRelationship (name : String)
  -- ErrInvalidInput: relationship %q names many rows: filter by it with exists
  | namesManyRows (relationship : String)
  -- ErrInvalidInput: relationship %q does not join on a key of %q, so it may name several rows
  | joinsOnNoKey (relationship : String)
  -- ErrInvalidInput: exists names %q, not a relationship of %q
  | notRelationship (name : String)
  -- ErrInvalidInput: exists does not nest
  | existsNests
  -- ErrInvalidInput: fields are the entity's own (%s is related): read related rows with expand
  | relatedProjection (path : String)
  -- ErrInvalidInput: relationship %q joins on no field
  | joinsOnNoField (relationship : String)
  -- ErrInvalidInput: distinct needs fields, and takes no expand or cursor
  | distinctNeedsFields
  -- ErrInvalidInput: orderBy names at most 8 fields
  | tooManyOrderTerms
  -- ErrInvalidInput: orderBy dir %q: want asc or desc
  | orderDirection (dir : String)
  -- ErrInvalidInput: a distinct read orders by fields it selects; %q is related, or is not one
  | distinctOrder (field : String)
  -- ErrInvalidInput: orderBy names %q twice
  | orderedTwice (field : String)
  -- ErrInvalidInput: this order does not page by cursor
  | orderDoesNotPage
  -- ErrInvalidInput: the cursor names the ordered fields (%s): pass nextCursor as it is
  | wrongCursor (fields : List String)
  -- ErrInvalidInput: entity %q has no primary or unique key for cursor paging
  | noCursorKey (entity : String)
  -- ErrInvalidInput: cursor must name a leading part of the key (%s)
  | cursorNotLeading (key : List String)
  -- ErrInvalidInput: aggregates are of the entity's own fields; group by %q instead
  | relatedAggregate (field : String)
  -- ErrInvalidInput: aggregate computes aggregates, or groups by fields
  | nothingAggregated
  -- ErrInvalidInput: aggregate func %q
  | aggregateFunc (func : String)
  -- ErrInvalidInput: %s aggregates a field: {func: %s, field}
  | aggregateNeedsField (func : String)
  -- ErrInvalidInput: distinct counts a field: {func: count, field, distinct: true}
  | distinctCounts
  -- ErrInvalidInput: aggregate %q has the name of a group-by field
  | aggregateNamesGroup (name : String)
  -- ErrInvalidInput: aggregate %q is given twice
  | aggregateTwice (name : String)
  -- ErrInvalidInput: group-by field %q is the column %q, the name of an aggregate
  | groupNamesAggregate (field column : String)
  -- ErrInvalidInput: having filters the groups; exists goes in filter
  | havingExists
  -- ErrInvalidInput: having names %q, not a group-by field or an aggregate (%s)
  | havingField (field : String)
  -- ErrInvalidInput: orderBy {%s %s}: a group-by field or an aggregate (%s), asc or desc
  | aggregateOrder (field dir : String)
  -- ErrInvalidInput: limit cannot be negative
  | negativeLimit
  -- ErrInvalidInput: exists filters reads and aggregates only
  | existsInWrite
  -- RowPolicyViolationError: the written row would be outside the caller's row scope
  | rowPolicyViolation (fields : List String) (cause : Option Interp.EvalError)

/-- A map of values by field or by column, in the order one iteration visits it. -/
abbrev Values := AList (fun _ : String => Value)

def columnOf (e : Entity) (field : String) : String :=
  match e.attributeByName field with
  | some a => a.name
  | none => field

def columnsOf (e : Entity) (fields : List String) : List String := fields.map (columnOf e)

def columnsPredicate (e : Entity) (p : Predicate) : Predicate :=
  mapConditions (fun c => { c with field := columnOf e c.field }) p

def projectItems (e : Entity) (fields : List String) : List ProjectItem :=
  fields.map fun f => ⟨columnOf e f, if columnOf e f = f then "" else f⟩

def firstRepeated : List String → List String → Option String
  | [], _ => none
  | c :: cs, seen => if seen.contains c then some c else firstRepeated cs (c :: seen)

def distinctColumns (e : Entity) (fields : List String) : Except ToolError Unit :=
  match firstRepeated (columnsOf e fields) [] with
  | some c => .error (.namedTwice c)
  | none => .ok ()

structure FieldUses where
  read : List String := []
  compared : List String := []
  written : List String := []

def validateFields (res : Resolved) (fields : List String) : Except ToolError Unit :=
  match fields.find? fun f => !res.attributes.any (·.hasName f) with
  | some f => .error (.unknownField f)
  | none => .ok ()

def validateUnmaskedFields (res : Resolved) (fields : List String) : Except ToolError Unit :=
  match fields.find? fun f => res.attributes.any fun a => a.hasName f && a.mask != "" with
  | some f => .error (.unknownField f)
  | none => .ok ()

def validateWritable (res : Resolved) (fields : List String) : Except ToolError Unit :=
  match fields.find? fun f => (res.entity.attributeByName f).any fun a => a.domain.generated with
  | some f => .error (.computedField f)
  | none => .ok ()

/-- Every field used is visible; a compared one is not masked; a written one is written
once and is not computed by the database. -/
def FieldUses.check (u : FieldUses) (res : Resolved) : Except ToolError Unit := do
  validateFields res (u.read ++ u.compared ++ u.written)
  validateUnmaskedFields res u.compared
  -- With no field written the checks of writes accept.
  distinctColumns res.entity u.written
  validateWritable res u.written

inductive NumberKind where
  | exactNumber | floatNumber | integerNumber
deriving DecidableEq, Repr

def floatTypes : List String := ["real", "float", "float4", "float8", "double"]

def integerTypes : List String :=
  ["smallint", "integer", "int", "bigint", "tinyint", "mediumint", "int2", "int4", "int8", "serial", "bigserial",
    "smallserial"]

/-- Classifies a column's database type, such as `double precision` or `decimal(10,2)`. -/
def numberKindOf (domainType : String) : NumberKind :=
  let text := (GoStrings.trimSpace domainType.toList).map GoStrings.toLower
  let base := String.ofList (GoStrings.cut ' ' (GoStrings.cut '(' text))
  if floatTypes.contains base then .floatNumber
  else if integerTypes.contains base then .integerNumber
  else .exactNumber

def isDecimalType (domainType : String) : Bool :=
  let text := domainType.toList.map GoStrings.toLower
  "numeric".toList.isPrefixOf text || "decimal".toList.isPrefixOf text

/-- The parsers of Go's library the code calls: `json.Number.Float64`, `big.Rat.SetString`. -/
structure Parsers where
  float64 : String → Option Rat
  ratSetString : String → Option Rat

def attributeOf (e : Entity) (column : String) : Option Attribute :=
  e.attributes.find? (·.name == column)

def numberKindIn (e : Entity) (column : String) : NumberKind :=
  match attributeOf e column with
  | some a => numberKindOf a.domain.type
  | none => .exactNumber

mutual
def coerceAs (parsers : Parsers) (kind : NumberKind) (column : String) : Value → Except ToolError Value
  | .jsonNum text =>
    match kind with
    | .floatNumber =>
      match parsers.float64 text with
      | some q => .ok (.num q)
      | none => .error (.invalidNumber column text)
    | .integerNumber => .error (.notInteger column text)
    | .exactNumber => .ok (.str text)
  | .list items => do return .list (← coerceList parsers kind column items)
  | v => .ok v

def coerceList (parsers : Parsers) (kind : NumberKind) (column : String) :
    List Value → Except ToolError (List Value)
  | [] => .ok []
  | v :: vs => do
    let c ← coerceAs parsers kind column v
    return c :: (← coerceList parsers kind column vs)
end

def coerceNumber (parsers : Parsers) (e : Entity) (column : String) (v : Value) : Except ToolError Value :=
  coerceAs parsers (numberKindIn e column) column v

mutual
def coercePredicate (parsers : Parsers) (e : Entity) : Predicate → Except ToolError Predicate
  | .cond c => do return .cond { c with value := ← coerceNumber parsers e c.field c.value }
  | .and preds => do return .and (← coercePredicates parsers e preds)
  | .or preds => do return .or (← coercePredicates parsers e preds)
  | .not p => do return .not (← coercePredicate parsers e p)
  | p => .ok p

def coercePredicates (parsers : Parsers) (e : Entity) : List Predicate → Except ToolError (List Predicate)
  | [] => .ok []
  | p :: ps => do
    let c ← coercePredicate parsers e p
    return c :: (← coercePredicates parsers e ps)
end

lemma coercePredicates_ok {parsers : Parsers} {e : Entity} {ps out : List Predicate}
    (h : coercePredicates parsers e ps = .ok out) :
    List.Forall₂ (fun p q => coercePredicate parsers e p = .ok q) ps out := by
  induction ps generalizing out with
  | nil =>
    rw [coercePredicates, Except.ok.injEq] at h
    exact h ▸ .nil
  | cons p ps ih =>
    rw [coercePredicates] at h
    obtain ⟨q, hq, h⟩ := bind_eq_ok.mp h
    obtain ⟨qs, hqs, h⟩ := bind_eq_ok.mp h
    rw [pure_eq_ok, Except.ok.injEq] at h
    exact h ▸ .cons hq (ih hqs)

lemma each_coercePredicate {parsers : Parsers} {e : Entity} {F : String → Prop}
    {E : RelationRef → List JoinPair → Predicate → Prop} {p q : Predicate} (hp : Each (fun c => F c.field) E p)
    (h : coercePredicate parsers e p = .ok q) : Each (fun c => F c.field) E q := by
  have hlist : ∀ {ps qs : List Predicate}, (∀ p ∈ ps, ∀ q, coercePredicate parsers e p = .ok q →
      Each (fun c => F c.field) E q) → coercePredicates parsers e ps = .ok qs →
      ∀ q ∈ qs, Each (fun c => F c.field) E q := by
    intro ps qs ih hqs
    have hall := coercePredicates_ok hqs
    clear hqs
    induction hall with
    | nil => simp
    | cons hq _ ihqs =>
      intro q hmem
      rcases List.mem_cons.mp hmem with rfl | hmem
      · exact ih _ (by simp) _ hq
      · exact ihqs (fun p hp => ih p (List.mem_cons_of_mem _ hp)) q hmem
  induction hp generalizing q with
  | nil =>
    simp only [coercePredicate, Except.ok.injEq] at h
    exact h ▸ .nil
  | ex hex =>
    simp only [coercePredicate, Except.ok.injEq] at h
    exact h ▸ .ex hex
  | cond hc =>
    rw [coercePredicate] at h
    obtain ⟨v, -, h⟩ := bind_eq_ok.mp h
    rw [pure_eq_ok, Except.ok.injEq] at h
    exact h ▸ .cond hc
  | and _ ih =>
    rw [coercePredicate] at h
    obtain ⟨qs, hqs, h⟩ := bind_eq_ok.mp h
    rw [pure_eq_ok, Except.ok.injEq] at h
    exact h ▸ .and (hlist (fun p hp q hq => ih p hp hq) hqs)
  | or _ ih =>
    rw [coercePredicate] at h
    obtain ⟨qs, hqs, h⟩ := bind_eq_ok.mp h
    rw [pure_eq_ok, Except.ok.injEq] at h
    exact h ▸ .or (hlist (fun p hp q hq => ih p hp hq) hqs)
  | not _ ih =>
    rw [coercePredicate] at h
    obtain ⟨r, hr, h⟩ := bind_eq_ok.mp h
    rw [pure_eq_ok, Except.ok.injEq] at h
    exact h ▸ .not (ih hr)

def exactValue (parsers : Parsers) (domainType : String) : Value → Value
  | .str s =>
    if isDecimalType domainType then
      match parsers.ratSetString s with
      | some q => .num q
      | none => .str s
    else .str s
  | v => v

def andPreds (a b : Predicate) : Predicate :=
  if a.isNil then b else if b.isNil then a else .and [a, b]

end SqlMcpServer.Tool
