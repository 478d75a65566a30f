import SqlMcpServer.Tool.Fields

/-!
# Filters

`filter.go`: a request's filter is a list of conditions, all of which hold: each a
condition on one field, or a group (any, all, not, exists) of them.
-/

namespace SqlMcpServer.Tool

open List
open Except (bind_eq_ok)
open Relalg

/-- `condJSON`: an entry of a filter as a request writes it; a missing group is `none`. -/
inductive Cond where
  | mk (field op : String) (value : Value) (any all : Option (List Cond)) (not : Option Cond)
      (ex : String) (filter : Option (List Cond))

def opOf : String → Op
  | "eq" => .eq
  | "ne" => .ne
  | "gt" => .gt
  | "gte" => .gte
  | "lt" => .lt
  | "lte" => .lte
  | "in" => .isIn
  | "not_in" => .notIn
  | "like" => .like
  | "is_null" => .isNull
  | "is_not_null" => .isNotNull
  | name => .invalid name

/-- `strconv.ParseInt(text, 10, 64)`. -/
def int64Of (text : String) : Option Int :=
  let (negative, digits) := match text.toList with
    | '-' :: ds => (true, ds)
    | ds => (false, ds)
  if digits = [] ∨ ¬ digits.all Char.isDigit then none
  else
    let n : Int := digits.foldl (fun n d => 10 * n + (d.toNat - 48)) 0
    let n := if negative then -n else n
    if n < -2 ^ 63 ∨ 2 ^ 63 ≤ n then none else some n

mutual
/-- Integers become numbers; a fraction or an exponent stays as written, for the column to
decide. -/
def normalizeJSONValue : Value → Except ToolError Value
  | .jsonNum text =>
    match int64Of text with
    | some i => .ok (.num i)
    | none =>
      if text.toList.any (fun c => c = '.' ∨ c = 'e' ∨ c = 'E') then .ok (.jsonNum text)
      else .error (.integerTooLarge text)
  | .list items => do return .list (← normalizeJSONList items)
  | v => .ok v

def normalizeJSONList : List Value → Except ToolError (List Value)
  | [] => .ok []
  | v :: vs => do
    let n ← normalizeJSONValue v
    return n :: (← normalizeJSONList vs)
end

def conditionValue (op : Op) (raw : Value) : Except ToolError Value := do
  let value ← normalizeJSONValue raw
  if Interp.isNull value ∧ op ≠ .isNull ∧ op ≠ .isNotNull then .error (.comparesWithNull op)
  else if op = .isIn ∨ op = .notIn then
    match value with
    | .list (v :: vs) => return .list (v :: vs)
    | _ => .error (.needsList op)
  else return value

def maxFilterDepth : Nat := 4

def formsSet (field op : String) (value : Value) (any all : Option (List Cond)) (not : Option Cond)
    (ex : String) : Nat :=
  [field != "" || op != "" || !Interp.isNull value, any.isSome, all.isSome, not.isSome, ex != ""].count true

def conjunction : List Predicate → Predicate
  | [] => .nil
  | [p] => p
  | ps => .and ps

lemma each_conjunction {C : Condition → Prop} {E : RelationRef → List JoinPair → Predicate → Prop}
    {ps : List Predicate} (h : ∀ p ∈ ps, Each C E p) : Each C E (conjunction ps) := by
  match ps, h with
  | [], _ => exact .nil
  | [p], h => exact h p (by simp)
  | p :: q :: ps, h => exact .and h

def groupPredicate (isAny : Bool) : List Predicate → Except ToolError Predicate
  | [] => .error .emptyGroup
  | [p] => .ok p
  | ps => .ok (if isAny then .or ps else .and ps)

mutual
/-- Converts one entry of a filter at `depth`, counting its conditions from `n`. -/
def filterPredicate : Cond → Nat → Nat → Except ToolError (Predicate × Nat)
  | .mk field op value any all not ex filter, depth, n =>
    if formsSet field op value any all not ex ≠ 1 ∨ (filter.isSome ∧ ex = "") then .error .filterEntry
    else if (any.isSome ∨ all.isSome ∨ not.isSome ∨ ex ≠ "") ∧ maxFilterDepth ≤ depth then .error .filterTooDeep
    else if ex ≠ "" then
      match filter with
      | none => .ok (.ex ⟨"", ex⟩ [] .nil, n)
      | some conds => do
        let (preds, n) ← filterPredicates conds (depth + 1) n
        return (.ex ⟨"", ex⟩ [] (conjunction preds), n)
    else
      match not, any, all with
      | some c, _, _ => do
        let (p, n) ← filterPredicate c (depth + 1) n
        return (.not p, n)
      | none, some conds, _ =>
        if conds.isEmpty then .error .emptyGroup
        else do
          let (preds, n) ← filterPredicates conds (depth + 1) n
          return (← groupPredicate true preds, n)
      | none, none, some conds =>
        if conds.isEmpty then .error .emptyGroup
        else do
          let (preds, n) ← filterPredicates conds (depth + 1) n
          return (← groupPredicate false preds, n)
      | none, none, none =>
        if !(opOf op).valid then .error (.invalidOperator op)
        else do
          let value ← conditionValue (opOf op) value
          return (.cond ⟨field, opOf op, value⟩, n + 1)

def filterPredicates : List Cond → Nat → Nat → Except ToolError (List Predicate × Nat)
  | [], _, n => .ok ([], n)
  | c :: cs, depth, n => do
    let (p, n) ← filterPredicate c depth n
    let (ps, n) ← filterPredicates cs depth n
    return (p :: ps, n)
end

/-- Validates a filter, of at most `maxConds` conditions when positive, and converts it to
a conjunction. -/
def filterToPredicate (conds : List Cond) (maxConds : Int) : Except ToolError Predicate := do
  let (preds, n) ← filterPredicates conds 0 0
  if 0 < maxConds ∧ maxConds < n then .error .tooManyConditions
  else return conjunction preds

mutual
/-- The field names a filter references, through its groups; an EXISTS names its target's. -/
def fieldsOfCond : Cond → List String
  | .mk field _ _ any all not ex _ =>
    if ex ≠ "" then []
    else
      match not, any, all with
      | some c, _, _ => fieldsOfCond c
      | none, some cs, some ds => fieldsOfConds cs ++ fieldsOfConds ds
      | none, some cs, none => fieldsOfConds cs
      | none, none, some ds => fieldsOfConds ds
      | none, none, none => [field]

def fieldsOfConds : List Cond → List String
  | [] => []
  | c :: cs => fieldsOfCond c ++ fieldsOfConds cs
end

def filterFields (conds : List Cond) : List String := fieldsOfConds conds

lemma mem_conditions_conjunction {ps : List Predicate} {c : Condition} (h : c ∈ conditions (conjunction ps)) :
    ∃ p ∈ ps, c ∈ conditions p := by
  match ps, h with
  | [], h => simp [conjunction, conditions] at h
  | [p], h => exact ⟨p, by simp, h⟩
  | p :: q :: ps, h => simpa [conjunction, conditions, mem_conditionsList] using h

lemma mem_conditions_groupPredicate {isAny : Bool} {ps : List Predicate} {p : Predicate} {c : Condition}
    (hp : groupPredicate isAny ps = .ok p) (h : c ∈ conditions p) : ∃ q ∈ ps, c ∈ conditions q := by
  match ps, hp with
  | [q], hp =>
    cases hp
    exact ⟨p, by simp, h⟩
  | q :: r :: ps, hp =>
    cases hp
    cases isAny <;> simpa [conditions, mem_conditionsList] using h

mutual
/-- The conditions of a converted entry outside its EXISTS name its fields. -/
theorem filterPredicate_fields : ∀ (c : Cond) {depth n m : Nat} {p : Predicate},
    filterPredicate c depth n = .ok (p, m) → ∀ x ∈ conditions p, x.field ∈ fieldsOfCond c
  | .mk field op value any all not ex filter, depth, n, m, p, h => by
    intro x hx
    unfold filterPredicate at h
    split at h
    · cases h
    split at h
    · cases h
    split at h
    · rename_i hex
      split at h
      · cases h
        simp [conditions] at hx
      · obtain ⟨⟨preds, k⟩, -, h⟩ := bind_eq_ok.mp h
        cases h
        simp [conditions] at hx
    rename_i hex
    unfold fieldsOfCond
    rw [if_neg hex]
    match not, any, all with
    | some c, _, _ =>
      obtain ⟨⟨q, k⟩, hq, h⟩ := bind_eq_ok.mp h
      cases h
      exact filterPredicate_fields c hq x (by simpa [conditions] using hx)
    | none, some conds, ds =>
      simp only at h
      split at h
      · cases h
      · obtain ⟨⟨preds, k⟩, hpreds, h⟩ := bind_eq_ok.mp h
        obtain ⟨q, hq, h⟩ := bind_eq_ok.mp h
        cases h
        obtain ⟨r, hr, hxr⟩ := mem_conditions_groupPredicate hq hx
        have hmem := filterPredicates_fields conds hpreds r hr x hxr
        cases ds with
        | none => exact hmem
        | some ds => exact mem_append_left _ hmem
    | none, none, some conds =>
      simp only at h
      split at h
      · cases h
      · obtain ⟨⟨preds, k⟩, hpreds, h⟩ := bind_eq_ok.mp h
        obtain ⟨q, hq, h⟩ := bind_eq_ok.mp h
        cases h
        obtain ⟨r, hr, hxr⟩ := mem_conditions_groupPredicate hq hx
        exact filterPredicates_fields conds hpreds r hr x hxr
    | none, none, none =>
      simp only at h
      split at h
      · cases h
      · obtain ⟨v, -, h⟩ := bind_eq_ok.mp h
        cases h
        simp only [conditions, mem_singleton] at hx
        simp [hx]

theorem filterPredicates_fields : ∀ (cs : List Cond) {depth n m : Nat} {ps : List Predicate},
    filterPredicates cs depth n = .ok (ps, m) → ∀ p ∈ ps, ∀ x ∈ conditions p, x.field ∈ fieldsOfConds cs
  | [], depth, n, m, ps, h => by
    rw [filterPredicates] at h
    cases h
    simp
  | c :: cs, depth, n, m, ps, h => by
    rw [filterPredicates] at h
    obtain ⟨⟨p, k⟩, hp, h⟩ := bind_eq_ok.mp h
    obtain ⟨⟨rest, l⟩, hrest, h⟩ := bind_eq_ok.mp h
    cases h
    intro q hq x hx
    rw [fieldsOfConds]
    rcases mem_cons.mp hq with rfl | hq
    · exact mem_append_left _ (filterPredicate_fields c hp x hx)
    · exact mem_append_right _ (filterPredicates_fields cs hrest q hq x hx)
end

lemma filterToPredicate_fields {conds : List Cond} {maxConds : Int} {p : Predicate}
    (h : filterToPredicate conds maxConds = .ok p) : ∀ x ∈ conditions p, x.field ∈ filterFields conds := by
  obtain ⟨⟨preds, n⟩, hpreds, h⟩ := bind_eq_ok.mp h
  simp only at h
  split at h
  · cases h
  · cases h
    intro x hx
    obtain ⟨q, hq, hxq⟩ := mem_conditions_conjunction hx
    exact filterPredicates_fields conds hpreds q hq x hxq

end SqlMcpServer.Tool
