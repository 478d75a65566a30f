import Mathlib.Data.List.TakeWhile
import Mathlib.Data.Rat.Defs
import Mathlib.Tactic.Lemma

/-!
# The relational algebra IR

The logical plans of `core/relalg`: scalar values, predicates over the columns of a row, and
read expressions.
-/

namespace SqlMcpServer.Relalg

open List

/-- A cell, or a value bound to a statement. Go's integers, floats and `*big.Rat` are
all read through `toRat`, so they are the exact rational it gives; `jsonNum` is a
`json.Number` no column has claimed, and `other` any type the interpreter does not
compare (a time, an object, a NaN). -/
inductive Value where
  | null
  | num (q : Rat)
  | str (s : String)
  | bool (b : Bool)
  | jsonNum (text : String)
  | list (items : List Value)
  | other (tag : String)
deriving Inhabited

mutual
def Value.same : Value → Value → Bool
  | .null, .null => true
  | .num a, .num b => a = b
  | .str a, .str b => a = b
  | .bool a, .bool b => a = b
  | .jsonNum a, .jsonNum b => a = b
  | .list as, .list bs => sameList as bs
  | .other a, .other b => a = b
  | _, _ => false

def sameList : List Value → List Value → Bool
  | [], [] => true
  | a :: as, b :: bs => a.same b && sameList as bs
  | _, _ => false
end

mutual
lemma Value.same_iff : ∀ a b : Value, a.same b = true ↔ a = b
  | .null, b | .num _, b | .str _, b | .bool _, b | .jsonNum _, b | .other _, b => by cases b <;> simp [Value.same]
  | .list as, .list bs => by simp [Value.same, sameList_iff as bs]
  | .list as, .null | .list as, .num _ | .list as, .str _ | .list as, .bool _ | .list as, .jsonNum _
  | .list as, .other _ => by simp [Value.same]

lemma sameList_iff : ∀ as bs : List Value, sameList as bs = true ↔ as = bs
  | [], bs => by cases bs <;> simp [sameList]
  | a :: as, [] => by simp [sameList]
  | a :: as, b :: bs => by simp [sameList, Value.same_iff a b, sameList_iff as bs]
end

instance : DecidableEq Value := fun a b => decidable_of_iff _ (Value.same_iff a b)

inductive Op where
  | eq | ne | gt | gte | lt | lte | isIn | notIn | like | isNull | isNotNull
  /-- An operator outside the whitelist, as a caller wrote it. -/
  | invalid (name : String)
deriving DecidableEq, Repr

/-- `Op.Valid`: the whitelisted operators. -/
def Op.valid : Op → Bool
  | .invalid _ => false
  | _ => true

structure RelationRef where
  schema : String
  name : String
deriving DecidableEq, Repr

structure ProjectItem where
  field : String
  aliasName : String
deriving DecidableEq, Repr

inductive AggFunc where
  | count | sum | avg | min | max
  | invalid (name : String)
deriving DecidableEq, Repr

def AggFunc.valid : AggFunc → Bool
  | .invalid _ => false
  | _ => true

def AggFunc.text : AggFunc → String
  | .count => "count"
  | .sum => "sum"
  | .avg => "avg"
  | .min => "min"
  | .max => "max"
  | .invalid name => name

structure AggCall where
  func : AggFunc
  field : String
  distinct : Bool
  name : String
deriving DecidableEq, Repr

structure OrderTerm where
  field : String
  dir : String
  nullable : Bool
deriving DecidableEq, Repr

structure JoinPair where
  left : String
  right : String
deriving DecidableEq, Repr

structure Condition where
  field : String
  op : Op
  value : Value

inductive Predicate where
  | nil
  | cond (c : Condition)
  | and (preds : List Predicate)
  | or (preds : List Predicate)
  | not (p : Predicate)
  /-- A row of `relation` matches the row (`on`) and `pred`, which names its columns. -/
  | ex (relation : RelationRef) (on : List JoinPair) (pred : Predicate)
deriving Inhabited

def Predicate.isNil : Predicate → Bool
  | .nil => true
  | _ => false

/-- The read expressions; `having` and `join` are the nodes of the same name. -/
inductive Expr where
  | scan (relation : RelationRef) (aliasName : String)
  | select (input : Expr) (pred : Predicate)
  | project (input : Expr) (items : List ProjectItem)
  | aggregate (input : Expr) (groupBy : List String) (aggregates : List AggCall)
  | sort (input : Expr) (orderBy : List OrderTerm)
  | limit (input : Expr) (count offset : Int)
  | distinct (input : Expr)
  | having (input : Expr) (pred : Predicate)
  | join (input : Expr) (right : RelationRef) (aliasName : String) (on : List JoinPair)
      (rightPred : Predicate)

def joinName (aliasName column : String) : String := aliasName ++ "." ++ column

lemma joinName_injective (aliasName : String) : Function.Injective (joinName aliasName) := by
  intro c d h
  simpa [joinName, String.ext_iff] using h

def cutDot (field : String) : Option (String × String) :=
  let name := field.toList.takeWhile (· ≠ '.')
  match field.toList.drop name.length with
  | [] => none
  | _ :: rest => some (String.ofList name, String.ofList rest)

lemma cutDot_joinName {name rest : String} (h : '.' ∉ name.toList) :
    cutDot (joinName name rest) = some (name, rest) := by
  have hkeep : ∀ c ∈ name.toList, decide (c ≠ '.') = true := by
    intro c hc
    rw [decide_eq_true_eq]
    rintro rfl
    exact h hc
  have hlist : (joinName name rest).toList = name.toList ++ '.' :: rest.toList := by simp [joinName]
  have htake : (name.toList ++ '.' :: rest.toList).takeWhile (· ≠ '.') = name.toList := by
    rw [takeWhile_append_of_pos hkeep]
    simp
  simp only [cutDot, hlist, htake, drop_left, String.ofList_toList]

lemma joinName_of_cutDot {f name rest : String} (h : cutDot f = some (name, rest)) : f = joinName name rest := by
  simp only [cutDot] at h
  split at h
  · cases h
  · rename_i c tail hdrop
    simp only [Option.some.injEq, Prod.mk.injEq] at h
    obtain ⟨rfl, rfl⟩ := h
    have hsplit := takeWhile_append_dropWhile (p := fun c => decide (c ≠ '.')) (l := f.toList)
    have hrest : f.toList.dropWhile (· ≠ '.') = c :: tail := by
      have hleft := congrArg (List.drop (f.toList.takeWhile (· ≠ '.')).length) hsplit
      rwa [drop_left, hdrop] at hleft
    have hdot : c = '.' := by
      have hhead := dropWhile_get_zero_not (fun c => decide (c ≠ '.')) f.toList (by rw [hrest]; simp)
      simp only [hrest, get_eq_getElem, getElem_cons_zero] at hhead
      simpa using hhead
    subst hdot
    have hlist : f.toList = f.toList.takeWhile (· ≠ '.') ++ '.' :: tail := by rw [← hrest, hsplit]
    rw [← String.toList_inj]
    conv_lhs => rw [hlist]
    simp [joinName]

/-- Induction on predicates with the operands of `and` and `or` as hypotheses. -/
@[elab_as_elim]
theorem Predicate.ind {motive : Predicate → Prop}
    (nil : motive .nil) (cond : ∀ c, motive (.cond c))
    (and : ∀ ps, (∀ p ∈ ps, motive p) → motive (.and ps))
    (or : ∀ ps, (∀ p ∈ ps, motive p) → motive (.or ps))
    (not : ∀ p, motive p → motive (.not p))
    (ex : ∀ r on p, motive p → motive (.ex r on p)) (p : Predicate) : motive p := by
  refine @Predicate.rec motive (fun ps => ∀ p ∈ ps, motive p) nil cond and or not ex (by simp) ?_ p
  intro q qs hq hqs p hp
  rcases mem_cons.mp hp with rfl | hp
  · exact hq
  · exact hqs p hp

mutual
def hasExists : Predicate → Bool
  | .ex .. => true
  | .and preds => hasExistsList preds
  | .or preds => hasExistsList preds
  | .not p => hasExists p
  | _ => false

def hasExistsList : List Predicate → Bool
  | [] => false
  | p :: ps => hasExists p || hasExistsList ps
end

mutual
/-- Replaces each condition through AND, OR and NOT. An EXISTS is kept as it is: its
conditions name fields of its target. -/
def mapConditions (f : Condition → Condition) : Predicate → Predicate
  | .cond c => .cond (f c)
  | .and preds => .and (mapAll f preds)
  | .or preds => .or (mapAll f preds)
  | .not p => .not (mapConditions f p)
  | p => p

def mapAll (f : Condition → Condition) : List Predicate → List Predicate
  | [] => []
  | p :: ps => mapConditions f p :: mapAll f ps
end

mutual
/-- The conditions of a predicate outside its EXISTS, in the order they appear. -/
def conditions : Predicate → List Condition
  | .cond c => [c]
  | .and preds => conditionsList preds
  | .or preds => conditionsList preds
  | .not p => conditions p
  | _ => []

def conditionsList : List Predicate → List Condition
  | [] => []
  | p :: ps => conditions p ++ conditionsList ps
end

def firstOccurrences (names : List String) : List String :=
  names.foldl (fun out name => if out.contains name then out else out ++ [name]) []

/-- The fields the conditions name, each once, in order. An EXISTS names fields of its target. -/
def fields (p : Predicate) : List String :=
  firstOccurrences ((conditions p).map (·.field))

@[simp] lemma hasExistsList_eq_false {ps : List Predicate} :
    hasExistsList ps = false ↔ ∀ p ∈ ps, hasExists p = false := by
  induction ps with
  | nil => simp [hasExistsList]
  | cons p ps ih => simp [hasExistsList, ih]

@[simp] lemma mapAll_eq_map (f : Condition → Condition) (ps : List Predicate) :
    mapAll f ps = ps.map (mapConditions f) := by
  induction ps with
  | nil => rfl
  | cons p ps ih => simp [mapAll, ih]

lemma mem_conditionsList {c : Condition} {ps : List Predicate} :
    c ∈ conditionsList ps ↔ ∃ p ∈ ps, c ∈ conditions p := by
  induction ps with
  | nil => simp [conditionsList]
  | cons p ps ih => simp [conditionsList, ih]

lemma mem_firstOccurrences {name : String} {names : List String} :
    name ∈ firstOccurrences names ↔ name ∈ names := by
  -- The accumulator only ever grows by the names it lacks.
  have key : ∀ (rest out : List String),
      name ∈ rest.foldl (fun out name => if out.contains name then out else out ++ [name]) out ↔
        name ∈ out ∨ name ∈ rest := by
    intro rest
    induction rest with
    | nil => simp
    | cons n rest ih =>
      intro out
      rw [foldl_cons, ih]
      by_cases hn : out.contains n
      · have hmem : n ∈ out := by simpa using hn
        simp only [hn, if_true, mem_cons]
        constructor
        · rintro (h | h)
          · exact .inl h
          · exact .inr (.inr h)
        · rintro (h | rfl | h)
          · exact .inl h
          · exact .inl hmem
          · exact .inr h
      · simp only [hn, Bool.false_eq_true, if_false, mem_append, mem_cons, not_mem_nil,
          false_or, or_assoc]
  simpa [firstOccurrences] using key names []

lemma nodup_firstOccurrences (names : List String) : (firstOccurrences names).Nodup := by
  have key : ∀ (rest out : List String), out.Nodup →
      (rest.foldl (fun out name => if out.contains name then out else out ++ [name]) out).Nodup := by
    intro rest
    induction rest with
    | nil => exact fun out h => h
    | cons n rest ih =>
      intro out hout
      rw [foldl_cons]
      apply ih
      split
      · exact hout
      · rename_i hn
        refine nodup_append.mpr ⟨hout, by simp, fun a ha b hb hab => hn ?_⟩
        rw [← mem_singleton.mp hb, ← hab]
        exact contains_iff_mem.mpr ha
  exact key names [] nodup_nil

lemma mem_fields {name : String} {p : Predicate} :
    name ∈ fields p ↔ ∃ c ∈ conditions p, c.field = name := by
  simp [fields, mem_firstOccurrences]

lemma hasExists_mapConditions (f : Condition → Condition) (p : Predicate) :
    hasExists (mapConditions f p) = hasExists p := by
  induction p using Predicate.ind with
  | nil | cond c | ex r on p => simp [mapConditions, hasExists]
  | and ps ih | or ps ih =>
    simp only [mapConditions, hasExists]
    induction ps with
    | nil => rfl
    | cons p ps ihps =>
      rw [mapAll, hasExistsList, hasExistsList, ih p (by simp), ihps fun q hq => ih q (mem_cons_of_mem _ hq)]
  | not p ih => simp [mapConditions, hasExists, ih]

lemma conditions_mapConditions (f : Condition → Condition) (p : Predicate) :
    conditions (mapConditions f p) = (conditions p).map f := by
  induction p using Predicate.ind with
  | nil | cond c | ex r on p => simp [mapConditions, conditions]
  | and ps ih | or ps ih =>
    simp only [mapConditions, conditions]
    induction ps with
    | nil => rfl
    | cons p ps ihps =>
      rw [mapAll, conditionsList, conditionsList, map_append, ih p (by simp),
        ihps fun q hq => ih q (mem_cons_of_mem _ hq)]
  | not p ih => simp [mapConditions, conditions, ih]

/-- Every condition outside EXISTS, and every EXISTS, of a predicate is as asked. -/
inductive Each (C : Condition → Prop) (E : RelationRef → List JoinPair → Predicate → Prop) : Predicate → Prop where
  | nil : Each C E .nil
  | cond {c : Condition} (h : C c) : Each C E (.cond c)
  | and {ps : List Predicate} (h : ∀ p ∈ ps, Each C E p) : Each C E (.and ps)
  | or {ps : List Predicate} (h : ∀ p ∈ ps, Each C E p) : Each C E (.or ps)
  | not {p : Predicate} (h : Each C E p) : Each C E (.not p)
  | ex {r : RelationRef} {on : List JoinPair} {p : Predicate} (h : E r on p) : Each C E (.ex r on p)

section Each
variable {C C' : Condition → Prop} {E E' : RelationRef → List JoinPair → Predicate → Prop}

lemma Each.mono {p : Predicate} (h : Each C E p) (hC : ∀ c, C c → C' c) (hE : ∀ r on p, E r on p → E' r on p) :
    Each C' E' p := by
  induction h with
  | nil => exact .nil
  | cond h => exact .cond (hC _ h)
  | and _ ih => exact .and ih
  | or _ ih => exact .or ih
  | not _ ih => exact .not ih
  | ex h => exact .ex (hE _ _ _ h)

lemma each_conditions {p : Predicate} (h : Each C E p) : ∀ c ∈ conditions p, C c := by
  induction h with
  | nil | ex _ => simp [conditions]
  | cond h => simpa [conditions] using h
  | and _ ih | or _ ih =>
    intro c hc
    rw [conditions, mem_conditionsList] at hc
    obtain ⟨p, hp, hc⟩ := hc
    exact ih p hp c hc
  | not _ ih => simpa [conditions] using ih

lemma each_of_conditions {p : Predicate} (h : ∀ c ∈ conditions p, C c) (hE : ∀ r on q, E r on q ∨ hasExists p = false) :
    Each C E p := by
  induction p using Predicate.ind with
  | nil => exact .nil
  | cond c => exact .cond (h c (by simp [conditions]))
  | and ps ih =>
    refine .and fun p hp => ih p hp (fun c hc => h c ?_) fun r on q => (hE r on q).imp (fun h => h) fun hplain => ?_
    · simpa [conditions, mem_conditionsList] using ⟨p, hp, hc⟩
    · rw [hasExists, hasExistsList_eq_false] at hplain
      exact hplain p hp
  | or ps ih =>
    refine .or fun p hp => ih p hp (fun c hc => h c ?_) fun r on q => (hE r on q).imp (fun h => h) fun hplain => ?_
    · simpa [conditions, mem_conditionsList] using ⟨p, hp, hc⟩
    · rw [hasExists, hasExistsList_eq_false] at hplain
      exact hplain p hp
  | not p ih => exact .not (ih (fun c hc => h c (by simpa [conditions] using hc)) fun r on q => by
      simpa [hasExists] using hE r on q)
  | ex r on p => exact .ex ((hE r on p).resolve_right (by simp [hasExists]))

lemma each_of_hasExists {p : Predicate} (hplain : hasExists p = false) (h : ∀ c ∈ conditions p, C c) :
    Each C E p := each_of_conditions h fun _ _ _ => .inr hplain

end Each

def Plain (F : String → Prop) : Predicate → Prop := Each (fun c => F c.field) fun _ _ _ => False

lemma Plain.hasExists_eq {F : String → Prop} {p : Predicate} (h : Plain F p) : hasExists p = false := by
  induction h with
  | nil | cond _ => rfl
  | and _ ih | or _ ih =>
    rw [hasExists, hasExistsList_eq_false]
    exact ih
  | not _ ih => rw [hasExists, ih]
  | ex h => exact h.elim

/-- Why `ValidatePredicate` refuses a predicate. -/
inductive PredicateError where
  /-- `ErrINCardinality: maximum must be positive` -/
  | maximumNotPositive
  /-- `ErrInvalidPredicate: empty field` -/
  | emptyField
  /-- `ErrInvalidOp: %q on field %q` -/
  | invalidOp (op : Op) (field : String)
  /-- `ErrInvalidPredicate: %s does not accept a value` -/
  | valueNotAccepted (op : Op)
  /-- `ErrINCardinality: IN value must be []any` -/
  | inNotList (value : Value)
  /-- `ErrINCardinality: got %d values, maximum %d` -/
  | inCardinality (got maximum : Nat)
  /-- `ErrInvalidPredicate: empty AND` or `OR` -/
  | emptyOperands (connective : String)
  /-- `ErrInvalidPredicate: nil AND`, `OR` or `NOT operand` -/
  | nilOperand (connective : String)
  /-- `ErrInvalidPredicate: EXISTS needs a relation and a join` -/
  | existsNeedsJoin
  /-- `ErrInvalidPredicate: EXISTS does not nest` -/
  | existsNests

def defaultMaxINCardinality : Nat := 1000

def validateCondition (c : Condition) (maxIN : Nat) : Except PredicateError Unit :=
  if c.field = "" then .error .emptyField
  else if !c.op.valid then .error (.invalidOp c.op c.field)
  else match c.op, c.value with
    | .isNull, .null => .ok ()
    | .isNull, _ => .error (.valueNotAccepted .isNull)
    | .isNotNull, .null => .ok ()
    | .isNotNull, _ => .error (.valueNotAccepted .isNotNull)
    | .isIn, .list vs | .notIn, .list vs =>
      if vs.length = 0 ∨ maxIN < vs.length then .error (.inCardinality vs.length maxIN) else .ok ()
    | .isIn, v | .notIn, v => .error (.inNotList v)
    | _, _ => .ok ()

mutual
/-- `ValidatePredicateWithMaxINCardinality` past its check of the maximum. -/
def validateWithin (maxIN : Nat) : Predicate → Except PredicateError Unit
  | .nil => .ok ()
  | .cond c => validateCondition c maxIN
  | .and [] => .error (.emptyOperands "AND")
  | .and (p :: ps) => validatePredicateList maxIN "AND" (p :: ps)
  | .or [] => .error (.emptyOperands "OR")
  | .or (p :: ps) => validatePredicateList maxIN "OR" (p :: ps)
  | .not p => if p.isNil then .error (.nilOperand "NOT") else validateWithin maxIN p
  | .ex r on p =>
    if r.name = "" ∨ on = [] then .error .existsNeedsJoin
    else if hasExists p then .error .existsNests
    else validateWithin maxIN p

def validatePredicateList (maxIN : Nat) (name : String) : List Predicate → Except PredicateError Unit
  | [] => .ok ()
  | p :: ps =>
    if p.isNil then .error (.nilOperand name)
    else match validateWithin maxIN p with
      | .error e => .error e
      | .ok () => validatePredicateList maxIN name ps
end

def validatePredicateWithMaxINCardinality (p : Predicate) (maxIN : Int) : Except PredicateError Unit :=
  if maxIN ≤ 0 then .error .maximumNotPositive else validateWithin maxIN.toNat p

def validatePredicate (p : Predicate) : Except PredicateError Unit :=
  validatePredicateWithMaxINCardinality p defaultMaxINCardinality

lemma validatePredicateList_ok {maxIN : Nat} {name : String} {ps : List Predicate} :
    validatePredicateList maxIN name ps = .ok () ↔
      ∀ p ∈ ps, p.isNil = false ∧ validateWithin maxIN p = .ok () := by
  induction ps with
  | nil => simp [validatePredicateList]
  | cons p ps ih =>
    rw [validatePredicateList, forall_mem_cons, ← ih]
    cases hp : p.isNil
    · cases hv : validateWithin maxIN p <;> simp
    · simp

end SqlMcpServer.Relalg
