import SqlMcpServer.Sql.Order
import SqlMcpServer.Tool.Order

/-!
# What a cursor admits

The predicate that resumes an ordered read is a disjunction: some term's field comes after the
cursor's value and the fields before it are equal.
-/

namespace SqlMcpServer.Tool

open List
open Except (bind_eq_ok pure_eq_ok ok_bind)
open Relalg Interp Kleene

variable {ps : List Predicate} {p : Predicate}

section Connectives
variable {db : DB} {cols : List String} {a : Row}

lemma evalAnd_of_true {qs : List Predicate} (h : ∀ p ∈ ps, evalPredicate db cols a p = .ok .true) :
    evalAnd db cols a (ps ++ qs) .true = evalAnd db cols a qs .true := by
  induction ps with
  | nil => rfl
  | cons p ps ih =>
    rw [cons_append, evalAnd, h p (by simp)]
    simp only [ok_bind, reduceCtorEq, if_false]
    exact ih fun q hq => h q (mem_cons_of_mem _ hq)

lemma evalAnd_of_false {qs : List Predicate} (h : ∀ p ∈ ps, evalPredicate db cols a p = .ok .true)
    (hp : evalPredicate db cols a p = .ok .false) : evalAnd db cols a (ps ++ p :: qs) .true = .ok .false := by
  rw [evalAnd_of_true h, evalAnd, hp]
  simp

lemma evalPredicate_conjunction (hne : ps ≠ []) :
    evalPredicate db cols a (conjunction ps) = evalAnd db cols a ps .true := by
  match ps with
  | [] => exact absurd rfl hne
  | [p] =>
    rw [conjunction, evalAnd]
    cases evalPredicate db cols a p with
    | error e => rfl
    | ok v => cases v <;> rfl
  | p :: q :: ps => rfl

lemma evalOr_cons_false (hp : evalPredicate db cols a p = .ok .false) :
    evalOr db cols a (p :: ps) .false = evalOr db cols a ps .false := by
  rw [evalOr, hp]
  simp

lemma evalOr_cons_true (hp : evalPredicate db cols a p = .ok .true) :
    evalOr db cols a (p :: ps) .false = .ok .true := by
  rw [evalOr, hp]
  simp

end Connectives

abbrev Located := OrderTerm × Nat

/-- The position is of the term's column, and where a row has no value there the term
says so. -/
structure Places (cols : List String) (t : Located) (a : Row) : Prop where
  column : colIndex cols t.1.field = .ok t.2
  nullable : cell a t.2 = .null → t.1.nullable = true

def Directed (t : OrderTerm) : Prop := t.dir = "asc" ∨ t.dir = "desc"

variable {t : OrderTerm}

lemma isDesc_iff (h : Directed t) : isDesc t.dir = true ↔ t.dir = "desc" := by
  rcases h with h | h <;> rw [h] <;> decide

def termCompare (t : OrderTerm) (x y : Value) : Except EvalError Ordering :=
  if isNull x != isNull y then .ok (if isNull y then .lt else .gt)
  else do
    let c ← compareForSort x y
    return if isDesc t.dir then c.swap else c

lemma sortCompare_cons (t : Located) (ts : List Located) (a b : Row) :
    sortCompare (t :: ts) a b = (do
      let c ← termCompare t.1 (cell a t.2) (cell b t.2)
      if c = .eq then sortCompare ts a b else return c) := by
  obtain ⟨t, i⟩ := t
  rw [sortCompare, termCompare]
  split
  · rename_i hne
    split <;> simp
  · cases compareForSort (cell a i) (cell b i) <;> simp

variable {x : Value}

lemma isNull_eq_false : isNull x = false ↔ x ≠ .null := by cases x <;> simp [isNull]

lemma isNull_eq_true : isNull x = true ↔ x = .null := by cases x <;> simp [isNull]

variable {c : Ordering}

section Term
variable {db : DB} {cols : List String} {a : Row} {t : Located} {y : Value}

lemma evalPredicate_cond (h : colIndex cols t.1.field = .ok t.2) (op : Op) (v : Value) :
    evalPredicate db cols a (.cond ⟨t.1.field, op, v⟩) = evalOp (cell a t.2) ⟨t.1.field, op, v⟩ := by
  rw [evalPredicate, evalCondition, h]
  rfl

lemma compareForSort_of_ne (hx : isNull x = false) : compareForSort x y = compareValues x y := by
  have hx' := isNull_eq_false.mp hx
  cases x <;> first | rfl | contradiction

lemma evalComparison_eq (op : Op) (hx : isNull x = false) (hy : isNull y = false) :
    evalComparison x op y = (do
      let c ← compareValues x y
      match op with
      | .eq => return ofBool (c == .eq)
      | .ne => return ofBool (c != .eq)
      | .gt => return ofBool (c == .gt)
      | .gte => return ofBool (c != .lt)
      | .lt => return ofBool (c == .lt)
      | .lte => return ofBool (c != .gt)
      | _ => .error (.unsupported "operator")) := by
  have hx' := isNull_eq_false.mp hx
  have hy' := isNull_eq_false.mp hy
  cases x <;> cases y <;> first | rfl | contradiction

lemma evalComparison_of_ne (hx : isNull x = false) (hy : isNull y = false)
    (hc : compareValues x y = .ok c) :
    evalComparison x .eq y = .ok (ofBool (c == .eq)) ∧ evalComparison x .gt y = .ok (ofBool (c == .gt)) ∧
      evalComparison x .lt y = .ok (ofBool (c == .lt)) := by
  simp only [evalComparison_eq _ hx hy, hc, ok_bind, pure_eq_ok, and_self]

lemma termCompare_of_ne {x : Value} (hx : isNull x = false) (hy : isNull y = false) {c : Ordering}
    (hc : termCompare t.1 x y = .ok c) :
    ∃ c', compareValues x y = .ok c' ∧ c = if isDesc t.1.dir then c'.swap else c' := by
  rw [termCompare, hx, hy, compareForSort_of_ne hx] at hc
  simp only [bne_self_eq_false, Bool.false_eq_true, if_false] at hc
  obtain ⟨c', hc', hc⟩ := bind_eq_ok.mp hc
  exact ⟨c', hc', by simpa using hc.symm⟩

/-- The equality of a term is TRUE on a row the sort places with the cursor's value and
FALSE on one it places before. -/
lemma evalPredicate_equalsValue (hp : Places cols t a) (hc : termCompare t.1 (cell a t.2) y = .ok c)
    (hgt : c ≠ .gt) : evalPredicate db cols a (equalsValue t.1.field y) = .ok (ofBool (c == .eq)) := by
  unfold equalsValue
  cases hy : isNull y with
  | true =>
    rw [if_pos rfl, evalPredicate_cond hp.column]
    simp only [evalOp]
    cases hx : isNull (cell a t.2) with
    | true =>
      rw [isNull_eq_true.mp hx, isNull_eq_true.mp hy] at hc
      simp only [termCompare, isNull, bne_self_eq_false, Bool.false_eq_true, if_false, compareForSort, ok_bind,
        pure_eq_ok, Except.ok.injEq, Ordering.swap_eq, ite_self] at hc
      rw [← hc]
      rfl
    | false =>
      simp only [termCompare, hx, hy, Bool.false_bne, if_true, Except.ok.injEq] at hc
      rw [← hc]
      rfl
  | false =>
    rw [if_neg (by simp), evalPredicate_cond hp.column]
    cases hx : isNull (cell a t.2) with
    | true =>
      simp only [termCompare, hx, hy, Bool.true_bne, Bool.not_false, if_true, Bool.false_eq_true, if_false,
        Except.ok.injEq] at hc
      exact absurd hc.symm hgt
    | false =>
      obtain ⟨c', hc', rfl⟩ := termCompare_of_ne hx hy hc
      simp only [evalOp, (evalComparison_of_ne hx hy hc').1]
      split <;> cases c' <;> rfl

lemma evalPredicate_afterValue (hp : Places cols t a) (hd : Directed t.1) (hy : isNull y = false)
    (hc : termCompare t.1 (cell a t.2) y = .ok c) :
    evalPredicate db cols a (afterValue t.1 y) = .ok (ofBool (c == .gt)) := by
  unfold afterValue
  rw [hy]
  simp only [Bool.false_eq_true, if_false]
  cases hx : isNull (cell a t.2) with
  | true =>
    have hnull : t.1.nullable = true := hp.nullable (isNull_eq_true.mp hx)
    simp only [termCompare, hx, hy, Bool.true_bne, Bool.not_false, if_true, Bool.false_eq_true, if_false,
      Except.ok.injEq] at hc
    rw [hnull, ← hc]
    simp only [if_true, evalPredicate, evalOr, evalCondition, hp.column, ok_bind, isNull_eq_true.mp hx]
    have hunknown : ∀ op v, op = .lt ∨ op = .gt → evalOp .null ⟨t.1.field, op, v⟩ = .ok .unknown := by
      rintro op v (rfl | rfl) <;> rfl
    rw [hunknown _ _ (by split <;> simp)]
    rfl
  | false =>
    obtain ⟨c', hc', rfl⟩ := termCompare_of_ne hx hy hc
    obtain ⟨-, hgt, hlt⟩ := evalComparison_of_ne hx hy hc'
    have hpast : evalPredicate db cols a (.cond ⟨t.1.field, if t.1.dir = "desc" then .lt else .gt, y⟩) =
        .ok (ofBool ((if isDesc t.1.dir then c'.swap else c') == .gt)) := by
      rw [evalPredicate_cond hp.column]
      by_cases hdesc : t.1.dir = "desc"
      · rw [if_pos hdesc, if_pos ((isDesc_iff hd).mpr hdesc)]
        simp only [evalOp, hlt]
        cases c' <;> rfl
      · rw [if_neg hdesc, if_neg (fun h => hdesc ((isDesc_iff hd).mp h))]
        simp only [evalOp, hgt]
    split
    · have hnot : evalPredicate db cols a (.cond ⟨t.1.field, .isNull, .null⟩) = .ok .false := by
        rw [evalPredicate_cond hp.column]
        simp [evalOp, hx, ofBool]
      rw [evalPredicate, evalOr, hpast]
      simp only [ok_bind]
      generalize ((if isDesc t.1.dir then c'.swap else c') == .gt) = b
      cases b with
      | true => rfl
      | false =>
        simp only [ofBool, Bool.false_eq_true, if_false, reduceCtorEq]
        rw [evalOr_cons_false hnot]
        rfl
    · exact hpast

end Term

def equalities (cursor : Values) (before : List OrderTerm) : List Predicate :=
  before.map fun b => equalsValue b.field ((cursor.lookup b.field).getD .null)

variable {before : List OrderTerm}

lemma cursorDisjuncts_cons {wrong : ToolError} {cursor : Values} {ts : List OrderTerm}
    (h : cursorDisjuncts wrong cursor (t :: ts) before = .ok ps) :
    ∃ y rest, cursor.lookup t.field = some y ∧ cursorDisjuncts wrong cursor ts (before ++ [t]) = .ok rest ∧
      ps = if isNull y then rest else conjunction (equalities cursor before ++ [afterValue t y]) :: rest := by
  rw [cursorDisjuncts] at h
  split at h
  · cases h
  rename_i y hy
  split at h
  · cases h
  obtain ⟨rest, hrest, h⟩ := bind_eq_ok.mp h
  rw [pure_eq_ok, Except.ok.injEq] at h
  refine ⟨y, rest, hy, hrest, h.symm.trans ?_⟩
  have hnil : (afterValue t y).isNil = isNull y := by
    cases hnull : isNull y <;> cases hnullable : t.nullable <;> simp [afterValue, hnull, hnullable, Predicate.isNil]
  rw [hnil]
  rfl

section Disjuncts
variable {db : DB} {cols : List String} {a r : Row} {cursor : Values} {wrong : ToolError}

lemma evalOr_of_before {ts : List OrderTerm}
    (h : cursorDisjuncts wrong cursor ts before = .ok ps) {equal rest : List Predicate}
    (hbefore : equalities cursor before = equal ++ p :: rest)
    (hequal : ∀ q ∈ equal, evalPredicate db cols a q = .ok .true) (hp : evalPredicate db cols a p = .ok .false) :
    evalOr db cols a ps .false = .ok .false := by
  induction ts generalizing before rest ps with
  | nil =>
    cases h
    rfl
  | cons t ts ih =>
    obtain ⟨y, rest', hy, hrest, rfl⟩ := cursorDisjuncts_cons h
    have hnext : equalities cursor (before ++ [t]) = equal ++ p :: (rest ++ equalities cursor [t]) := by
      unfold equalities at hbefore ⊢
      rw [map_append, hbefore]
      simp
    have htail := ih hrest hnext
    split
    · exact htail
    · have hfalse : evalPredicate db cols a (conjunction (equalities cursor before ++ [afterValue t y])) = .ok .false := by
        rw [evalPredicate_conjunction (by simp), hbefore, append_assoc, cons_append]
        exact evalAnd_of_false hequal hp
      rw [evalOr_cons_false hfalse, htail]

/-- The disjuncts after terms that are equal say whether the sort places the row after the
cursor's by the terms left. -/
lemma evalOr_cursorDisjuncts {ts : List Located}
    (hplaces : ∀ t ∈ ts, Places cols t a) (hdirected : ∀ t ∈ ts, Directed t.1)
    (hcursor : ∀ t ∈ ts, cursor.lookup t.1.field = some (cell r t.2))
    (hbefore : ∀ p ∈ equalities cursor before, evalPredicate db cols a p = .ok .true)
    (hsort : sortCompare ts a r = .ok c) (h : cursorDisjuncts wrong cursor (ts.map (·.1)) before = .ok ps) :
    evalOr db cols a ps .false = .ok (ofBool (c == .gt)) := by
  induction ts generalizing before ps with
  | nil =>
    cases h
    cases hsort
    rfl
  | cons t ts ih =>
    obtain ⟨y, rest, hy, hrest, rfl⟩ := cursorDisjuncts_cons h
    have hyr : y = cell r t.2 := Option.some.inj (hy.symm.trans (hcursor t (by simp)))
    rw [sortCompare_cons] at hsort
    obtain ⟨d, hd, hsort⟩ := bind_eq_ok.mp hsort
    rw [← hyr] at hd
    have hequality : equalities cursor (before ++ [t.1]) = equalities cursor before ++ [equalsValue t.1.field y] := by
      unfold equalities
      rw [map_append, map_singleton, hy, Option.getD_some]
    have hplace := hplaces t (by simp)
    -- the disjunct of the term itself, if it has one
    have hown : isNull y = false →
        evalPredicate db cols a (conjunction (equalities cursor before ++ [afterValue t.1 y])) = .ok (ofBool (d == .gt)) := by
      intro hnull
      rw [evalPredicate_conjunction (by simp), evalAnd_of_true hbefore, evalAnd,
        evalPredicate_afterValue hplace (hdirected t (by simp)) hnull hd]
      cases d <;> rfl
    cases d with
    | gt =>
      have hnull : isNull y = false := by
        by_contra hnull
        simp only [Bool.not_eq_false] at hnull
        rw [isNull_eq_true.mp hnull] at hd
        cases hx : cell a t.2 <;>
          simp [hx, termCompare, isNull, compareForSort] at hd
      simp only [reduceCtorEq, if_false, pure_eq_ok, Except.ok.injEq] at hsort
      rw [hnull]
      simp only [Bool.false_eq_true, if_false]
      rw [evalOr_cons_true (hown hnull), ← hsort]
      rfl
    | eq =>
      simp only [if_true] at hsort
      have heq : evalPredicate db cols a (equalsValue t.1.field y) = _ := evalPredicate_equalsValue hplace hd (by simp)
      have hbefore' : ∀ p ∈ equalities cursor (before ++ [t.1]), evalPredicate db cols a p = .ok .true := by
        rw [hequality]
        intro p hp
        rcases mem_append.mp hp with hp | hp
        · exact hbefore p hp
        · rw [mem_singleton.mp hp]
          exact heq
      have htail := ih (fun u hu => hplaces u (mem_cons_of_mem _ hu))
        (fun u hu => hdirected u (mem_cons_of_mem _ hu)) (fun u hu => hcursor u (mem_cons_of_mem _ hu))
        hbefore' hsort hrest
      split
      · exact htail
      · rename_i hnull
        rw [evalOr_cons_false (hown (by simpa using hnull)), htail]
    | lt =>
      simp only [reduceCtorEq, if_false, pure_eq_ok, Except.ok.injEq] at hsort
      have heq : evalPredicate db cols a (equalsValue t.1.field y) = _ := evalPredicate_equalsValue hplace hd (by simp)
      have htail := evalOr_of_before hrest hequality hbefore heq
      rw [← hsort]
      split
      · exact htail
      · rename_i hnull
        rw [evalOr_cons_false (hown (by simpa using hnull)), htail]
        rfl

/-- The disjuncts are there when the cursor has a value for each term, NULL only where allowed;
and one is, when a value is not NULL. -/
lemma cursorDisjuncts_isOk {ts before : List OrderTerm}
    (hcursor : ∀ t ∈ ts, ∃ y, cursor.lookup t.field = some y ∧ (isNull y = true → t.nullable = true)) :
    ∃ ps, cursorDisjuncts wrong cursor ts before = .ok ps ∧
      ((∃ t ∈ ts, ∃ y, cursor.lookup t.field = some y ∧ isNull y = false) → ps ≠ []) := by
  induction ts generalizing before with
  | nil => exact ⟨[], rfl, by simp⟩
  | cons t ts ih =>
    obtain ⟨y, hy, hnullable⟩ := hcursor t (by simp)
    obtain ⟨rest, hrest, hne⟩ := @ih (before ++ [t]) fun u hu => hcursor u (mem_cons_of_mem _ hu)
    have hallowed : ¬ (isNull y = true ∧ ¬ t.nullable = true) := fun h => h.2 (hnullable h.1)
    rw [cursorDisjuncts, hy]
    simp only
    rw [if_neg hallowed, hrest]
    refine ⟨_, rfl, ?_⟩
    rintro ⟨u, hu, z, hz, hset⟩
    split
    · rename_i hnil
      refine hne ?_
      rcases mem_cons.mp hu with rfl | hu
      · obtain rfl : y = z := Option.some.inj (hy.symm.trans hz)
        simp only [afterValue, hset, Bool.false_eq_true, if_false] at hnil
        split at hnil <;> cases hnil
      · exact ⟨u, hu, z, hz, hset⟩
    · simp

lemma evalPredicate_disjuncts {b : Bool}
    (hp : p = match ps with | [p] => p | ps => .or ps) (h : evalOr db cols a ps .false = .ok (ofBool b)) :
    evalPredicate db cols a p = .ok (ofBool b) := by
  subst hp
  split
  · rename_i p
    rw [evalOr] at h
    cases hv : evalPredicate db cols a p with
    | error e =>
      rw [hv] at h
      cases h
    | ok v =>
      rw [hv] at h
      cases v <;> simpa [evalOr] using h
  · rw [evalPredicate]
    exact h

/-- The predicate that resumes an ordered read is TRUE on the rows the sort places after
the cursor's, and FALSE on the others. -/
lemma evalPredicate_orderCursor {o : ReadOrder} {ts : List Located} {q : Predicate}
    (hterms : ts.map (·.1) = o.terms) (hplaces : ∀ t ∈ ts, Places cols t a) (hdirected : ∀ t ∈ ts, Directed t.1)
    (hcursor : ∀ t ∈ ts, cursor.lookup t.1.field = some (cell r t.2)) (hsort : sortCompare ts a r = .ok c)
    (h : orderCursor o cursor = .ok q) : evalPredicate db cols a q = .ok (ofBool (c == .gt)) := by
  unfold orderCursor at h
  split at h
  · cases h
  split at h
  · cases h
  obtain ⟨ps, hps, h⟩ := bind_eq_ok.mp h
  rw [← hterms] at hps
  have heval : evalOr db cols a ps .false = .ok (ofBool (c == .gt)) :=
    evalOr_cursorDisjuncts hplaces hdirected hcursor (by simp [equalities]) hsort hps
  refine evalPredicate_disjuncts ?_ heval
  split at h
  · cases h
  · cases h
    rfl
  · rename_i hne
    cases h
    split
    · exact absurd rfl (hne _)
    · rfl

/-- A cursor of every term, NULL only where the term allows it and not NULL everywhere,
resumes an order that pages. -/
lemma orderCursor_isOk {o : ReadOrder} (hpages : o.pageable = true) (hlen : cursor.keys.length = o.terms.length)
    (hcursor : ∀ t ∈ o.terms, ∃ y, cursor.lookup t.field = some y ∧ (isNull y = true → t.nullable = true))
    (hset : ∃ t ∈ o.terms, ∃ y, cursor.lookup t.field = some y ∧ isNull y = false) : ∃ q, orderCursor o cursor = .ok q := by
  obtain ⟨ps, hps, hne⟩ := @cursorDisjuncts_isOk cursor (.wrongCursor o.fields) o.terms [] hcursor
  rw [orderCursor, hpages, if_neg (by simp), if_neg (by simp [hlen]), hps]
  match ps, hne hset with
  | [p], _ => exact ⟨p, rfl⟩
  | p :: q :: rest, _ => exact ⟨_, rfl⟩

end Disjuncts

def Operand (maxIN : Nat) (p : Predicate) : Prop := p.isNil = false ∧ validateWithin maxIN p = .ok ()

section Valid
variable {maxIN : Nat}

lemma operand_and (hne : ps ≠ []) (h : ∀ p ∈ ps, Operand maxIN p) : Operand maxIN (.and ps) := by
  obtain ⟨p, ps, rfl⟩ := exists_cons_of_ne_nil hne
  refine ⟨rfl, ?_⟩
  rw [validateWithin]
  exact validatePredicateList_ok.mpr h

lemma operand_or (hne : ps ≠ []) (h : ∀ p ∈ ps, Operand maxIN p) : Operand maxIN (.or ps) := by
  obtain ⟨p, ps, rfl⟩ := exists_cons_of_ne_nil hne
  refine ⟨rfl, ?_⟩
  rw [validateWithin]
  exact validatePredicateList_ok.mpr h

lemma operand_conjunction (hne : ps ≠ []) (h : ∀ p ∈ ps, Operand maxIN p) :
    Operand maxIN (conjunction ps) := by
  match ps with
  | [] => exact absurd rfl hne
  | [p] => exact h p (by simp)
  | p :: q :: ps => exact operand_and (by simp) h

lemma operand_cond {field : String} (hfield : field ≠ "") {op : Op} {v : Value}
    (h : op = .eq ∨ op = .gt ∨ op = .lt ∨ (op = .isNull ∧ v = .null)) : Operand maxIN (.cond ⟨field, op, v⟩) := by
  refine ⟨rfl, ?_⟩
  rcases h with rfl | rfl | rfl | ⟨rfl, rfl⟩ <;> simp [validateWithin, validateCondition, hfield, Op.valid]

lemma operand_equalsValue {field : String} (hfield : field ≠ "") (v : Value) : Operand maxIN (equalsValue field v) := by
  unfold equalsValue
  split
  · exact operand_cond hfield (by simp)
  · exact operand_cond hfield (by simp)

lemma operand_afterValue (hfield : t.field ≠ "") {v : Value} (hv : isNull v = false) :
    Operand maxIN (afterValue t v) := by
  have hpast : Operand maxIN (.cond ⟨t.field, if t.dir = "desc" then .lt else .gt, v⟩) :=
    operand_cond hfield (by split <;> simp)
  unfold afterValue
  rw [hv]
  simp only [Bool.false_eq_true, if_false]
  split
  · refine operand_or (by simp) fun p hp => ?_
    rcases mem_pair.mp hp with rfl | rfl
    · exact hpast
    · exact operand_cond hfield (by simp)
  · exact hpast

lemma operand_cursorDisjuncts {cursor : Values} {wrong : ToolError} {ts : List OrderTerm}
    (hfields : ∀ t ∈ before ++ ts, t.field ≠ "") (h : cursorDisjuncts wrong cursor ts before = .ok ps) :
    ∀ p ∈ ps, Operand maxIN p := by
  induction ts generalizing before ps with
  | nil =>
    cases h
    simp
  | cons t ts ih =>
    obtain ⟨y, rest, -, hrest, rfl⟩ := cursorDisjuncts_cons h
    have htail := ih (by simpa using hfields) hrest
    split
    · exact htail
    · rename_i hnull
      refine forall_mem_cons.mpr ⟨operand_conjunction (by simp) fun p hp => ?_, htail⟩
      rcases mem_append.mp hp with hp | hp
      · obtain ⟨b, hb, rfl⟩ := mem_map.mp hp
        exact operand_equalsValue (hfields b (mem_append_left _ hb)) _
      · rw [mem_singleton.mp hp]
        exact operand_afterValue (hfields t (by simp)) (by simpa using hnull)

lemma operand_orderCursor {o : ReadOrder} {cursor : Values} {q : Predicate} (hfields : ∀ t ∈ o.terms, t.field ≠ "")
    (h : orderCursor o cursor = .ok q) : Operand maxIN q := by
  unfold orderCursor at h
  split at h
  · cases h
  split at h
  · cases h
  obtain ⟨ps, hps, h⟩ := bind_eq_ok.mp h
  have hall : ∀ p ∈ ps, Operand maxIN p := operand_cursorDisjuncts (by simpa using hfields) hps
  split at h
  · cases h
  · cases h
    exact hall q (by simp)
  · rename_i hne _
    cases h
    exact operand_or hne hall

end Valid

lemma compare_of_termCompare (col : Sql.Term) (nullsLow : Bool) {y : Value}
    (h : termCompare t x y = .ok c) : (Sql.OrderItem.term col (isDesc t.dir) true).compare nullsLow x y = c := by
  have hplace : ∀ v, Sql.nullPlace nullsLow (isDesc t.dir) true v = if isNull v then 2 else 1 := by
    intro v
    cases hv : isNull v with
    | true => simp [Sql.nullPlace, isNull_eq_true.mp hv]
    | false => simp [Sql.nullPlace, isNull_eq_false.mp hv]
  rw [Sql.OrderItem.compare, hplace, hplace]
  cases hx : isNull x <;> cases hy : isNull y
  · obtain ⟨c', hc', rfl⟩ := @termCompare_of_ne (t, 0) y x hx hy c h
    have hcmp := Sql.cmp_place hc'
    have hswap := Sql.cmp_place (compareValues_swap hc')
    rw [cmp_self_eq_eq, Ordering.eq_then, hcmp, hswap]
  · simp only [termCompare, hx, hy, Bool.false_bne, if_true, Except.ok.injEq] at h
    rw [← h]
    rfl
  · simp only [termCompare, hx, hy, Bool.true_bne, Bool.not_false, if_true, Bool.false_eq_true, if_false,
      Except.ok.injEq] at h
    rw [← h]
    rfl
  · rw [isNull_eq_true.mp hx, isNull_eq_true.mp hy] at h ⊢
    simp only [termCompare, isNull, bne_self_eq_false, Bool.false_eq_true, if_false, compareForSort, ok_bind,
      pure_eq_ok, Except.ok.injEq, Ordering.swap_eq, ite_self] at h
    rw [← h, cmp_self_eq_eq, Ordering.eq_then, cmp_self_eq_eq, ite_self]

lemma exists_place (ts : List Located) : ∃ (τ : Type) (_ : LinearOrder τ) (place : Row → τ),
    ∀ a b c, sortCompare ts a b = .ok c → cmp (place a) (place b) = c := by
  induction ts with
  | nil =>
    refine ⟨Unit, inferInstance, fun _ => (), fun a b c h => ?_⟩
    cases h
    rfl
  | cons t ts ih =>
    obtain ⟨σ, _, f, hf⟩ := (Sql.OrderItem.term (.col (.bare t.1.field)) (isDesc t.1.dir) true).compare_eq_cmp false
    obtain ⟨τ, _, place, hplace⟩ := ih
    refine ⟨σ ×ₗ τ, inferInstance, fun a => toLex (f (cell a t.2), place a), fun a b c h => ?_⟩
    rw [sortCompare_cons] at h
    obtain ⟨d, hd, h⟩ := bind_eq_ok.mp h
    rw [Sql.cmp_toLex, ← hf, compare_of_termCompare _ _ hd]
    cases d with
    | eq => exact hplace a b c h
    | lt => exact Except.ok.inj h
    | gt => exact Except.ok.inj h

section Sorting
variable {ts : List Located} {a b : Row}

lemma termCompare_isOk (t : OrderTerm) {y : Value}
    (h : x ≠ .null → y ≠ .null → ∃ c, compareValues x y = .ok c) : ∃ c, termCompare t x y = .ok c := by
  unfold termCompare
  cases hx : isNull x <;> cases hy : isNull y
  · obtain ⟨c, hc⟩ := h (isNull_eq_false.mp hx) (isNull_eq_false.mp hy)
    rw [compareForSort_of_ne hx, hc]
    exact ⟨_, rfl⟩
  · exact ⟨_, rfl⟩
  · exact ⟨_, rfl⟩
  · rw [isNull_eq_true.mp hx, isNull_eq_true.mp hy]
    exact ⟨_, rfl⟩

lemma sortCompare_isOk
    (h : ∀ t ∈ ts, cell a t.2 ≠ .null → cell b t.2 ≠ .null → ∃ c, compareValues (cell a t.2) (cell b t.2) = .ok c) :
    ∃ c, sortCompare ts a b = .ok c := by
  induction ts with
  | nil => exact ⟨_, rfl⟩
  | cons t ts ih =>
    obtain ⟨c, hc⟩ := termCompare_isOk t.1 (h t (by simp))
    rw [sortCompare_cons, hc, ok_bind]
    split
    · exact ih fun u hu => h u (mem_cons_of_mem _ hu)
    · exact ⟨c, rfl⟩

lemma termCompare_eq {y : Value} (h : termCompare t x y = .ok .eq) : x = y := by
  cases hx : isNull x <;> cases hy : isNull y
  · obtain ⟨c, hc, heq⟩ := @termCompare_of_ne (t, 0) y x hx hy _ h
    refine compareValues_eq (hc.trans ?_)
    split at heq <;> cases c <;> simp at heq ⊢
  · simp [termCompare, hx, hy] at h
  · simp [termCompare, hx, hy] at h
  · rw [isNull_eq_true.mp hx, isNull_eq_true.mp hy]

lemma sortCompare_eq (h : sortCompare ts a b = .ok .eq) : ∀ t ∈ ts, cell a t.2 = cell b t.2 := by
  induction ts with
  | nil => simp
  | cons t ts ih =>
    rw [sortCompare_cons] at h
    obtain ⟨c, hc, h⟩ := bind_eq_ok.mp h
    cases c with
    | eq => exact forall_mem_cons.mpr ⟨termCompare_eq hc, ih h⟩
    | lt => cases h
    | gt => cases h

lemma located {cols : List String} {terms : List OrderTerm} {idx : List Nat}
    (h : (terms.mapM fun t => colIndex cols t.field) = .ok idx) :
    (terms.zip idx).map (·.1) = terms ∧ ∀ t ∈ terms.zip idx, colIndex cols t.1.field = .ok t.2 := by
  have hall := Except.mapM_eq_ok.mp h
  refine ⟨?_, fun t ht => (forall₂_iff_zip.mp hall).2 ht⟩
  exact map_fst_zip hall.length_eq.le

end Sorting

def ascending (c : String) : OrderTerm := ⟨c, "asc", false⟩

section Keyset
variable {db : DB} {cols : List String} {a r : Row} {cursor : Values} {wrong : ToolError}

lemma cursorDisjuncts_ascending {key : List String} {before : List OrderTerm}
    (hcursor : ∀ c ∈ key, ∃ v, cursor.lookup c = some v ∧ isNull v = false) :
    (cursorPart cursor key).map (·.1) = key ∧
      cursorDisjuncts wrong cursor (key.map ascending) before =
        .ok (keysetFrom (cursorPart cursor key) (equalities cursor before)) := by
  induction key generalizing before with
  | nil => exact ⟨rfl, rfl⟩
  | cons c key ih =>
    obtain ⟨v, hv, hset⟩ := hcursor c (by simp)
    have hnext : equalities cursor (before ++ [ascending c]) = equalities cursor before ++ [.cond ⟨c, .eq, v⟩] := by
      simp [equalities, ascending, hv, equalsValue, hset]
    have hafter : afterValue (ascending c) v = .cond ⟨c, .gt, v⟩ := by simp [afterValue, ascending, hset]
    obtain ⟨hcols, hrest⟩ := @ih (before ++ [ascending c]) fun d hd => hcursor d (mem_cons_of_mem _ hd)
    rw [hnext] at hrest
    refine ⟨?_, ?_⟩
    · simp [cursorPart, hv, hcols]
    · have hfield : (ascending c).field = c := rfl
      rw [map_cons, cursorDisjuncts, hfield, hv]
      have hallowed : ¬ (isNull v = true ∧ ¬ (ascending c).nullable = true) := by simp [hset]
      simp only
      rw [if_neg hallowed, hrest, hafter, cursorPart, hv, keysetFrom]
      rfl

/-- The keyset over a full key is TRUE on the rows placed after the cursor's in the
ascending order of the key, and FALSE on the others. -/
lemma evalPredicate_keysetAfter {key : List String} {idx : List Nat} (hne : key ≠ [])
    (hidx : ((key.map ascending).mapM fun t => colIndex cols t.field) = .ok idx)
    (hcursor : ∀ c ∈ key, cursor.lookup c = some (valueOf cols r c))
    (hcompare : ∀ c ∈ key, ∃ o, compareValues (valueOf cols a c) (valueOf cols r c) = .ok o) :
    ∃ c, sortCompare ((key.map ascending).zip idx) a r = .ok c ∧
      evalPredicate db cols a (keysetAfter key cursor).1 = .ok (ofBool (c == .gt)) ∧ (keysetAfter key cursor).2 = key := by
  obtain ⟨hterms, hcol⟩ := located hidx
  have hmem : ∀ t ∈ (key.map ascending).zip idx, t.1.field ∈ key ∧ Directed t.1 := by
    intro t ht
    obtain ⟨c, hc, hct⟩ := mem_map.mp (of_mem_zip ht).1
    rw [← hct]
    exact ⟨hc, .inl rfl⟩
  have hnull : ∀ c ∈ key, isNull (valueOf cols a c) = false ∧ isNull (valueOf cols r c) = false := by
    intro c hc
    obtain ⟨o, ho⟩ := hcompare c hc
    constructor
    · rw [isNull_eq_false]
      intro hnull
      simp [hnull, compareValues] at ho
    · rw [isNull_eq_false]
      intro hnull
      cases hv : valueOf cols a c <;> simp [hnull, hv, compareValues] at ho
  have hplaces : ∀ t ∈ (key.map ascending).zip idx, Places cols t a := by
    intro t ht
    refine ⟨hcol t ht, fun hcell => ?_⟩
    rw [cell_eq_valueOf a (hcol t ht)] at hcell
    have := (hnull _ (hmem t ht).1).1
    simp [hcell, isNull] at this
  obtain ⟨c, hc⟩ : ∃ c, sortCompare ((key.map ascending).zip idx) a r = .ok c := by
    refine sortCompare_isOk fun t ht _ _ => ?_
    rw [cell_eq_valueOf a (hcol t ht), cell_eq_valueOf r (hcol t ht)]
    exact hcompare _ (hmem t ht).1
  obtain ⟨hcols, hps⟩ := @cursorDisjuncts_ascending cursor (.wrongCursor key) key []
    fun c hc => ⟨_, hcursor c hc, (hnull c hc).2⟩
  have heval : evalOr db cols a (keysetFrom (cursorPart cursor key) []) .false = .ok (ofBool (c == .gt)) := by
    refine evalOr_cursorDisjuncts hplaces (fun t ht => (hmem t ht).2) (fun t ht => ?_) (by simp [equalities]) hc
      (hterms.symm ▸ hps)
    rw [hcursor _ (hmem t ht).1, cell_eq_valueOf r (hcol t ht)]
  have hpart : keysetFrom (cursorPart cursor key) [] ≠ [] := by
    cases hkey : cursorPart cursor key with
    | nil =>
      rw [hkey] at hcols
      exact absurd hcols.symm hne
    | cons cv rest => simp [keysetFrom]
  refine ⟨c, hc, ?_, ?_⟩
  · refine evalPredicate_disjuncts ?_ heval
    unfold keysetAfter
    simp only
    split
    · rename_i hnil
      exact absurd hnil hpart
    · rename_i hone
      rw [hone]
    · rename_i hmany
      split
      · rename_i hone
        exact absurd hone (hmany _)
      · rfl
  · unfold keysetAfter
    simp only
    split
    · rename_i hnil
      exact absurd hnil hpart
    · exact hcols
    · exact hcols

end Keyset

end SqlMcpServer.Tool
