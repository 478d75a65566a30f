import Mathlib.Tactic.Lemma
import Mathlib.Tactic.Tauto

namespace Kleene

inductive Tri where
  | false
  | unknown
  | true
deriving DecidableEq, Repr, Inhabited

def ofBool (b : Bool) : Tri := if b then .true else .false

def not : Tri → Tri
  | .true => .false
  | .false => .true
  | .unknown => .unknown

def and : Tri → Tri → Tri
  | .false, _ => .false
  | _, .false => .false
  | .true, v => v
  | .unknown, _ => .unknown

def or : Tri → Tri → Tri
  | .true, _ => .true
  | _, .true => .true
  | .false, v => v
  | .unknown, _ => .unknown

def all (vs : List Tri) : Tri := vs.foldr and .true

def any (vs : List Tri) : Tri := vs.foldr or .false

@[simp] lemma ofBool_eq_true (b : Bool) : ofBool b = .true ↔ b = true := by
  cases b <;> simp [ofBool]

@[simp] lemma all_nil : all [] = .true := rfl

@[simp] lemma any_nil : any [] = .false := rfl

@[simp] lemma all_cons (v : Tri) (vs : List Tri) : all (v :: vs) = and v (all vs) := rfl

@[simp] lemma any_cons (v : Tri) (vs : List Tri) : any (v :: vs) = or v (any vs) := rfl

@[simp] lemma and_eq_true (v w : Tri) : and v w = .true ↔ v = .true ∧ w = .true := by
  cases v <;> cases w <;> simp [and]

@[simp] lemma or_eq_true (v w : Tri) : or v w = .true ↔ v = .true ∨ w = .true := by
  cases v <;> cases w <;> simp [or]

@[simp] lemma true_and (v : Tri) : and .true v = v := by cases v <;> rfl

@[simp] lemma and_true (v : Tri) : and v .true = v := by cases v <;> rfl

@[simp] lemma false_and (v : Tri) : and .false v = .false := by cases v <;> rfl

@[simp] lemma and_false (v : Tri) : and v .false = .false := by cases v <;> rfl

@[simp] lemma false_or (v : Tri) : or .false v = v := by cases v <;> rfl

@[simp] lemma or_false (v : Tri) : or v .false = v := by cases v <;> rfl

@[simp] lemma true_or (v : Tri) : or .true v = .true := by cases v <;> rfl

@[simp] lemma or_true (v : Tri) : or v .true = .true := by cases v <;> rfl

lemma and_comm (v w : Tri) : and v w = and w v := by cases v <;> cases w <;> rfl

lemma or_comm (v w : Tri) : or v w = or w v := by cases v <;> cases w <;> rfl

lemma and_assoc (u v w : Tri) : and (and u v) w = and u (and v w) := by
  cases u <;> cases v <;> cases w <;> rfl

lemma or_assoc (u v w : Tri) : or (or u v) w = or u (or v w) := by
  cases u <;> cases v <;> cases w <;> rfl

lemma all_eq_true {vs : List Tri} : all vs = .true ↔ ∀ v ∈ vs, v = .true := by
  induction vs with
  | nil => simp
  | cons v vs ih => simp [ih]

lemma any_eq_true {vs : List Tri} : any vs = .true ↔ Tri.true ∈ vs := by
  induction vs with
  | nil => simp
  | cons v vs ih => rw [any_cons, or_eq_true, ih, List.mem_cons, eq_comm (a := v)]

/-! ## Lists under one connective

Conjunction and disjunction are one thing up to `not`: an operation with a dominant value
and the negation of that value as its unit. -/

structure Connective where
  op : Tri → Tri → Tri
  dominant : Tri
  decided : dominant ≠ .unknown
  dominant_op : ∀ v, op dominant v = dominant
  unit_op : ∀ v, op (not dominant) v = v
  comm : ∀ v w, op v w = op w v
  assoc : ∀ u v w, op (op u v) w = op u (op v w)
  unknown_op : op .unknown .unknown = .unknown

namespace Connective
variable (c : Connective)

def fold (vs : List Tri) : Tri := vs.foldr c.op (not c.dominant)

@[simp] lemma fold_nil : c.fold [] = not c.dominant := rfl

@[simp] lemma fold_cons (v : Tri) (vs : List Tri) : c.fold (v :: vs) = c.op v (c.fold vs) := rfl

@[simp] lemma fold_append (vs ws : List Tri) : c.fold (vs ++ ws) = c.op (c.fold vs) (c.fold ws) := by
  induction vs with
  | nil => rw [List.nil_append, fold_nil, c.unit_op]
  | cons v vs ih => rw [List.cons_append, fold_cons, fold_cons, ih, c.assoc]

lemma op_dominant (v : Tri) : c.op v c.dominant = c.dominant := by rw [c.comm, c.dominant_op]

lemma op_unit (v : Tri) : c.op v (not c.dominant) = v := by rw [c.comm, c.unit_op]

lemma eq_unit {v : Tri} (hd : v ≠ c.dominant) (hu : v ≠ .unknown) : v = not c.dominant := by
  have hdec := c.decided
  revert hd hu hdec
  cases v <;> cases c.dominant <;> simp [not]

end Connective

def conj : Connective :=
  { op := and, dominant := .false, decided := by simp, dominant_op := false_and, unit_op := true_and,
    comm := and_comm, assoc := and_assoc, unknown_op := rfl }

def disj : Connective :=
  { op := or, dominant := .true, decided := by simp, dominant_op := true_or, unit_op := false_or,
    comm := or_comm, assoc := or_assoc, unknown_op := rfl }

lemma conj_fold (vs : List Tri) : conj.fold vs = all vs := rfl

lemma disj_fold (vs : List Tri) : disj.fold vs = any vs := rfl

end Kleene
