import SqlMcpServer.Lib.KleeneLoop
import SqlMcpServer.Relalg.Interp

namespace SqlMcpServer.Interp

open Except (bind_eq_ok pure_eq_ok)
open Relalg Kleene

/-- A row as the values its columns hold; a column it does not have has none. -/
abbrev Env := String → Option Value

def rowEnv (cols : List String) (row : Row) : Env := fun name =>
  (cols.findIdx? (· == name)).map (cell row)

/-- The verdict of an evaluation, UNKNOWN when it failed. -/
def settle : Except EvalError Tri → Tri
  | .ok v => v
  | .error _ => .unknown

def truthCond (ρ : Env) (c : Condition) : Tri :=
  match ρ c.field with
  | some v => settle (evalOp v c)
  | none => .unknown

def onHolds (ρ σ : Env) (on : List JoinPair) : Bool :=
  on.all fun p =>
    match ρ p.left, σ p.right with
    | some x, some y => settle (evalComparison x .eq y) == .true
    | _, _ => false

mutual
def truth (db : DB) (ρ : Env) : Predicate → Tri
  | .nil => .true
  | .cond c => truthCond ρ c
  | .and preds => all (truthList db ρ preds)
  | .or preds => any (truthList db ρ preds)
  | .not p => Kleene.not (truth db ρ p)
  | .ex r on p =>
    match db r.name with
    | none => .unknown
    | some t => ofBool (t.rows.any fun candidate =>
        onHolds ρ (rowEnv t.cols candidate) on && decide (truth db (rowEnv t.cols candidate) p = .true))

def truthList (db : DB) (ρ : Env) : List Predicate → List Tri
  | [] => []
  | p :: ps => truth db ρ p :: truthList db ρ ps
end

@[simp] lemma truthList_eq_map (db : DB) (ρ : Env) (ps : List Predicate) :
    truthList db ρ ps = ps.map (truth db ρ) := by
  induction ps with
  | nil => rfl
  | cons p ps ih => simp [truthList, ih]

@[simp] lemma truth_nil (db : DB) (ρ : Env) : truth db ρ .nil = .true := by simp [truth]

lemma truth_cond (db : DB) (ρ : Env) (c : Condition) : truth db ρ (.cond c) = truthCond ρ c := by
  simp [truth]

lemma truth_and (db : DB) (ρ : Env) (ps : List Predicate) :
    truth db ρ (.and ps) = all (ps.map (truth db ρ)) := by simp [truth]

lemma truth_or (db : DB) (ρ : Env) (ps : List Predicate) :
    truth db ρ (.or ps) = any (ps.map (truth db ρ)) := by simp [truth]

lemma truth_not (db : DB) (ρ : Env) (p : Predicate) :
    truth db ρ (.not p) = Kleene.not (truth db ρ p) := by simp [truth]

variable {db : DB} {ρ : Env} {ps : List Predicate}

@[simp] lemma truth_and_eq_true :
    truth db ρ (.and ps) = .true ↔ ∀ p ∈ ps, truth db ρ p = .true := by
  simp [truth_and, all_eq_true]

@[simp] lemma truth_or_eq_true :
    truth db ρ (.or ps) = .true ↔ ∃ p ∈ ps, truth db ρ p = .true := by
  simp [truth_or, any_eq_true]

lemma truth_congr {db' : DB} {σ : Env} {p : Predicate} (hp : hasExists p = false)
    (h : ∀ c ∈ conditions p, ρ c.field = σ c.field) : truth db ρ p = truth db' σ p := by
  induction p using Predicate.ind with
  | nil => simp
  | cond c => simp [truth_cond, truthCond, h c (by simp [conditions])]
  | and ps ih | or ps ih =>
    simp only [hasExists, hasExistsList_eq_false] at hp
    have hmap : ps.map (truth db ρ) = ps.map (truth db' σ) := by
      apply List.map_congr_left
      intro q hq
      exact ih q hq (hp q hq) (fun c hc => h c (by simpa [conditions, mem_conditionsList] using ⟨q, hq, hc⟩))
    simp [truth_and, truth_or, hmap]
  | not p ih =>
    simp only [hasExists] at hp
    rw [truth_not, truth_not, ih hp (fun c hc => h c (by simpa [conditions] using hc))]
  | ex r on p => simp [hasExists] at hp

lemma truth_emptyDB {p : Predicate} (hp : hasExists p = false) :
    truth db ρ p = truth emptyDB ρ p := truth_congr hp fun _ _ => rfl

lemma evalAnd_eq_loop (db : DB) (cols : List String) (row : Row) (ps : List Predicate) (acc : Tri) :
    evalAnd db cols row ps acc = conj.loop (evalPredicate db cols row) ps acc := by
  induction ps generalizing acc with
  | nil => rw [evalAnd, Connective.loop]
  | cons p ps ih =>
    rw [evalAnd, Connective.loop]
    simp only [ih]
    rfl

lemma evalOr_eq_loop (db : DB) (cols : List String) (row : Row) (ps : List Predicate) (acc : Tri) :
    evalOr db cols row ps acc = disj.loop (evalPredicate db cols row) ps acc := by
  induction ps generalizing acc with
  | nil => rw [evalOr, Connective.loop]
  | cons p ps ih =>
    rw [evalOr, Connective.loop]
    simp only [ih]
    rfl

lemma evalInList_eq_loop (left : Value) (vs : List Value) (acc : Tri) :
    evalInList left vs acc = disj.loop (evalComparison left .eq) vs acc := by
  induction vs generalizing acc with
  | nil => rw [evalInList, Connective.loop]
  | cons v vs ih =>
    rw [evalInList, Connective.loop]
    simp only [ih]
    rfl

variable {cols : List String}

lemma rowEnv_of_colIndex {name : String} {i : Nat} (row : Row)
    (h : colIndex cols name = .ok i) : rowEnv cols row name = some (cell row i) := by
  unfold colIndex at h
  unfold rowEnv
  cases hi : cols.findIdx? (· == name) with
  | none => simp [hi] at h
  | some j =>
    simp only [hi, Except.ok.injEq] at h
    simp [h]

variable {row : Row} {v : Tri}

lemma evalCondition_truth {c : Condition}
    (h : evalCondition cols row c = .ok v) : truthCond (rowEnv cols row) c = v := by
  obtain ⟨i, hi, hv⟩ := bind_eq_ok.mp h
  simp [truthCond, rowEnv_of_colIndex row hi, hv, settle]

/-- The rows kept of a list of things that have a row are those of the things on whose row
the verdict is TRUE. -/
lemma keepRows_map {α : Type} (row : α → Row) {f : Row → Except EvalError Tri} {g : α → Tri} {xs : List α}
    {out : List Row} (hfg : ∀ x ∈ xs, ∀ v, f (row x) = .ok v → g x = v) (h : keepRows f (xs.map row) = .ok out) :
    out = (xs.filter fun x => g x = .true).map row := by
  induction xs generalizing out with
  | nil =>
    cases h
    rfl
  | cons x xs ih =>
    obtain ⟨v, hv, h⟩ := bind_eq_ok.mp h
    obtain ⟨rest, hrest, h⟩ := bind_eq_ok.mp h
    have hg : g x = v := hfg x (by simp) v hv
    have hr : rest = (xs.filter fun x => g x = .true).map row :=
      ih (fun y hy => hfg y (List.mem_cons_of_mem _ hy)) hrest
    cases h
    rw [List.filter_cons, hg, hr]
    by_cases ht : v = .true <;> simp [ht]

lemma keepRows_eq_filter {f : Row → Except EvalError Tri} {g : Row → Tri} {rows out : List Row}
    (hfg : ∀ row ∈ rows, ∀ v, f row = .ok v → g row = v) (h : keepRows f rows = .ok out) :
    out = rows.filter (fun row => g row = .true) := by
  have hmap := keepRows_map id hfg (by rwa [List.map_id])
  rwa [List.map_id] at hmap

lemma onMatches_eq_onHolds {leftCols rightCols : List String} {candidate : Row} {on : List JoinPair}
    {b : Bool} (h : onMatches leftCols row rightCols candidate on = .ok b) :
    b = onHolds (rowEnv leftCols row) (rowEnv rightCols candidate) on := by
  induction on generalizing b with
  | nil =>
    rw [onMatches, Except.ok.injEq] at h
    exact h.symm
  | cons p ps ih =>
    obtain ⟨l, hl, h⟩ := bind_eq_ok.mp h
    obtain ⟨r, hr, h⟩ := bind_eq_ok.mp h
    obtain ⟨eq, heq, h⟩ := bind_eq_ok.mp h
    obtain ⟨rest, hrest, h⟩ := bind_eq_ok.mp h
    rw [pure_eq_ok, Except.ok.injEq] at h
    have hps := ih hrest
    rw [← h, hps, onHolds, onHolds, List.all_cons, rowEnv_of_colIndex row hl, rowEnv_of_colIndex candidate hr]
    simp only [heq, settle]
    congr 1

lemma matching_eq_filter {leftCols : List String} {right : Relation} {on : List JoinPair}
    {f : Row → Except EvalError Tri} {g : Row → Tri} {found : List Row}
    (hfg : ∀ candidate ∈ right.rows, ∀ v, f candidate = .ok v → g candidate = v)
    (h : matching leftCols row right on f = .ok found) :
    found = right.rows.filter (fun candidate =>
      onHolds (rowEnv leftCols row) (rowEnv right.cols candidate) on && decide (g candidate = .true)) := by
  have key := keepRows_eq_filter
    (g := fun candidate => if onHolds (rowEnv leftCols row) (rowEnv right.cols candidate) on
      then g candidate else .false) ?_ h
  · rw [key]
    congr 1
    funext candidate
    cases onHolds (rowEnv leftCols row) (rowEnv right.cols candidate) on <;> simp
  · intro candidate hc v hv
    obtain ⟨b, hb, hv⟩ := bind_eq_ok.mp hv
    rw [← onMatches_eq_onHolds hb]
    cases b with
    | false => simpa using hv
    | true => exact hfg candidate hc v (by simpa using hv)

def Verdicts (db : DB) (cols : List String) (row : Row) (ps : List Predicate) (ts : List Tri) : Prop :=
  List.Forall₂ (fun p t => ∀ v, evalPredicate db cols row p = .ok v → t = v) ps ts

lemma evalAnd_verdict {ts : List Tri} {acc : Tri}
    (hacc : acc ≠ .false) (hts : Verdicts db cols row ps ts) (h : evalAnd db cols row ps acc = .ok v) :
    v = Kleene.and acc (all ts) := by
  rw [evalAnd_eq_loop] at h
  exact conj.loop_fold hacc hts h

lemma evalOr_verdict {ts : List Tri} {acc : Tri}
    (hacc : acc ≠ .true) (hts : Verdicts db cols row ps ts) (h : evalOr db cols row ps acc = .ok v) :
    v = Kleene.or acc (any ts) := by
  rw [evalOr_eq_loop] at h
  exact disj.loop_fold hacc hts h

lemma verdicts_map {g : Predicate → Tri}
    (h : ∀ p ∈ ps, ∀ v, evalPredicate db cols row p = .ok v → g p = v) : Verdicts db cols row ps (ps.map g) := by
  rw [Verdicts, List.forall₂_map_right_iff, List.forall₂_same]
  exact h

/-- A value the interpreter gives is the predicate's truth value. -/
theorem evalPredicate_truth {p : Predicate}
    (h : evalPredicate db cols row p = .ok v) : truth db (rowEnv cols row) p = v := by
  induction p using Predicate.ind generalizing cols row v with
  | nil => simpa [evalPredicate] using h
  | cond c =>
    rw [truth_cond]
    exact evalCondition_truth (by simpa [evalPredicate] using h)
  | and ps ih =>
    rw [evalPredicate] at h
    rw [truth_and, evalAnd_verdict (by simp) (verdicts_map fun p hp v hv => ih p hp hv) h, Kleene.true_and]
  | or ps ih =>
    rw [evalPredicate] at h
    rw [truth_or, evalOr_verdict (by simp) (verdicts_map fun p hp v hv => ih p hp hv) h, Kleene.false_or]
  | not p ih =>
    rw [evalPredicate] at h
    obtain ⟨w, hw, h⟩ := bind_eq_ok.mp h
    rw [truth_not, ih hw]
    simpa using h
  | ex r on p ih =>
    rw [evalPredicate] at h
    obtain ⟨inner, hinner, hmatch⟩ := bind_eq_ok.mp h
    obtain ⟨found, hfound, hv⟩ := bind_eq_ok.mp hmatch
    have hf := matching_eq_filter (fun candidate _ v hv => ih hv) hfound
    rw [pure_eq_ok, Except.ok.injEq] at hv
    rw [truth, ← hv, hf]
    unfold scan at hinner
    cases ht : db r.name with
    | none => simp [ht] at hinner
    | some t =>
      simp only [ht, Except.ok.injEq] at hinner
      subst hinner
      refine congrArg ofBool (Bool.eq_iff_iff.mpr ?_)
      simp [List.any_eq_true, List.filter_eq_nil_iff]

end SqlMcpServer.Interp
