import SqlMcpServer.Cost.Soundness
import SqlMcpServer.Sql.Like

/-!
# What a compiled write matches

For SQL the WHERE of a compiled UPDATE or DELETE is TRUE of the rows on which the interpreter finds
its predicate TRUE.
-/

namespace SqlMcpServer.Cost

open Except (bind_eq_ok)
open Relalg Interp Sql Statement Kleene
open Codegen (Names Writes predTruths_eq_map)

lemma comparison_eq {x y : Value} {op : Op} {v : Tri} (h : evalComparison x op y = .ok v) : comparison op x y = v := by
  cases x <;> cases y <;> cases op <;> cases h <;> rfl

lemma evalIn_any {x value : Value} {v : Tri} (h : evalIn x value = .ok v) :
    ∃ vs, value = .list vs ∧ any (vs.map (comparison .eq x)) = v := by
  cases value <;> simp only [evalIn, reduceCtorEq] at h
  rename_i vs
  rw [evalInList_eq_loop] at h
  refine ⟨vs, rfl, ?_⟩
  have hfold := disj.loop_fold (by decide)
    (List.forall₂_map_right_iff.mpr (List.forall₂_same.mpr fun y _ v hv => comparison_eq hv)) h
  exact (hfold.trans (disj.unit_op _)).symm

lemma test_eq {x : Value} {c : Condition} {v : Tri} (h : evalOp x c = .ok v) : test x c.op (operands c.op c.value) = v := by
  obtain ⟨field, op, value⟩ := c
  cases op with
  | isNull | isNotNull =>
    cases h
    cases x <;> rfl
  | isIn =>
    obtain ⟨vs, rfl, rfl⟩ := evalIn_any h
    rfl
  | notIn =>
    obtain ⟨w, hw, h⟩ := bind_eq_ok.mp h
    obtain ⟨vs, rfl, rfl⟩ := evalIn_any hw
    cases h
    rfl
  | like =>
    cases x <;> cases value <;> cases h <;> first | rfl | exact congrArg ofBool (likeMatch_eq_like _ _).symm
  | _ => exact comparison_eq h

lemma writes_truth {db : DB} {ns : Names} {args : List Value} {scope : String} {p : Predicate} {q : Pred}
    (h : Writes ns args scope p q) (hplain : hasExists p = false) {ρ : Denotation} {cols : List String} {row : Row}
    (hρ : ∀ name, ρ (ns.column scope name) = rowEnv cols row name) {v : Tri} (hv : evalPredicate db cols row p = .ok v) :
    q.truth db args ρ = v := by
  have hall : ∀ {ps : List Predicate} {qs : List Pred}, ps.length = qs.length →
      (∀ pq ∈ ps.zip qs, ∀ v, evalPredicate db cols row pq.1 = .ok v → pq.2.truth db args ρ = v) →
      Verdicts db cols row ps (qs.map fun q => q.truth db args ρ) := by
    intro ps qs hlen hzip
    rw [Verdicts, List.forall₂_map_right_iff, List.forall₂_iff_zip]
    exact ⟨hlen, fun {p q} hpq => hzip (p, q) hpq⟩
  induction h generalizing v with
  | nil =>
    rw [evalPredicate] at hv
    cases hv
    rw [Pred.truth]
  | cond hargs =>
    rw [evalPredicate] at hv
    obtain ⟨i, hi, hop⟩ := bind_eq_ok.mp hv
    rw [Pred.truth, hρ, rowEnv_of_colIndex row hi, hargs]
    exact test_eq hop
  | and hlen _ ih =>
    rw [hasExists, hasExistsList_eq_false] at hplain
    rw [evalPredicate] at hv
    rw [Pred.truth, predTruths_eq_map, evalAnd_verdict (by simp) (hall hlen fun pq hpq v hv =>
      ih pq hpq (hplain _ (List.of_mem_zip hpq).1) hρ hv) hv, Kleene.true_and]
  | or hlen _ ih =>
    rw [hasExists, hasExistsList_eq_false] at hplain
    rw [evalPredicate] at hv
    rw [Pred.truth, predTruths_eq_map, evalOr_verdict (by simp) (hall hlen fun pq hpq v hv =>
      ih pq hpq (hplain _ (List.of_mem_zip hpq).1) hρ hv) hv, Kleene.false_or]
  | not _ ih =>
    rw [hasExists] at hplain
    rw [evalPredicate] at hv
    obtain ⟨w, hw, h⟩ := bind_eq_ok.mp hv
    cases h
    rw [Pred.truth, ih hplain hρ hw]
  | exAll | ex => cases hplain

/-- The WHERE of the statement holds of the rows of a table the interpreter keeps by the predicate,
where it has a value on each row. -/
def MatchesKept (d : Dialect) (o : Options) (target : RelationRef) (p : Predicate) (text : String)
    (set : List (String × Value)) (c : Compiled) : Prop :=
  ∃ q, renderWhere o.maxINCardinality p (set.map Prod.snd) = .ok (q, c.args) ∧ c.sql = text ++ " WHERE " ++ q.text d ∧
    ∀ (db : DB) (tbl : Table) (kept : List Row), keepRows (fun row => evalPredicate db tbl.cols row p) tbl.rows = .ok kept →
      matchedRows db c.args target q tbl = kept

lemma matchesKept {d : Dialect} {o : Options} {target : RelationRef} {p : Predicate} {text : String}
    {set : List (String × Value)} {c : Compiled} {q : Pred} (hplain : hasExists p = false)
    (hwhere : renderWhere o.maxINCardinality p (set.map Prod.snd) = .ok (q, c.args))
    (hsql : c.sql = text ++ " WHERE " ++ q.text d) : MatchesKept d o target p text set c := by
  have hwrites := renderWhere_writes hwhere
  refine ⟨q, hwhere, hsql, fun db tbl kept hkept => ?_⟩
  rw [keepRows_eq_filter (fun row _ v hv => writes_truth hwrites hplain (denote_bare target tbl.cols row) hv) hkept]
  rfl

/-- A compiled UPDATE or DELETE writes the rows its predicate holds of. -/
theorem compiled_writes_match (d : Dialect) (returning : Bool) (o : Options) (n : Node) (c : Compiled)
    (hcompile : compile d returning o n = .ok c) (target : RelationRef) (p : Predicate) (hplain : hasExists p = false) :
    (∀ set, n = .update target p set → MatchesKept d o target p (updateText d target set) set c) ∧
      (n = .delete target p → MatchesKept d o target p (deleteText d target) [] c) := by
  constructor
  · rintro set rfl
    obtain ⟨-, q, hq, hsql⟩ := compile_update hcompile
    exact matchesKept hplain hq hsql
  · rintro rfl
    obtain ⟨-, q, hq, hsql⟩ := compile_delete hcompile
    exact matchesKept hplain hq hsql

/-- `NOT (status IN ('open', NULL))`, which no row is TRUE of. -/
def notOpen : Predicate := .not (.cond ⟨"status", .isIn, .list [.str "open", .null]⟩)

theorem compiled_writes_match_notOpen : hasExists notOpen = false ∧
    ∃ c, compile ansi true {} (.update orders notOpen [("total", .num 0)]) = .ok c ∧
      MatchesKept ansi {} orders notOpen (updateText ansi orders [("total", .num 0)])
        [("total", .num 0)] c := by
  obtain ⟨c, hc⟩ : ∃ c, compile ansi true {} (.update orders notOpen [("total", .num 0)]) = .ok c := ⟨_, rfl⟩
  exact ⟨rfl, c, hc, (compiled_writes_match ansi true {} _ c hc orders notOpen rfl).1 _ rfl⟩

end SqlMcpServer.Cost
