import Mathlib.Logic.Function.Basic
import SqlMcpServer.Rbac
import SqlMcpServer.Relalg.Truth

namespace SqlMcpServer.Rbac

open Function (update update_of_ne)
open Relalg Interp Except
open Kleene (Tri Refines)

lemma evalOp_null {left v : Value} {c : Condition} {x y : Tri} (hx : evalOp left { c with value := .null } = .ok x)
    (hy : evalOp left { c with value := v } = .ok y) : Refines x y := by
  unfold evalOp at hx hy
  cases hop : c.op <;> simp only [hop] at hx hy
  case isNull | isNotNull => exact .inr (ok.inj (hx.symm.trans hy))
  case isIn | notIn => cases hx
  all_goals
    left
    cases left <;> cases hx <;> rfl

lemma evalOp_list {left : Value} {c : Condition} {xs ys : List Value} {x y : Tri}
    (hin : ∀ x y, evalIn left (.list xs) = .ok x → evalIn left (.list ys) = .ok y → Refines x y)
    (hx : evalOp left { c with value := .list xs } = .ok x) (hy : evalOp left { c with value := .list ys } = .ok y) :
    Refines x y := by
  unfold evalOp at hx hy
  cases hop : c.op <;> simp only [hop] at hx hy
  case isNull | isNotNull => exact .inr (ok.inj (hx.symm.trans hy))
  case isIn => exact hin x y hx hy
  case notIn =>
    obtain ⟨x', hx', hx⟩ := bind_eq_ok.mp hx
    obtain ⟨y', hy', hy⟩ := bind_eq_ok.mp hy
    obtain rfl := ok.inj hx
    obtain rfl := ok.inj hy
    exact (hin x' y' hx' hy').not
  all_goals
    left
    cases left <;> cases hx
    rfl

lemma resolveCondition_field (subject : Subject) (c : Condition) : (resolveCondition subject c).field = c.field := by
  unfold resolveCondition
  split
  · split <;> rfl
  · rfl
  · rfl

section
variable {subject : Subject} {a : String} (hmissing : subject a = .null) (v : Value)
include hmissing

/-- An item of an IN list that names the attribute compares UNKNOWN without it; any other is
the same list either way. -/
lemma resolveItem_update (item : Value) : resolveItem subject item = [.null] ∨
    resolveItem (update subject a v) item = resolveItem subject item := by
  cases item with
  | str s =>
    cases hs : subjectPlaceholder s with
    | none => exact .inr (by simp only [resolveItem, hs])
    | some attr =>
      by_cases hattr : attr = a
      · exact .inl (by simp only [resolveItem, hs, hattr, hmissing])
      · exact .inr (by simp only [resolveItem, hs, update_of_ne hattr])
  | null | num _ | bool _ | jsonNum _ | list _ | other _ => exact .inr rfl

lemma evalIn_update {left : Value} {items : List Value} {x y : Tri}
    (hx : evalIn left (.list (resolveSubjectList items subject)) = .ok x)
    (hy : evalIn left (.list (resolveSubjectList items (update subject a v))) = .ok y) : Refines x y := by
  rw [evalIn, evalInList_eq_loop, resolveSubjectList, Kleene.disj.loop_flatMap _ _ _ (by decide)] at hx hy
  refine Kleene.disj.loop_refines ?_ (.refl _) hx hy
  intro item _ x y hx hy
  rcases resolveItem_update hmissing v item with hnull | hsame
  · rw [hnull] at hx
    have hcompare : evalComparison left .eq .null = .ok x := Kleene.disj.loop_singleton hx
    left
    cases left <;> cases hcompare <;> rfl
  · rw [hsame, hx] at hy
    exact .inr (ok.inj hy)

lemma evalOp_update {left : Value} {c : Condition} {x y : Tri}
    (hx : evalOp left (resolveCondition subject c) = .ok x)
    (hy : evalOp left (resolveCondition (update subject a v) c) = .ok y) : Refines x y := by
  obtain ⟨field, op, value⟩ := c
  cases value with
  | str s =>
    cases hs : subjectPlaceholder s with
    | none =>
      simp only [resolveCondition, hs] at hx hy
      exact .inr (ok.inj (hx.symm.trans hy))
    | some attr =>
      simp only [resolveCondition, hs] at hx hy
      by_cases hattr : attr = a
      · subst hattr
        rw [hmissing] at hx
        exact evalOp_null (c := ⟨field, op, .null⟩) hx hy
      · rw [update_of_ne hattr] at hy
        exact .inr (ok.inj (hx.symm.trans hy))
  | list items =>
    exact evalOp_list (c := ⟨field, op, .null⟩) (fun x y => evalIn_update hmissing v) hx hy
  | null | num _ | bool _ | jsonNum _ | other _ => exact .inr (ok.inj (hx.symm.trans hy))

lemma resolveSubject_refines {db : DB} {cols : List String} {row : Row} {p : Predicate} {x y : Tri}
    (hx : evalPredicate db cols row (resolveSubject p subject) = .ok x)
    (hy : evalPredicate db cols row (resolveSubject p (update subject a v)) = .ok y) : Refines x y := by
  unfold resolveSubject at hx hy
  induction p using Predicate.ind generalizing x y with
  | nil | ex r on p => exact .inr (ok.inj (hx.symm.trans hy))
  | cond c =>
    simp only [mapConditions, evalPredicate] at hx hy
    obtain ⟨i, hi, hx⟩ := bind_eq_ok.mp hx
    obtain ⟨j, hj, hy⟩ := bind_eq_ok.mp hy
    rw [resolveCondition_field] at hi hj
    obtain rfl := ok.inj (hi.symm.trans hj)
    exact evalOp_update hmissing v hx hy
  | and ps ih =>
    simp only [mapConditions, mapAll_eq_map, evalPredicate, evalAnd_eq_loop, Kleene.Connective.loop_map] at hx hy
    exact Kleene.conj.loop_refines (fun p hp x y => ih p hp) (.refl _) hx hy
  | or ps ih =>
    simp only [mapConditions, mapAll_eq_map, evalPredicate, evalOr_eq_loop, Kleene.Connective.loop_map] at hx hy
    exact Kleene.disj.loop_refines (fun p hp x y => ih p hp) (.refl _) hx hy
  | not p ih =>
    simp only [mapConditions, evalPredicate] at hx hy
    obtain ⟨x', hx', hx⟩ := bind_eq_ok.mp hx
    obtain ⟨y', hy', hy⟩ := bind_eq_ok.mp hy
    obtain rfl := ok.inj hx
    obtain rfl := ok.inj hy
    exact (ih hx' hy').not

/-- A row let through without an attribute is let through with any value of it. -/
theorem missing_attribute_fails_closed {db : DB} {cols : List String} {row : Row} {p : Predicate} {verdict : Tri}
    (hwithout : evalPredicate db cols row (resolveSubject p subject) = .ok .true)
    (hwith : evalPredicate db cols row (resolveSubject p (update subject a v)) = .ok verdict) :
    verdict = .true :=
  (resolveSubject_refines hmissing v hwithout hwith).eq_true rfl

end

def publicOrRegion : Predicate :=
  .or [.cond ⟨"public", .eq, .bool true⟩, .cond ⟨"region", .isIn, .list [.str "$\x7bsubject.regions\x7d"]⟩]

theorem missing_attribute_fails_closed_public :
    ∃ verdict, evalPredicate emptyDB ["public", "region"] [.bool true, .str "eu"]
      (resolveSubject publicOrRegion (update (fun _ => .null) "regions" (.list [.str "us"]))) = .ok verdict ∧
        verdict = .true :=
  ⟨_, rfl, missing_attribute_fails_closed (a := "regions") rfl (.list [.str "us"])
    (show evalPredicate emptyDB ["public", "region"] [.bool true, .str "eu"]
      (resolveSubject publicOrRegion fun _ => .null) = .ok .true from rfl) rfl⟩

end SqlMcpServer.Rbac
