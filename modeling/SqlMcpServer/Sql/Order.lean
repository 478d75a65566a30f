import SqlMcpServer.Relalg.Operators
import SqlMcpServer.Sql.Semantics

namespace SqlMcpServer.Sql
open Relalg Interp

lemma cmp_toLex {α β : Type} [LinearOrder α] [LinearOrder β] (a c : α) (b d : β) :
    cmp (toLex (a, b)) (toLex (c, d)) = (cmp a c).then (cmp b d) := by
  rcases lt_trichotomy a c with h | rfl | h
  · rw [(cmp_eq_lt_iff a c).mpr h, (cmp_eq_lt_iff _ _).mpr (Prod.Lex.toLex_lt_toLex.mpr (.inl h))]
    rfl
  · rw [cmp_self_eq_eq, Ordering.eq_then]
    rcases lt_trichotomy b d with h | rfl | h
    · rw [(cmp_eq_lt_iff b d).mpr h, cmp_eq_lt_iff, Prod.Lex.toLex_lt_toLex]
      exact .inr ⟨rfl, h⟩
    · rw [cmp_self_eq_eq, cmp_self_eq_eq]
    · rw [(cmp_eq_gt_iff b d).mpr h, cmp_eq_gt_iff, Prod.Lex.toLex_lt_toLex]
      exact .inr ⟨rfl, h⟩
  · rw [(cmp_eq_gt_iff a c).mpr h, (cmp_eq_gt_iff _ _).mpr (Prod.Lex.toLex_lt_toLex.mpr (.inl h))]
    rfl

lemma OrderItem.compare_eq_cmp (nullsLow : Bool) (i : OrderItem) :
    ∃ (τ : Type) (_ : LinearOrder τ) (f : Value → τ), ∀ x y, i.compare nullsLow x y = cmp (f x) (f y) := by
  match i with
  | .nullCase _ => exact ⟨_, inferInstance, place, fun _ _ => rfl⟩
  | .term _ false nullsLast =>
    refine ⟨ℕ ×ₗ ℕ ×ₗ ℚ ×ₗ String ×ₗ Bool, inferInstance,
      fun x => toLex (nullPlace nullsLow false nullsLast x, place x), fun x y => ?_⟩
    rw [cmp_toLex]
    rfl
  | .term _ true nullsLast =>
    refine ⟨ℕ ×ₗ (ℕ ×ₗ ℚ ×ₗ String ×ₗ Bool)ᵒᵈ, inferInstance,
      fun x => toLex (nullPlace nullsLow true nullsLast x, OrderDual.toDual (place x)), fun x y => ?_⟩
    rw [cmp_toLex]
    exact congrArg (fun o => (cmp (nullPlace nullsLow true nullsLast x) (nullPlace nullsLow true nullsLast y)).then o)
      (cmp_toDual (place x) (place y)).symm

lemma cmp_place {x y : Value} {o : Ordering} (h : compareValues x y = .ok o) : cmp (place x) (place y) = o := by
  cases x <;> cases y <;> cases h
  · rw [place, place, cmp_toLex, cmp_toLex, cmp_self_eq_eq, Ordering.eq_then, cmp_self_eq_eq, Ordering.then_eq]
  · rw [place, place, cmp_toLex, cmp_toLex, cmp_toLex, cmp_self_eq_eq, Ordering.eq_then, cmp_self_eq_eq,
      Ordering.eq_then, cmp_self_eq_eq, Ordering.then_eq]
  · rw [place, place, cmp_toLex, cmp_toLex, cmp_toLex, cmp_self_eq_eq, Ordering.eq_then, cmp_self_eq_eq,
      Ordering.eq_then, cmp_self_eq_eq, Ordering.eq_then]

end SqlMcpServer.Sql
