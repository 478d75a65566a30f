import Mathlib.Tactic

/-!
# Machine integers

What an int64 operation leaves of its exact result. Sums taken step by step are the exact
sum, taken once.
-/

namespace GoInt

/-- What an int64 operation leaves of its exact result. -/
def int64 (x : Int) : Int := x.bmod (2 ^ 64)

/-- An operation that keeps every result int64 can hold. -/
def KeepsInt64 (wrap : Int → Int) : Prop := ∀ x : Int, -2 ^ 63 ≤ x → x < 2 ^ 63 → wrap x = x

lemma keepsInt64_int64 : KeepsInt64 int64 := by
  intro x hlow hhigh
  rw [int64]
  apply Int.bmod_eq_of_le <;> omega

lemma int64_range (x : Int) : -2 ^ 63 ≤ int64 x ∧ int64 x < 2 ^ 63 := by
  have hlow := @Int.le_bmod x (2 ^ 64) (by decide)
  have hhigh := @Int.bmod_lt x (2 ^ 64) (by decide)
  rw [int64]
  omega

lemma int64_add (x y : Int) : int64 (int64 x + y) = int64 (x + y) := Int.bmod_add_bmod

lemma int64_sub (x y : Int) : int64 (int64 x - y) = int64 (x - y) := Int.bmod_sub_bmod

lemma int64_le {x : Int} (h : 0 ≤ x) : int64 x ≤ x := by
  obtain ⟨k, hk⟩ := Int.dvd_bmod_sub_self (x := x) (m := 2 ^ 64)
  have hrange := int64_range x
  rw [← int64] at hk
  norm_num at hk hrange
  omega

end GoInt
