import SqlMcpServer.Lib.GoStrings
import Mathlib.Data.List.TakeWhile
import Mathlib.Tactic

/-!
# Decimal texts

An optional sign, digits, an optional point and digits: the number such a text spells. The
text of an integer spells it.
-/

namespace GoDecimal

structure Parts where
  negative : Bool
  whole : List Char
  frac : List Char
  deriving DecidableEq, Repr

namespace Parts

def digits (p : Parts) : List Char := p.whole ++ p.frac

/-- The number the digits spell, the point left out. -/
def number (p : Parts) : Nat := Nat.ofDigitChars 10 p.digits 0

def numerator (p : Parts) : Int := if p.negative then -(p.number : Int) else p.number

def denominator (p : Parts) : Nat := 10 ^ p.frac.length

/-- At least one digit, and nothing else. -/
def Plain (p : Parts) : Prop := p.digits ≠ [] ∧ p.digits.all Char.isDigit = true

instance (p : Parts) : Decidable p.Plain := inferInstanceAs (Decidable (_ ∧ _))

lemma Plain.isDigit {p : Parts} (h : p.Plain) : ∀ c ∈ p.digits, c.isDigit := List.all_eq_true.mp h.2

def value (p : Parts) : Rat := mkRat p.numerator p.denominator

end Parts

def cutSign : List Char → Bool × List Char
  | '-' :: rest => (true, rest)
  | '+' :: rest => (false, rest)
  | cs => (false, cs)

def parts (text : String) : Parts :=
  let (negative, cs) := cutSign text.toList
  ⟨negative, GoStrings.cut '.' cs, GoStrings.after '.' cs⟩

def value (text : String) : Option Rat :=
  if (parts text).Plain then some (parts text).value else none

namespace Parts

lemma denominator_pos (p : Parts) : 0 < p.denominator := Nat.pow_pos (by decide)

lemma natAbs_numerator (p : Parts) : p.numerator.natAbs = p.number := by
  rw [numerator]
  split <;> simp

lemma num_value (p : Parts) : p.value.num =
    if p.negative then -((p.number / p.denominator.gcd p.number : Nat) : Int)
    else ((p.number / p.denominator.gcd p.number : Nat) : Int) := by
  have hdvd : ((p.denominator.gcd p.number : Nat) : Int) ∣ (p.number : Int) := by
    exact_mod_cast Nat.gcd_dvd_right _ _
  rw [value, Rat.num_mkRat, if_neg p.denominator_pos.ne', natAbs_numerator, numerator]
  cases p.negative with
  | false => simp
  | true => rw [if_pos rfl, if_pos rfl, Int.neg_ediv_of_dvd hdvd, ← Int.natCast_ediv]

lemma den_value (p : Parts) : p.value.den = p.denominator / p.denominator.gcd p.number := by
  rw [value, Rat.den_mkRat, if_neg p.denominator_pos.ne', natAbs_numerator]

end Parts

lemma ofDigitChars_lt {ds : List Char} {init k : Nat} (hds : ∀ c ∈ ds, c.isDigit) (hinit : init < 10 ^ k) :
    Nat.ofDigitChars 10 ds init < 10 ^ (k + ds.length) := by
  induction ds generalizing init k with
  | nil => simpa using hinit
  | cons c ds ih =>
    rw [List.forall_mem_cons] at hds
    have hdigit := Char.isDigit_iff_toNat.mp hds.1
    have hstep : 10 * init + (c.toNat - '0'.toNat) < 10 ^ (k + 1) := by
      rw [pow_succ]
      simp only [Char.reduceToNat] at hdigit ⊢
      omega
    rw [Nat.ofDigitChars_cons, List.length_cons, ← Nat.add_assoc, Nat.add_right_comm]
    exact ih hds.2 hstep

lemma cutSign_digits {cs : List Char} (h : ∀ c ∈ cs, c.isDigit) : cutSign cs = (false, cs) := by
  unfold cutSign
  split
  · exact absurd (h '-' (by simp)) (by decide)
  · exact absurd (h '+' (by simp)) (by decide)
  · rfl

lemma cut_digits {cs : List Char} (h : ∀ c ∈ cs, c.isDigit) : GoStrings.cut '.' cs = cs ∧ GoStrings.after '.' cs = [] := by
  have hpoint : '.' ∉ cs := fun hmem => absurd (h '.' hmem) (by decide)
  constructor
  · apply List.takeWhile_eq_self_iff.mpr
    intro c hc
    rw [decide_eq_true_eq]
    rintro rfl
    exact hpoint hc
  · rw [GoStrings.after, GoStrings.dropWhile_eq_nil.mpr hpoint]
    rfl

lemma plain_toString_nat (negative : Bool) (n : Nat) :
    let p : Parts := ⟨negative, (toString n).toList, []⟩
    p.Plain ∧ p.value = if negative then -(n : Rat) else n := by
  intro p
  have hdigits : p.digits = Nat.toDigits 10 n := by
    show (toString n).toList ++ [] = _
    rw [List.append_nil, Nat.toString_eq_ofList_toDigits, String.toList_ofList]
  have hnumber : p.number = n := by rw [Parts.number, hdigits, Nat.ofDigitChars_ten_toDigits]
  constructor
  · constructor
    · rw [hdigits]
      exact Nat.toDigits_ne_nil
    · rw [hdigits, List.all_eq_true]
      intro c hc
      exact Nat.isDigit_of_mem_toDigits (by decide) (by decide) hc
  · show mkRat p.numerator 1 = _
    rw [Rat.mkRat_one, Parts.numerator, hnumber]
    cases negative <;> simp [p]

lemma value_toString_int (a : Int) : value (toString a) = some (a : Rat) := by
  have hdigits : ∀ n : Nat, ∀ c ∈ (toString n).toList, c.isDigit := fun n c => GoStrings.isDigit_of_mem_toString
  rw [GoStrings.toString_int]
  by_cases ha : 0 ≤ a
  · rw [if_pos ha]
    have hparts : parts (toString a.toNat) = ⟨false, (toString a.toNat).toList, []⟩ := by
      rw [parts, cutSign_digits (hdigits _)]
      simp only [cut_digits (hdigits a.toNat)]
    obtain ⟨hplain, hvalue⟩ := plain_toString_nat false a.toNat
    rw [value, hparts, if_pos hplain, hvalue]
    have hcast : ((a.toNat : Int) : Rat) = a := by rw [Int.toNat_of_nonneg ha]
    rw [← hcast, Int.cast_natCast]
    rfl
  · rw [if_neg ha]
    have hparts : parts ("-" ++ toString (-a).toNat) = ⟨true, (toString (-a).toNat).toList, []⟩ := by
      have hcut : cutSign ("-" ++ toString (-a).toNat).toList = (true, (toString (-a).toNat).toList) := by
        rw [String.toList_append]
        rfl
      rw [parts, hcut]
      simp only [cut_digits (hdigits (-a).toNat)]
    obtain ⟨hplain, hvalue⟩ := plain_toString_nat true (-a).toNat
    rw [value, hparts, if_pos hplain, hvalue]
    have hcast : (((-a).toNat : Int) : Rat) = ((-a : Int) : Rat) := by rw [Int.toNat_of_nonneg (by omega)]
    simp only [Int.cast_natCast] at hcast
    simp [hcast]

end GoDecimal
